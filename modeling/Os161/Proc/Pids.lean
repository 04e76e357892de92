import Os161.Proc.Table

/-!
# Pids

A pid is chosen under `lk_allproc`, but its slot stays empty until the process is stored, and a
second `proc_create` can choose it meanwhile. As long as no `proc_alloc_pid` meets such a slot first,
every live process sits alone at its own slot.
-/

namespace Os161.ProcTable

variable {Id Thread : Type}

/-- The slot that a `proc_create` in flight has picked. -/
def Pc.slot : Pc Id → Option (Fin 32)
  | .picked i | .building i _ _ | .failing i => some i
  | _ => none

def Picked (s : State Id Thread) (i : Fin 32) : Prop := ∃ u, (s.pc u).slot = some i

/-- `proc_alloc_pid` is entered only where its scan comes to an empty slot that no `proc_create` in
flight has picked before it comes to one that is picked. -/
def PicksApart (s : State Id Thread) : Action Id Thread → Prop
  | .create _ => ∀ i, s.kernel.pTable i = none → Picked s i →
      ∃ j, s.kernel.pTable j = none ∧ ¬ Picked s j ∧ s.kernel.scanPos j < s.kernel.scanPos i
  | _ => True

structure Slots (s : State Id Thread) : Prop where
  empty : ∀ u i, (s.pc u).slot = some i → s.kernel.pTable i = none
  single : ∀ u v i, (s.pc u).slot = some i → (s.pc v).slot = some i → u = v
  live : ∀ p proc, s.status p = .live → s.kernel.heap p = some proc →
    s.kernel.pTable proc.pPid = some p
  dying : ∀ u p i stage, s.pc u = .destroying p i stage → s.kernel.pTable i = some p

variable {s : State Id Thread} {u : Thread}

theorem start_slots : Slots (start : State Id Thread) :=
  ⟨by simp [start, Pc.slot], by simp [start, Pc.slot], by simp [start], by simp [start]⟩

variable [DecidableEq Id] [DecidableEq Thread]

omit [DecidableEq Id] in
/-- A step that picks no slot and leaves the table. -/
theorem Slots.moves (h : Slots s) {kernel : Kernel Id Thread Nat} {pc : Pc Id}
    {status : Id → Status Thread} (slot : pc.slot = none ∨ pc.slot = (s.pc u).slot)
    (table : kernel.pTable = s.kernel.pTable)
    (live : ∀ p proc, status p = .live → kernel.heap p = some proc → s.status p = .live ∧
      ∃ old, s.kernel.heap p = some old ∧ old.pPid = proc.pPid)
    (destroying : ∀ p i stage, pc = .destroying p i stage → s.kernel.pTable i = some p) :
    Slots ⟨kernel, Function.update s.pc u pc, status⟩ := by
  have slots : ∀ v i, (Function.update s.pc u pc v).slot = some i → (s.pc v).slot = some i := by
    intro v i picked
    by_cases same : v = u
    · rw [same, Function.update_self] at picked
      rcases slot with none | kept
      · rw [none] at picked
        cases picked
      · rw [same, ← kept]
        exact picked
    · rwa [Function.update_of_ne same] at picked
  refine ⟨fun v i picked => ?_, fun v w i first second => ?_, fun p proc isLive found => ?_,
    fun v p i stage place => ?_⟩
  · dsimp only
    rw [table]
    exact h.empty v i (slots v i picked)
  · exact h.single v w i (slots v i first) (slots w i second)
  · obtain ⟨was, old, foundOld, pid⟩ := live p proc isLive found
    dsimp only
    rw [table, ← pid]
    exact h.live p old was foundOld
  · dsimp only at place ⊢
    rw [table]
    by_cases same : v = u
    · rw [same, Function.update_self] at place
      exact destroying p i stage place
    · rw [Function.update_of_ne same] at place
      exact h.dying v p i stage place

omit [DecidableEq Id] in
theorem Slots.stays (h : Slots s) {kernel : Kernel Id Thread Nat} {pc : Pc Id}
    (slot : pc.slot = none ∨ pc.slot = (s.pc u).slot) (alike : s.kernel.Alike kernel)
    (pcs : ∀ p i stage, pc ≠ .destroying p i stage) (base : Base s) : Slots (s.to u kernel pc) := by
  refine h.moves slot alike.table (fun p proc isLive found => ⟨isLive, ?_⟩)
    (fun p i stage same => (pcs p i stage same).elim)
  obtain ⟨old, foundOld, _⟩ := base.live p isLive
  obtain ⟨new, foundNew, alikes⟩ := alike.heap p old foundOld
  obtain rfl : new = proc := Option.some.inj (foundNew.symm.trans found)
  exact ⟨old, foundOld, alikes.pid.symm⟩

theorem create_slots (h : Slots s) (base : Base s) (apart : PicksApart s (.create u)) :
    (create s u).Ensures Slots := by
  refine Outcome.ensures_bind.mpr (Outcome.ensures_await.mpr fun idle => ?_)
  refine Outcome.ensures_bind.mpr (Kernel.procAllocPid_ensures.mono fun ⟨result, kernel⟩ spec => ?_)
  obtain ⟨⟨n, rfl⟩, first⟩ := spec
  cases result with
  | error err =>
    exact Outcome.ensures_pure.mpr (h.stays (Or.inl rfl) (.of_heap rfl rfl) (by simp) base)
  | ok i =>
    obtain ⟨free, least⟩ := first i rfl
    have fresh : ∀ v, (s.pc v).slot ≠ some i := by
      intro v picked
      obtain ⟨j, freeJ, _, before⟩ := apart i free ⟨v, picked⟩
      have after := least j freeJ
      omega
    refine Outcome.ensures_pure.mpr ⟨fun v j picked => ?_, fun v w j vPicked wPicked => ?_,
      fun p proc isLive found => h.live p proc isLive found, fun v p j stage place => ?_⟩
    · dsimp only [State.to] at picked ⊢
      by_cases same : v = u
      · rw [same, Function.update_self] at picked
        obtain rfl := Option.some.inj picked
        exact free
      · rw [Function.update_of_ne same] at picked
        exact h.empty v j picked
    · dsimp only [State.to] at vPicked wPicked
      by_cases vSame : v = u
      · by_cases wSame : w = u
        · rw [vSame, wSame]
        · rw [vSame, Function.update_self] at vPicked
          rw [Function.update_of_ne wSame] at wPicked
          obtain rfl := Option.some.inj vPicked
          exact (fresh w wPicked).elim
      · rw [Function.update_of_ne vSame] at vPicked
        by_cases wSame : w = u
        · rw [wSame, Function.update_self] at wPicked
          obtain rfl := Option.some.inj wPicked
          exact (fresh v vPicked).elim
        · rw [Function.update_of_ne wSame] at wPicked
          exact h.single v w j vPicked wPicked
    · dsimp only [State.to] at place ⊢
      by_cases same : v = u
      · rw [same, Function.update_self] at place
        cases place
      · rw [Function.update_of_ne same] at place
        exact h.dying v p j stage place

/-- A step of a thread on a process that is not live afterwards. -/
theorem Slots.works (h : Slots s) {p : Id} {kernel : Kernel Id Thread Nat} {pc : Pc Id}
    {status : Status Thread} (slot : pc.slot = none ∨ pc.slot = (s.pc u).slot)
    (table : kernel.pTable = s.kernel.pTable)
    (others : ∀ q, q ≠ p → kernel.heap q = s.kernel.heap q) (notLive : status ≠ .live)
    (destroying : ∀ q i stage, pc = .destroying q i stage → s.kernel.pTable i = some q) :
    Slots ((s.to u kernel pc).mark p status) := by
  refine h.moves slot table (fun q proc isLive found => ?_) destroying
  dsimp only [State.to] at isLive found
  have other : q ≠ p := by
    rintro rfl
    rw [Function.update_self] at isLive
    exact notLive isLive
  rw [Function.update_of_ne other] at isLive
  rw [others q other] at found
  exact ⟨isLive, proc, found, rfl⟩

theorem kmalloc_slots (h : Slots s) {p : Id} : (kmalloc s u p).Ensures Slots := by
  unfold kmalloc
  split
  · rename_i pid place
    refine Outcome.ensures_bind.mpr (Outcome.ensures_await.mpr fun unused => ?_)
    exact Outcome.ensures_pure.mpr (h.works (Or.inr (by rw [place]; rfl)) rfl
      (fun q other => Function.update_of_ne other _ _) (by simp) (by simp))
  · exact Outcome.ensures_blocked

theorem fail_slots (h : Slots s) (base : Base s) : (fail s u).Ensures Slots := by
  have updated : ∀ (p q : Id) (new : Option (Proc Id Thread Nat)) (heap : Id → Option (Proc Id Thread Nat)),
      q ≠ p → Function.update heap p new q = heap q :=
    fun _ _ _ _ other => Function.update_of_ne other _ _
  unfold fail
  split
  · rename_i pid place
    exact Outcome.ensures_done.mpr (h.stays (Or.inr (by rw [place]; rfl)) (.of_heap rfl rfl)
      (by simp) base)
  · rename_i pid p place
    refine Outcome.ensures_bind.mpr (Kernel.free_ensures.mpr fun _ _ => ?_)
    exact Outcome.ensures_pure.mpr (h.works (Or.inr (by rw [place]; rfl)) rfl
      (fun q other => updated p q _ _ other) (by simp) (by simp))
  · rename_i pid p place
    refine Outcome.ensures_bind.mpr (Kernel.update_ensures.mpr fun _ _ => fun _ _ => ?_)
    refine Outcome.ensures_bind.mpr (Kernel.free_ensures.mpr fun _ _ => ?_)
    refine Outcome.ensures_pure.mpr (h.works (Or.inr (by rw [place]; rfl)) rfl ?_ (by simp) (by simp))
    exact fun q other => (updated p q _ _ other).trans (updated p q _ _ other)
  · rename_i pid p place
    refine Outcome.ensures_bind.mpr (Kernel.update_ensures.mpr fun _ _ => fun _ _ => ?_)
    refine Outcome.ensures_bind.mpr (Kernel.update_ensures.mpr fun _ _ => fun _ _ => ?_)
    refine Outcome.ensures_bind.mpr (Kernel.free_ensures.mpr fun _ _ => ?_)
    refine Outcome.ensures_pure.mpr (h.works (Or.inr (by rw [place]; rfl)) rfl ?_ (by simp) (by simp))
    exact fun q other =>
      (updated p q _ _ other).trans ((updated p q _ _ other).trans (updated p q _ _ other))
  · exact Outcome.ensures_blocked

theorem destroy_slots (h : Slots s) {p : Id} : (destroy s u p).Ensures Slots := by
  refine Outcome.ensures_bind.mpr (Outcome.ensures_await.mpr fun ⟨_, isLive⟩ => ?_)
  refine Outcome.ensures_bind.mpr (Outcome.ensures_deref.mpr fun proc found => ?_)
  refine Outcome.ensures_pure.mpr (h.works (Or.inl rfl) rfl (fun _ _ => rfl) (by simp) ?_)
  intro q i stage same
  obtain ⟨rfl, rfl, _⟩ := Pc.destroying.inj same
  exact h.live p proc isLive found

theorem get_slots (h : Slots s) (base : Base s) {pid : Int} : (get s u pid).Ensures Slots := by
  refine Outcome.ensures_bind.mpr (Outcome.ensures_await.mpr fun _ => ?_)
  split
  · exact Outcome.ensures_pure.mpr (h.stays (Or.inl rfl) (.of_heap rfl rfl) (by simp) base)
  · exact Outcome.ensures_pure.mpr h

/-- The store fills an empty slot. -/
theorem Slots.stores (h : Slots s) (base : Base s) {p : Id} {pid : Fin 32}
    (place : s.pc u = .building pid p .store) :
    Slots ((s.to u { s.kernel with pTable := Function.update s.kernel.pTable pid (some p) } .idle).mark
      p .live) := by
  have picked : (s.pc u).slot = some pid := by rw [place]; rfl
  have empty := h.empty u pid picked
  have later : ∀ v, v ≠ u → Function.update s.pc u .idle v = s.pc v :=
    fun v other => Function.update_of_ne other _ _
  have filled : ∀ i q, s.kernel.pTable i = some q →
      Function.update s.kernel.pTable pid (some p) i = some q := by
    intro i q named
    have other : i ≠ pid := by
      rintro rfl
      rw [empty] at named
      cases named
    rwa [Function.update_of_ne other]
  refine ⟨fun v i vPicked => ?_, fun v w i vPicked wPicked => ?_, fun q proc isLive found => ?_,
    fun v q i stage vPlace => ?_⟩ <;> dsimp only [State.mark, State.to] at *
  · have other : v ≠ u := by
      rintro rfl
      rw [Function.update_self] at vPicked
      cases vPicked
    rw [later v other] at vPicked
    have different : i ≠ pid := by
      rintro rfl
      exact other (h.single v u i vPicked picked)
    rw [Function.update_of_ne different]
    exact h.empty v i vPicked
  · by_cases vSame : v = u
    · rw [vSame, Function.update_self] at vPicked
      cases vPicked
    · by_cases wSame : w = u
      · rw [wSame, Function.update_self] at wPicked
        cases wPicked
      · rw [later v vSame] at vPicked
        rw [later w wSame] at wPicked
        exact h.single v w i vPicked wPicked
  · by_cases same : q = p
    · subst same
      obtain ⟨_, built, foundBuilt, pid', _⟩ := base.building u pid q .store place
      obtain rfl : built = proc := Option.some.inj (foundBuilt.symm.trans found)
      rw [pid', Function.update_self]
    · rw [Function.update_of_ne same] at isLive
      exact filled _ _ (h.live q proc isLive found)
  · have other : v ≠ u := by
      rintro rfl
      rw [Function.update_self] at vPlace
      cases vPlace
    rw [later v other] at vPlace
    exact filled i q (h.dying v q i stage vPlace)

/-- The last step of `proc_destroy` empties the slot of its own process. -/
theorem Slots.tears (h : Slots s) (base : Base s) {p : Id} {pid : Fin 32} {stage : Stage}
    {kernel : Kernel Id Thread Nat} (place : s.pc u = .destroying p pid stage)
    (others : ∀ q, q ≠ p → kernel.heap q = s.kernel.heap q)
    (table : kernel.pTable =
      if stage = .pid then Function.update s.kernel.pTable pid none else s.kernel.pTable) :
    match stage.next with
    | some stage => Slots (s.to u kernel (.destroying p pid stage))
    | none => Slots ((s.to u kernel .idle).mark p .gone) := by
  have named := h.dying u p pid stage place
  have dying := base.destroying u p pid stage place
  have before : stage ≠ .pid → ∀ next, Slots (s.to u kernel (.destroying p pid next)) := by
    intro early next
    rw [if_neg early] at table
    rw [← mark_self (p := p)]
    refine h.works (Or.inl rfl) table others (by simp [dying]) ?_
    intro q i stage' same
    obtain ⟨rfl, rfl, _⟩ := Pc.destroying.inj same
    exact named
  cases stage with
  | sem => exact before (by simp) .lock
  | lock => exact before (by simp) .fd
  | fd => exact before (by simp) .free
  | free => exact before (by simp) .pid
  | pid =>
    rw [if_pos rfl] at table
    have later : ∀ v, v ≠ u → Function.update s.pc u .idle v = s.pc v :=
      fun v other => Function.update_of_ne other _ _
    -- an entry of another process is at another slot
    have kept : ∀ i q, q ≠ p → s.kernel.pTable i = some q →
        Function.update s.kernel.pTable pid none i = some q := by
      intro i q different namedQ
      have other : i ≠ pid := by
        rintro rfl
        rw [named] at namedQ
        exact different (Option.some.inj namedQ).symm
      rwa [Function.update_of_ne other]
    refine ⟨fun v i vPicked => ?_, fun v w i vPicked wPicked => ?_, fun q proc isLive found => ?_,
      fun v q i stage vPlace => ?_⟩ <;> dsimp only [State.mark, State.to] at *
    · have other : v ≠ u := by
        rintro rfl
        rw [Function.update_self] at vPicked
        cases vPicked
      rw [later v other] at vPicked
      rw [table]
      by_cases same : i = pid
      · rw [same, Function.update_self]
      · rw [Function.update_of_ne same]
        exact h.empty v i vPicked
    · by_cases vSame : v = u
      · rw [vSame, Function.update_self] at vPicked
        cases vPicked
      · by_cases wSame : w = u
        · rw [wSame, Function.update_self] at wPicked
          cases wPicked
        · rw [later v vSame] at vPicked
          rw [later w wSame] at wPicked
          exact h.single v w i vPicked wPicked
    · have different : q ≠ p := by
        rintro rfl
        rw [Function.update_self] at isLive
        cases isLive
      rw [Function.update_of_ne different] at isLive
      rw [others q different] at found
      rw [table]
      exact kept _ q different (h.live q proc isLive found)
    · have other : v ≠ u := by
        rintro rfl
        rw [Function.update_self] at vPlace
        cases vPlace
      rw [later v other] at vPlace
      have different : q ≠ p := by
        rintro rfl
        have dyingV := base.destroying v q i stage vPlace
        rw [dying] at dyingV
        exact other (Status.dying.inj dyingV).symm
      rw [table]
      exact kept i q different (h.dying v q i stage vPlace)

theorem goOn_slots (h : Slots s) (base : Base s) : (goOn s u).Ensures Slots := by
  -- an allocation of proc_create works on a process that is not live
  have builds : ∀ (p : Id) (pid : Fin 32) (part next : Part) (f : Proc Id Thread Nat → Proc Id Thread Nat),
      s.pc u = .building pid p part → (do
        let kernel ← s.kernel.update p fun proc => pure (f proc)
        return s.to u kernel (.building pid p next)).Ensures Slots := by
    intro p pid part next f place
    refine Outcome.ensures_bind.mpr (Kernel.update_ensures.mpr fun _ _ => ?_)
    refine Outcome.ensures_pure.mpr (Outcome.ensures_pure.mpr ?_)
    rw [← mark_self (p := p)]
    exact h.works (Or.inr (by rw [place]; rfl)) rfl (fun q other => Function.update_of_ne other _ _)
      (by rw [(base.building u pid p part place).1]; simp) (by simp)
  unfold goOn
  split
  · exact Outcome.ensures_blocked
  · exact Outcome.ensures_blocked
  · rename_i pid p place
    exact builds p pid .fd .lock (fun proc => { proc with pFd := some 0 }) place
  · rename_i pid p place
    exact builds p pid .lock .sem (fun proc => { proc with lock := some none }) place
  · rename_i pid p place
    exact builds p pid .sem .store (fun proc => { proc with pSem := some 0 }) place
  · rename_i pid p place
    refine Outcome.ensures_bind.mpr (Kernel.procAddToAllproc_ensures.mpr fun _ => ?_)
    exact Outcome.ensures_pure.mpr (h.stores base place)
  · rename_i pid place
    refine Outcome.ensures_bind.mpr (Kernel.procDeallocPid_ensures.mpr fun _ taken => ?_)
    exact (taken (h.empty u pid (by rw [place]; rfl))).elim
  · rename_i p pid stage place
    refine Outcome.ensures_bind.mpr (Kernel.procDestroyStep_ensures.mono fun kernel spec => ?_)
    have torn := h.tears base place spec.1 spec.2
    cases next : stage.next with
    | some stage' =>
      rw [next] at torn
      exact Outcome.ensures_pure.mpr torn
    | none =>
      rw [next] at torn
      exact Outcome.ensures_pure.mpr torn
  · rename_i pc place
    refine Outcome.ensures_bind.mpr (Kernel.procGetStep_alike.mono fun ⟨result, kernel⟩ alike => ?_)
    cases result with
    | more pc' => exact Outcome.ensures_pure.mpr (h.stays (Or.inl rfl) alike (by simp) base)
    | error err => exact Outcome.ensures_pure.mpr (h.stays (Or.inl rfl) alike (by simp) base)
    | found p => exact Outcome.ensures_pure.mpr (h.stays (Or.inl rfl) alike (by simp) base)
  · rename_i p place
    refine Outcome.ensures_bind.mpr (Kernel.lockRelease_alike.mono fun kernel alike => ?_)
    exact Outcome.ensures_pure.mpr (h.stays (Or.inl rfl) alike (by simp) base)

theorem reachable_slots (h : machine.ReachableBy PicksApart s) : Slots s := by
  have both : Base s ∧ Slots s := by
    refine Machine.invariant_ensures machine (P := fun s => Base s ∧ Slots s) (fun s initial => ?_)
      (fun s a ⟨base, slots⟩ apart => ?_) h
    · have same : s = start := initial
      exact same ▸ ⟨start_base, start_slots⟩
    · have kept : (step s a).Ensures Slots := by
        cases a with
        | create u => exact create_slots slots base apart
        | kmalloc u p => exact kmalloc_slots slots
        | fail u => exact fail_slots slots base
        | destroy u p => exact destroy_slots slots
        | get u pid => exact get_slots slots base
        | goOn u => exact goOn_slots slots base
      exact fun t ht => ⟨step_base base a t ht, kept t ht⟩
  exact both.2

/-- What the table promises: live processes have different pids, each is at the slot of its pid, and
no step takes one out of its slot. -/
structure Sound (s : State Id Thread) : Prop where
  distinct : ∀ p q proc proc', s.status p = .live → s.status q = .live →
    s.kernel.heap p = some proc → s.kernel.heap q = some proc' → proc.pPid = proc'.pPid → p = q
  inTable : ∀ p, s.status p = .live →
    ∃ proc, s.kernel.heap p = some proc ∧ s.kernel.pTable proc.pPid = some p
  keeps : ∀ a t, step s a = .done t → ∀ i p, s.kernel.pTable i = some p → s.status p = .live →
    t.kernel.pTable i = some p

theorem Slots.keeps (h : Slots s) (base : Base s) (a : Action Id Thread) :
    (step s a).Ensures fun t => ∀ i p, s.kernel.pTable i = some p → s.status p = .live →
      t.kernel.pTable i = some p := by
  refine (step_stores a).mono fun t stores i p named isLive => ?_
  cases stores with
  | nothing same => rwa [same]
  | fills u pid q place same =>
    have other : i ≠ pid := by
      rintro rfl
      have empty := h.empty u i (by rw [place]; rfl)
      rw [empty] at named
      cases named
    rwa [same, Function.update_of_ne other]
  | fails u pid place taken same =>
    exact (taken (h.empty u pid (by rw [place]; rfl))).elim
  | clears u q pid place same =>
    have other : i ≠ pid := by
      rintro rfl
      have own := h.dying u q i .pid place
      rw [named] at own
      obtain rfl := Option.some.inj own
      rw [base.destroying u p i .pid place] at isLive
      cases isLive
    rwa [same, Function.update_of_ne other]

/-- In every run whose `proc_alloc_pid`s pick apart, the table is sound. -/
theorem pids_sound (h : machine.ReachableBy PicksApart s) : Sound s where
  distinct p q proc proc' pLive qLive pFound qFound same := by
    have slots := reachable_slots h
    have first := slots.live p proc pLive pFound
    rw [same, slots.live q proc' qLive qFound] at first
    exact (Option.some.inj first).symm
  inTable p isLive := by
    obtain ⟨proc, found, _⟩ := (reachable_base h).live p isLive
    exact ⟨proc, found, (reachable_slots h).live p proc isLive found⟩
  keeps a t ht := (reachable_slots h).keeps (reachable_base h) a t ht

def notCreate (_ : State Id Thread) : Action Id Thread → Bool
  | .create _ => false
  | _ => true

omit [DecidableEq Id] [DecidableEq Thread] in
theorem notCreate_apart {a : Action Id Thread} (h : notCreate s a = true) : PicksApart s a := by
  cases a with
  | create u => cases h
  | _ => trivial

/-- Threads 0 and 1 create two processes at once, each at its own slot. -/
theorem pids_sound_two : ∃ s : State Nat (Fin 2), s.kernel.pTable 0 = some 0 ∧
    s.kernel.pTable 1 = some 1 ∧ s.status 0 = .live ∧ s.status 1 = .live ∧ Sound s := by
  have first : (@machine Nat (Fin 2) _ _).ReachableBy PicksApart _ :=
    .step (.create 0) (.initial rfl) (by
      intro i _ ⟨u, picked⟩
      cases picked) rfl
  have second : (@machine Nat (Fin 2) _ _).ReachableBy PicksApart _ :=
    .step (.create 1) first (by
      intro i _ ⟨u, picked⟩
      -- slot 0 is picked, and the scan comes to slot 1 first
      refine ⟨1, rfl, fun ⟨v, other⟩ => ?_, ?_⟩
      · revert other
        revert v
        decide
      · revert picked
        revert i u
        decide) rfl
  have reached := second.runIf notCreate [.kmalloc 0 0, .kmalloc 1 1, .goOn 0, .goOn 1,
    .goOn 0, .goOn 1, .goOn 0, .goOn 1, .goOn 1, .goOn 0] (fun _ _ => notCreate_apart) rfl
  exact ⟨_, rfl, rfl, rfl, rfl, pids_sound reached⟩

/-- A whole `proc_create` by thread 0. -/
def createAlone (p : Nat) : List (Action Nat (Fin 2)) :=
  [.create 0, .kmalloc 0 p, .goOn 0, .goOn 0, .goOn 0, .goOn 0]

/-- The table has one slot left, and threads 0 and 1 both pick it. -/
def clash : List (Action Nat (Fin 2)) :=
  (List.range 31).flatMap createAlone ++
    [.create 0, .create 1, .kmalloc 0 31, .kmalloc 1 32, .goOn 0, .goOn 0, .goOn 0, .goOn 0,
      .goOn 1, .goOn 1, .goOn 1, .goOn 1]

theorem pids_clash : ¬ ∀ s : State Nat (Fin 2), machine.Reachable s → Sound s := by
  intro sound
  have ran : (machine.run start clash).passes (fun t => decide (t.status 31 = .live ∧
      t.status 32 = .live ∧ (t.kernel.heap 31).map Proc.pPid = some 31 ∧
      (t.kernel.heap 32).map Proc.pPid = some 31)) = true := by
    decide +kernel
  obtain ⟨t, run, test⟩ := Outcome.passes_done ran
  obtain ⟨first, second, pid, pid'⟩ := of_decide_eq_true test
  obtain ⟨p, foundP, pidP⟩ := Option.map_eq_some_iff.mp pid
  obtain ⟨q, foundQ, pidQ⟩ := Option.map_eq_some_iff.mp pid'
  have reached := Machine.Reachable.run clash (.initial rfl) run
  have same := (sound t reached).distinct 31 32 p q first second foundP foundQ (pidP.trans pidQ.symm)
  cases same

end Os161.ProcTable
