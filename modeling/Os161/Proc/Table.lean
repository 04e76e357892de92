import Os161.Proc.Process

/-!
# The process table under concurrent calls

Any number of threads in `proc_create`, `proc_destroy` and `proc_get`, in any order of their steps.
`Status` is bookkeeping of the model: what has become of an identity, and which thread creates or
destroys the process.
-/

namespace Os161.ProcTable

variable {Id Thread : Type}

/-- What `proc_create` allocates next, or its last step. -/
inductive Part where
  | fd
  | lock
  | sem
  | store
  deriving DecidableEq

/-- Where a thread is. -/
inductive Pc (Id : Type) where
  | idle
  -- in proc_create: past proc_alloc_pid, past kmalloc, and on a failing path
  | picked (pid : Fin 32)
  | building (pid : Fin 32) (p : Id) (part : Part)
  | failing (pid : Fin 32)
  | destroying (p : Id) (pid : Fin 32) (stage : Stage)
  | getting (pc : GetPc Id)
  -- past proc_get, with the lock of the process
  | holding (p : Id)
  deriving DecidableEq

inductive Status (Thread : Type) where
  | unused
  | building (u : Thread)
  | live
  | dying (u : Thread)
  | gone
  deriving DecidableEq

structure State (Id Thread : Type) where
  kernel : Kernel Id Thread Nat
  pc : Thread → Pc Id
  status : Id → Status Thread

inductive Action (Id Thread : Type) where
  | create (u : Thread)
  | kmalloc (u : Thread) (p : Id)
  /-- The allocation at hand fails. -/
  | fail (u : Thread)
  | destroy (u : Thread) (p : Id)
  | get (u : Thread) (pid : Int)
  /-- The next step of the call that the thread is in. -/
  | goOn (u : Thread)

section Step

variable [DecidableEq Id] [DecidableEq Thread]

def State.to (s : State Id Thread) (u : Thread) (kernel : Kernel Id Thread Nat) (pc : Pc Id) :
    State Id Thread :=
  { s with kernel := kernel, pc := Function.update s.pc u pc }

def State.mark (s : State Id Thread) (p : Id) (status : Status Thread) : State Id Thread :=
  { s with status := Function.update s.status p status }

/-- `proc_create` up to its `proc_alloc_pid`. -/
def create (s : State Id Thread) (u : Thread) : Outcome (State Id Thread) := do
  Outcome.await (s.pc u = .idle)
  let (result, kernel) ← s.kernel.procAllocPid
  match result with
  | .ok pid => return s.to u kernel (.picked pid)
  | .error _ => return s.to u kernel .idle

/-- The `kmalloc` of `proc_create` and the `p_pid` that follows it. -/
def kmalloc (s : State Id Thread) (u : Thread) (p : Id) : Outcome (State Id Thread) :=
  match s.pc u with
  | .picked pid => do
    Outcome.await (s.status p = .unused)
    let heap := Function.update s.kernel.heap p (some ⟨pid, none, none, none, none, 0, false⟩)
    return (s.to u { s.kernel with heap := heap } (.building pid p .fd)).mark p (.building u)
  | _ => .blocked

/-- The failing paths of `proc_create`: what has been allocated is taken back. -/
def fail (s : State Id Thread) (u : Thread) : Outcome (State Id Thread) :=
  match s.pc u with
  | .picked pid => .done (s.to u s.kernel (.failing pid))
  | .building pid p .fd => do
    return (s.to u (← s.kernel.free p) (.failing pid)).mark p .gone
  | .building pid p .lock => do
    let kernel ← s.kernel.update p Proc.fdDestroy
    return (s.to u (← kernel.free p) (.failing pid)).mark p .gone
  | .building pid p .sem => do
    let kernel ← s.kernel.update p Proc.lockDestroy
    let kernel ← kernel.update p Proc.fdDestroy
    return (s.to u (← kernel.free p) (.failing pid)).mark p .gone
  | _ => .blocked

/-- `proc_destroy` up to the copy of the pid. -/
def destroy (s : State Id Thread) (u : Thread) (p : Id) : Outcome (State Id Thread) := do
  Outcome.await (s.pc u = .idle ∧ s.status p = .live)
  let proc ← Outcome.deref (s.kernel.heap p)
  return (s.to u s.kernel (.destroying p proc.pPid .sem)).mark p (.dying u)

def get (s : State Id Thread) (u : Thread) (pid : Int) : Outcome (State Id Thread) := do
  Outcome.await (s.pc u = .idle)
  match Kernel.procGetStart pid with
  | .ok pc => return s.to u s.kernel (.getting pc)
  | .error _ => return s

def goOn (s : State Id Thread) (u : Thread) : Outcome (State Id Thread) :=
  match s.pc u with
  | .idle | .picked _ => .blocked
  | .building pid p .fd => do
    let kernel ← s.kernel.update p fun proc => pure { proc with pFd := some 0 }
    return s.to u kernel (.building pid p .lock)
  | .building pid p .lock => do
    let kernel ← s.kernel.update p fun proc => pure { proc with lock := some none }
    return s.to u kernel (.building pid p .sem)
  | .building pid p .sem => do
    let kernel ← s.kernel.update p fun proc => pure { proc with pSem := some 0 }
    return s.to u kernel (.building pid p .store)
  | .building pid p .store => do
    let kernel ← s.kernel.procAddToAllproc p pid
    return (s.to u kernel .idle).mark p .live
  | .failing pid => do
    return s.to u (← s.kernel.procDeallocPid pid) .idle
  | .destroying p pid stage => do
    let kernel ← s.kernel.procDestroyStep p pid stage
    match stage.next with
    | some stage => return s.to u kernel (.destroying p pid stage)
    | none => return (s.to u kernel .idle).mark p .gone
  | .getting pc => do
    let (result, kernel) ← s.kernel.procGetStep u pc
    match result with
    | .more pc => return s.to u kernel (.getting pc)
    | .error _ => return s.to u kernel .idle
    | .found p => return s.to u kernel (.holding p)
  | .holding p => do
    return s.to u (← s.kernel.update p fun proc => proc.lockRelease u) .idle

def step (s : State Id Thread) : Action Id Thread → Outcome (State Id Thread)
  | .create u => create s u
  | .kmalloc u p => kmalloc s u p
  | .fail u => fail s u
  | .destroy u p => destroy s u p
  | .get u pid => get s u pid
  | .goOn u => goOn s u

/-- The state that `proc_system_init` leaves. -/
def start : State Id Thread := ⟨⟨fun _ => none, fun _ => none, 0, none⟩, fun _ => .idle, fun _ => .unused⟩

def machine : Machine (State Id Thread) (Action Id Thread) where
  initial s := s = start
  step := step

end Step

/-! ### What holds in every run -/

/-- Nothing of the process is destroyed. -/
structure Whole (p : Proc Id Thread Nat) : Prop where
  lock : p.lock ≠ none
  sem : p.pSem ≠ none
  fd : p.pFd ≠ none

/-- What `proc_create` has allocated before a part. -/
def Part.Has (p : Proc Id Thread Nat) : Part → Prop
  | .fd => True
  | .lock => p.pFd ≠ none
  | .sem => p.pFd ≠ none ∧ p.lock ≠ none
  | .store => Whole p

/-- The thread neither creates nor destroys an allocated process. -/
def Pc.quiet : Pc Id → Bool
  | .building _ _ _ | .destroying _ _ _ => false
  | _ => true

structure Base (s : State Id Thread) : Prop where
  building : ∀ u i p part, s.pc u = .building i p part → s.status p = .building u ∧
    ∃ proc, s.kernel.heap p = some proc ∧ proc.pPid = i ∧ part.Has proc
  destroying : ∀ u p i stage, s.pc u = .destroying p i stage → s.status p = .dying u
  live : ∀ p, s.status p = .live → ∃ proc, s.kernel.heap p = some proc ∧ Whole proc
  entry : ∀ i p, s.kernel.pTable i = some p →
    (s.status p = .live ∧ ∃ proc, s.kernel.heap p = some proc ∧ proc.pPid = i) ∨
      ∃ u stage, s.pc u = .destroying p i stage

variable {s : State Id Thread} {u : Thread}

theorem Whole.alike {p q : Proc Id Thread Nat} (h : Whole p) (alike : p.Alike q) : Whole q :=
  ⟨fun gone => h.lock (alike.lock.mp gone), by rw [alike.sem]; exact h.sem,
    by rw [alike.fd]; exact h.fd⟩

theorem Part.Has.alike {part : Part} {p q : Proc Id Thread Nat} (h : part.Has p) (alike : p.Alike q) :
    part.Has q := by
  cases part with
  | fd => trivial
  | lock =>
    have fd : p.pFd ≠ none := h
    rwa [← alike.fd] at fd
  | sem =>
    obtain ⟨fd, lock⟩ : p.pFd ≠ none ∧ p.lock ≠ none := h
    exact ⟨by rwa [alike.fd], fun gone => lock (alike.lock.mp gone)⟩
  | store => exact Whole.alike h alike

variable [DecidableEq Id] [DecidableEq Thread]

omit [DecidableEq Id] [DecidableEq Thread] in
theorem start_base : Base (start : State Id Thread) :=
  ⟨by simp [start], by simp [start], by simp [start], by simp [start]⟩

omit [DecidableEq Id] in
/-- A step of a thread that neither creates nor destroys, and that stores nothing in the table. -/
theorem Base.moves (h : Base s) {kernel : Kernel Id Thread Nat} {pc : Pc Id}
    (quiet : (s.pc u).quiet = true ∧ pc.quiet = true)
    (table : ∀ i p, kernel.pTable i = some p → s.kernel.pTable i = some p)
    (heap : ∀ p proc, s.kernel.heap p = some proc →
      ∃ proc', kernel.heap p = some proc' ∧ proc.Alike proc') : Base (s.to u kernel pc) := by
  have others : ∀ v, (Function.update s.pc u pc v).quiet = false →
      Function.update s.pc u pc v = s.pc v := by
    intro v busy
    by_cases same : v = u
    · rw [same, Function.update_self, quiet.2] at busy
      cases busy
    · exact Function.update_of_ne same _ _
  refine ⟨fun v i p part place => ?_, fun v p i stage place => ?_, fun p isLive => ?_,
    fun i p found => ?_⟩
  · have same := others v (by rw [show Function.update s.pc u pc v = _ from place]; rfl)
    obtain ⟨status, proc, found, pid, has⟩ := h.building v i p part (same.symm.trans place)
    obtain ⟨proc', found', alike⟩ := heap p proc found
    exact ⟨status, proc', found', alike.pid.trans pid, has.alike alike⟩
  · have same := others v (by rw [show Function.update s.pc u pc v = _ from place]; rfl)
    exact h.destroying v p i stage (same.symm.trans place)
  · obtain ⟨proc, found, whole⟩ := h.live p isLive
    obtain ⟨proc', found', alike⟩ := heap p proc found
    exact ⟨proc', found', whole.alike alike⟩
  · rcases h.entry i p (table i p found) with ⟨isLive, proc, found, pid⟩ | ⟨v, stage, place⟩
    · obtain ⟨proc', found', alike⟩ := heap p proc found
      exact Or.inl ⟨isLive, proc', found', alike.pid.trans pid⟩
    · have other : v ≠ u := by
        rintro rfl
        rw [place] at quiet
        cases quiet.1
      exact Or.inr ⟨v, stage, by simpa [State.to, other] using place⟩

omit [DecidableEq Id] in
theorem Base.stays (h : Base s) {kernel : Kernel Id Thread Nat} {pc : Pc Id}
    (quiet : (s.pc u).quiet = true ∧ pc.quiet = true) (alike : s.kernel.Alike kernel) :
    Base (s.to u kernel pc) :=
  h.moves quiet (fun i p found => by rwa [alike.table] at found) alike.heap

theorem create_base (h : Base s) : (create s u).Ensures Base := by
  refine Outcome.ensures_bind.mpr (Outcome.ensures_await.mpr fun idle => ?_)
  refine Outcome.ensures_bind.mpr (Kernel.procAllocPid_ensures.mono fun ⟨result, kernel⟩ spec => ?_)
  obtain ⟨⟨n, rfl⟩, _⟩ := spec
  have idle' : (s.pc u).quiet = true := by rw [idle]; rfl
  cases result with
  | ok pid => exact Outcome.ensures_pure.mpr (h.stays ⟨idle', rfl⟩ (.of_heap rfl rfl))
  | error err => exact Outcome.ensures_pure.mpr (h.stays ⟨idle', rfl⟩ (.of_heap rfl rfl))

theorem get_base (h : Base s) {pid : Int} : (get s u pid).Ensures Base := by
  refine Outcome.ensures_bind.mpr (Outcome.ensures_await.mpr fun idle => ?_)
  split
  · exact Outcome.ensures_pure.mpr (h.stays ⟨by rw [idle]; rfl, rfl⟩ (.of_heap rfl rfl))
  · exact Outcome.ensures_pure.mpr h

theorem mark_self {p : Id} (kernel : Kernel Id Thread Nat) (pc : Pc Id) :
    (s.to u kernel pc).mark p (s.status p) = s.to u kernel pc := by
  simp [State.mark, State.to]

/-- A step of a thread on the process that it creates or destroys, or begins to. -/
theorem Base.works (h : Base s) {p : Id} {kernel : Kernel Id Thread Nat} {pc : Pc Id}
    {status : Status Thread}
    (mine : ∀ v, s.status p = .building v ∨ s.status p = .dying v → v = u)
    (focus : ∀ q i stage, s.pc u = .destroying q i stage → q = p)
    (others : ∀ q, q ≠ p → kernel.heap q = s.kernel.heap q)
    (building : ∀ i q part, pc = .building i q part → q = p ∧ status = .building u ∧
      ∃ proc, kernel.heap p = some proc ∧ proc.pPid = i ∧ part.Has proc)
    (destroying : ∀ q i stage, pc = .destroying q i stage → q = p ∧ status = .dying u)
    (live : status = .live → ∃ proc, kernel.heap p = some proc ∧ Whole proc)
    (entry : ∀ i q, kernel.pTable i = some q → (q ≠ p ∧ s.kernel.pTable i = some q) ∨
      (q = p ∧ ((status = .live ∧ ∃ proc, kernel.heap p = some proc ∧ proc.pPid = i) ∨
        ∃ stage, pc = .destroying p i stage))) : Base ((s.to u kernel pc).mark p status) := by
  refine ⟨fun v i q part place => ?_, fun v q i stage place => ?_, fun q isLive => ?_,
    fun i q found => ?_⟩
  · dsimp only [State.mark, State.to] at *
    by_cases self : v = u
    · subst self
      rw [Function.update_self] at place
      obtain ⟨rfl, rfl, built⟩ := building i q part place
      exact ⟨Function.update_self _ _ _, built⟩
    · rw [Function.update_of_ne self] at place
      obtain ⟨was, proc, foundQ, rest⟩ := h.building v i q part place
      have other : q ≠ p := by
        rintro rfl
        exact self (mine v (Or.inl was))
      rw [Function.update_of_ne other, others q other]
      exact ⟨was, proc, foundQ, rest⟩
  · dsimp only [State.mark, State.to] at *
    by_cases self : v = u
    · subst self
      rw [Function.update_self] at place
      obtain ⟨rfl, rfl⟩ := destroying q i stage place
      exact Function.update_self _ _ _
    · rw [Function.update_of_ne self] at place
      have was := h.destroying v q i stage place
      have other : q ≠ p := by
        rintro rfl
        exact self (mine v (Or.inr was))
      rw [Function.update_of_ne other]
      exact was
  · dsimp only [State.mark, State.to] at *
    by_cases same : q = p
    · subst same
      rw [Function.update_self] at isLive
      exact live isLive
    · rw [Function.update_of_ne same] at isLive
      rw [others q same]
      exact h.live q isLive
  · dsimp only [State.mark, State.to] at *
    rcases entry i q found with ⟨other, was⟩ | ⟨rfl, ⟨isLive, built⟩ | ⟨stage, place⟩⟩
    · rw [Function.update_of_ne other, others q other]
      rcases h.entry i q was with isLive | ⟨v, stage, place⟩
      · exact Or.inl isLive
      · have notSelf : v ≠ u := by
          rintro rfl
          exact other (focus q i stage place)
        exact Or.inr ⟨v, stage, by rwa [Function.update_of_ne notSelf]⟩
    · exact Or.inl ⟨by rw [Function.update_self]; exact isLive, built⟩
    · exact Or.inr ⟨u, stage, by rw [Function.update_self]; exact place⟩

omit [DecidableEq Id] [DecidableEq Thread] in
/-- The table names no process that is still being created. -/
theorem Base.not_entry (h : Base s) {p : Id}
    (hidden : s.status p = .unused ∨ ∃ v, s.status p = .building v) (i : Fin 32) :
    s.kernel.pTable i ≠ some p := by
  intro found
  rcases h.entry i p found with ⟨isLive, _⟩ | ⟨v, stage, place⟩
  · rcases hidden with unused | ⟨v, building⟩
    · rw [unused] at isLive
      cases isLive
    · rw [building] at isLive
      cases isLive
  · have dying := h.destroying v p i stage place
    rcases hidden with unused | ⟨v, building⟩
    · rw [unused] at dying
      cases dying
    · rw [building] at dying
      cases dying

theorem kmalloc_base (h : Base s) {p : Id} : (kmalloc s u p).Ensures Base := by
  unfold kmalloc
  split
  · rename_i pid place
    refine Outcome.ensures_bind.mpr (Outcome.ensures_await.mpr fun unused => ?_)
    refine Outcome.ensures_pure.mpr (h.works ?_ ?_ ?_ ?_ ?_ ?_ ?_)
    · simp [unused]
    · simp [place]
    · exact fun q other => Function.update_of_ne other _ _
    · intro i q part same
      obtain ⟨rfl, rfl, rfl⟩ := Pc.building.inj same
      exact ⟨rfl, rfl, _, Function.update_self _ _ _, rfl, trivial⟩
    · simp
    · simp
    · intro i q found
      exact Or.inl ⟨fun same => h.not_entry (Or.inl unused) i (same ▸ found), found⟩
  · exact Outcome.ensures_blocked

theorem destroy_base (h : Base s) {p : Id} : (destroy s u p).Ensures Base := by
  refine Outcome.ensures_bind.mpr (Outcome.ensures_await.mpr fun ⟨idle, isLive⟩ => ?_)
  refine Outcome.ensures_bind.mpr (Outcome.ensures_deref.mpr fun proc found => ?_)
  refine Outcome.ensures_pure.mpr (h.works ?_ ?_ ?_ ?_ ?_ ?_ ?_)
  · simp [isLive]
  · simp [idle]
  · exact fun _ _ => rfl
  · simp
  · intro q i stage same
    obtain ⟨rfl, _⟩ := Pc.destroying.inj same
    exact ⟨rfl, rfl⟩
  · simp
  · intro i q named
    by_cases same : q = p
    · subst same
      rcases h.entry i q named with ⟨_, proc', found', pid⟩ | ⟨v, stage, place⟩
      · obtain rfl : proc = proc' := Option.some.inj (found.symm.trans found')
        exact Or.inr ⟨rfl, Or.inr ⟨.sem, by rw [pid]⟩⟩
      · have dying := h.destroying v q i stage place
        rw [isLive] at dying
        cases dying
    · exact Or.inl ⟨same, named⟩

/-- A failing path of `proc_create` takes the process back. -/
theorem Base.abandons (h : Base s) {p : Id} {pid : Fin 32} {part : Part} {kernel : Kernel Id Thread Nat}
    (place : s.pc u = .building pid p part) (table : kernel.pTable = s.kernel.pTable)
    (others : ∀ q, q ≠ p → kernel.heap q = s.kernel.heap q) :
    Base ((s.to u kernel (.failing pid)).mark p .gone) := by
  have building := (h.building u pid p part place).1
  refine h.works (fun v status => ?_) ?_ others ?_ ?_ ?_ ?_
  · rw [building] at status
    rcases status with same | same
    · exact (Status.building.inj same).symm
    · cases same
  · simp [place]
  · simp
  · simp
  · simp
  · intro i q found
    rw [table] at found
    exact Or.inl ⟨fun same => h.not_entry (Or.inr ⟨u, building⟩) i (same ▸ found), found⟩

theorem fail_base (h : Base s) : (fail s u).Ensures Base := by
  have updated : ∀ (p q : Id) (new : Option (Proc Id Thread Nat)) (heap : Id → Option (Proc Id Thread Nat)),
      q ≠ p → Function.update heap p new q = heap q :=
    fun _ _ _ _ other => Function.update_of_ne other _ _
  unfold fail
  split
  · rename_i pid place
    exact Outcome.ensures_done.mpr (h.stays ⟨by rw [place]; rfl, rfl⟩ (.of_heap rfl rfl))
  · rename_i pid p place
    refine Outcome.ensures_bind.mpr (Kernel.free_ensures.mpr fun _ _ => ?_)
    exact Outcome.ensures_pure.mpr (h.abandons place rfl fun q other => updated p q _ _ other)
  · rename_i pid p place
    refine Outcome.ensures_bind.mpr (Kernel.update_ensures.mpr fun _ _ => fun _ _ => ?_)
    refine Outcome.ensures_bind.mpr (Kernel.free_ensures.mpr fun _ _ => ?_)
    refine Outcome.ensures_pure.mpr (h.abandons place rfl fun q other => ?_)
    exact (updated p q _ _ other).trans (updated p q _ _ other)
  · rename_i pid p place
    refine Outcome.ensures_bind.mpr (Kernel.update_ensures.mpr fun _ _ => fun _ _ => ?_)
    refine Outcome.ensures_bind.mpr (Kernel.update_ensures.mpr fun _ _ => fun _ _ => ?_)
    refine Outcome.ensures_bind.mpr (Kernel.free_ensures.mpr fun _ _ => ?_)
    refine Outcome.ensures_pure.mpr (h.abandons place rfl fun q other => ?_)
    exact (updated p q _ _ other).trans ((updated p q _ _ other).trans (updated p q _ _ other))
  · exact Outcome.ensures_blocked

/-- An allocation of `proc_create` that succeeds. -/
theorem Base.builds (h : Base s) {p : Id} {pid : Fin 32} {part : Part}
    (place : s.pc u = .building pid p part) (next : Part) (f : Proc Id Thread Nat → Proc Id Thread Nat)
    (pids : ∀ proc, (f proc).pPid = proc.pPid)
    (has : ∀ proc, part.Has proc → next.Has (f proc)) :
    (do
      let kernel ← s.kernel.update p fun proc => pure (f proc)
      return s.to u kernel (.building pid p next)).Ensures Base := by
  obtain ⟨building, proc, found, pPid, hasPart⟩ := h.building u pid p part place
  refine Outcome.ensures_bind.mpr (Kernel.update_ensures.mpr fun proc' found' => ?_)
  refine Outcome.ensures_pure.mpr (Outcome.ensures_pure.mpr ?_)
  obtain rfl : proc = proc' := Option.some.inj (found.symm.trans found')
  rw [← mark_self (p := p)]
  refine h.works (fun v status => ?_) ?_ ?_ ?_ ?_ ?_ ?_
  · rw [building] at status
    rcases status with same | same
    · exact (Status.building.inj same).symm
    · cases same
  · simp [place]
  · exact fun q other => Function.update_of_ne other _ _
  · intro i q part' same
    obtain ⟨rfl, rfl, rfl⟩ := Pc.building.inj same
    exact ⟨rfl, building, _, Function.update_self _ _ _, (pids proc).trans pPid, has proc hasPart⟩
  · simp
  · simp [building]
  · intro i q named
    exact Or.inl ⟨fun same => h.not_entry (Or.inr ⟨u, building⟩) i (same ▸ named), named⟩

theorem Base.stores (h : Base s) {p : Id} {pid : Fin 32} (place : s.pc u = .building pid p .store) :
    Base ((s.to u { s.kernel with pTable := Function.update s.kernel.pTable pid (some p) } .idle).mark
      p .live) := by
  obtain ⟨building, proc, found, pPid, whole⟩ := h.building u pid p .store place
  refine h.works (fun v status => ?_) ?_ ?_ ?_ ?_ ?_ ?_
  · rw [building] at status
    rcases status with same | same
    · exact (Status.building.inj same).symm
    · cases same
  · simp [place]
  · exact fun _ _ => rfl
  · simp
  · simp
  · exact fun _ => ⟨proc, found, whole⟩
  · intro i q named
    dsimp only at named
    by_cases same : i = pid
    · subst same
      rw [Function.update_self] at named
      obtain rfl := Option.some.inj named
      exact Or.inr ⟨rfl, Or.inl ⟨rfl, proc, found, pPid⟩⟩
    · rw [Function.update_of_ne same] at named
      exact Or.inl ⟨fun eq => h.not_entry (Or.inr ⟨u, building⟩) i (eq ▸ named), named⟩

theorem Base.tears (h : Base s) {p : Id} {pid : Fin 32} {stage : Stage} {kernel : Kernel Id Thread Nat}
    (place : s.pc u = .destroying p pid stage) (others : ∀ q, q ≠ p → kernel.heap q = s.kernel.heap q)
    (table : kernel.pTable =
      if stage = .pid then Function.update s.kernel.pTable pid none else s.kernel.pTable) :
    match stage.next with
    | some stage => Base (s.to u kernel (.destroying p pid stage))
    | none => Base ((s.to u kernel .idle).mark p .gone) := by
  have dying := h.destroying u p pid stage place
  have mine : ∀ v, s.status p = .building v ∨ s.status p = .dying v → v = u := by
    intro v status
    rw [dying] at status
    rcases status with same | same
    · cases same
    · exact (Status.dying.inj same).symm
  have focus : ∀ q i stage', s.pc u = .destroying q i stage' → q = p := by
    intro q i stage' same
    rw [place] at same
    exact (Pc.destroying.inj same).1.symm
  -- the process is in the table at its slot only
  have slot : ∀ i, s.kernel.pTable i = some p → i = pid := by
    intro i named
    rcases h.entry i p named with ⟨isLive, _⟩ | ⟨v, stage', place'⟩
    · rw [dying] at isLive
      cases isLive
    · obtain rfl := mine v (Or.inr (h.destroying v p i stage' place'))
      rw [place] at place'
      exact (Pc.destroying.inj place').2.1.symm
  have before : stage ≠ .pid → ∀ next, Base (s.to u kernel (.destroying p pid next)) := by
    intro early next
    rw [if_neg early] at table
    rw [← mark_self (p := p)]
    refine h.works mine focus others ?_ ?_ ?_ ?_
    · simp
    · intro q i stage' same
      obtain ⟨rfl, _⟩ := Pc.destroying.inj same
      exact ⟨rfl, dying⟩
    · simp [dying]
    · intro i q named
      rw [table] at named
      by_cases same : q = p
      · subst same
        exact Or.inr ⟨rfl, Or.inr ⟨next, by rw [slot i named]⟩⟩
      · exact Or.inl ⟨same, named⟩
  cases stage with
  | sem => exact before (by simp) .lock
  | lock => exact before (by simp) .fd
  | fd => exact before (by simp) .free
  | free => exact before (by simp) .pid
  | pid =>
    rw [if_pos rfl] at table
    refine h.works mine focus others (by simp) (by simp) (by simp) fun i q named => ?_
    rw [table] at named
    have elsewhere : i ≠ pid := by
      rintro rfl
      rw [Function.update_self] at named
      cases named
    rw [Function.update_of_ne elsewhere] at named
    exact Or.inl ⟨fun same => elsewhere (slot i (same ▸ named)), named⟩

theorem goOn_base (h : Base s) : (goOn s u).Ensures Base := by
  unfold goOn
  split
  · exact Outcome.ensures_blocked
  · exact Outcome.ensures_blocked
  · rename_i pid p place
    exact h.builds place .lock (fun proc => { proc with pFd := some 0 }) (fun _ => rfl)
      fun _ _ => by simp [Part.Has]
  · rename_i pid p place
    exact h.builds place .sem (fun proc => { proc with lock := some none }) (fun _ => rfl)
      fun _ has => ⟨has, by simp⟩
  · rename_i pid p place
    exact h.builds place .store (fun proc => { proc with pSem := some 0 }) (fun _ => rfl)
      fun _ has => ⟨has.2, by simp, has.1⟩
  · rename_i pid p place
    refine Outcome.ensures_bind.mpr (Kernel.procAddToAllproc_ensures.mpr fun _ => ?_)
    exact Outcome.ensures_pure.mpr (h.stores place)
  · rename_i pid place
    refine Outcome.ensures_bind.mpr (Kernel.procDeallocPid_ensures.mpr fun _ _ => ?_)
    refine Outcome.ensures_pure.mpr (h.moves ⟨by rw [place]; rfl, rfl⟩ (fun i p named => ?_) ?_)
    · dsimp only at named
      by_cases same : i = pid
      · rw [same, Function.update_self] at named
        cases named
      · rwa [Function.update_of_ne same] at named
    · exact fun p proc found => ⟨proc, found, .refl proc⟩
  · rename_i p pid stage place
    refine Outcome.ensures_bind.mpr (Kernel.procDestroyStep_ensures.mono fun kernel spec => ?_)
    have torn := h.tears place spec.1 spec.2
    cases next : stage.next with
    | some stage' =>
      rw [next] at torn
      exact Outcome.ensures_pure.mpr torn
    | none =>
      rw [next] at torn
      exact Outcome.ensures_pure.mpr torn
  · rename_i pc place
    refine Outcome.ensures_bind.mpr (Kernel.procGetStep_alike.mono fun ⟨result, kernel⟩ alike => ?_)
    have stays : ∀ pc' : Pc Id, pc'.quiet = true → Base (s.to u kernel pc') :=
      fun _ quiet => h.stays ⟨by rw [place]; rfl, quiet⟩ alike
    cases result with
    | more pc' => exact Outcome.ensures_pure.mpr (stays _ rfl)
    | error err => exact Outcome.ensures_pure.mpr (stays _ rfl)
    | found p => exact Outcome.ensures_pure.mpr (stays _ rfl)
  · rename_i p place
    refine Outcome.ensures_bind.mpr (Kernel.lockRelease_alike.mono fun kernel alike => ?_)
    exact Outcome.ensures_pure.mpr (h.stays ⟨by rw [place]; rfl, rfl⟩ alike)

theorem step_base (h : Base s) (a : Action Id Thread) : (step s a).Ensures Base := by
  cases a with
  | create u => exact create_base h
  | kmalloc u p => exact kmalloc_base h
  | fail u => exact fail_base h
  | destroy u p => exact destroy_base h
  | get u pid => exact get_base h
  | goOn u => exact goOn_base h

theorem reachable_base {guard : State Id Thread → Action Id Thread → Prop}
    (h : machine.ReachableBy guard s) : Base s := by
  refine Machine.invariant_ensures machine (fun s initial => ?_) (fun _ a base _ => step_base base a) h
  have same : s = start := initial
  exact same ▸ start_base

/-- The stores into the table: that of `proc_create`, and those of the two `proc_dealloc_pid`s. -/
inductive Stores (s t : State Id Thread) : Prop where
  | nothing : t.kernel.pTable = s.kernel.pTable → Stores s t
  | fills (u : Thread) (pid : Fin 32) (p : Id) : s.pc u = .building pid p .store →
      t.kernel.pTable = Function.update s.kernel.pTable pid (some p) → Stores s t
  | fails (u : Thread) (pid : Fin 32) : s.pc u = .failing pid → s.kernel.pTable pid ≠ none →
      t.kernel.pTable = Function.update s.kernel.pTable pid none → Stores s t
  | clears (u : Thread) (p : Id) (pid : Fin 32) : s.pc u = .destroying p pid .pid →
      t.kernel.pTable = Function.update s.kernel.pTable pid none → Stores s t

theorem fail_stores : (fail s u).Ensures (Stores s) := by
  unfold fail
  split
  · exact Outcome.ensures_done.mpr (.nothing rfl)
  · refine Outcome.ensures_bind.mpr (Kernel.free_ensures.mpr fun _ _ => ?_)
    exact Outcome.ensures_pure.mpr (.nothing rfl)
  · refine Outcome.ensures_bind.mpr (Kernel.update_ensures.mpr fun _ _ => fun _ _ => ?_)
    refine Outcome.ensures_bind.mpr (Kernel.free_ensures.mpr fun _ _ => ?_)
    exact Outcome.ensures_pure.mpr (.nothing rfl)
  · refine Outcome.ensures_bind.mpr (Kernel.update_ensures.mpr fun _ _ => fun _ _ => ?_)
    refine Outcome.ensures_bind.mpr (Kernel.update_ensures.mpr fun _ _ => fun _ _ => ?_)
    refine Outcome.ensures_bind.mpr (Kernel.free_ensures.mpr fun _ _ => ?_)
    exact Outcome.ensures_pure.mpr (.nothing rfl)
  · exact Outcome.ensures_blocked

theorem goOn_stores : (goOn s u).Ensures (Stores s) := by
  unfold goOn
  split
  · exact Outcome.ensures_blocked
  · exact Outcome.ensures_blocked
  · refine Outcome.ensures_bind.mpr (Kernel.update_ensures.mpr fun _ _ => fun _ _ => ?_)
    exact Outcome.ensures_pure.mpr (.nothing rfl)
  · refine Outcome.ensures_bind.mpr (Kernel.update_ensures.mpr fun _ _ => fun _ _ => ?_)
    exact Outcome.ensures_pure.mpr (.nothing rfl)
  · refine Outcome.ensures_bind.mpr (Kernel.update_ensures.mpr fun _ _ => fun _ _ => ?_)
    exact Outcome.ensures_pure.mpr (.nothing rfl)
  · rename_i pid p place
    refine Outcome.ensures_bind.mpr (Kernel.procAddToAllproc_ensures.mpr fun _ => ?_)
    exact Outcome.ensures_pure.mpr (.fills u pid p place rfl)
  · rename_i pid place
    refine Outcome.ensures_bind.mpr (Kernel.procDeallocPid_ensures.mpr fun _ taken => ?_)
    exact Outcome.ensures_pure.mpr (.fails u pid place taken rfl)
  · rename_i p pid stage place
    refine Outcome.ensures_bind.mpr (Kernel.procDestroyStep_ensures.mono fun kernel spec => ?_)
    cases stage with
    | pid => exact Outcome.ensures_pure.mpr (.clears u p pid place spec.2)
    | _ => exact Outcome.ensures_pure.mpr (.nothing spec.2)
  · refine Outcome.ensures_bind.mpr (Kernel.procGetStep_alike.mono fun ⟨result, kernel⟩ alike => ?_)
    cases result <;> exact Outcome.ensures_pure.mpr (.nothing alike.table)
  · refine Outcome.ensures_bind.mpr (Kernel.lockRelease_alike.mono fun kernel alike => ?_)
    exact Outcome.ensures_pure.mpr (.nothing alike.table)

theorem step_stores (a : Action Id Thread) : (step s a).Ensures (Stores s) := by
  cases a with
  | create u =>
    refine Outcome.ensures_bind.mpr (Outcome.ensures_await.mpr fun _ => ?_)
    refine Outcome.ensures_bind.mpr (Kernel.procAllocPid_ensures.mono fun ⟨result, kernel⟩ spec => ?_)
    obtain ⟨⟨n, rfl⟩, _⟩ := spec
    cases result <;> exact Outcome.ensures_pure.mpr (.nothing rfl)
  | kmalloc u p =>
    simp only [step, kmalloc]
    split
    · refine Outcome.ensures_bind.mpr (Outcome.ensures_await.mpr fun _ => ?_)
      exact Outcome.ensures_pure.mpr (.nothing rfl)
    · exact Outcome.ensures_blocked
  | fail u => exact fail_stores
  | destroy u p =>
    refine Outcome.ensures_bind.mpr (Outcome.ensures_await.mpr fun _ => ?_)
    refine Outcome.ensures_bind.mpr (Outcome.ensures_deref.mpr fun _ _ => ?_)
    exact Outcome.ensures_pure.mpr (.nothing rfl)
  | get u pid =>
    refine Outcome.ensures_bind.mpr (Outcome.ensures_await.mpr fun _ => ?_)
    split <;> exact Outcome.ensures_pure.mpr (.nothing rfl)
  | goOn u => exact goOn_stores

end Os161.ProcTable
