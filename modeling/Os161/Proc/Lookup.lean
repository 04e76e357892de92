import Os161.Proc.Table

/-!
# Lookups in the process table

`proc_destroy` frees a process before `proc_dealloc_pid` takes it out of the table, so that a
`proc_get` in between meets a process that is no longer there. As long as no lookup comes in between,
and no `proc_destroy` begins while a `proc_get` waits for the lock of the process, every process that
a lookup touches is live.
-/

namespace Os161.ProcTable

variable {Id Thread : Type}

/-- The process that a step of `proc_get` follows a pointer to. -/
def dereferenced (s : State Id Thread) : Action Id Thread → Option Id
  | .goOn u =>
    match s.pc u with
    | .getting (.looking pid) => s.kernel.pTable pid
    | .getting (.acquiring p) => some p
    | _ => none
  | _ => none

/-- A lookup reads the table where no `proc_destroy` is under way for the process that it finds, and
a `proc_destroy` begins where no `proc_get` waits for the lock of the process. -/
def KeepsOut (s : State Id Thread) : Action Id Thread → Prop
  | .goOn u => ∀ pid p, s.pc u = .getting (.looking pid) → s.kernel.pTable pid = some p →
      ∀ v stage, s.pc v ≠ .destroying p pid stage
  | .destroy _ p => ∀ v, s.pc v ≠ .getting (.acquiring p)
  | _ => True

/-- The process is live, and nothing of it is destroyed. -/
def Intact (s : State Id Thread) (p : Id) : Prop :=
  s.status p = .live ∧ ∃ proc, s.kernel.heap p = some proc ∧ Whole proc

def WaitsForLive (s : State Id Thread) : Prop :=
  ∀ u p, s.pc u = .getting (.acquiring p) → s.status p = .live

/-- How a step can bear on the waiting lookups: it ends the life of a process only as a
`proc_destroy` that begins, and a thread comes to wait only as one that has found the process. -/
structure Bears (s : State Id Thread) (a : Action Id Thread) (t : State Id Thread) : Prop where
  live : ∀ p, s.status p = .live → t.status p = .live ∨ ∃ u, a = .destroy u p
  waits : ∀ v p, t.pc v = .getting (.acquiring p) → s.pc v = .getting (.acquiring p) ∨
    (a = .goOn v ∧ ∃ pid, s.pc v = .getting (.looking pid) ∧ s.kernel.pTable pid = some p)

variable {s : State Id Thread} {u : Thread} {a : Action Id Thread}
variable [DecidableEq Id] [DecidableEq Thread]

omit [DecidableEq Id] in
theorem bears_to {kernel : Kernel Id Thread Nat} {pc : Pc Id}
    (elsewhere : ∀ p, pc = .getting (.acquiring p) →
      a = .goOn u ∧ ∃ pid, s.pc u = .getting (.looking pid) ∧ s.kernel.pTable pid = some p) :
    Bears s a (s.to u kernel pc) where
  live p isLive := Or.inl isLive
  waits v p place := by
    dsimp only [State.to] at place
    by_cases same : v = u
    · rw [same, Function.update_self] at place
      rw [same]
      exact Or.inr (elsewhere p place)
    · rw [Function.update_of_ne same] at place
      exact Or.inl place

theorem bears_mark {kernel : Kernel Id Thread Nat} {pc : Pc Id} {p : Id} {status : Status Thread}
    (elsewhere : ∀ p, pc ≠ .getting (.acquiring p))
    (ends : s.status p = .live → status = .live ∨ ∃ u, a = .destroy u p) :
    Bears s a ((s.to u kernel pc).mark p status) where
  live q isLive := by
    dsimp only [State.mark, State.to]
    by_cases same : q = p
    · rw [same, Function.update_self]
      rw [same] at isLive
      exact ends isLive
    · rw [Function.update_of_ne same]
      exact Or.inl isLive
  waits v q place := by
    have moved : Bears s a (s.to u kernel pc) := bears_to fun p same => (elsewhere p same).elim
    exact moved.waits v q place

theorem fail_bears (base : Base s) : (fail s u).Ensures (Bears s (.fail u)) := by
  have ended : ∀ pid p part, s.pc u = .building pid p part → s.status p ≠ .live := by
    intro pid p part place isLive
    rw [(base.building u pid p part place).1] at isLive
    cases isLive
  unfold fail
  split
  · exact Outcome.ensures_done.mpr (bears_to (by simp))
  · rename_i pid p place
    refine Outcome.ensures_bind.mpr (Kernel.free_ensures.mpr fun _ _ => ?_)
    exact Outcome.ensures_pure.mpr (bears_mark (by simp) fun isLive => (ended _ _ _ place isLive).elim)
  · rename_i pid p place
    refine Outcome.ensures_bind.mpr (Kernel.update_ensures.mpr fun _ _ => fun _ _ => ?_)
    refine Outcome.ensures_bind.mpr (Kernel.free_ensures.mpr fun _ _ => ?_)
    exact Outcome.ensures_pure.mpr (bears_mark (by simp) fun isLive => (ended _ _ _ place isLive).elim)
  · rename_i pid p place
    refine Outcome.ensures_bind.mpr (Kernel.update_ensures.mpr fun _ _ => fun _ _ => ?_)
    refine Outcome.ensures_bind.mpr (Kernel.update_ensures.mpr fun _ _ => fun _ _ => ?_)
    refine Outcome.ensures_bind.mpr (Kernel.free_ensures.mpr fun _ _ => ?_)
    exact Outcome.ensures_pure.mpr (bears_mark (by simp) fun isLive => (ended _ _ _ place isLive).elim)
  · exact Outcome.ensures_blocked

theorem goOn_bears (base : Base s) : (goOn s u).Ensures (Bears s (.goOn u)) := by
  unfold goOn
  split
  · exact Outcome.ensures_blocked
  · exact Outcome.ensures_blocked
  · refine Outcome.ensures_bind.mpr (Kernel.update_ensures.mpr fun _ _ => fun _ _ => ?_)
    exact Outcome.ensures_pure.mpr (bears_to (by simp))
  · refine Outcome.ensures_bind.mpr (Kernel.update_ensures.mpr fun _ _ => fun _ _ => ?_)
    exact Outcome.ensures_pure.mpr (bears_to (by simp))
  · refine Outcome.ensures_bind.mpr (Kernel.update_ensures.mpr fun _ _ => fun _ _ => ?_)
    exact Outcome.ensures_pure.mpr (bears_to (by simp))
  · refine Outcome.ensures_bind.mpr (Kernel.procAddToAllproc_ensures.mpr fun _ => ?_)
    exact Outcome.ensures_pure.mpr (bears_mark (by simp) fun _ => Or.inl rfl)
  · refine Outcome.ensures_bind.mpr (Kernel.procDeallocPid_ensures.mpr fun _ _ => ?_)
    exact Outcome.ensures_pure.mpr (bears_to (by simp))
  · rename_i p pid stage place
    refine Outcome.ensures_bind.mpr fun kernel _ => ?_
    cases stage.next with
    | some stage' => exact Outcome.ensures_pure.mpr (bears_to (by simp))
    | none =>
      refine Outcome.ensures_pure.mpr (bears_mark (by simp) fun isLive => ?_)
      rw [base.destroying u p pid stage place] at isLive
      cases isLive
  · rename_i pc place
    refine Outcome.ensures_bind.mpr (Kernel.procGetStep_found.mono fun ⟨result, kernel⟩ found => ?_)
    cases result with
    | more pc' =>
      refine Outcome.ensures_pure.mpr (bears_to fun p same => ⟨rfl, ?_⟩)
      obtain ⟨pid, looking, named⟩ := found p (congrArg GetResult.more (Pc.getting.inj same))
      exact ⟨pid, by rw [place, looking], named⟩
    | error err => exact Outcome.ensures_pure.mpr (bears_to (by simp))
    | found p => exact Outcome.ensures_pure.mpr (bears_to (by simp))
  · refine Outcome.ensures_bind.mpr fun kernel _ => ?_
    exact Outcome.ensures_pure.mpr (bears_to (by simp))

theorem step_bears (base : Base s) (a : Action Id Thread) : (step s a).Ensures (Bears s a) := by
  cases a with
  | create u =>
    refine Outcome.ensures_bind.mpr (Outcome.ensures_await.mpr fun _ => ?_)
    refine Outcome.ensures_bind.mpr fun ⟨result, kernel⟩ _ => ?_
    cases result <;> exact Outcome.ensures_pure.mpr (bears_to (by simp))
  | kmalloc u p =>
    simp only [step, kmalloc]
    split
    · refine Outcome.ensures_bind.mpr (Outcome.ensures_await.mpr fun unused => ?_)
      refine Outcome.ensures_pure.mpr (bears_mark (by simp) fun isLive => ?_)
      rw [unused] at isLive
      cases isLive
    · exact Outcome.ensures_blocked
  | fail u => exact fail_bears base
  | destroy u p =>
    refine Outcome.ensures_bind.mpr (Outcome.ensures_await.mpr fun _ => ?_)
    refine Outcome.ensures_bind.mpr (Outcome.ensures_deref.mpr fun _ _ => ?_)
    exact Outcome.ensures_pure.mpr (bears_mark (by simp) fun _ => Or.inr ⟨u, rfl⟩)
  | get u pid =>
    refine Outcome.ensures_bind.mpr (Outcome.ensures_await.mpr fun idle => ?_)
    split
    · rename_i pc start
      obtain ⟨slot, rfl, _⟩ := Kernel.procGetStart_ok start
      exact Outcome.ensures_pure.mpr (bears_to (by simp))
    · exact Outcome.ensures_pure.mpr ⟨fun _ isLive => Or.inl isLive, fun _ _ place => Or.inl place⟩
  | goOn u => exact goOn_bears base

omit [DecidableEq Id] [DecidableEq Thread] in
/-- What a lookup finds where nobody destroys it is live. -/
theorem Base.found_live (base : Base s) (apart : KeepsOut s (.goOn u)) {pid : Fin 32} {p : Id}
    (looking : s.pc u = .getting (.looking pid)) (named : s.kernel.pTable pid = some p) :
    s.status p = .live := by
  rcases base.entry pid p named with ⟨isLive, _⟩ | ⟨v, stage, destroying⟩
  · exact isLive
  · exact (apart pid p looking named v stage destroying).elim

theorem reachable_waits (h : machine.ReachableBy KeepsOut s) : WaitsForLive s := by
  have both : Base s ∧ WaitsForLive s := by
    refine Machine.invariant_ensures machine (P := fun s => Base s ∧ WaitsForLive s)
      (fun s initial => ?_) (fun s a ⟨base, waits⟩ apart t ht => ?_) h
    · have same : s = start := initial
      subst same
      exact ⟨start_base, by simp [WaitsForLive, start]⟩
    · refine ⟨step_base base a t ht, fun v p place => ?_⟩
      have bears := step_bears base a t ht
      have was : s.status p = .live := by
        rcases bears.waits v p place with before | ⟨rfl, pid, looking, named⟩
        · exact waits v p before
        · exact base.found_live apart looking named
      rcases bears.live p was with stays | ⟨w, rfl⟩
      · exact stays
      · -- the process that is waited for is not the one that begins to be destroyed
        rcases bears.waits v p place with before | ⟨other, _⟩
        · exact (apart v before).elim
        · cases other
  exact both.2

/-- In every run whose lookups and `proc_destroy`s keep out of each other's way, and at every next
step that does so too, the process that `proc_get` touches is live and whole. -/
theorem lookup_intact (h : machine.ReachableBy KeepsOut s) (apart : KeepsOut s a) {p : Id}
    (touched : dereferenced s a = some p) : Intact s p := by
  have base := reachable_base h
  have isLive : s.status p = .live := by
    cases a with
    | goOn u =>
      simp only [dereferenced] at touched
      split at touched
      · rename_i pid looking
        exact base.found_live apart looking touched
      · rename_i q place
        obtain rfl := Option.some.inj touched
        exact reachable_waits h u q place
      · cases touched
    | _ => cases touched
  exact ⟨isLive, base.live p isLive⟩

/-- The action neither reads the table for a `proc_get` nor begins a `proc_destroy`. -/
def notLookup (s : State Id Thread) : Action Id Thread → Bool
  | .goOn u =>
    match s.pc u with
    | .getting (.looking _) => false
    | _ => true
  | .destroy _ _ => false
  | _ => true

omit [DecidableEq Id] [DecidableEq Thread] in
theorem notLookup_apart (h : notLookup s a = true) : KeepsOut s a := by
  cases a with
  | goOn u =>
    intro pid p looking
    rw [notLookup, looking] at h
    cases h
  | destroy u p => cases h
  | _ => trivial

/-- Thread 0 creates the processes 0 and 1. -/
def createBoth : List (Action Nat (Fin 2)) :=
  [.create 0, .kmalloc 0 0, .goOn 0, .goOn 0, .goOn 0, .goOn 0, .create 0, .kmalloc 0 1, .goOn 0,
    .goOn 0, .goOn 0, .goOn 0]

/-- Thread 1 is about to follow the pointer to process 1. -/
theorem lookup_intact_found : ∃ s : State Nat (Fin 2), s.pc 1 = .getting (.looking 1) ∧
    s.kernel.pTable 1 = some 1 ∧ Intact s 1 := by
  have ran : (machine.runIf notLookup start (createBoth ++ [.get 1 1, .goOn 1])).passes (fun t =>
      decide (t.pc 0 = .idle ∧ t.pc 1 = .getting (.looking 1) ∧ t.kernel.pTable 1 = some 1)) = true := by
    decide +kernel
  obtain ⟨t, run, test⟩ := Outcome.passes_done ran
  obtain ⟨idle, looking, named⟩ := of_decide_eq_true test
  have reached : machine.ReachableBy KeepsOut t :=
    (Machine.ReachableBy.initial rfl).runIf notLookup _ (fun _ _ => notLookup_apart) run
  have apart : KeepsOut t (.goOn 1) := by
    intro pid p _ _ v stage
    match v with
    | 0 => simp [idle]
    | 1 => simp [looking]
  exact ⟨t, looking, named, lookup_intact reached apart (by simp [dereferenced, looking, named])⟩

/-- Thread 0 has freed process 1, and thread 1 finds it in the table. -/
theorem lookup_freed : ¬ ∀ (s : State Nat (Fin 2)) a p, machine.Reachable s →
    dereferenced s a = some p → Intact s p := by
  intro intact
  have ran : (machine.run start (createBoth ++ [.destroy 0 1, .goOn 0, .goOn 0, .goOn 0, .goOn 0,
      .get 1 1, .goOn 1])).passes (fun t => decide (t.pc 1 = .getting (.looking 1) ∧
        t.kernel.pTable 1 = some 1 ∧ (t.kernel.heap 1).isNone)) = true := by
    decide +kernel
  obtain ⟨t, run, test⟩ := Outcome.passes_done ran
  obtain ⟨looking, named, freed⟩ := of_decide_eq_true test
  have reached := Machine.Reachable.run _ (.initial rfl) run
  obtain ⟨_, proc, found, _⟩ := intact t (.goOn 1) 1 reached (by simp [dereferenced, looking, named])
  rw [found] at freed
  cases freed

end Os161.ProcTable
