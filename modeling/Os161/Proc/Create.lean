import Os161.Proc.Table

/-!
# A `proc_create` that runs out of memory

`proc_alloc_pid` leaves the slot that it has picked empty, and every failing exit of `proc_create`
goes through `proc_dealloc_pid`, which asserts that the slot is taken.
-/

set_option linter.unusedSectionVars false

namespace Os161.ProcTable

variable {Id Thread : Type}

/-- What `proc_create` allocates, in its order. -/
inductive Allocation where
  | proc
  | fd
  | fdLock
  | lock
  | sem

/-- The steps of a `proc_create` in which one allocation fails. `fd_create` gives its table back
itself when there is no lock for it, so its two allocations fail alike. -/
def failingCreate (u : Thread) (p : Id) : Allocation → List (Action Id Thread)
  | .proc => [.create u, .fail u, .goOn u]
  | .fd | .fdLock => [.create u, .kmalloc u p, .fail u, .goOn u]
  | .lock => [.create u, .kmalloc u p, .goOn u, .fail u, .goOn u]
  | .sem => [.create u, .kmalloc u p, .goOn u, .goOn u, .fail u, .goOn u]

/-- The thread is in `proc_create`, and the slot of its pid is still empty. -/
structure Unstored (s : State Id Thread) (u : Thread) (pc : Fin 32 → Pc Id) : Prop where
  free : s.kernel.lkAllproc = none
  place : ∃ pid, s.pc u = pc pid ∧ s.kernel.pTable pid = none

section

variable [DecidableEq Id] [DecidableEq Thread] {s : State Id Thread} {u : Thread} {p : Id}

theorem update_goes {k : Kernel Id Thread Nat} {f : Proc Id Thread Nat → Outcome (Proc Id Thread Nat)}
    {proc new : Proc Id Thread Nat} (found : k.heap p = some proc) (goes : f proc = .done new) :
    k.update p f = .done { k with heap := Function.update k.heap p (some new) } := by
  rw [Kernel.update, Outcome.deref_bind found, goes]
  rfl

theorem free_goes {k : Kernel Id Thread Nat} {proc : Proc Id Thread Nat}
    (found : k.heap p = some proc) :
    k.free p = .done { k with heap := Function.update k.heap p none } := by
  rw [Kernel.free, Outcome.deref_bind found]
  rfl

theorem fdDestroy_goes {proc : Proc Id Thread Nat} (fd : proc.pFd = some 0) :
    proc.fdDestroy = .done { proc with pFd := none } := by
  rw [Proc.fdDestroy, Outcome.deref_bind fd, Outcome.kassert_bind rfl]
  rfl

theorem lockDestroy_goes {proc : Proc Id Thread Nat} (lock : proc.lock = some none) :
    proc.lockDestroy = .done { proc with lock := none } := by
  rw [Proc.lockDestroy, Outcome.deref_bind lock, Outcome.kassert_bind rfl]
  rfl

theorem State.to_pc (kernel : Kernel Id Thread Nat) (pc : Pc Id) : (s.to u kernel pc).pc u = pc :=
  Function.update_self _ _ _

/-- What `proc_alloc_pid` finds when some slot is empty: an empty slot, which stays empty. -/
theorem procAllocPid_done {k : Kernel Id Thread Nat} (free : k.lkAllproc = none)
    (room : ∃ i, k.pTable i = none) :
    ∃ pid n, k.procAllocPid = .done (.ok pid, { k with nextPid := n }) ∧ k.pTable pid = none := by
  have picks : ∀ (n : Nat) (i : Fin 32), (k.pTable i).isNone = true →
      ∃ pid n', Kernel.procFoundSpot { k with nextPid := n } i =
        .done (.ok pid, { k with nextPid := n' }) ∧ k.pTable pid = none := by
    intro n i isNone
    have empty := Option.isNone_iff_eq_none.mp isNone
    refine ⟨i, i + 1, ?_, empty⟩
    rw [Kernel.procFoundSpot, Outcome.kassert_bind (by exact empty)]
    rfl
  rw [Kernel.procAllocPid, Outcome.await_bind free]
  dsimp only
  cases first : Fin.find? fun i => decide (k.scanStart ≤ i.val) && (k.pTable i).isNone with
  | some i => exact picks _ i (Bool.and_eq_true_iff.mp (Fin.eq_true_of_find?_eq_some first)).2
  | none =>
    cases second : Fin.find? fun i => decide (i.val < k.scanStart) && (k.pTable i).isNone with
    | some i => exact picks _ i (Bool.and_eq_true_iff.mp (Fin.eq_true_of_find?_eq_some second)).2
    | none =>
      obtain ⟨i, empty⟩ := room
      have after := Fin.eq_false_of_find?_eq_none first i
      have before := Fin.eq_false_of_find?_eq_none second i
      simp only [empty, Option.isNone_none, Bool.and_true, decide_eq_false_iff_not] at after before
      omega

theorem create_picks (idle : s.pc u = .idle) (free : s.kernel.lkAllproc = none)
    (room : ∃ i, s.kernel.pTable i = none) :
    ∃ t, step s (.create u) = .done t ∧ t.status = s.status ∧ Unstored t u .picked := by
  obtain ⟨pid, n, picks, empty⟩ := procAllocPid_done free room
  refine ⟨s.to u { s.kernel with nextPid := n } (.picked pid), ?_, rfl, free, pid, ?_, empty⟩
  · rw [step, create, Outcome.await_bind idle, picks]
    rfl
  · exact State.to_pc _ _

theorem kmalloc_picks (h : Unstored s u .picked) (unused : s.status p = .unused) :
    ∃ t proc, step s (.kmalloc u p) = .done t ∧ t.kernel.heap p = some proc ∧
      Unstored t u fun pid => .building pid p .fd := by
  obtain ⟨free, pid, place, empty⟩ := h
  let proc : Proc Id Thread Nat := ⟨pid, none, none, none, none, 0, false⟩
  let kernel := { s.kernel with heap := Function.update s.kernel.heap p (some proc) }
  refine ⟨(s.to u kernel (.building pid p .fd)).mark p (.building u), proc, ?_, ?_, free, pid, ?_, empty⟩
  · simp only [step, kmalloc, place, Outcome.await_bind unused]
    rfl
  · exact Function.update_self _ _ _
  · exact Function.update_self _ _ _

/-- An allocation of `proc_create` that succeeds. -/
theorem building_picks {part : Part} (next : Part) (f : Proc Id Thread Nat → Proc Id Thread Nat)
    {proc : Proc Id Thread Nat} (h : Unstored s u fun pid => .building pid p part)
    (found : s.kernel.heap p = some proc)
    (code : ∀ pid, s.pc u = .building pid p part → step s (.goOn u) = do
      let kernel ← s.kernel.update p fun proc => pure (f proc)
      return s.to u kernel (.building pid p next)) :
    ∃ t, step s (.goOn u) = .done t ∧ t.kernel.heap p = some (f proc) ∧
      Unstored t u fun pid => .building pid p next := by
  obtain ⟨free, pid, place, empty⟩ := h
  let kernel := { s.kernel with heap := Function.update s.kernel.heap p (some (f proc)) }
  refine ⟨s.to u kernel (.building pid p next), ?_, Function.update_self _ _ _, free, pid, ?_, empty⟩
  · have pure_goes : (pure (f proc) : Outcome (Proc Id Thread Nat)) = .done (f proc) := rfl
    rw [code pid place, update_goes found pure_goes]
    rfl
  · exact State.to_pc _ _

theorem fd_picks {proc : Proc Id Thread Nat} (h : Unstored s u fun pid => .building pid p .fd)
    (found : s.kernel.heap p = some proc) :
    ∃ t, step s (.goOn u) = .done t ∧ t.kernel.heap p = some { proc with pFd := some 0 } ∧
      Unstored t u fun pid => .building pid p .lock :=
  building_picks .lock (fun proc => { proc with pFd := some 0 }) h found fun pid place => by
    simp only [step, goOn, place]

theorem lock_picks {proc : Proc Id Thread Nat} (h : Unstored s u fun pid => .building pid p .lock)
    (found : s.kernel.heap p = some proc) :
    ∃ t, step s (.goOn u) = .done t ∧ t.kernel.heap p = some { proc with lock := some none } ∧
      Unstored t u fun pid => .building pid p .sem :=
  building_picks .sem (fun proc => { proc with lock := some none }) h found fun pid place => by
    simp only [step, goOn, place]

/-- The last step of a failing exit: the assertion of `proc_dealloc_pid`. -/
theorem failing_panics (h : Unstored s u .failing) : step s (.goOn u) = .panic := by
  obtain ⟨free, pid, place, empty⟩ := h
  simp only [step, goOn, place, Kernel.procDeallocPid, Outcome.await_bind free]
  rw [Outcome.kassert_fails (fun taken => taken empty)]
  rfl

theorem picked_fails (h : Unstored s u .picked) : ∃ t, step s (.fail u) = .done t ∧ Unstored t u .failing := by
  obtain ⟨free, pid, place, empty⟩ := h
  refine ⟨s.to u s.kernel (.failing pid), ?_, free, pid, State.to_pc _ _, empty⟩
  simp only [step, fail, place]

/-- A failing exit after the process structure: what was built is taken down, then it is freed. -/
theorem building_fails {part : Part} {proc : Proc Id Thread Nat}
    (h : Unstored s u fun pid => .building pid p part) (found : s.kernel.heap p = some proc)
    (stage : part = .fd ∨ (part = .lock ∧ proc.pFd = some 0) ∨
      (part = .sem ∧ proc.pFd = some 0 ∧ proc.lock = some none)) :
    ∃ t, step s (.fail u) = .done t ∧ Unstored t u .failing := by
  obtain ⟨free, pid, place, empty⟩ := h
  suffices gone : ∃ heap, step s (.fail u) =
      .done ((s.to u { s.kernel with heap := heap } (.failing pid)).mark p .gone) by
    obtain ⟨heap, fails⟩ := gone
    exact ⟨_, fails, free, pid, Function.update_self _ _ _, empty⟩
  have self : ∀ (heap : Id → Option (Proc Id Thread Nat)) new, Function.update heap p new p = new :=
    fun _ _ => Function.update_self _ _ _
  rcases stage with rfl | ⟨rfl, fd⟩ | ⟨rfl, fd, lock⟩
  · simp only [step, fail, place, free_goes found, Outcome.done_bind]
    exact ⟨_, rfl⟩
  · simp only [step, fail, place, update_goes found (fdDestroy_goes fd), Outcome.done_bind]
    rw [free_goes (self _ _)]
    exact ⟨_, rfl⟩
  · simp only [step, fail, place, update_goes found (lockDestroy_goes lock), Outcome.done_bind]
    rw [update_goes (self _ _) (fdDestroy_goes (by exact fd)), Outcome.done_bind, free_goes (self _ _)]
    exact ⟨_, rfl⟩

theorem run_cons {t : State Id Thread} {a : Action Id Thread} (rest : List (Action Id Thread))
    (goes : step s a = .done t) : machine.run s (a :: rest) = machine.run t rest := by
  change (step s a).bind (fun t => machine.run t rest) = _
  rw [goes]
  rfl

theorem run_panics (h : Unstored s u .failing) : machine.run s [.goOn u] = .panic := by
  change (step s (.goOn u)).bind (fun t => machine.run t []) = _
  rw [failing_panics h]
  rfl

/-- Undisturbed, every `proc_create` with a failing allocation stops the machine. With the steps of
other threads in between, the failing exit gets past its assertion only where another thread has put
a process into the slot meanwhile, and takes that process out of the table. -/
theorem procCreate_never_recovers (part : Allocation) (idle : s.pc u = .idle)
    (free : s.kernel.lkAllproc = none) (room : ∃ i, s.kernel.pTable i = none)
    (unused : s.status p = .unused) :
    machine.run s (failingCreate u p part) = .panic ∧
      ∀ (later t : State Id Thread) (pid : Fin 32), later.pc u = .failing pid →
        step later (.goOn u) = .done t →
        (∃ q, later.kernel.pTable pid = some q ∧ t.kernel.pTable pid = none) := by
  constructor
  · obtain ⟨s₁, creates, status, picked⟩ := create_picks idle free room
    cases part with
    | proc =>
      obtain ⟨s₂, fails, failing⟩ := picked_fails picked
      rw [failingCreate, run_cons _ creates, run_cons _ fails, run_panics failing]
    | fd | fdLock =>
      obtain ⟨s₂, proc, allocates, found, fd⟩ := kmalloc_picks picked (p := p) (status ▸ unused)
      obtain ⟨s₃, fails, failing⟩ := building_fails fd found (.inl rfl)
      rw [failingCreate, run_cons _ creates, run_cons _ allocates, run_cons _ fails, run_panics failing]
    | lock =>
      obtain ⟨s₂, proc, allocates, found, fd⟩ := kmalloc_picks picked (p := p) (status ▸ unused)
      obtain ⟨s₃, fdCreates, found, lock⟩ := fd_picks fd found
      obtain ⟨s₄, fails, failing⟩ := building_fails lock found (.inr (.inl ⟨rfl, rfl⟩))
      rw [failingCreate, run_cons _ creates, run_cons _ allocates, run_cons _ fdCreates,
        run_cons _ fails, run_panics failing]
    | sem =>
      obtain ⟨s₂, proc, allocates, found, fd⟩ := kmalloc_picks picked (p := p) (status ▸ unused)
      obtain ⟨s₃, fdCreates, found, lock⟩ := fd_picks fd found
      obtain ⟨s₄, lockCreates, found, sem⟩ := lock_picks lock found
      obtain ⟨s₅, fails, failing⟩ := building_fails sem found (.inr (.inr ⟨rfl, rfl, rfl⟩))
      rw [failingCreate, run_cons _ creates, run_cons _ allocates, run_cons _ fdCreates,
        run_cons _ lockCreates, run_cons _ fails, run_panics failing]
  · intro later t pid place goes
    simp only [step, goOn, place] at goes
    obtain ⟨kernel, deallocates, same⟩ := Outcome.bind_done.mp goes
    obtain rfl := Outcome.pure_done.mp same
    have takes : (later.kernel.procDeallocPid pid).Ensures fun k =>
        ∃ q, later.kernel.pTable pid = some q ∧ k.pTable pid = none := by
      refine Kernel.procDeallocPid_ensures.mpr fun _ taken => ?_
      obtain ⟨q, named⟩ := Option.ne_none_iff_exists'.mp taken
      exact ⟨q, named, Function.update_self _ _ _⟩
    exact takes kernel deallocates

end

/-- The table after thread 0 has created process 0. -/
def oneCreated : Outcome (State Nat Nat) :=
  machine.run start [.create 0, .kmalloc 0 0, .goOn 0, .goOn 0, .goOn 0, .goOn 0]

theorem procCreate_never_recovers_one : ∃ s : State Nat Nat, machine.Reachable s ∧
    s.kernel.pTable 0 = some 0 ∧ machine.run s (failingCreate 0 1 .sem) = .panic := by
  have created : oneCreated.passes (fun s => decide (s.pc 0 = .idle ∧ s.kernel.lkAllproc = none ∧
      s.kernel.pTable 0 = some 0 ∧ s.kernel.pTable 1 = none ∧ s.status 1 = .unused)) = true := by
    decide +kernel
  obtain ⟨s, run, test⟩ := Outcome.passes_done created
  obtain ⟨idle, free, named, empty, unused⟩ := of_decide_eq_true test
  have reached : machine.Reachable s := Machine.Reachable.run _ (.initial rfl) run
  exact ⟨s, reached, named, (procCreate_never_recovers .sem idle free ⟨1, empty⟩ unused).1⟩

/-- In a reachable table with one process, each of the allocations is made to fail. -/
theorem procCreate_panics : ∃ s : State Nat Nat, machine.Reachable s ∧ ∀ part : Allocation,
    ¬ ∃ t, machine.run s (failingCreate 0 1 part) = .done t ∧ t.kernel.pTable = s.kernel.pTable := by
  have created : oneCreated.passes (fun _ => true) = true := by decide +kernel
  have panics : ∀ part : Allocation, (oneCreated.bind fun s =>
      .done (machine.run s (failingCreate 0 1 part)).panics).passes id = true := by
    intro part
    cases part <;> decide +kernel
  obtain ⟨s, creates, _⟩ := Outcome.passes_done created
  refine ⟨s, Machine.Reachable.run _ (.initial rfl) creates, fun part ⟨t, goes, _⟩ => ?_⟩
  have isPanic := panics part
  rw [creates] at isPanic
  have panicked : (machine.run s (failingCreate 0 1 part)).panics = true := isPanic
  rw [Outcome.eq_panic panicked] at goes
  cases goes

end Os161.ProcTable
