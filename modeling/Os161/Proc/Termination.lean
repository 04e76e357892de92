import Os161.Proc.Parents

/-!
# The end of a process

A process ends well when its thread ends in `sys_exit`. A thread that returns from
`cmd_progthread` ends without it.
-/

set_option linter.unusedSectionVars false

namespace Os161.Life

open Files

variable {Id F V : Type} [DecidableEq Id] [DecidableEq F] [DecidableEq V]

namespace State

structure Terminated (s : State Id F V) : Prop where
  ended : ∀ p proc, s.kernel.heap p = some proc → proc.pProc ≠ none → s.status p = .ended →
    proc.pIsDead = true ∧ (∃ n, proc.pSem = some (n + 1)) ∧
      ∀ i, s.files.sharing.slots (p, i) = none
  waiters : ∀ q p, s.status q = .waiting p → s.status p = .ended →
    (∃ proc, s.kernel.heap p = some proc) ∧ s.reap q ≠ .blocked

/-- Every program that is started comes to run. -/
def Runs : Action Id F V → Prop
  | .startup _ outcome => runprogram outcome = none
  | _ => True

instance (a : Action Id F V) : Decidable (Runs a) :=
  match a with
  | .startup _ outcome => inferInstanceAs (Decidable (runprogram outcome = none))
  | .prog .. | .fork .. | .exit .. | .wait .. | .reap .. | .open .. | .dup2 .. | .close .. =>
    .isTrue trivial

/-- A process with a parent that has lost its thread has exited. -/
def Settled (s : State Id F V) : Prop :=
  ∀ p proc, s.kernel.heap p = some proc → proc.pProc ≠ none → s.status p = .ended →
    proc.pIsDead = true ∧ (∃ n, proc.pSem = some (n + 1)) ∧
      ∀ i, s.files.sharing.slots (p, i) = none

variable {s t : State Id F V} {p0 p q cur : Id} {proc : Proc Id Id Unit} {files : Files Id F V}

theorem semDestroy_ne_blocked {proc : Proc Id Id Unit} : proc.semDestroy ≠ .blocked := by
  simp [Proc.semDestroy]

theorem lockDestroy_ne_blocked {proc : Proc Id Id Unit} : proc.lockDestroy ≠ .blocked := by
  simp [Proc.lockDestroy]

theorem fdDestroy_ne_blocked {files : Files Id F V} : files.fdDestroy p ≠ .blocked := by
  simp [fdDestroy, fdLockDestroy, updateTable]

theorem update_lkAllproc {k : Kernel Id Id Unit} {f : Proc Id Id Unit → Outcome (Proc Id Id Unit)}
    (free : k.lkAllproc = none) : (k.update p f).Ensures fun next => next.lkAllproc = none := by
  refine update_only.mono fun next ⟨_, _, _, _, same⟩ => ?_
  rw [same]
  exact free

theorem free_lkAllproc {k : Kernel Id Id Unit} (free : k.lkAllproc = none) :
    (k.free p).Ensures fun next => next.lkAllproc = none :=
  Kernel.free_ensures.mpr fun _ _ => free

/-- `proc_destroy` waits for `lk_allproc` only. -/
theorem procDestroy_ne_blocked (free : s.kernel.lkAllproc = none) : s.procDestroy p ≠ .blocked := by
  unfold procDestroy
  apply Outcome.bind_ne_blocked Outcome.deref_ne_blocked
  intro proc
  apply (update_lkAllproc free).ne_blocked (Kernel.update_ne_blocked fun _ _ => semDestroy_ne_blocked)
  intro k₁ free₁
  apply (update_lkAllproc free₁).ne_blocked (Kernel.update_ne_blocked fun _ _ => lockDestroy_ne_blocked)
  intro k₂ free₂
  apply Outcome.bind_ne_blocked fdDestroy_ne_blocked
  intro files
  apply (free_lkAllproc free₂).ne_blocked (by simp [Kernel.free])
  intro k₃ free₃
  simp [Kernel.procDeallocPid, free₃]

/-- `P` and the lock are there for whoever waits for a process that has ended. -/
theorem Settled.reap (h : s.Settled) (placed : s.Placed p0) (waits : s.status q = .waiting p)
    (ended : s.status p = .ended) : s.reap q ≠ .blocked := by
  obtain ⟨proc, found, parent⟩ := placed.waits q p waits
  obtain ⟨_, ⟨n, count⟩, _⟩ := h p proc found (by simp [parent]) ended
  have free := placed.locks p proc found
  have takes : proc.semP.Ensures fun new => new.lock = some none := by
    simp only [Proc.semP, Outcome.ensures_bind, Outcome.ensures_deref, AtomicSem.acquire_ensures,
      Outcome.ensures_pure]
    exact fun _ _ _ _ => free
  unfold State.reap
  rw [waits]
  refine (update_here found takes).ne_blocked (Kernel.update_ne_blocked fun other here => ?_) ?_
  · obtain rfl : proc = other := Option.some.inj (found.symm.trans here)
    simp [Proc.semP, count]
  rintro k₁ ⟨new, free, rfl⟩
  refine update_only.ne_blocked (Kernel.update_ne_blocked fun other here => ?_) ?_
  · obtain rfl : new = other := by simpa using here
    simp [Proc.lockAcquire, Proc.lockRelease, free]
  rintro k₂ ⟨_, _, _, _, rfl⟩
  exact Outcome.bind_ne_blocked (procDestroy_ne_blocked placed.lkAllproc) fun _ =>
    Outcome.pure_ne_blocked

theorem Settled.terminated (h : s.Settled) (placed : s.Placed p0) : s.Terminated :=
  ⟨h, fun q p waits ended =>
    ⟨(placed.waits q p waits).imp fun _ => And.left, h.reap placed waits ended⟩⟩

/-- The slots of a process whose table stays as it is. -/
theorem slots_same {files' : Files Id F V} (same : files'.tables p = files.tables p) (i : Fin 8) :
    files'.sharing.slots (p, i) = files.sharing.slots (p, i) := by
  simp [Files.sharing, same]

theorem Settled.withFiles (h : s.Settled) {n : Nat}
    (near : Near (fun q => s.kernel.heap q = none ∨ s.status q = .running) s.files files) :
    (s.withFiles n files).Settled := by
  intro p proc found parent ended
  obtain ⟨isDead, posted, closed⟩ := h p proc found parent ended
  refine ⟨isDead, posted, fun i => ?_⟩
  have other : ¬ (s.kernel.heap p = none ∨ s.status p = .running) := by
    have here : s.kernel.heap p = some proc := found
    have stopped : s.status p = .ended := ended
    simp [here, stopped]
  exact (slots_same (near p other) i).trans (closed i)

theorem Settled.goTo (h : s.Settled) {status : Status Id} (runs : status ≠ .ended) :
    (s.goTo cur status).Settled := by
  intro p proc found parent
  rw [goTo_status]
  split
  · exact fun ended => (runs ended).elim
  · exact h p proc found parent

theorem Settled.drop (h : s.Settled) {pid : Fin 32} (near : Near (· = p) s.files files) :
    (s.drop p pid files).Settled := by
  intro q proc here parent stopped
  obtain ⟨away, here⟩ := drop_heap.mp here
  obtain ⟨isDead, posted, closed⟩ := h q proc here parent stopped
  exact ⟨isDead, posted, fun i => (slots_same (near q away) i).trans (closed i)⟩

/-- A process gets a child, which has nothing of what lay there before. -/
theorem Settled.spawn (h : s.Settled) {parent : Id} {pid : Fin 32} {n : Nat} {status : Status Id}
    {tPid : BitVec 32} (running : s.status parent = .running)
    (near : Near (fun q => q = p ∨ q = parent) s.files files) (fresh : status ≠ .ended) :
    ((s.enter p (newProc pid (some parent)) n files).spawn parent p status tPid).Settled := by
  intro q proc found up
  rw [spawn_status]
  split
  · exact fun ended => (fresh ended).elim
  · rename_i new
    intro stopped
    rw [spawn_kernel, enter_heap] at found
    have found := (found.resolve_left fun here => new here.1).2
    obtain ⟨isDead, posted, closed⟩ := h q proc found up stopped
    have other : ¬ (q = p ∨ q = parent) := by
      rintro (here | rfl)
      · exact new here
      · cases running.symm.trans stopped
    exact ⟨isDead, posted, fun i => (slots_same (near q other) i).trans (closed i)⟩

/-- A process with a parent exits: its thread ends and it is posted in the same call. -/
theorem Settled.exit (h : s.Settled) {exitcode : BitVec 32} {n : Nat}
    (near : Near (· = cur) s.files files) (closed : ∀ i, files.sharing.slots (cur, i) = none) :
    ((s.leave cur).revise cur (dead proc exitcode n) files).Settled := by
  intro q other here up stopped
  rcases revise_heap.mp here with ⟨rfl, rfl⟩ | ⟨mine, here⟩
  · exact ⟨rfl, ⟨n, rfl⟩, closed⟩
  · have before : (s.leave cur).status q = s.status q := goTo_status.trans (if_neg mine)
    obtain ⟨isDead, posted, empty⟩ := h q other here up (before.symm.trans stopped)
    exact ⟨isDead, posted, fun i => (slots_same (near q mine) i).trans (empty i)⟩

theorem Settled.step (h : s.Settled) {a : Action Id F V} (runs : Runs a) (effect : s.Effect p0 a t) :
    t.Settled := by
  cases effect with
  | quiet _ near => exact h.withFiles near
  | prog running _ _ _ near =>
    exact (h.spawn running (near.mono fun _ => .inl) (by simp)).goTo (by simp)
  | startup starting =>
    rw [show runprogram _ = none from runs]
    exact h.goTo nofun
  | @fork cur p _ _ tPid _ pid n files user _ _ _ near =>
    have spawned : ((s.enter p (newProc pid (some cur)) n files).spawn cur p .running tPid).Settled :=
      h.spawn user.1 near nofun
    exact spawned
  | @exitAlone cur _ _ proc files user found parent near =>
    have gone : (s.leave cur).Settled := by
      intro q other here up stopped
      have mine : q ≠ cur := by
        rintro rfl
        obtain rfl : proc = other := Option.some.inj (found.symm.trans here)
        exact up parent
      have before : (s.leave cur).status q = s.status q := goTo_status.trans (if_neg mine)
      exact h q other here up (before.symm.trans stopped)
    exact gone.drop near
  | exitChild user found _ near closed => exact h.exit near closed
  | turnBack may => exact h.goTo nofun
  | wait may found parent => exact h.goTo nofun
  | reap waits found isDead near => exact (h.drop near).goTo nofun

theorem Settled.start (start : (machine p0).initial s) : s.Settled := by
  intro p proc here parent
  rw [(initial_heap start p proc here).2] at parent
  exact (parent rfl).elim

/-- A program that does not come to run leaves a process behind that is not dead. -/
theorem Settled.step_iff (h : s.Settled) (placed : s.Placed p0) {a : Action Id F V}
    (step : s.step p0 a = .done t) : t.Terminated ↔ Runs a := by
  have effect := step_effect t step
  constructor
  · intro terminated
    cases a with
    | startup p outcome =>
      obtain ⟨_, starting, after⟩ := Outcome.bind_done.mp step
      have starting := Outcome.await_done.mp starting
      cases program : runprogram outcome with
      | none => exact program
      | some err =>
        rw [program] at after
        obtain rfl := Outcome.pure_done.mp after
        obtain ⟨proc, found, parent⟩ := placed.starts p starting
        obtain ⟨other, here, alive⟩ := placed.alive p (by simp [starting])
        obtain rfl := Option.some.inj (found.symm.trans here)
        have isDead := (terminated.ended p proc found parent (Function.update_self ..)).1
        rw [alive] at isDead
        cases isDead
    | _ => trivial
  · exact fun runs => (h.step runs effect).terminated (placed.step effect)

end State

/-- Where every program that is started comes to run, a thread ends only with its process, and any
other start ends that. -/
theorem threads_end_processes {p0 : Id} {s : State Id F V}
    (h : (machine p0).ReachableBy (fun _ a => State.Runs a) s) :
    s.Terminated ∧ ∀ a t, (machine p0).step s a = .done t → (t.Terminated ↔ State.Runs a) := by
  have settled : s.Settled := (machine p0).invariant_ensures (fun _ => State.Settled.start)
    (fun _ _ settled runs => State.step_effect.mono fun _ => settled.step runs) h
  have placed := reached_placed h
  exact ⟨settled.terminated placed, fun _ _ => settled.step_iff placed⟩

section Runs

/-- Process `2` has exited and process `1` waits for it. -/
theorem threads_end_processes_family :
    ∃ s : State (Fin 3) Nat Unit, (machine 0).ReachableBy (fun _ a => State.Runs a) s ∧
      s.status 1 = .waiting 2 ∧ s.status 2 = .ended ∧ s.Terminated := by
  have passes : ((machine (0 : Fin 3)).runIf (fun s a => decide (State.Runs a)) boot
      (family ++ [.exit 2 0 fun _ => false, .wait 1 2 0])).passes
      (fun s => decide (s.status 1 = .waiting 2 ∧ s.status 2 = .ended)) = true := by
    decide +kernel
  obtain ⟨s, run, place⟩ := Outcome.passes_done passes
  have reached : (machine 0).ReachableBy (fun _ a => State.Runs a) s :=
    .runIf _ _ (.initial boot_initial) (fun _ _ => of_decide_eq_true) run
  obtain ⟨waits, ended⟩ := of_decide_eq_true place
  exact ⟨s, reached, waits, ended, (threads_end_processes reached).1⟩

/-- The program is not found: its thread ends, the menu waits for it, and nothing can end that. -/
theorem threads_end_processes_wrong :
    ∃ s : State (Fin 3) Nat Unit, (machine 0).Reachable s ∧ ¬ s.Terminated ∧
      s.status 0 = .waiting 1 ∧ s.status 1 = .ended ∧ s.reap 0 = .blocked := by
  have passes : ((machine (0 : Fin 3)).run boot
      [.prog 1 true (fun i => FileCalls.good i) true true 0 fun _ => false,
        .startup 1 ⟨some .enoent, true, none, none⟩, .wait 0 1 0]).passes
      (fun s => decide (s.status 0 = .waiting 1 ∧ s.status 1 = .ended) &&
        match s.reap 0 with | .blocked => true | _ => false) = true := by
    decide +kernel
  obtain ⟨s, run, place⟩ := Outcome.passes_done passes
  simp only [Bool.and_eq_true, decide_eq_true_eq] at place
  obtain ⟨⟨waits, ended⟩, blocks⟩ := place
  have blocked : s.reap 0 = .blocked := by
    split at blocks
    · assumption
    · cases blocks
  refine ⟨s, .run _ (.initial boot_initial) run, fun terminated => ?_, waits, ended, blocked⟩
  exact (terminated.waiters 0 1 waits ended).2 blocked

end Runs

end Os161.Life
