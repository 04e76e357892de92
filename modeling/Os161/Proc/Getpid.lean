import Os161.Proc.Parents

/-!
# Process ids

`sys_fork` returns `p_pid`, which is the slot of the process, and `sys_getpid` returns `t_pid`,
which nothing sets: a new thread keeps what `kmalloc` left there.
-/

set_option linter.unusedSectionVars false

namespace Os161.Life

open Files

variable {Id F V : Type} [DecidableEq Id] [DecidableEq F] [DecidableEq V]

/-- A pid as it comes back in a register. -/
def pidT (pid : Fin 32) : BitVec 32 := BitVec.ofNat 32 pid

theorem pidT_inj {pid pid' : Fin 32} (same : pidT pid = pidT pid') : pid = pid' := by
  have values := congrArg BitVec.toNat same
  simp only [pidT, BitVec.toNat_ofNat] at values
  omega

namespace State

/-- The pid that a fork has returned is that of the child, for its whole life. -/
structure PidsAgree (s : State Id F V) : Prop where
  key : ∀ p proc pid, s.returned p = some pid → s.kernel.heap p = some proc →
    pid ≠ 0 ∧ ∀ cur, ∃ k, procGet s.kernel cur pid.val = .done (.ok p, k)
  getpid : ∀ p pid, s.returned p = some pid → s.status p ≠ .ended → s.sysGetpid p = pidT pid
  apart : ∀ p q pid, s.returned p = some pid → s.status p ≠ .ended → s.status q ≠ .ended →
    q ≠ p → s.sysGetpid q ≠ pidT pid

/-- What is left in the `t_pid` of a forked thread is the pid that its process gets, which no other
thread has; and a program from the menu has no forked process's pid there. -/
def Keyed (s : State Id F V) : Action Id F V → Prop
  | .fork _ _ _ threaded tPid _ => threaded = true → ∀ pid, s.NextFree pid →
    tPid = pidT pid ∧ ∀ q, s.status q ≠ .ended → s.sysGetpid q ≠ pidT pid
  | .prog _ _ _ cargs threaded tPid _ => cargs = true → threaded = true →
    ∀ q pid, s.returned q = some pid → s.status q ≠ .ended → tPid ≠ pidT pid
  | _ => True

/-- What a fork has returned is the slot of the process. -/
structure Named (s : State Id F V) (p0 : Id) : Prop where
  slot : ∀ p proc pid, s.returned p = some pid → s.kernel.heap p = some proc → proc.pPid = pid
  menu : s.returned p0 = none
  getpid : ∀ p pid, s.returned p = some pid → s.status p ≠ .ended → s.sysGetpid p = pidT pid
  apart : ∀ p q pid, s.returned p = some pid → s.status p ≠ .ended → s.status q ≠ .ended →
    q ≠ p → s.sysGetpid q ≠ pidT pid

variable {s t : State Id F V} {p0 p q cur : Id} {proc : Proc Id Id Unit} {files : Files Id F V}

theorem procGet_found {k : Kernel Id Id Unit} {pid : Fin 32} (free : k.lkAllproc = none)
    (inside : pid ≠ 0) (entry : k.pTable pid = some p) (found : k.heap p = some proc)
    (unlocked : proc.lock = some none) : ∃ next, procGet k cur pid.val = .done (.ok p, next) := by
  have bounds : 0 < (pid.val : Int) ∧ (pid.val : Int) < 32 := by
    have := Fin.pos_iff_ne_zero.mpr inside
    omega
  refine ⟨{ k with heap := Function.update k.heap p (some { proc with lock := some (some cur) }) }, ?_⟩
  rw [procGet, dif_pos bounds]
  simp [entry, free, Outcome.await, Kernel.update, found, Proc.lockAcquire, unlocked, Outcome.deref,
    Outcome.pure_def]

theorem Named.agree (h : s.Named p0) (placed : s.Placed p0) : s.PidsAgree := by
  refine ⟨fun p proc pid returned found => ?_, h.getpid, h.apart⟩
  have entry := placed.tabled p proc found
  rw [h.slot p proc pid returned found] at entry
  have inside : pid ≠ 0 := by
    rintro rfl
    obtain ⟨root, there, zero, _⟩ := placed.root
    have first := placed.tabled p0 root there
    rw [zero, entry] at first
    rw [Option.some.inj first, h.menu] at returned
    cases returned
  exact ⟨inside, fun cur => procGet_found placed.lkAllproc inside entry found
    (placed.locks p proc found)⟩

theorem Named.goTo (h : s.Named p0) {status : Status Id}
    (runs : status ≠ .ended → s.status cur ≠ .ended) : (s.goTo cur status).Named p0 := by
  have before : ∀ p, (s.goTo cur status).status p ≠ .ended → s.status p ≠ .ended := by
    intro p
    rw [goTo_status]
    split
    · rename_i same
      exact fun going => same ▸ runs going
    · exact id
  exact ⟨h.slot, h.menu, fun p pid returned going => h.getpid p pid returned (before p going),
    fun p q pid returned going going' =>
      h.apart p q pid returned (before p going) (before q going')⟩

theorem Named.drop (h : s.Named p0) {pid : Fin 32} : (s.drop p pid files).Named p0 :=
  ⟨fun q other n returned here => h.slot q other n returned (drop_heap.mp here).2, h.menu,
    h.getpid, h.apart⟩

/-- A new thread with what is left in its `t_pid`. -/
theorem Named.spawn (h : s.Named p0) {parent : Id} {pid : Fin 32} {n : Nat} {status : Status Id}
    {tPid : BitVec 32} (menu : p ≠ p0)
    (unlike : ∀ q pid, s.returned q = some pid → s.status q ≠ .ended → tPid ≠ pidT pid) :
    ((s.enter p (newProc pid (some parent)) n files).spawn parent p status tPid).Named p0 := by
  set t := (s.enter p (newProc pid (some parent)) n files).spawn parent p status tPid
  have new : t.returned p = none := Function.update_self ..
  have own : t.tPid p = tPid := Function.update_self ..
  have returned' : ∀ q, q ≠ p → t.returned q = s.returned q := fun q other =>
    Function.update_of_ne other ..
  have heap' : ∀ q, q ≠ p → t.kernel.heap q = s.kernel.heap q := fun q other =>
    Function.update_of_ne other ..
  have tPid' : ∀ q, q ≠ p → t.tPid q = s.tPid q := fun q other => Function.update_of_ne other ..
  have status' : ∀ q, q ≠ p → t.status q = s.status q := fun q other => Function.update_of_ne other ..
  have old : ∀ q m, t.returned q = some m → q ≠ p := by
    rintro q m at_ rfl
    cases new.symm.trans at_
  constructor
  case slot =>
    intro q other m at_ found
    have away := old q m at_
    exact h.slot q other m ((returned' q away).symm.trans at_) ((heap' q away).symm.trans found)
  case menu => exact (returned' p0 menu.symm).trans h.menu
  case getpid =>
    intro q m at_ runs
    have away := old q m at_
    exact (tPid' q away).trans (h.getpid q m ((returned' q away).symm.trans at_)
      ((status' q away).symm.trans_ne runs))
  case apart =>
    intro q r m at_ runs runs' other
    have away := old q m at_
    have at_ := (returned' q away).symm.trans at_
    have runs := (status' q away).symm.trans_ne runs
    by_cases fresh : r = p
    · exact (congrArg t.tPid fresh).trans_ne (own.trans_ne (unlike q m at_ runs))
    · exact (tPid' r fresh).trans_ne
        (h.apart q r m at_ runs ((status' r fresh).symm.trans_ne runs') other)

/-- `sys_fork` returns the slot of the child, which its thread has in its `t_pid`. -/
theorem Named.answer (h : s.Named p0) (menu : p ≠ p0) (found : s.kernel.heap p = some proc)
    (own : s.sysGetpid p = pidT proc.pPid)
    (others : ∀ q, s.status q ≠ .ended → q ≠ p → s.sysGetpid q ≠ pidT proc.pPid) :
    (s.answer p proc.pPid).Named p0 := by
  have at_ : ∀ q m, (s.answer p proc.pPid).returned q = some m ↔
      q = p ∧ m = proc.pPid ∨ q ≠ p ∧ s.returned q = some m := fun q m => update_some
  constructor
  case slot =>
    intro q other m returned here
    rcases (at_ q m).mp returned with ⟨rfl, rfl⟩ | ⟨_, returned⟩
    · obtain rfl : proc = other := Option.some.inj (found.symm.trans here)
      rfl
    · exact h.slot q other m returned here
  case menu => exact (Function.update_of_ne menu.symm ..).trans h.menu
  case getpid =>
    intro q m returned runs
    rcases (at_ q m).mp returned with ⟨rfl, rfl⟩ | ⟨_, returned⟩
    · exact own
    · exact h.getpid q m returned runs
  case apart =>
    intro q r m returned runs runs' other
    rcases (at_ q m).mp returned with ⟨rfl, rfl⟩ | ⟨_, returned⟩
    · exact others r runs' other
    · exact h.apart q r m returned runs runs' other

theorem Named.step (h : s.Named p0) (placed : s.Placed p0) {a : Action Id F V} (keyed : s.Keyed a)
    (effect : s.Effect p0 a t) : t.Named p0 := by
  have menu : ∀ p, s.kernel.heap p = none → p ≠ p0 := by
    rintro p free rfl
    obtain ⟨root, there, _⟩ := placed.root
    cases free.symm.trans there
  cases effect with
  | quiet => exact ⟨h.slot, h.menu, h.getpid, h.apart⟩
  | prog running made next free _ =>
    refine (h.spawn (menu _ free) (keyed made.1 made.2)).goTo fun _ => ?_
    rw [spawn_status]
    split
    · exact nofun
    · exact placed.stays
  | startup starting => exact h.goTo fun _ => by simp [starting]
  | @fork cur p _ threaded tPid _ pid n files user made next free near =>
    obtain ⟨same, others⟩ := keyed made pid next
    have spawned : ((s.enter p (newProc pid (some cur)) n files).spawn cur p .running tPid).Named p0 := by
      apply h.spawn (menu p free)
      intro q m returned runs again
      obtain ⟨other, found⟩ := placed.found runs
      have entry := placed.tabled q other found
      rw [h.slot q other m returned found, ← pidT_inj (same.symm.trans again), next.1] at entry
      cases entry
    have here : (s.enter p (newProc pid (some cur)) n files).kernel.heap p =
      some (newProc pid (some cur)) := enter_heap_self
    refine spawned.answer (menu p free) here ?_ ?_
    · exact (Function.update_self ..).trans same
    · intro q runs away
      rw [spawn_status, if_neg away] at runs
      exact (Function.update_of_ne away ..).trans_ne (others q runs)
  | @exitAlone cur _ _ proc files user found parent near =>
    obtain ⟨slot, menu, getpid, apart⟩ : (s.goTo cur .ended).Named p0 := h.goTo nofun
    have gone : (s.leave cur).Named p0 := ⟨slot, menu, getpid, apart⟩
    exact gone.drop
  | @exitChild cur _ _ proc files n user found _ _ _ =>
    obtain ⟨slot, menu, getpid, apart⟩ : (s.goTo cur .ended).Named p0 := h.goTo nofun
    refine ⟨fun q other m returned here => ?_, menu, getpid, apart⟩
    rcases revise_heap.mp here with ⟨rfl, rfl⟩ | ⟨_, here⟩
    · exact h.slot q proc m returned found
    · exact h.slot q other m returned here
  | turnBack may => exact h.goTo fun _ => may.not_ended
  | wait may _ _ => exact h.goTo fun _ => may.not_ended
  | @reap cur p proc files waits _ _ _ =>
    refine h.drop.goTo fun _ => ?_
    show s.status cur ≠ .ended
    simp [waits]

theorem Named.start (start : (machine p0).initial s) : s.Named p0 := by
  obtain ⟨-, -, -, -, -, -, -, returned, -⟩ := start
  have none' : ∀ p pid, s.returned p ≠ some pid := fun p pid => by simp [returned]
  exact ⟨fun p _ pid at_ => (none' p pid at_).elim, by rw [returned],
    fun p pid at_ => (none' p pid at_).elim, fun p _ pid at_ => (none' p pid at_).elim⟩

end State

/-- Where the memory of each new thread happens to hold the right pid, pids agree. -/
theorem pids_agree {p0 : Id} {s : State Id F V} (h : (machine p0).ReachableBy State.Keyed s) :
    s.PidsAgree := by
  have kept := (machine p0).invariant_ensures (P := fun s => s.Placed p0 ∧ s.Named p0)
    (fun _ start => ⟨.start start, .start start⟩)
    (fun _ _ ⟨placed, named⟩ keyed => State.step_effect.mono fun _ effect =>
      ⟨placed.step effect, named.step placed keyed effect⟩) h
  exact kept.2.agree kept.1

section Runs

instance (s : State (Fin 3) F V) (a : Action (Fin 3) F V) : Decidable (s.Keyed a) :=
  match a with
  | .fork .. => inferInstanceAs (Decidable (_ → ∀ _, _ ∧ _ → _ ∧ _))
  | .prog .. => inferInstanceAs (Decidable (_ → _ → ∀ _ _, _ → _ → _))
  | .startup .. | .exit .. | .wait .. | .reap .. | .open .. | .dup2 .. | .close .. =>
    .isTrue trivial

/-- Process `2` is forked, and its pid is there by chance. -/
theorem pids_agree_family : ∃ s : State (Fin 3) Nat Unit, (machine 0).ReachableBy State.Keyed s ∧
    s.returned 2 = some 2 ∧ s.status 2 = .running ∧ s.PidsAgree := by
  have passes : ((machine (0 : Fin 3)).runIf (fun s a => decide (s.Keyed a)) boot
      [.prog 1 true (fun i => FileCalls.good i) true true 1 fun _ => false,
        .startup 1 ⟨none, true, none, none⟩, .fork 1 2 true true 2 fun _ => false]).passes
      (fun s => decide (s.returned 2 = some 2 ∧ s.status 2 = .running)) = true := by
    decide +kernel
  obtain ⟨s, run, place⟩ := Outcome.passes_done passes
  have reached : (machine 0).ReachableBy State.Keyed s :=
    .runIf _ _ (.initial boot_initial) (fun _ _ => of_decide_eq_true) run
  obtain ⟨returned, runs⟩ := of_decide_eq_true place
  exact ⟨s, reached, returned, runs, pids_agree reached⟩

/-- `sys_fork` returns 2 to the parent, and `sys_getpid` returns 0 in the child. -/
theorem pids_agree_wrong : ∃ s : State (Fin 3) Nat Unit, (machine 0).Reachable s ∧ ¬ s.PidsAgree ∧
    s.returned 2 = some 2 ∧ s.status 2 = .running ∧ s.sysGetpid 2 = 0 := by
  have passes : ((machine (0 : Fin 3)).run boot family).passes
      (fun s => decide (s.returned 2 = some 2 ∧ s.status 2 = .running ∧ s.sysGetpid 2 = 0)) =
        true := by
    decide +kernel
  obtain ⟨s, run, place⟩ := Outcome.passes_done passes
  obtain ⟨returned, runs, zero⟩ := of_decide_eq_true place
  refine ⟨s, .run _ (.initial boot_initial) run, fun agree => ?_, returned, runs, zero⟩
  have own := agree.getpid 2 2 returned (by simp [runs])
  rw [zero] at own
  exact absurd own (by decide)

end Runs

end Os161.Life
