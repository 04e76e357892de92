import Os161.Proc.Parents
import Os161.Proc.WaitExit
import Os161.Vm.CopyInOut

/-!
# What `sys_waitpid` answers

A call of `sys_waitpid` in any run of processes: what it returns to the program, what it leaves in
the program's memory, and what becomes of the child.
-/

set_option linter.unusedSectionVars false

namespace Os161.Life

variable {Id F V : Type} [DecidableEq Id] [DecidableEq F] [DecidableEq V]

/-- A call of `sys_waitpid` that is over. -/
structure Waitpid (Id F V : Type) where
  retval : Except Errno Int
  mem : UserMem
  /-- The state in which `P` has let the call through, if it was there. -/
  woken : Option (State Id F V)
  after : State Id F V

namespace State

/-- The status that `___waitpid` reads between `P` and `proc_destroy`. -/
def kstatus (s : State Id F V) (cur : Id) : Outcome (BitVec 32) :=
  match s.status cur with
  | .waiting p => do
    let proc ← Outcome.deref (s.kernel.heap p)
    return WaitExit.mkwaitExit proc.pRetval
  | _ => .blocked

/-- `sys_waitpid` from its `copyout` on. -/
def copyStatus (pid : Int) (uret : UInt32) (mem : UserMem) (kstatus : BitVec 32) :
    Except Errno Int × UserMem :=
  match mem.copyout (wordBytes ⟨kstatus⟩) uret with
  | (some err, mem) => (.error err, mem)
  | (none, mem) => (.ok pid, mem)

/-- `others` is what the other processes do while the call waits. -/
def sysWaitpid (s : State Id F V) (p0 cur : Id) (pid : Int) (uret : UInt32) (options : Int)
    (mem : UserMem) (others : List (Action Id F V)) : Outcome (Waitpid Id F V) := do
  let (result, s) ← s.waitpid cur pid options
  match result with
  | some (.error err) => return ⟨.error err, mem, none, s⟩
  | some (.ok status) =>
    let (retval, mem) := copyStatus pid uret mem (BitVec.ofInt 32 status)
    return ⟨retval, mem, none, s⟩
  | none => do
    let s ← (machine p0).run s others
    let status ← s.kstatus cur
    let after ← s.reap cur
    let (retval, mem) := copyStatus pid uret mem status
    return ⟨retval, mem, some s, after⟩

/-- The process `p` has this pid, and `cur` is its parent. -/
def Child (s : State Id F V) (cur : Id) (pid : Int) (p : Id) (proc : Proc Id Id Unit) : Prop :=
  ∃ slot : Fin 32, pid = slot.val ∧ s.kernel.pTable slot = some p ∧
    s.kernel.heap p = some proc ∧ proc.pProc = some cur

/-- The child has exited, and the call has destroyed it and stored its status. -/
structure Reaped (cur : Id) (pid : Int) (uret : UInt32) (call : Waitpid Id F V) (p : Id)
    (before : State Id F V) (proc : Proc Id Id Unit) : Prop where
  woken : call.woken = some before
  child : before.Child cur pid p proc
  exited : proc.pIsDead = true
  freed : call.after.kernel.heap p = none
  unlisted : ∀ slot : Fin 32, pid = slot.val → call.after.kernel.pTable slot = none
  stored : ∀ i (_ : i < 4), call.mem (uret.toNat + i) =
    some ((wordBytes ⟨WaitExit.mkwaitExit proc.pRetval⟩).getD i 0)

/-- What a caller may rely on. -/
structure WaitsRight (s : State Id F V) (cur : Id) (pid : Int) (uret : UInt32) (options : Int)
    (mem : UserMem) (call : Outcome (Waitpid Id F V)) : Prop where
  /-- A pid is returned for a child that was there when the call began and that it has reaped. -/
  success : call.Ensures fun call => ∀ n, call.retval = .ok n → n ≠ 0 →
    n = pid ∧ ∃ p, (∃ proc, s.Child cur pid p proc) ∧ ∃ before proc, Reaped cur pid uret call p before proc
  alive : ∀ p proc, options = WaitExit.wnohang → s.Child cur pid p proc → proc.pIsDead = false →
    ∃ mem', call = .done ⟨.ok 0, mem', none, s⟩
  foreign : (∀ p proc, ¬ s.Child cur pid p proc) → ∃ err, call = .done ⟨.error err, mem, none, s⟩

/-- The call does not ask about a child that is alive without waiting for it. -/
def Asks (s : State Id F V) (cur : Id) (pid options : Int) : Prop :=
  ∀ p proc, options = WaitExit.wnohang → s.Child cur pid p proc → proc.pIsDead = true

variable {s t : State Id F V} {p0 cur p : Id} {pid options : Int} {proc : Proc Id Id Unit}

/-! ### While the call waits -/

/-- `cur` waits for the process in this slot. -/
structure WaitsFor (s : State Id F V) (p0 cur p : Id) (slot : Fin 32) : Prop where
  placed : s.Placed p0
  waits : s.status cur = .waiting p
  entry : s.kernel.pTable slot = some p

theorem WaitsFor.parent {slot : Fin 32} (h : s.WaitsFor p0 cur p slot) :
    ∃ proc, s.kernel.heap p = some proc ∧ proc.pPid = slot ∧ proc.pProc = some cur := by
  obtain ⟨proc, found, up⟩ := h.placed.waits cur p h.waits
  obtain ⟨other, here, pid⟩ := h.placed.placed slot p h.entry
  obtain rfl := Option.some.inj (found.symm.trans here)
  exact ⟨proc, found, pid, up⟩

theorem MayWait.not_waiting (may : s.MayWait p0 cur pid options) : s.status cur ≠ .waiting p := by
  rcases may with user | ⟨rfl, _, slot, calling, _⟩
  · simp [user.1]
  · simp [calling]

/-- Nobody else can end the wait or take the child away. -/
theorem WaitsFor.step {slot : Fin 32} (h : s.WaitsFor p0 cur p slot) {a : Action Id F V}
    (other : a ≠ .reap cur) (effect : s.Effect p0 a t) : t.WaitsFor p0 cur p slot := by
  obtain ⟨proc, found, pid, up⟩ := h.parent
  obtain ⟨self, here, _⟩ := h.placed.alive cur (by simp [h.waits])
  have busy : ∀ q, s.status q ≠ .waiting p → cur ≠ q := by
    rintro _ quiet rfl
    exact quiet h.waits
  have fresh : ∀ q, s.kernel.heap q = none → cur ≠ q := by
    rintro _ free rfl
    rw [here] at free
    cases free
  have beside : ∀ {empty : Fin 32}, s.kernel.pTable empty = none → slot ≠ empty := by
    rintro _ empty rfl
    rw [h.entry] at empty
    cases empty
  refine ⟨h.placed.step effect, ?_, ?_⟩
  · cases effect with
    | quiet _ _ => exact h.waits
    | prog running _ _ free _ =>
      rw [goTo_status, if_neg (busy p0 (by simp [running])), spawn_status, if_neg (fresh _ free)]
      exact h.waits
    | startup starting =>
      rw [goTo_status, if_neg (busy _ (by simp [starting]))]
      exact h.waits
    | fork user _ _ free _ =>
      exact (Function.update_of_ne (fresh _ free) ..).trans h.waits
    | exitAlone user _ _ _ =>
      exact goTo_status.trans ((if_neg (busy _ (by simp [user.1]))).trans h.waits)
    | exitChild user _ _ _ _ =>
      exact goTo_status.trans ((if_neg (busy _ (by simp [user.1]))).trans h.waits)
    | turnBack may =>
      rw [goTo_status, if_neg (busy _ may.not_waiting)]
      exact h.waits
    | wait may _ _ =>
      rw [goTo_status, if_neg (busy _ may.not_waiting)]
      exact h.waits
    | @reap q _ _ _ _ _ _ _ =>
      have away : cur ≠ q := fun same => other (same ▸ rfl)
      rw [goTo_status, if_neg away]
      exact h.waits
  · cases effect with
    | prog _ _ next _ _ => exact (Function.update_of_ne (beside next.1) ..).trans h.entry
    | fork _ _ next _ _ => exact (Function.update_of_ne (beside next.1) ..).trans h.entry
    | @exitAlone _ _ _ gone _ _ here alone _ =>
      have away : slot ≠ gone.pPid := by
        rintro rfl
        obtain rfl := Option.some.inj ((h.placed.tabled _ _ here).symm.trans h.entry)
        obtain rfl := Option.some.inj (found.symm.trans here)
        rw [alone] at up
        cases up
      exact (Function.update_of_ne away ..).trans h.entry
    | @reap q _ gone _ waits here _ _ =>
      have away : slot ≠ gone.pPid := by
        rintro rfl
        obtain rfl := Option.some.inj ((h.placed.tabled _ _ here).symm.trans h.entry)
        exact other (h.placed.one_waits h.waits waits ▸ rfl)
      exact (Function.update_of_ne away ..).trans h.entry
    | _ => exact h.entry

theorem WaitsFor.run {slot : Fin 32} (h : s.WaitsFor p0 cur p slot) {others : List (Action Id F V)}
    (apart : ∀ a ∈ others, a ≠ .reap cur) :
    ((machine p0).run s others).Ensures fun t => t.WaitsFor p0 cur p slot :=
  Machine.run_keeps (fun _ _ other waits => step_effect.mono fun _ => waits.step other) others apart
    s h

/-! ### The branches of `___waitpid` -/

theorem Child.slot_pos (h : s.Placed p0) (child : s.Child cur pid p proc) : 0 < pid ∧ pid < 32 := by
  obtain ⟨slot, rfl, entry, found, parent⟩ := child
  have nonzero : slot ≠ 0 := by
    rintro rfl
    obtain ⟨root, there, zero, alone⟩ := h.root
    have first := h.tabled p0 root there
    rw [zero, entry] at first
    obtain rfl := Option.some.inj first
    obtain rfl := Option.some.inj (found.symm.trans there)
    rw [alone] at parent
    cases parent
  rw [ne_eq, Fin.ext_iff, Fin.val_zero] at nonzero
  omega

/-- What `___waitpid` comes to once `proc_get` has found a process. -/
theorem waitpid_found (h : s.Placed p0) {slot : Fin 32} (nonzero : slot ≠ 0)
    (known : options = 0 ∨ options = 1) (entry : s.kernel.pTable slot = some p)
    (found : s.kernel.heap p = some proc) : s.waitpid cur slot.val options = .done
      (if proc.pProc ≠ some cur then (some (.error .echild), s)
        else if proc.pIsDead = false ∧ options = 1 then (some (.ok 0), s)
        else (none, s.goTo cur (.waiting p))) := by
  have valid : ¬ (options ≠ 0 ∧ options ≠ 1) := by omega
  have inside : 0 < (slot.val : Int) ∧ (slot.val : Int) < 32 := by
    rw [ne_eq, Fin.ext_iff, Fin.val_zero] at nonzero
    omega
  have free := h.locks p proc found
  have takes : proc.lockAcquire cur = .done { proc with lock := some (some cur) } := by
    simp [Proc.lockAcquire, AtomicLock.acquire, free, Outcome.deref, Outcome.pure_def]
  have gives : Proc.lockRelease { proc with lock := some (some cur) } cur = .done proc := by
    simp [Proc.lockRelease, AtomicLock.release, ← free, Outcome.deref, Outcome.pure_def]
  have gets : procGet s.kernel cur slot.val = .done (.ok p,
      { s.kernel with
        heap := Function.update s.kernel.heap p (some { proc with lock := some (some cur) }) }) := by
    simp [procGet, nonzero, Outcome.await_bind h.lkAllproc, entry, Kernel.update, found,
      Outcome.deref, takes, Outcome.pure_def]
  have back : ({ s.kernel with heap := Function.update s.kernel.heap p (some proc) } :
      Kernel Id Id Unit) = s.kernel := by
    simp [← found]
  rw [waitpid, if_neg valid, gets]
  simp only [Outcome.done_bind, Outcome.deref, Function.update_self, Kernel.update, gives,
    Function.update_idem, Outcome.pure_def, back]
  split_ifs <;> rfl

theorem waitpid_child (h : s.Placed p0) (child : s.Child cur pid p proc)
    (known : options = 0 ∨ options = 1) : s.waitpid cur pid options = .done
      (if proc.pIsDead = false ∧ options = 1 then (some (.ok 0), s)
        else (none, s.goTo cur (.waiting p))) := by
  obtain ⟨pos, _⟩ := child.slot_pos h
  obtain ⟨slot, rfl, entry, found, parent⟩ := child
  have nonzero : slot ≠ 0 := by
    rintro rfl
    exact absurd pos (by simp)
  rw [waitpid_found h nonzero known entry found, if_neg (not_not.mpr parent)]

theorem waitpid_foreign (h : s.Placed p0) (foreign : ∀ p proc, ¬ s.Child cur pid p proc) :
    ∃ err, s.waitpid cur pid options = .done (some (.error err), s) := by
  by_cases known : options = 0 ∨ options = 1
  · have valid : ¬ (options ≠ 0 ∧ options ≠ 1) := by omega
    by_cases inside : 0 < pid ∧ pid < 32
    · obtain ⟨slot, rfl⟩ : ∃ slot : Fin 32, pid = slot.val := ⟨⟨pid.toNat, by omega⟩, by simp; omega⟩
      have nonzero : slot ≠ 0 := by
        rintro rfl
        exact absurd inside.1 (by simp)
      cases entry : s.kernel.pTable slot with
      | none =>
        refine ⟨.esrch, ?_⟩
        simp [waitpid, valid, procGet, Fin.pos_of_ne_zero nonzero, Outcome.await_bind h.lkAllproc, entry,
          Outcome.pure_def]
      | some p =>
        obtain ⟨proc, found, _⟩ := h.placed slot p entry
        have away : proc.pProc ≠ some cur := fun parent =>
          foreign p proc ⟨slot, rfl, entry, found, parent⟩
        exact ⟨.echild, by rw [waitpid_found h nonzero known entry found, if_pos away]⟩
    · refine ⟨.einval, ?_⟩
      simp [waitpid, valid, procGet, inside, Outcome.pure_def]
  · refine ⟨.einval, ?_⟩
    rw [waitpid, if_pos (by omega)]
    rfl

theorem waitpid_unknown (unknown : ¬ (options = 0 ∨ options = 1)) :
    s.waitpid cur pid options = .done (some (.error .einval), s) := by
  rw [waitpid, if_pos (by omega)]
  rfl

/-! ### The whole call -/

theorem copyStatus_ok {uret : UInt32} {mem mem' : UserMem} {status : BitVec 32} {n : Int}
    (h : copyStatus pid uret mem status = (.ok n, mem')) : n = pid ∧
      ∀ i (_ : i < 4), mem' (uret.toNat + i) = some ((wordBytes ⟨status⟩).getD i 0) := by
  unfold copyStatus at h
  split at h
  · cases h
  · rename_i copied
    obtain ⟨rfl, rfl⟩ : pid = n ∧ _ = mem' := by simpa using h
    obtain ⟨_, stored, _⟩ := UserMem.copyout_done (by simp [wordBytes]) (by simp [wordBytes]) copied
    refine ⟨rfl, fun i short => ?_⟩
    have inside : i < (wordBytes ⟨status⟩).length := short
    rw [stored i inside, List.getD_eq_getElem?_getD, List.getElem?_eq_getElem inside]
    rfl

variable {uret : UInt32} {mem : UserMem} {others : List (Action Id F V)}

/-- A call that turns back leaves the processes alone. -/
theorem sysWaitpid_error {err : Errno}
    (back : s.waitpid cur pid options = .done (some (.error err), s)) :
    s.sysWaitpid p0 cur pid uret options mem others = .done ⟨.error err, mem, none, s⟩ := by
  simp [sysWaitpid, back, Outcome.pure_def]

theorem sysWaitpid_alive {status : Int}
    (back : s.waitpid cur pid options = .done (some (.ok status), s)) :
    s.sysWaitpid p0 cur pid uret options mem others =
      .done ⟨(copyStatus pid uret mem (BitVec.ofInt 32 status)).1,
        (copyStatus pid uret mem (BitVec.ofInt 32 status)).2, none, s⟩ := by
  simp [sysWaitpid, back, Outcome.pure_def]

/-- A call that waits returns the pid only when it has reaped the child. -/
theorem sysWaitpid_waits (h : s.Placed p0) (user : s.User p0 cur) (child : s.Child cur pid p proc)
    (apart : ∀ a ∈ others, a ≠ .reap cur)
    (waits : s.waitpid cur pid options = .done (none, s.goTo cur (.waiting p))) :
    (s.sysWaitpid p0 cur pid uret options mem others).Ensures fun call =>
      ∀ n, call.retval = .ok n → n = pid ∧ ∃ before proc, Reaped cur pid uret call p before proc := by
  obtain ⟨slot, rfl, entry, found, parent⟩ := child
  have asleep : (s.goTo cur (.waiting p)).WaitsFor p0 cur p slot := by
    refine ⟨h.goTo (by simp [user.1]) (by simp) (by simp) fun q same => ?_, Function.update_self .., entry⟩
    cases same
    exact ⟨proc, found, parent⟩
  rw [sysWaitpid, waits, Outcome.done_bind]
  refine (asleep.run apart).then fun u after => ?_
  obtain ⟨proc, found, pidOf, parent⟩ := after.parent
  have reads : u.kstatus cur = .done (WaitExit.mkwaitExit proc.pRetval) := by
    simp [kstatus, after.waits, found, Outcome.deref, Outcome.pure_def]
  rw [reads, Outcome.done_bind]
  refine reap_ensures.then ?_
  rintro t ⟨q, gone, files, waits, there, isDead, _, dropped⟩
  obtain rfl : p = q := by simpa [after.waits] using waits
  obtain rfl := Option.some.inj (found.symm.trans there)
  refine Outcome.ensures_pure.mpr fun n returned => ?_
  obtain ⟨rfl, stored⟩ := copyStatus_ok (Prod.ext returned rfl)
  refine ⟨rfl, u, proc, rfl, ⟨slot, rfl, after.entry, found, parent⟩, isDead, ?_, ?_, stored⟩
  · rw [dropped]
    exact Function.update_self ..
  · intro i same
    obtain rfl : slot = i := by
      rw [Fin.ext_iff]
      omega
    rw [dropped, ← pidOf]
    exact Function.update_self ..

/-- Asked without waiting about a child that is alive, the call returns its pid or `EFAULT`. -/
theorem asks_of_right (h : s.Placed p0) (right : s.WaitsRight cur pid uret options mem
    (s.sysWaitpid p0 cur pid uret options mem others)) : s.Asks cur pid options := by
  intro p proc wnohang child
  by_contra alive
  have lives : proc.pIsDead = false := by simpa using alive
  obtain ⟨mem', returns⟩ := right.alive p proc wnohang child lives
  have back := waitpid_child h child (.inr wnohang)
  rw [if_pos ⟨lives, wnohang⟩] at back
  rw [sysWaitpid_alive back] at returns
  obtain ⟨pos, _⟩ := child.slot_pos h
  obtain ⟨zero, _⟩ := copyStatus_ok (Prod.ext (congrArg Waitpid.retval (Outcome.done.inj returns)) rfl)
  omega

end State

/-- `sys_waitpid` answers as its caller may expect exactly when it is not asked, without waiting,
about a child that is alive. -/
theorem waitpid_right_iff {p0 cur : Id} {s : State Id F V} (h : (machine p0).Reachable s)
    (user : s.User p0 cur) (pid : Int) (uret : UInt32) (options : Int) (mem : UserMem)
    (others : List (Action Id F V)) (apart : ∀ a ∈ others, a ≠ .reap cur) :
    s.WaitsRight cur pid uret options mem
      (s.sysWaitpid p0 cur pid uret options mem others) ↔ s.Asks cur pid options := by
  have placed := reached_placed h
  refine ⟨State.asks_of_right placed, fun asks => ?_⟩
  refine ⟨?_, ?_, ?_⟩
  · by_cases child : ∃ p proc, s.Child cur pid p proc
    · obtain ⟨p, proc, child⟩ := child
      by_cases known : options = 0 ∨ options = 1
      · have waits := State.waitpid_child placed child known
        rw [if_neg (fun ⟨alive, wnohang⟩ => by simp [asks p proc wnohang child] at alive)] at waits
        refine (State.sysWaitpid_waits placed user child apart waits).mono fun call reaps n ok _ => ?_
        obtain ⟨same, reaped⟩ := reaps n ok
        exact ⟨same, p, ⟨proc, child⟩, reaped⟩
      · rw [State.sysWaitpid_error (State.waitpid_unknown known)]
        exact Outcome.ensures_done.mpr nofun
    · obtain ⟨err, back⟩ := State.waitpid_foreign placed fun p proc here => child ⟨p, proc, here⟩
      rw [State.sysWaitpid_error back]
      exact Outcome.ensures_done.mpr nofun
  · intro p proc wnohang child alive
    simp [asks p proc wnohang child] at alive
  · intro foreign
    obtain ⟨err, back⟩ := State.waitpid_foreign placed foreign
    exact ⟨err, State.sysWaitpid_error back⟩

section Runs

/-- The memory of a program, all of it zero. -/
def blank : UserMem := fun _ => some 0

/-- Process `1` waits for process `2`, which exits with `7` in the meantime. -/
theorem waitpid_right_family : ∃ s : State (Fin 3) Nat Unit, (machine 0).Reachable s ∧
    ((s.sysWaitpid 0 1 2 0x1000 0 blank [.exit 2 7 fun _ => false]).passes fun call =>
      call.woken.isSome && (call.mem 0x1003 == some 28)) = true ∧
    s.WaitsRight 1 2 0x1000 0 blank
      (s.sysWaitpid 0 1 2 0x1000 0 blank [.exit 2 7 fun _ => false]) := by
  have passes : ((machine (0 : Fin 3)).run boot family).passes (fun s => decide (s.User 0 1) &&
      (s.sysWaitpid 0 1 2 0x1000 0 blank [.exit 2 7 fun _ => false]).passes fun call =>
        call.woken.isSome && (call.mem 0x1003 == some 28)) = true := by
    decide +kernel
  obtain ⟨s, run, goes⟩ := Outcome.passes_done passes
  obtain ⟨user, goes⟩ := Bool.and_eq_true_iff.mp goes
  have reached : (machine 0).Reachable s := .run _ (.initial boot_initial) run
  refine ⟨s, reached, goes, ?_⟩
  refine (waitpid_right_iff reached (of_decide_eq_true user) 2 0x1000 0 blank _ ?_).mpr nofun
  simp

/-- Process `1` asks about process `2` and does not wait: it gets the pid of a child that is alive. -/
theorem waitpid_wrong : ∃ (s : State (Fin 3) Nat Unit) (proc : Proc (Fin 3) (Fin 3) Unit),
    (machine 0).Reachable s ∧ s.User 0 1 ∧ s.Child 1 2 2 proc ∧ proc.pIsDead = false ∧
    ((s.sysWaitpid 0 1 2 0x1000 1 blank []).passes fun call =>
      match call.retval with | .ok n => n == 2 | .error _ => false) = true ∧
    ¬ s.WaitsRight 1 2 0x1000 1 blank (s.sysWaitpid 0 1 2 0x1000 1 blank []) := by
  have passes : ((machine (0 : Fin 3)).run boot family).passes (fun s => decide (s.User 0 1 ∧
      s.kernel.pTable 2 = some 2 ∧ ((s.kernel.heap 2).bind Proc.pProc) = some 1 ∧
      ((s.kernel.heap 2).map Proc.pIsDead) = some false) &&
      (s.sysWaitpid 0 1 2 0x1000 1 blank []).passes fun call =>
        match call.retval with | .ok n => n == 2 | .error _ => false) = true := by
    decide +kernel
  obtain ⟨s, run, goes⟩ := Outcome.passes_done passes
  obtain ⟨there, goes⟩ := Bool.and_eq_true_iff.mp goes
  obtain ⟨user, entry, parent, lives⟩ := of_decide_eq_true there
  obtain ⟨proc, found, parent⟩ := Option.bind_eq_some_iff.mp parent
  have alive : proc.pIsDead = false := by simpa [found] using lives
  have reached : (machine 0).Reachable s := .run _ (.initial boot_initial) run
  have child : s.Child 1 2 2 proc := ⟨2, rfl, entry, found, parent⟩
  refine ⟨s, proc, reached, user, child, alive, goes, fun right => ?_⟩
  have dead := State.asks_of_right (reached_placed reached) right 2 proc rfl child
  rw [alive] at dead
  cases dead

end Runs

end Os161.Life
