import Os161.Syscall.UserIo
import Os161.Vm.Isolation

/-!
# The address space of a `uio`

`sys_read`, `sys_write` and `load_segment` put the address space of the thread into the `uio`, and
it is the same when `uiomove` compares them. `sys_getcwd` puts that of the process there, which
nothing sets after `proc_create`.
-/

set_option linter.unusedSectionVars false

namespace Os161.UserIo

open Dumbvm (Thread Phase Word Answers)

variable {n : Nat} {T P A User : Type} [DecidableEq T] [DecidableEq P] [DecidableEq A]

/-! ### The threads in a memory step -/

section Memory

variable {s t : Dumbvm.State n T A} {c : Fin n} {x : T}

/-- What runs elsewhere is as before. -/
def Elsewhere (s : Dumbvm.State n T A) (c : Fin n) (t : Dumbvm.State n T A) : Prop :=
  ∀ y, s.running c ≠ some y → t.threads y = s.threads y

theorem here_elsewhere {k : T → Thread A → Outcome (Dumbvm.State n T A)}
    (each : ∀ x th, (k x th).Ensures fun t => ∀ y, y ≠ x → t.threads y = s.threads y) :
    (s.here c k).Ensures (Elsewhere s c) := by
  apply Dumbvm.here_ensures
  intro x th runs _ _
  refine (each x th).mono fun t others y elsewhere => others y ?_
  rintro rfl
  exact elsewhere runs

theorem update_others {o : Option (Thread A)} (same : t.threads = Function.update s.threads x o)
    (y : T) (other : y ≠ x) : t.threads y = s.threads y := by
  rw [same, Function.update_of_ne other]

theorem asCreate_threads (s : Dumbvm.State n T A) (a : A) :
    (s.asCreate a).Ensures fun t => t.threads = s.threads := by
  simp [Dumbvm.State.asCreate, Dumbvm.State.setSpace]

theorem asDestroy_threads (s : Dumbvm.State n T A) (a : A) :
    (s.asDestroy a).Ensures fun t => t.threads = s.threads := by
  simp [Dumbvm.State.asDestroy, Dumbvm.State.setSpace]

theorem activate_elsewhere : (s.activate c).Ensures (Elsewhere s c) := by
  apply here_elsewhere
  intro x th
  exact Outcome.ensures_pure.mpr (update_others rfl)

theorem runprogram_elsewhere (as : Option A) : (s.runprogram c as).Ensures (Elsewhere s c) := by
  apply here_elsewhere
  intro x th
  split
  · rw [Outcome.ensures_bind]
    intro _ _
    split
    · exact Outcome.ensures_pure.mpr fun _ _ => rfl
    · refine (asCreate_threads s _).then fun t same => ?_
      exact Outcome.ensures_pure.mpr (update_others (by rw [← same]; rfl))
  · exact Outcome.ensures_blocked

theorem defineRegion_elsewhere (vaddr sz : Word) :
    (s.defineRegion c vaddr sz).Ensures (Elsewhere s c) := by
  apply here_elsewhere
  intro x th
  split
  · rw [Outcome.ensures_bind, Outcome.ensures_deref]
    intro as found
    dsimp only
    split
    · exact Outcome.ensures_pure.mpr fun _ _ => rfl
    · exact Outcome.ensures_pure.mpr (update_others rfl)
  · exact Outcome.ensures_blocked

theorem prepareLoad_elsewhere (answers : Answers) :
    (s.prepareLoad c answers).Ensures (Elsewhere s c) := by
  apply here_elsewhere
  intro x th
  split
  · simp only [Outcome.ensures_bind]
    intro as _ result _
    exact Outcome.ensures_pure.mpr (update_others rfl)
  · exact Outcome.ensures_blocked

theorem fail_elsewhere : (s.fail c).Ensures (Elsewhere s c) := by
  apply here_elsewhere
  intro x th
  split
  · exact Outcome.ensures_pure.mpr (update_others rfl)
  · exact Outcome.ensures_blocked

theorem finish_elsewhere : (s.finish c).Ensures (Elsewhere s c) := by
  apply here_elsewhere
  intro x th
  split
  · exact Outcome.ensures_pure.mpr (update_others rfl)
  · exact Outcome.ensures_pure.mpr (update_others rfl)
  · exact Outcome.ensures_blocked

theorem execCreate_elsewhere (asNew : Option A) :
    (s.execCreate c asNew).Ensures (Elsewhere s c) := by
  apply here_elsewhere
  intro x th
  split
  · exact Outcome.ensures_pure.mpr fun _ _ => rfl
  · refine (asCreate_threads s _).then fun t same => ?_
    exact Outcome.ensures_pure.mpr (update_others (by rw [← same]; rfl))
  · exact Outcome.ensures_blocked

theorem execAssign_elsewhere : (s.execAssign c).Ensures (Elsewhere s c) := by
  apply here_elsewhere
  intro x th
  split
  · exact Outcome.ensures_pure.mpr (update_others rfl)
  · exact Outcome.ensures_blocked

theorem destroy_elsewhere : (s.destroy c).Ensures (Elsewhere s c) := by
  have one : ∀ (x : T) (th : Thread A) a phase, (do
      let s ← s.asDestroy a
      return s.goOn x th phase : Outcome (Dumbvm.State n T A)).Ensures fun t =>
        ∀ y, y ≠ x → t.threads y = s.threads y := by
    intro x th a phase
    refine (asDestroy_threads s a).then fun t same => ?_
    exact Outcome.ensures_pure.mpr (update_others (by rw [← same]; rfl))
  apply here_elsewhere
  intro x th
  split
  · exact one x th _ _
  · exact one x th _ _
  · exact one x th _ _
  · exact one x th _ _
  · exact Outcome.ensures_blocked

theorem asCopy_elsewhere (asNew : Option A) (answers : Answers) :
    (s.asCopy c asNew answers).Ensures (Elsewhere s c) := by
  apply here_elsewhere
  intro x th
  split
  · exact Outcome.ensures_pure.mpr fun _ _ => rfl
  · rw [Outcome.ensures_bind]
    intro old _
    refine (asCreate_threads s _).then fun t same => ?_
    rw [Outcome.ensures_bind]
    intro result _
    dsimp only
    split
    · simp only [Outcome.ensures_bind]
      intro _ _ _ _ _ _
      exact Outcome.ensures_pure.mpr (update_others (by rw [← same]; rfl))
    · refine (asDestroy_threads t _).then fun u same' => ?_
      exact Outcome.ensures_pure.mpr fun y _ => by rw [← same, ← same']
  · exact Outcome.ensures_blocked

theorem adopt_elsewhere : (s.adopt c).Ensures (Elsewhere s c) := by
  apply here_elsewhere
  intro x th
  split
  · rw [Outcome.ensures_bind]
    intro _ _
    exact Outcome.ensures_pure.mpr (update_others rfl)
  · exact Outcome.ensures_blocked

theorem exit_elsewhere : (s.exit c).Ensures (Elsewhere s c) := by
  apply here_elsewhere
  intro x th
  split
  · split <;> exact Outcome.ensures_pure.mpr (update_others rfl)
  · split <;> exact Outcome.ensures_pure.mpr (update_others rfl)
  · split <;> exact Outcome.ensures_pure.mpr (update_others rfl)
  · exact Outcome.ensures_blocked

/-- The threads keep their address spaces. -/
def Same (s t : Dumbvm.State n T A) : Prop :=
  ∀ y, (t.threads y).map Thread.tAddrspace = (s.threads y).map Thread.tAddrspace

theorem update_same {o : Thread A} {th : Thread A} (there : s.threads x = some th)
    (same : t.threads = Function.update s.threads x (some o))
    (space : o.tAddrspace = th.tAddrspace) : Same s t := by
  intro y
  rw [same]
  by_cases here : y = x
  · subst here
    rw [Function.update_self, there, Option.map_some, Option.map_some, space]
  · rw [Function.update_of_ne here]

theorem quiet_same {a : Dumbvm.Action n T A} (h : quiet a = true) :
    (s.step a).Ensures (Same s) := by
  cases a with
  | switch c next =>
    simp only [Dumbvm.State.step, Dumbvm.State.switch]
    rw [Outcome.ensures_bind]
    intro _ _
    split
    · exact Outcome.ensures_blocked
    · split
      · exact Outcome.ensures_pure.mpr fun _ => rfl
      · exact Outcome.ensures_pure.mpr fun _ => rfl
  | touch c vaddr write =>
    simp only [Dumbvm.State.step, Dumbvm.State.touch]
    refine (Dumbvm.current_ensures s c).then ?_
    rintro ⟨x, th⟩ ⟨_, there, _⟩
    have fault : ∀ pair, Same s (s.setThread x { th with fault := some pair }) := fun pair =>
      update_same there rfl rfl
    rw [Outcome.ensures_bind]
    intro _ _
    dsimp only
    split
    · split
      · rw [Outcome.ensures_bind]
        intro found _
        cases found with
        | error err => exact Outcome.ensures_pure.mpr fun _ => rfl
        | ok pair => exact Outcome.ensures_pure.mpr (fault pair)
      · exact Outcome.ensures_pure.mpr fun _ => rfl
    · rw [Outcome.ensures_bind]
      intro found _
      cases found with
      | error err => exact Outcome.ensures_pure.mpr fun _ => rfl
      | ok pair => exact Outcome.ensures_pure.mpr (fault pair)
  | insert c =>
    simp only [Dumbvm.State.step, Dumbvm.State.insert]
    split
    · exact Outcome.ensures_blocked
    · split
      · exact Outcome.ensures_blocked
      · rename_i th there
        split
        · exact Outcome.ensures_blocked
        · exact Outcome.ensures_pure.mpr (update_same there rfl rfl)
  | allocKpages npages answer =>
    simp only [Dumbvm.State.step, Dumbvm.State.allocKpages]
    rw [Outcome.ensures_bind]
    intro _ _
    exact Outcome.ensures_pure.mpr fun _ => rfl
  | _ => cases h

/-- A step that a thread in a call may not take leaves all others as they were. -/
theorem permits_elsewhere {a : Dumbvm.Action n T A} {place : Place P A} {phase : Phase A}
    (h : permits place phase a = true) :
    ∃ c, processor a = some c ∧ (s.step a).Ensures (Elsewhere s c) := by
  cases a with
  | activate c => exact ⟨c, rfl, activate_elsewhere⟩
  | defineRegion c vaddr sz => exact ⟨c, rfl, defineRegion_elsewhere vaddr sz⟩
  | prepareLoad c answers => exact ⟨c, rfl, prepareLoad_elsewhere answers⟩
  | fail c => exact ⟨c, rfl, fail_elsewhere⟩
  | finish c => exact ⟨c, rfl, finish_elsewhere⟩
  | execCreate c asNew => exact ⟨c, rfl, execCreate_elsewhere asNew⟩
  | execAssign c => exact ⟨c, rfl, execAssign_elsewhere⟩
  | destroy c => exact ⟨c, rfl, destroy_elsewhere⟩
  | asCopy c asNew answers => exact ⟨c, rfl, asCopy_elsewhere asNew answers⟩
  | exit c => exact ⟨c, rfl, exit_elsewhere⟩
  | _ => cases place <;> cases h

end Memory

/-! ### uiomove -/

theorem moveBlocks_uio (copy : UserCopy User) (ptr n : Nat) (t : Transfer A User) :
    (Transfer.moveBlocks copy ptr n t).Ensures fun result =>
      result.2.uio.uioSpace = t.uio.uioSpace ∧ result.2.uio.uioSegflg = t.uio.uioSegflg := by
  have same : ∀ (t : Transfer A User) ptr base size,
      (t.moveBlock copy ptr base size).2.uio = t.uio := by
    intro t ptr base size
    unfold Transfer.moveBlock
    split <;> rfl
  fun_induction Transfer.moveBlocks copy ptr n t with
  | case1 => exact Outcome.ensures_fault
  | case2 => exact Outcome.ensures_panic
  | case3 ptr n t more iov rest blocks size none others ih => exact ih
  | case4 ptr n t more iov rest blocks size some err moved failed =>
    have kept := same t ptr iov.iovBase size
    rw [failed] at kept
    exact Outcome.ensures_done.mpr ⟨congrArg Uio.uioSpace kept, congrArg Uio.uioSegflg kept⟩
  | case5 ptr n t more iov rest blocks size some moved done ih => exact ih
  | case6 => exact Outcome.ensures_done.mpr ⟨rfl, rfl⟩

/-- With the address space of the thread the assertion of `uiomove` holds. -/
theorem uiomove_matched (copy : UserCopy User) (n : Nat) {t : Transfer A User}
    (user : t.uio.uioSegflg ≠ .sysspace) (space : t.uio.uioSpace = t.memory.tAddrspace) :
    t.uiomove copy n = t.moveBlocks copy 0 n := by
  rw [Transfer.uiomove, if_neg user, Outcome.kassert, if_pos space]
  rfl

/-! ### The calls -/

variable {s t : State n T P A User} {c : Fin n}

namespace State

/-- A `uio` that a vnode operation has is for the memory of its thread. -/
def Matched (s : State n T P A User) : Prop :=
  ∀ x th uio, s.vm.threads x = some th → s.place x = .vnode uio →
    uio.uioSegflg ≠ .sysspace ∧ uio.uioSpace = th.tAddrspace

theorem here_ensures {Q : State n T P A User → Prop} {k : T → Thread A → Outcome (State n T P A User)}
    (each : ∀ x th, s.vm.running c = some x → s.vm.threads x = some th → (k x th).Ensures Q) :
    (s.here c k).Ensures Q := by
  refine (Dumbvm.current_ensures s.vm c).then fun (x, th) ⟨runs, there, _⟩ => ?_
  exact each x th runs there

theorem program_ensures {Q : State n T P A User → Prop}
    {k : T → Thread A → Outcome (State n T P A User)}
    (each : ∀ x th, s.vm.running c = some x → s.vm.threads x = some th → s.place x = .outside →
      (k x th).Ensures Q) : (s.program c k).Ensures Q := by
  apply here_ensures
  intro x th runs there
  split
  · rename_i outside
    exact each x th runs there outside
  · exact Outcome.ensures_blocked

theorem Matched.keep (h : s.Matched) (each : ∀ y uio, t.place y = .vnode uio →
    s.place y = .vnode uio ∧ (t.vm.threads y).map Thread.tAddrspace =
      (s.vm.threads y).map Thread.tAddrspace) : t.Matched := by
  intro y th uio there place
  obtain ⟨before, same⟩ := each y uio place
  rw [there, Option.map_some, eq_comm, Option.map_eq_some_iff] at same
  obtain ⟨old, there', space⟩ := same
  rw [← space]
  exact h y old uio there' before

/-- A thread that is not in a vnode operation takes a step. -/
theorem Matched.elsewhere (h : s.Matched) {x : T} (runs : s.vm.running c = some x)
    (outside : ∀ uio, s.place x ≠ .vnode uio) (threads : Elsewhere s.vm c t.vm)
    (place : t.place = s.place) : t.Matched := by
  apply h.keep
  intro y uio is
  rw [place] at is
  refine ⟨is, congrArg _ (threads y ?_)⟩
  rintro here
  obtain rfl := Option.some.inj (runs.symm.trans here)
  exact outside uio is

/-- The running thread goes to another place. -/
theorem Matched.setPlace (h : s.Matched) {x : T} {th : Thread A} {place : Place P A}
    (there : s.vm.threads x = some th) (vm : t.vm = s.vm)
    (moved : t.place = Function.update s.place x place)
    (fits : ∀ uio, place = .vnode uio →
      uio.uioSegflg ≠ .sysspace ∧ uio.uioSpace = th.tAddrspace) : t.Matched := by
  intro y thy uio there' is
  rw [vm] at there'
  rw [moved] at is
  by_cases here : y = x
  · subst here
    rw [Function.update_self] at is
    obtain rfl := Option.some.inj (there.symm.trans there')
    exact fits uio is
  · rw [Function.update_of_ne here] at is
    exact h y thy uio there' is

theorem Matched.memory (h : s.Matched) (a : Dumbvm.Action n T A) :
    (s.memory a).Ensures Matched := by
  unfold State.memory
  rw [Outcome.ensures_bind, Outcome.ensures_await]
  rintro (calm | may)
  · refine (quiet_same calm).then fun vm same => ?_
    exact Outcome.ensures_pure.mpr (h.keep fun y uio is => ⟨is, same y⟩)
  · unfold permitted at may
    split at may
    · cases may
    · rename_i x runs
      rw [Option.any_eq_true] at may
      obtain ⟨th, there, may⟩ := may
      obtain ⟨c, processor, elsewhere⟩ := permits_elsewhere (s := s.vm) may
      rw [processor] at runs
      refine elsewhere.then fun vm others => ?_
      refine Outcome.ensures_pure.mpr (h.elsewhere runs (fun uio is => ?_) others rfl)
      rw [is] at may
      cases a <;> cases may

theorem Matched.fork (h : s.Matched) {vm : Dumbvm.State n T A} {child : T} (p : Option P)
    (threads : ∀ y uio, s.place y = .vnode uio → y ≠ child → vm.threads y = s.vm.threads y) :
    (s.fork vm child p).Matched := by
  apply h.keep
  intro y uio is
  by_cases new : y = child
  · subst new
    exact nomatch (Function.update_self (β := fun _ => Place P A) ..).symm.trans is
  · have place : s.place y = .vnode uio := (Function.update_of_ne new ..).symm.trans is
    exact ⟨place, congrArg _ (threads y uio place new)⟩

theorem Matched.spawn (h : s.Matched) (child : T) (prog : Option (P × Option A)) :
    (s.spawn c child prog).Ensures Matched := by
  have made : (s.vm.spawn c child).Ensures fun vm =>
      ∀ y, y ≠ child → vm.threads y = s.vm.threads y := by
    apply Dumbvm.here_ensures
    intro x th _ _ _
    rw [Outcome.ensures_bind]
    intro _ _
    exact Outcome.ensures_pure.mpr (update_others rfl)
  refine made.then fun vm others => ?_
  split
  · exact Outcome.ensures_pure.mpr (h.fork none fun y _ _ new => others y new)
  · rename_i p leftover
    rw [Outcome.ensures_bind]
    intro procs _
    have same : ({ s with procs := procs } : State n T P A User).Matched := h
    exact Outcome.ensures_pure.mpr (same.fork (some p) fun y _ _ new => others y new)

theorem Matched.runprogram (h : s.Matched) (as : Option A) :
    (s.runprogram c as).Ensures Matched := by
  apply here_ensures
  intro x th runs there
  split
  · rename_i outside
    refine (runprogram_elsewhere as).then fun vm others => ?_
    exact Outcome.ensures_pure.mpr (h.elsewhere runs (fun uio is => nomatch outside.symm.trans is)
      others rfl)
  · exact Outcome.ensures_blocked

theorem Matched.adopt (h : s.Matched) : (s.adopt c).Ensures Matched := by
  apply here_ensures
  intro x th runs there
  split
  · rename_i outside
    refine adopt_elsewhere.then fun vm others => ?_
    exact Outcome.ensures_pure.mpr (h.elsewhere runs (fun uio is => nomatch outside.symm.trans is)
      others rfl)
  · exact Outcome.ensures_blocked

theorem Matched.exit (h : s.Matched) : (s.exit c).Ensures Matched := by
  apply program_ensures
  intro x th runs there outside
  simp only [Outcome.ensures_bind]
  intro p _ procs _ vm done
  exact Outcome.ensures_pure.mpr (h.elsewhere runs (fun uio is => nomatch outside.symm.trans is)
    (exit_elsewhere vm done) rfl)

theorem Matched.forkCreate (h : s.Matched) (pNew : P) (leftover : Option A) :
    (s.forkCreate c pNew leftover).Ensures Matched := by
  apply program_ensures
  intro x th runs there outside
  rw [Outcome.ensures_bind]
  intro procs _
  exact Outcome.ensures_pure.mpr (h.setPlace there rfl rfl fun uio is => nomatch is)

theorem Matched.forkThread (h : s.Matched) (child : T) :
    (s.forkThread c child).Ensures Matched := by
  apply here_ensures
  intro x th runs there
  split
  · rename_i pNew forking
    have made : (s.vm.threadFork c child).Ensures fun vm => ∀ y, y ≠ child →
        s.vm.running c ≠ some y → vm.threads y = s.vm.threads y := by
      apply Dumbvm.here_ensures
      intro x' th' runs' _ _
      split
      · rw [Outcome.ensures_bind]
        intro _ _
        refine Outcome.ensures_pure.mpr fun y new other => ?_
        have differ : y ≠ x' := fun here => other (here ▸ runs')
        exact (Function.update_of_ne differ ..).trans (Function.update_of_ne new ..)
      · exact Outcome.ensures_blocked
    refine made.then fun vm others => ?_
    have forked : (s.fork vm child (some pNew)).Matched := by
      refine h.fork (some pNew) fun y uio is new => others y new ?_
      rintro here
      obtain rfl := Option.some.inj (runs.symm.trans here)
      exact nomatch forking.symm.trans is
    refine Outcome.ensures_pure.mpr (forked.keep fun y uio is => ⟨?_, rfl⟩)
    by_cases here : y = x
    · subst here
      exact nomatch (Function.update_self (β := fun _ => Place P A) ..).symm.trans is
    · exact (Function.update_of_ne here ..).symm.trans is
  · exact Outcome.ensures_blocked

theorem Matched.forkFail (h : s.Matched) : (s.forkFail c).Ensures Matched := by
  apply here_ensures
  intro x th runs there
  split
  · rw [Outcome.ensures_bind]
    intro procs _
    exact Outcome.ensures_pure.mpr (h.setPlace there rfl rfl fun uio is => nomatch is)
  · exact Outcome.ensures_blocked

theorem Matched.procDestroy (h : s.Matched) (p : P) : (s.procDestroy p).Ensures Matched := by
  unfold State.procDestroy
  simp only [Outcome.ensures_bind]
  intro proc _ _ _ procs _
  exact Outcome.ensures_pure.mpr h

theorem Matched.transfer (h : s.Matched) (r : RwRequest) (fOffset : Int) :
    (s.transfer c r fOffset).Ensures Matched := by
  apply program_ensures
  intro x th runs there outside
  refine Outcome.ensures_pure.mpr (h.setPlace there rfl rfl fun uio is => ?_)
  cases is
  exact ⟨UioSeg.noConfusion, rfl⟩

theorem Matched.loadSegment (h : s.Matched) (segment : Segment) :
    (s.loadSegment c segment).Ensures Matched := by
  apply here_ensures
  intro x th runs there
  split
  · refine Outcome.ensures_pure.mpr (h.setPlace there rfl rfl fun uio is => ?_)
    cases is
    refine ⟨?_, rfl⟩
    dsimp only
    split
    · exact UioSeg.noConfusion
    · exact UioSeg.noConfusion
  · exact Outcome.ensures_blocked

theorem Matched.uiomove (h : s.Matched) (copy : UserCopy User) (move : Move) :
    (s.uiomove copy c move).Ensures Matched := by
  apply here_ensures
  intro x th runs there
  split
  · rename_i uio place
    obtain ⟨user, space⟩ := h x th uio there place
    rw [uiomove_matched copy move.n user space]
    refine (moveBlocks_uio copy 0 move.n _).then fun (result, t) kept => ?_
    refine Outcome.ensures_pure.mpr (h.setPlace there rfl rfl fun uio' is => ?_)
    cases is
    exact ⟨kept.2 ▸ user, kept.1.trans space⟩
  · exact Outcome.ensures_blocked

theorem Matched.vnodeReturn (h : s.Matched) : (s.vnodeReturn c).Ensures Matched := by
  apply here_ensures
  intro x th runs there
  split
  · exact Outcome.ensures_pure.mpr (h.setPlace there rfl rfl fun uio is => nomatch is)
  · exact Outcome.ensures_blocked

/-- If `sys_getcwd` calls `uiomove`, the address space of the process is that of the thread. -/
def Named (s : State n T P A User) : Action n T P A → Prop
  | .getcwd c buf _ tCwd => Syscalls.Kernel.badPointer buf = false → tCwd = true →
      ∀ x th p proc, s.vm.running c = some x → s.vm.threads x = some th → s.tdProc x = some p →
        (s.procs p).value? = some proc → proc.tAddrspace = th.tAddrspace
  | _ => True

theorem Matched.getcwd_iff (h : s.Matched) {buf buflen : UInt32} {tCwd : Bool} :
    (s.getcwd c buf buflen tCwd).Ensures fun t =>
      t.Matched ↔ s.Named (.getcwd c buf buflen tCwd) := by
  apply program_ensures
  intro x th runs there outside
  rw [Outcome.ensures_bind, Outcome.ensures_deref]
  intro p mine
  rw [Outcome.ensures_bind, Heap.get_ensures]
  intro proc live
  dsimp only
  split
  · rename_i bad
    exact Outcome.ensures_pure.mpr ⟨fun _ good => (nomatch bad.symm.trans good), fun _ => h⟩
  · split
    · refine Outcome.ensures_pure.mpr ⟨fun matched _ _ x' th' p' proc' runs' there' mine' live' => ?_,
        fun named => ?_⟩
      · obtain rfl := Option.some.inj (runs.symm.trans runs')
        obtain rfl := Option.some.inj (there.symm.trans there')
        obtain rfl := Option.some.inj (mine.symm.trans mine')
        obtain rfl := Option.some.inj (live.symm.trans live')
        exact (matched x th _ there (Function.update_self ..)).2
      · rename_i good cwd
        have space := named (Bool.eq_false_iff.mpr good) cwd x th p proc runs there mine live
        refine h.setPlace there rfl rfl fun uio is => ?_
        cases is
        exact ⟨UioSeg.noConfusion, space⟩
    · rename_i without
      exact Outcome.ensures_pure.mpr ⟨fun _ _ cwd => absurd cwd without, fun _ => h⟩

theorem Matched.step_iff (h : s.Matched) (copy : UserCopy User) (a : Action n T P A) :
    (s.step copy a).Ensures fun t => t.Matched ↔ s.Named a := by
  have all : ∀ {o : Outcome (State n T P A User)}, o.Ensures Matched →
      o.Ensures fun t => t.Matched ↔ True := fun each => each.mono fun _ matched => iff_true_intro matched
  cases a with
  | vm a => exact all (h.memory a)
  | spawn c child prog => exact all (h.spawn child prog)
  | runprogram c as => exact all (h.runprogram as)
  | forkCreate c pNew leftover => exact all (h.forkCreate pNew leftover)
  | forkThread c child => exact all (h.forkThread child)
  | forkFail c => exact all h.forkFail
  | adopt c => exact all h.adopt
  | exit c => exact all h.exit
  | procDestroy p => exact all (h.procDestroy p)
  | transfer c r fOffset => exact all (h.transfer r fOffset)
  | loadSegment c segment => exact all (h.loadSegment segment)
  | getcwd c buf buflen tCwd => exact h.getcwd_iff
  | uiomove c move => exact all (h.uiomove copy move)
  | vnodeReturn c => exact all h.vnodeReturn

end State

theorem matched_reachable {copy : UserCopy User}
    (reached : (machine copy).ReachableBy State.Named s) : s.Matched := by
  apply (machine copy).invariant_ensures _ _ reached
  · rintro s ⟨_, _, _, outside⟩ x th uio _ is
    exact nomatch (outside x).symm.trans is
  · intro s a h named
    exact (h.step_iff copy a).mono fun t both => both.mpr named

/-- Every `uio` is for the memory of the thread, the assertion of `uiomove` holds, and the next step
keeps it so just if it is no `sys_getcwd` for another address space. -/
theorem user_uios_match {copy : UserCopy User}
    (reached : (machine copy).ReachableBy State.Named s) :
    s.Matched ∧
      (∀ x th uio move, s.vm.threads x = some th → s.place x = .vnode uio →
        (s.view th uio move).uiomove copy move.n =
          (s.view th uio move).moveBlocks copy 0 move.n) ∧
      ∀ a t, (machine copy).step s a = .done t → (t.Matched ↔ s.Named a) := by
  have matched := matched_reachable reached
  refine ⟨matched, fun x th uio move there place => ?_, fun a t done => ?_⟩
  · obtain ⟨user, space⟩ := matched x th uio there place
    exact uiomove_matched copy move.n user space
  · exact matched.step_iff copy a t done

/-! ### A program and its child -/

def isNamed (s : State n T P A User) : Action n T P A → Bool
  | .getcwd c _ _ _ => (s.vm.running c).all fun x =>
      (s.vm.threads x).all fun th => (s.tdProc x).all fun p =>
        (s.procs p).value?.all fun proc => proc.tAddrspace = th.tAddrspace
  | _ => true

theorem isNamed_sound {a : Action n T P A} (h : isNamed s a = true) : s.Named a := by
  cases a with
  | getcwd c buf buflen tCwd =>
    intro _ _ x th p proc runs there mine live
    simp only [isNamed, runs, there, mine, live, Option.all_some, decide_eq_true_eq] at h
    exact h
  | _ => trivial

/-- Copies that always succeed. -/
def freeCopy : UserCopy Unit := ⟨fun _ _ buf _ _ => (none, buf), fun _ _ _ _ _ => (none, ())⟩

def boot : State 1 (Fin 3) (Fin 2) Bool Unit where
  vm :=
    { threads := fun x => if x = 0 then some ⟨none, .kernel, none⟩ else none
      running := fun _ => some 0
      tlb := fun _ => Dumbvm.asActivate
      spaces := fun _ => none
      stolen := [] }
  procs _ := .unused
  tdProc _ := none
  args _ := none
  place _ := .outside
  kernel _ := 0
  user := ()

theorem boot_initial : (machine freeCopy).initial boot := by
  refine ⟨⟨fun x th is => ?_, fun c d _ _ _ => Subsingleton.elim c d, fun _ => rfl⟩,
    fun _ => rfl, fun _ => rfl, fun _ => rfl⟩
  simp only [boot] at is
  split at is
  · exact (Option.some.inj is).symm
  · cases is

/-- The menu starts a program of one page. -/
def started : List (Action 1 (Fin 3) (Fin 2) Bool) :=
  [.spawn 0 1 (some (0, none)), .vm (.switch 0 1), .runprogram 0 (some false), .vm (.activate 0),
    .vm (.defineRegion 0 0x400000 0x1000), .vm (.defineRegion 0 0x10000000 0x1000),
    .vm (.prepareLoad 0 ⟨0x10000, 0x20000, 0x30000⟩), .loadSegment 0 ⟨0, 0x400000, 16, 16, true⟩,
    .uiomove 0 ⟨fun _ => 0, 16, 16, 0⟩, .vnodeReturn 0, .vm (.finish 0)]

/-- The program forks a child, whose process was made in memory with a fitting pointer in it. -/
def forked : List (Action 1 (Fin 3) (Fin 2) Bool) :=
  [.forkCreate 0 1 (some true), .vm (.asCopy 0 (some true) ⟨0x40000, 0x50000, 0x60000⟩),
    .forkThread 0 2, .vm (.switch 0 2), .adopt 0, .vm (.activate 0)]

def namesSpace (s : State 1 (Fin 3) (Fin 2) Bool Unit) (x : Fin 3) (space : Option Bool) : Bool :=
  match s.place x with
  | .vnode uio => uio.uioSpace = space
  | _ => false

/-- The child reads, and asks for its directory. -/
theorem user_uios_match_child : ∃ s : State 1 (Fin 3) (Fin 2) Bool Unit,
    namesSpace s 2 (some true) = true ∧
      (s.vm.threads 2).map Thread.tAddrspace = some (some true) ∧ s.Matched := by
  have passes : ((machine freeCopy).runIf isNamed boot (started ++ forked ++
      [.transfer 0 ⟨.read, 0, 0x400000, 8⟩ 0, .uiomove 0 ⟨fun _ => 0, 8, 8, 0⟩, .vnodeReturn 0,
        .getcwd 0 0x400000 64 true, .uiomove 0 ⟨fun _ => 0, 4, 64, 0⟩])).passes
        (fun s => namesSpace s 2 (some true) &&
          (s.vm.threads 2).map Thread.tAddrspace == some (some true)) = true := by
    decide +kernel
  obtain ⟨s, run, facts⟩ := Outcome.passes_done passes
  simp only [Bool.and_eq_true, beq_iff_eq] at facts
  have reached : (machine freeCopy).ReachableBy State.Named s :=
    .runIf _ _ (.initial boot_initial) (fun _ _ => isNamed_sound) run
  exact ⟨s, facts.1, facts.2, (user_uios_match reached).1⟩

/-- The process of the program was made in memory full of zeros. -/
theorem getcwd_panics : ∃ s : State 1 (Fin 3) (Fin 2) Bool Unit,
    (machine freeCopy).Reachable s ∧ ¬ s.Matched ∧
      (machine freeCopy).step s (.uiomove 0 ⟨fun _ => 0, 4, 64, 0⟩) = .panic := by
  have passes : ((machine freeCopy).run boot (started ++ [.getcwd 0 0x400000 64 true])).passes
      (fun s => namesSpace s 1 none &&
        (s.vm.threads 1).map Thread.tAddrspace == some (some false) &&
          ((machine freeCopy).step s (.uiomove 0 ⟨fun _ => 0, 4, 64, 0⟩)).panics) = true := by
    decide +kernel
  obtain ⟨s, run, facts⟩ := Outcome.passes_done passes
  simp only [Bool.and_eq_true, beq_iff_eq] at facts
  obtain ⟨⟨names, space⟩, panics⟩ := facts
  refine ⟨s, .run _ (.initial boot_initial) run, fun matched => ?_, Outcome.eq_panic panics⟩
  unfold namesSpace at names
  split at names
  · rename_i uio place
    obtain ⟨th, there, mine⟩ := Option.map_eq_some_iff.mp space
    have same := (matched 1 th uio there place).2
    rw [of_decide_eq_true names, mine] at same
    cases same
  · cases names

end Os161.UserIo
