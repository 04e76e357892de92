import Os161.File.Calls
import Os161.File.Sharing

/-!
# Reference counts of open files

In every run in which `sys_dup2` has nothing to close and `sys_close` takes the last reference, the
counts are right. The other calls of `sys_dup2` and `sys_close` miscount.
-/

set_option linter.unusedSectionVars false

namespace Os161

namespace FileCalls

open Files

variable {P F V : Type} [DecidableEq P] [DecidableEq F] [DecidableEq V] [Fintype P]

def owners (phase : P → Phase) (p : P) : Bool := decide (phase p = .running)

/-- The invariant of the layer: running processes own their tables, and there are few of them. -/
structure Inv (s : State P F V) : Prop where
  held : Held (owners s.phase) s.files.sharing
  room : countWhere (· ≠ .absent) s.phase ≤ 32

theorem owners_room {phase : P → Phase} (room : countWhere (· ≠ .absent) phase ≤ 32) :
    countWhere (· = true) (owners phase) ≤ 32 := by
  refine le_trans (Finset.card_le_card ?_) room
  intro p member
  have running : phase p = .running := by simpa [owners] using member
  simp [running]

theorem owners_running {phase : P → Phase} {p : P} (running : phase p = .running) :
    owners phase p = true := by
  simp [owners, running]

theorem owners_other {phase : P → Phase} {p q : P} {after : Phase} (other : q ≠ p) :
    owners (Function.update phase p after) q = owners phase q := by
  simp [owners, other]

theorem Inv.room_after {s : State P F V} (h : Inv s) {p : P} {after : Phase}
    (there : s.phase p ≠ .absent) :
    countWhere (· ≠ .absent) (Function.update s.phase p after) ≤ 32 := by
  have moved := countWhere_update (p := (· ≠ Phase.absent)) (f := s.phase) p after
  have room := h.room
  rw [if_pos there] at moved
  split at moved <;> omega

/-- A new process owns an empty table. -/
structure Fresh (s : State P F V) (p : P) (files : Files P F V) : Prop where
  absent : s.phase p = .absent
  held : Held (owners (Function.update s.phase p .running)) files.sharing
  room : countWhere (· ≠ .absent) (Function.update s.phase p .running) ≤ 32

theorem procCreate_fresh {s : State P F V} (h : Inv s) (p : P) (room : Bool × Bool) :
    (s.procCreate p room).Ensures fun result => ∀ files, result = .ok files →
      Fresh s p files ∧ ∀ i, files.sharing.slots (p, i) = none := by
  rw [State.procCreate, Outcome.ensures_bind, Outcome.ensures_await]
  intro absent
  have empty : ∀ i, s.files.sharing.slots (p, i) = none :=
    fun i => h.held.idle p i (by simp [owners, absent])
  split
  · rename_i few
    rw [Outcome.ensures_pure]
    intro files created
    unfold fdCreate at created
    split at created
    · obtain rfl := Except.ok.inj created
      have same := s.files.emptyTable_sharing p (some ⟨fun _ => none, some none, 0⟩) empty (by simp)
      refine ⟨⟨absent, ?_, ?_⟩, fun i => by rw [same]; exact empty i⟩
      · rw [same]
        exact h.held.change empty fun q other => owners_other other
      · have moved := countWhere_update (p := (· ≠ Phase.absent)) (f := s.phase) p .running
        rw [if_neg (by simp [absent]), if_pos (by simp)] at moved
        omega
    · cases created
  · simp

section Fresh

variable {s : State P F V} {p : P} {files : Files P F V}

theorem Fresh.enter (fresh : Fresh s p files) : Inv (s.enter p files .running) :=
  ⟨fresh.held, fresh.room⟩

/-- Once its files are closed the process is gone without a trace. -/
theorem Fresh.leave (fresh : Fresh s p files) (h : Inv s)
    (empty : ∀ i, files.sharing.slots (p, i) = none) : Inv { s with files := files } :=
  ⟨fresh.held.change empty fun _ other => (owners_other other).symm, h.room⟩

theorem Fresh.of_held (fresh : Fresh s p files) {after : Files P F V}
    (held : Held (owners (Function.update s.phase p .running)) after.sharing) : Fresh s p after :=
  ⟨fresh.absent, held, fresh.room⟩

theorem Fresh.mine (_ : Fresh s p files) :
    owners (Function.update s.phase p .running) p = true :=
  owners_running (Function.update_self ..)

theorem abandon_inv (h : Inv s) (fresh : Fresh s p files) (cur : P) (reclaims : Reclaims V) :
    (s.abandon files p cur reclaims).Ensures Inv := by
  refine (closeAllF_held fresh.held cur reclaims).then fun (_, after) ⟨held, _, empty⟩ => ?_
  refine (after.fdDestroy_sharing p empty).then fun t same => ?_
  rw [Outcome.ensures_pure]
  rw [← same] at held empty
  exact (fresh.of_held held).leave h empty

theorem openEach_held (fresh : Fresh s p files) (cur : P) (reclaims : Reclaims V)
    (opens : List (UInt32 × Answers F V)) :
    (openStandardFiles.openEach p cur reclaims files opens).Ensures fun (result, after) =>
      Fresh s p after ∧ ∀ err, result = .error err → ∀ i, after.sharing.slots (p, i) = none := by
  induction opens generalizing files with
  | nil => exact Outcome.ensures_pure.mpr ⟨fresh, by simp⟩
  | cons first rest ih =>
    obtain ⟨flags, answers⟩ := first
    refine (kOpen_held (owners_room fresh.room) fresh.mine fresh.held cur flags answers).then
      fun (result, opened) held => ?_
    cases result with
    | ok i => exact ih (fresh.of_held held)
    | error err =>
      refine (closeAllF_held held cur reclaims).then fun (_, after) ⟨held, _, empty⟩ => ?_
      exact Outcome.ensures_pure.mpr ⟨fresh.of_held held, fun _ _ => empty⟩

end Fresh

/-- The calls that keep the counts: `sys_dup2` has nothing to close, and `sys_close` takes the last
reference. -/
def Keeps (s : State P F V) : Action P F V → Prop
  | .dup2 cur oldfd newfd _ => s.files.ReplacesNothing cur oldfd newfd
  | .close cur fd _ => s.files.ClosesLast cur fd
  | _ => True

theorem start_inv {s : State P F V} (h : Inv s) (cur p : P) (room : Bool × Bool)
    (answers : Fin 3 → Answers F V) (threaded : Bool) (reclaims : Reclaims V) :
    (s.start cur p room answers threaded reclaims).Ensures Inv := by
  rw [State.start, Outcome.ensures_bind, Outcome.ensures_await]
  intro _
  refine (procCreate_fresh h p room).then fun result created => ?_
  cases result with
  | error err => exact Outcome.ensures_pure.mpr h
  | ok files =>
    obtain ⟨fresh, _⟩ := created files rfl
    refine (openEach_held fresh cur reclaims _).then fun (result, after) ⟨fresh, closed⟩ => ?_
    cases result with
    | error err =>
      have empty := closed err rfl
      refine (after.fdDestroy_sharing p empty).then fun t same => ?_
      rw [Outcome.ensures_pure]
      exact (fresh.of_held (same ▸ fresh.held)).leave h (same ▸ empty)
    | ok _ =>
      cases threaded with
      | true => exact Outcome.ensures_pure.mpr fresh.enter
      | false => exact abandon_inv h fresh cur reclaims

theorem fork_inv {s : State P F V} (h : Inv s) (cur p : P) (room : Bool × Bool) (threaded : Bool)
    (reclaims : Reclaims V) : (s.fork cur p room threaded reclaims).Ensures Inv := by
  rw [State.fork, Outcome.ensures_bind, Outcome.ensures_await]
  intro _
  refine (procCreate_fresh h p room).then fun result created => ?_
  cases result with
  | error err => exact Outcome.ensures_fault
  | ok files =>
    obtain ⟨fresh, empty⟩ := created files rfl
    refine (fileCopy_held (owners_room fresh.room) fresh.mine fresh.held cur cur empty).then
      fun after held => ?_
    have fresh := fresh.of_held held
    cases threaded with
    | true => exact Outcome.ensures_pure.mpr fresh.enter
    | false => exact abandon_inv h fresh cur reclaims

theorem exit_inv {s : State P F V} (h : Inv s) (cur : P) (reclaims : Reclaims V) :
    (s.exit cur reclaims).Ensures Inv := by
  rw [State.exit, Outcome.ensures_bind, Outcome.ensures_await]
  intro running
  refine (closeAllF_held h.held cur reclaims).then fun (_, after) ⟨held, _, empty⟩ => ?_
  simp only [Outcome.ensures_bind, Outcome.ensures_kassert, Outcome.ensures_pure]
  intro _
  exact ⟨held.change empty fun _ other => owners_other other, h.room_after (by simp [running])⟩

theorem reap_inv {s : State P F V} (h : Inv s) (p : P) : (s.reap p).Ensures Inv := by
  rw [State.reap, Outcome.ensures_bind, Outcome.ensures_await]
  intro exited
  have empty : ∀ i, s.files.sharing.slots (p, i) = none :=
    fun i => h.held.idle p i (by simp [owners, exited])
  refine (s.files.fdDestroy_sharing p empty).then fun t same => ?_
  rw [Outcome.ensures_pure]
  rw [← same] at empty
  exact ⟨(same ▸ h.held).change empty fun _ other => owners_other other,
    h.room_after (by simp [exited])⟩

theorem step_inv {s : State P F V} (h : Inv s) (a : Action P F V) (keeps : Keeps s a) :
    (s.step a).Ensures Inv := by
  cases a with
  | start cur p room answers threaded reclaims =>
    exact start_inv h cur p room answers threaded reclaims
  | «open» cur copied flags garbage answers =>
    rw [State.step, Outcome.ensures_bind, Outcome.ensures_await]
    intro running
    refine (sysOpen_held (owners_room h.room) (owners_running running) h.held copied flags garbage
      answers).then fun (_, after) held => ?_
    exact Outcome.ensures_pure.mpr ⟨held, h.room⟩
  | dup2 cur oldfd newfd reclaims =>
    rw [State.step, Outcome.ensures_bind, Outcome.ensures_await]
    intro running
    refine (sysDup2_held (owners_room h.room) (owners_running running) h.held oldfd newfd reclaims
      keeps).then fun (_, after) held => ?_
    exact Outcome.ensures_pure.mpr ⟨held, h.room⟩
  | close cur fd reclaims =>
    rw [State.step, Outcome.ensures_bind, Outcome.ensures_await]
    intro _
    refine (sysClose_held h.held fd reclaims keeps).then fun (_, after) held => ?_
    exact Outcome.ensures_pure.mpr ⟨held, h.room⟩
  | fork cur p room threaded reclaims => exact fork_inv h cur p room threaded reclaims
  | exit cur reclaims => exact exit_inv h cur reclaims
  | reap p => exact reap_inv h p

theorem initial_inv {p0 : P} {s : State P F V} (start : (machine p0).initial s) : Inv s := by
  obtain ⟨tables, files, phase⟩ := start
  have empty : ∀ place, s.files.sharing.slots place = none := by
    intro ⟨p, i⟩
    by_cases here : p = p0
    · subst here
      simp [sharing, tables]
    · simp [sharing, tables, here]
  have none? : ∀ f, s.files.sharing.counts f = none := by
    intro f
    simp [sharing, files, Cell.value?]
  refine ⟨⟨⟨fun f n count => ?_, fun place f slot => ?_⟩, fun p i _ => empty (p, i)⟩, ?_⟩
  · simp [none?] at count
  · simp [empty] at slot
  · have moved := countWhere_update (p := (· ≠ Phase.absent)) (f := fun _ : P => Phase.absent) p0
      .running
    have before : countWhere (· ≠ Phase.absent) (fun _ : P => Phase.absent) = 0 := by
      simp [countWhere_eq_zero]
    rw [if_neg (by simp), if_pos (by simp), before] at moved
    rw [phase]
    omega

instance (s : State P F V) (a : Action P F V) : Decidable (Keeps s a) :=
  match a with
  | .dup2 .. => inferInstanceAs (Decidable (_ ∨ _ ∨ _))
  | .close .. => inferInstanceAs (Decidable (∀ f ∈ _, _ = _))
  | .start .. | .open .. | .fork .. | .exit .. | .reap .. => .isTrue trivial

/-! ### Runs with one device -/

section Runs

/-- The menu's process `0` before anything is opened. -/
def boot : State (Fin 3) Nat Unit where
  files := {
    tables := Function.update (fun _ => none) 0 (some ⟨fun _ => none, some none, 0⟩)
    files := fun _ => .unused
    vnodes := fun _ => some 1 }
  phase := Function.update (fun _ => .absent) 0 .running

/-- The answers when everything is there; the file comes to lie at `f`. -/
def good (f : Nat) : Answers Nat Unit := ⟨.ok (), some f, true, .ok 0, fun _ => false⟩

def startOne : Action (Fin 3) Nat Unit :=
  .start 0 1 (true, true) (fun i => good i) true fun _ => false

end Runs

end FileCalls

end Os161
