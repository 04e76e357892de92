import Os161.File.Descriptors

/-!
# Descriptors that are not open

Five calls take descriptors and check them against three different limits. Only `get_file` uses the
size of the table.
-/

set_option linter.unusedSectionVars false

namespace Os161.Files

variable {P F V D : Type} [DecidableEq P] [DecidableEq F] [DecidableEq V]
variable {s t : Files P F V} {p cur : P} {f : F} {oldfd newfd fd : Int} {r : RwRequest} {d : D}
variable {reclaims : Reclaims V} {ops : VnodeOps P V D}

/-- A call with descriptors, and its other arguments. -/
inductive FdCall where
  | read (fd : Int) (buffer nBytes : UInt32)
  | write (fd : Int) (buffer nBytes : UInt32)
  | close (fd : Int)
  | dup2 (oldfd newfd : Int)
  | lseek (q : Seek)

/-- What the call returns and leaves. `sys_close` returns 0. -/
def perform (ops : VnodeOps P V D) (s : Files P F V) (cur : P) (reclaims : Reclaims V) (d : D) :
    FdCall → Outcome (Except Errno Int × Files P F V × D)
  | .read fd buffer nBytes => s.sysRead ops cur fd buffer nBytes d
  | .write fd buffer nBytes => s.sysWrite ops cur fd buffer nBytes d
  | .close fd => do
    let (result, s) ← s.sysClose cur fd reclaims
    return (result.map fun _ => 0, s, d)
  | .dup2 oldfd newfd => do
    let (result, s) ← s.sysDup2 cur oldfd newfd reclaims
    return (result, s, d)
  | .lseek q => do
    let (result, s) ← s.sysLseek ops cur q d
    return (result, s, d)

/-- The descriptor is outside of the table, or its slot is `NULL`. -/
def NotOpen (s : Files P F V) (cur : P) (fd : Int) : Prop :=
  index fd = none ∨ s.slot cur fd = .done none

/-- A descriptor of the call is not open. That of `newfd` need only be in the table. -/
def Bad (s : Files P F V) (cur : P) : FdCall → Prop
  | .read fd _ _ | .write fd _ _ | .close fd => NotOpen s cur fd
  | .dup2 oldfd newfd => NotOpen s cur oldfd ∨ index newfd = none
  | .lseek q => NotOpen s cur q.fd

/-- The call returns `EBADF` and changes nothing. -/
def Refuses (ops : VnodeOps P V D) (s : Files P F V) (cur : P) (reclaims : Reclaims V) (d : D)
    (call : FdCall) : Prop :=
  s.perform ops cur reclaims d call = .done (.error .ebadf, s, d)

/-- The checks of the call see that a descriptor is not open before the table is read. -/
def Sees (s : Files P F V) (cur : P) : FdCall → Prop
  | .read fd _ _ | .write fd _ _ | .close fd => ¬ (8 ≤ fd ∧ fd ≤ 129)
  | .dup2 oldfd newfd => dup2Bounds oldfd newfd = false ∨ s.slot cur oldfd = .done none
  | .lseek q => index q.fd = none ∨ s.fdLkOf cur = some none

theorem index_none : index fd = none ↔ fd < 0 ∨ 8 ≤ fd := by
  unfold index
  split <;> simp <;> omega

theorem slot_outside (outside : index fd = none) (entry : Option F) :
    s.slot cur fd ≠ .done entry := by
  intro found
  obtain ⟨_, _, _, inside, _⟩ := slot_done.mp found
  rw [outside] at inside
  cases inside

theorem slot_inside {entry : Option F} (found : s.slot cur fd = .done entry) : 0 ≤ fd ∧ fd < 8 := by
  obtain ⟨_, i, _, inside, _⟩ := slot_done.mp found
  have := mt index_none.mpr (by rw [inside]; exact Option.some_ne_none i)
  omega

/-! ### `sys_read`, `sys_write` and `sys_close` -/

theorem transfer_refused (checks : s.checkTransfer cur r = .done (.error .ebadf)) :
    s.transfer ops cur r d = .done (.error .ebadf, s, d) := by
  rw [transfer, enterTransfer_error.mpr ⟨checks, rfl⟩]
  rfl

theorem checkTransfer_unseen (outside : index r.fd = none) (unseen : 8 ≤ r.fd ∧ r.fd ≤ 129)
    (checked : Except Errno F) : s.checkTransfer cur r ≠ .done checked := by
  intro checks
  rw [checkTransfer, if_neg (by omega)] at checks
  obtain ⟨entry, found, _⟩ := Outcome.bind_done.mp checks
  exact slot_outside outside entry found

theorem transfer_refuses_iff (bad : NotOpen s cur r.fd) :
    s.transfer ops cur r d = .done (.error .ebadf, s, d) ↔ ¬ (8 ≤ r.fd ∧ r.fd ≤ 129) := by
  constructor
  · intro refuses unseen
    obtain ⟨_, enters, _⟩ := Outcome.bind_done.mp refuses
    obtain ⟨checked, checks, _⟩ := Outcome.bind_done.mp enters
    exact checkTransfer_unseen (index_none.mpr (.inr unseen.1)) unseen checked checks
  · intro seen
    apply transfer_refused
    rw [checkTransfer]
    split
    · rfl
    · rcases bad with outside | empty
      · have := index_none.mp outside
        omega
      · rw [empty]
        rfl

theorem sysClose_refuses_iff (bad : NotOpen s cur fd) :
    s.sysClose cur fd reclaims = .done (.error .ebadf, s) ↔ ¬ (8 ≤ fd ∧ fd ≤ 129) := by
  rw [sysClose]
  constructor
  · intro refuses unseen
    rw [if_neg (by omega)] at refuses
    obtain ⟨fdesc, _, refuses⟩ := Outcome.bind_done.mp refuses
    obtain ⟨i, inside, _⟩ := Outcome.bind_done.mp refuses
    have outside := index_none.mpr (.inr unseen.1)
    rw [Outcome.deref_done, outside] at inside
    cases inside
  · intro seen
    split
    · rfl
    · rcases bad with outside | empty
      · have := index_none.mp outside
        omega
      · obtain ⟨fdesc, i, table, inside, slot⟩ := slot_done.mp empty
        simp only [table, inside, Outcome.deref, Outcome.done_bind, slot]
        rfl

/-! ### `sys_dup2` and `sys_lseek` -/

theorem dup2Bounds_inside (inside : 0 ≤ fd ∧ fd < 8) :
    dup2Bounds oldfd fd = dup2Bounds oldfd 0 := by
  simp only [dup2Bounds]
  have positive : ¬ fd < 0 := by omega
  have small : ¬ 128 ≤ fd := by omega
  simp [positive, small]

theorem sysDup2_refuses_iff (bad : NotOpen s cur oldfd ∨ index newfd = none) :
    s.sysDup2 cur oldfd newfd reclaims = .done (.error .ebadf, s) ↔
      dup2Bounds oldfd newfd = false ∨ s.slot cur oldfd = .done none := by
  rw [sysDup2]
  cases bounds : dup2Bounds oldfd newfd with
  | false => exact iff_of_true rfl (.inl rfl)
  | true =>
    simp only [if_true, Bool.true_eq_false, false_or]
    constructor
    · intro refuses
      obtain ⟨fdesc, table, refuses⟩ := Outcome.bind_done.mp refuses
      obtain ⟨old, inside, refuses⟩ := Outcome.bind_done.mp refuses
      rw [Outcome.deref_done] at table inside
      rw [slot_done]
      cases slot : fdesc.fdOfiles old with
      | none => exact ⟨fdesc, old, table, inside, slot⟩
      | some f =>
        have found : s.slot cur oldfd = .done (some f) :=
          slot_done.mpr ⟨fdesc, old, table, inside, slot⟩
        rw [slot] at refuses
        rcases bad with (outside | empty) | outside
        · exact (slot_outside outside _ found).elim
        · rw [found] at empty
          cases empty
        · dsimp only at refuses
          split at refuses
          · cases refuses
          · rw [outside] at refuses
            cases refuses
    · intro empty
      obtain ⟨fdesc, i, table, inside, slot⟩ := slot_done.mp empty
      simp only [table, inside, Outcome.deref, Outcome.done_bind, slot]
      rfl

theorem sysLseek_refuses_iff {q : Seek} (bad : NotOpen s cur q.fd) :
    s.sysLseek ops cur q d = .done (.error .ebadf, s) ↔
      index q.fd = none ∨ s.fdLkOf cur = some none := by
  constructor
  · intro refuses
    obtain ⟨⟨result, t⟩, gets, refuses⟩ := Outcome.bind_done.mp refuses
    cases result with
    | error err =>
      obtain ⟨-, -, outside | ⟨-, free⟩⟩ := getFile_error.mp gets
      · exact .inl outside
      · exact .inr free
    | ok f =>
      obtain ⟨found, free, -⟩ := getFile_ok.mp gets
      exact .inr free
  · intro seen
    have gets : s.getFile cur cur q.fd = .done (.error .ebadf, s) := by
      apply getFile_error.mpr
      refine ⟨rfl, rfl, ?_⟩
      rcases seen with outside | free
      · exact .inl outside
      · exact bad.imp id fun empty => ⟨empty, free⟩
    rw [sysLseek, gets]
    rfl

theorem returned_done {α : Type} {x : Outcome (Except Errno α × Files P F V)} {g : α → Int} :
    (do let (result, s) ← x; return (result.map g, s, d)) =
        Outcome.done (Except.error Errno.ebadf, s, d) ↔ x = .done (.error .ebadf, s) := by
  simp only [Outcome.bind_done, Outcome.pure_done, Prod.mk.injEq, and_true]
  constructor
  · rintro ⟨⟨result, t⟩, same, refused, rfl⟩
    cases result with
    | error err => rwa [show err = .ebadf from Except.error.inj refused] at same
    | ok a => cases refused
  · intro same
    exact ⟨_, same, rfl, rfl⟩

theorem returned_same {x : Outcome (Except Errno Int × Files P F V)} :
    (do let (result, s) ← x; return (result, s, d)) =
        Outcome.done (Except.error Errno.ebadf, s, d) ↔ x = .done (.error .ebadf, s) := by
  rw [← returned_done (d := d) (g := id)]
  simp only [Except.map_id, id]

/-- A call with a descriptor that is not open returns `EBADF` and changes nothing just when its
checks see it. Otherwise it goes past the end of the table, or follows a destroyed lock. -/
theorem perform_refuses_iff {call : FdCall} (bad : Bad s cur call) :
    Refuses ops s cur reclaims d call ↔ Sees s cur call := by
  cases call with
  | read fd buffer nBytes => exact transfer_refuses_iff (r := ⟨.read, fd, buffer, nBytes⟩) bad
  | write fd buffer nBytes => exact transfer_refuses_iff (r := ⟨.write, fd, buffer, nBytes⟩) bad
  | close fd => exact returned_done.trans (sysClose_refuses_iff bad)
  | dup2 oldfd newfd => exact returned_same.trans (sysDup2_refuses_iff bad)
  | lseek q => exact returned_same.trans (sysLseek_refuses_iff bad)

end Os161.Files

namespace Os161.FileCalls

open Files

/-- Vnode operations that move everything. -/
def plainOps : VnodeOps (Fin 3) Unit Unit where
  vopRead _ u d := .done (⟨none, 0, u.uioOffset + u.uioResid.toNat⟩, d)
  vopWrite _ u d := .done (⟨none, 0, u.uioOffset + u.uioResid.toNat⟩, d)
  vopStat _ _ := .done (.ok 0)
  vopTryseek _ _ := .done none
  kprintf _ _ _ := .done ()

/-- A process with three descriptors seeks on the fourth. -/
theorem perform_refuses_fourth : ∃ s : State (Fin 3) Nat Unit, (machine 0).Reachable s ∧
    Refuses plainOps s.files 1 (fun _ => false) () (.lseek ⟨3, 0, 0⟩) := by
  have passes : ((machine (0 : Fin 3)).run boot [startOne]).passes (fun s =>
      decide (s.files.fdLkOf 1 = some none) &&
        (s.files.slot 1 3).passes fun entry => decide (entry = none)) = true := by
    decide +kernel
  obtain ⟨s, run, checked⟩ := Outcome.passes_done passes
  rw [Bool.and_eq_true] at checked
  obtain ⟨entry, found, empty⟩ := Outcome.passes_done checked.2
  rw [of_decide_eq_true empty] at found
  have bad : Bad s.files 1 (.lseek ⟨3, 0, 0⟩) := Or.inr found
  have seen : Sees s.files 1 (.lseek ⟨3, 0, 0⟩) := Or.inr (of_decide_eq_true checked.1)
  exact ⟨s, Started.reached run, (perform_refuses_iff bad).mpr seen⟩

/-- It closes descriptor 8, which is past the end of the table. -/
theorem perform_past_end : ∃ s : State (Fin 3) Nat Unit, (machine 0).Reachable s ∧
    Bad s.files 1 (.close 8) ∧ s.files.sysClose 1 8 (fun _ => false) = .fault ∧
      ¬ Refuses plainOps s.files 1 (fun _ => false) () (.close 8) := by
  have passes : ((machine (0 : Fin 3)).run boot [startOne]).passes (fun s =>
      (s.files.tables 1).isSome) = true := by
    decide +kernel
  obtain ⟨s, run, there⟩ := Outcome.passes_done passes
  obtain ⟨fdesc, table⟩ := Option.isSome_iff_exists.mp there
  have faults : s.files.sysClose 1 8 (fun _ => false) = .fault := by
    rw [sysClose, if_neg (by decide), table]
    rfl
  refine ⟨s, Started.reached run, Or.inl rfl, faults, ?_⟩
  rw [Refuses, perform, faults]
  exact nofun

end Os161.FileCalls
