import Os161.File.Descriptors
import Os161.File.Frame

/-!
# The access mode of an open file

`valid_flags` looks at the access mode alone, `k_open` stores all the flags, and `sys_read` and
`sys_write` compare all of what is stored. So option bits hide the mode that a call is refused for.
-/

set_option linter.unusedSectionVars false

namespace Os161.Files

variable {P F V : Type} [DecidableEq P] [DecidableEq F] [DecidableEq V]
variable {s t u : Files P F V} {p cur q : P} {f : F} {fd : Int} {file : File V P} {flags : UInt32}

/-- Of `kern/fcntl.h`. -/
def oCreat : UInt32 := 4

/-- The call passes its checks, whatever the buffer is and however long. -/
def Permitted (s : Files P F V) (cur : P) (fd : Int) (rw : UioRw) : Prop :=
  ∀ buffer nBytes, buffer ≠ 0 → nBytes ≠ 0 →
    ∃ f, s.checkTransfer cur ⟨rw, fd, buffer, nBytes⟩ = .done (.ok f)

/-- Reading and writing are permitted just when the access mode of the open allows it. -/
def PermissionsRight (s : Files P F V) (cur : P) (fd : Int) (flags : UInt32) : Prop :=
  (Permitted s cur fd .read ↔ flags &&& oAccmode ≠ oWronly) ∧
    (Permitted s cur fd .write ↔ flags &&& oAccmode ≠ oRdonly)

/-- The flags are kept in 16 bits, and no option is among these, or the mode is `O_RDWR`. -/
def ModeAlone (flags : UInt32) : Prop :=
  flags &&& oAccmode = oRdwr ∨ flags.toUInt16 = (flags &&& oAccmode).toUInt16

/-- `O_RDONLY | O_CREAT` is not the mode alone. -/
example : ¬ ModeAlone oCreat := by
  unfold ModeAlone
  decide +kernel

/-- Files that were there have their vnode and their flags, or have been freed. -/
def Lasting (s t : Files P F V) : Prop :=
  ∀ f, (s.files f = .freed → t.files f = .freed) ∧ ∀ file, s.files f = .live file →
    t.files f = .freed ∨ ∃ file', t.files f = .live file' ∧ SameOpening file file'

theorem Lasting.refl : Lasting s s :=
  fun _ => ⟨id, fun file live => .inr ⟨file, live, rfl, rfl⟩⟩

theorem Lasting.trans (h : Lasting s t) (h' : Lasting t u) : Lasting s u := by
  intro f
  refine ⟨fun freed => (h' f).1 ((h f).1 freed), fun file live => ?_⟩
  rcases (h f).2 file live with freed | ⟨file', live', vnode, flags⟩
  · exact .inl ((h' f).1 freed)
  rcases (h' f).2 file' live' with freed | ⟨file'', live'', vnode', flags'⟩
  · exact .inl freed
  · exact .inr ⟨file'', live'', vnode'.trans vnode, flags'.trans flags⟩

/-- One file is changed, and the others are as they were. -/
theorem Lasting.update {cell : Cell (File V P)} (freed : s.files f ≠ .freed)
    (live : ∀ file, s.files f = .live file →
      cell = .freed ∨ ∃ file', cell = .live file' ∧ SameOpening file file') :
    Lasting s { s with files := Function.update s.files f cell } := by
  intro g
  by_cases here : g = f
  · subst here
    simp only [Function.update_self]
    exact ⟨fun gone => (freed gone).elim, live⟩
  · simp only [Function.update_of_ne here]
    exact Lasting.refl g

theorem lasting_frame : Frame (fun _ => True) (Lasting (P := P) (F := F) (V := V)) where
  refl _ := .refl
  trans := .trans
  table s _ _ _ := Lasting.refl (s := s)
  vnodes s _ := Lasting.refl (s := s)
  change s f file file' there same := by
    rw [value_live] at there
    apply Lasting.update
    · rw [there]
      exact nofun
    · intro before live
      obtain rfl := Cell.live.inj (there.symm.trans live)
      exact .inr ⟨file', rfl, same⟩
  alloc s f file unused := by
    apply Lasting.update
    · rw [unused]
      exact nofun
    · intro before live
      rw [unused] at live
      cases live
  free s f file there := by
    rw [value_live] at there
    apply Lasting.update
    · rw [there]
      exact nofun
    · exact fun _ _ => .inl rfl

/-! ### What an open leaves -/

theorem attach_slot (s : Files P F V) (p cur : P) (answers : Answers F V) (vn : V) (f : F) :
    (kOpen.attach p cur answers s vn f).Ensures fun (result, t) => ∀ i, result = .ok i →
      t.sharing.slots (p, i) = some f ∧ ∃ n, t.sharing.counts f = some n := by
  refine (s.fLock_sharing f cur).then fun s₁ same₁ => ?_
  refine (s₁.fdAttach_sharing p cur f).then fun (result, s₂) attached => ?_
  cases result with
  | error err =>
    simp only [Outcome.ensures_bind]
    exact fun _ _ _ _ _ _ => Outcome.ensures_pure.mpr nofun
  | ok j =>
    refine (s₂.addRefcount_sharing f 1).then fun s₃ ⟨r, _, same₃⟩ => ?_
    refine (s₃.vopIncref_sharing vn).then fun s₄ same₄ => ?_
    refine (s₄.fUnlock_sharing f cur).then fun t same₅ => ?_
    refine Outcome.ensures_pure.mpr fun i is => ?_
    obtain rfl := Except.ok.inj is
    rw [same₅, same₄, same₃, attached.2]
    exact ⟨by simp [Sharing.setCount, Sharing.put], _, Sharing.setCount_self ..⟩

theorem seek_slot (s : Files P F V) (p cur : P) (flags : UInt32) (answers : Answers F V) (vn : V)
    (f : F) : (kOpen.seek p cur flags answers s vn f).Ensures fun (result, t) => ∀ i, result = .ok i →
      t.sharing.slots (p, i) = some f ∧ ∃ n, t.sharing.counts f = some n := by
  unfold kOpen.seek
  split
  · split
    · simp only [Outcome.ensures_bind]
      exact fun _ _ _ _ _ _ => Outcome.ensures_pure.mpr nofun
    · exact Outcome.ensures_bind.mpr fun t _ => t.attach_slot p cur answers vn f
  · exact s.attach_slot p cur answers vn f

/-- The descriptor that `k_open` returns names a file that keeps the flags in 16 bits. -/
theorem kOpen_makes (s : Files P F V) (p cur : P) (flags : UInt32) (answers : Answers F V) :
    (s.kOpen p cur flags answers).Ensures fun (result, t) => ∀ i, result = .ok i →
      ∃ f file, t.sharing.slots (p, i) = some f ∧ t.files f = .live file ∧
        file.fOflags = flags.toUInt16 := by
  unfold kOpen
  split
  · exact Outcome.ensures_pure.mpr nofun
  · exact Outcome.ensures_pure.mpr nofun
  · rename_i vn f _ _
    rw [Outcome.ensures_bind, Heap.alloc_ensures]
    intro unused
    dsimp only
    have kept : ∀ u : Files P F V,
        u.files f = .freed ∨ u.files f = .live ⟨vn, flags.toUInt16, 0, 0, some none⟩ →
          (kOpen.seek p cur flags answers u vn f).Ensures fun (result, t) => ∀ i, result = .ok i →
            ∃ f file, t.sharing.slots (p, i) = some f ∧ t.files f = .live file ∧
              file.fOflags = flags.toUInt16 := by
      intro u made
      have lasts := lasting_frame.seek u (p := p) trivial cur flags answers vn f
      refine (lasts.and (u.seek_slot p cur flags answers vn f)).mono ?_
      rintro ⟨result, t⟩ ⟨lasting, named⟩ i is
      obtain ⟨slot, n, count⟩ := named i is
      obtain ⟨file, there, -⟩ := Option.map_eq_some_iff.mp count
      rw [value_live] at there
      have alive : t.files f ≠ .freed := by
        rw [there]
        exact nofun
      rcases made with freed | live
      · exact (alive ((lasting f).1 freed)).elim
      rcases (lasting f).2 _ live with freed | ⟨file', live', -, same⟩
      · exact (alive freed).elim
      · exact ⟨f, file', slot, live', same⟩
    split
    · exact kept _ (.inr (Function.update_self ..))
    · simp only [kfreeFile, Outcome.ensures_bind, Heap.free_ensures, Outcome.ensures_pure]
      exact fun _ _ => kept _ (.inl (Function.update_self ..))

end Os161.Files

namespace Os161.FileCalls

open Files

variable {P F V : Type} [DecidableEq P] [DecidableEq F] [DecidableEq V] [Fintype P]

/-! ### Runs -/

theorem State.procCreate_lasting (s : State P F V) (p : P) (room : Bool × Bool) :
    (s.procCreate p room).Ensures fun made => ∀ files, made = .ok files → Lasting s.files files := by
  unfold State.procCreate
  refine Outcome.ensures_bind.mpr fun _ _ => ?_
  split
  · exact Outcome.ensures_pure.mpr fun files made => lasting_frame.fdCreate s.files (p := p) trivial made
  · exact Outcome.ensures_pure.mpr (by simp)

theorem State.abandon_lasting (s : State P F V) (files : Files P F V) (p cur : P)
    (reclaims : Reclaims V) :
    (s.abandon files p cur reclaims).Ensures fun t => Lasting files t.files := by
  refine lasting_frame.both (lasting_frame.closeAllF files trivial cur reclaims) fun _ t => ?_
  exact lasting_frame.next (lasting_frame.fdDestroy t trivial) fun t => lasting_frame.done rfl

/-- No action changes the vnode or the flags of a file, or brings back a file that was freed. -/
theorem step_lasting (s : State P F V) (a : Action P F V) :
    (s.step a).Ensures fun t => Lasting s.files t.files := by
  cases a with
  | start cur p room answers threaded reclaims =>
    refine frame_skip fun _ => ?_
    refine (s.procCreate_lasting p room).then fun made lasting => ?_
    cases made with
    | error err => exact lasting_frame.done rfl
    | ok files =>
      have before := lasting files rfl
      refine (?_ : Outcome.Ensures _ fun t => Lasting files t.files).mono fun _ => before.trans
      refine lasting_frame.both
        (lasting_frame.openStandardFiles files trivial cur answers reclaims) fun result files => ?_
      cases result with
      | error err =>
        exact lasting_frame.next (lasting_frame.fdDestroy files trivial) fun _ => lasting_frame.done rfl
      | ok _ =>
        cases threaded with
        | true => exact lasting_frame.done rfl
        | false => exact s.abandon_lasting files p cur reclaims
  | «open» cur copied flags garbage answers =>
    refine frame_skip fun _ => ?_
    exact lasting_frame.both (lasting_frame.sysOpen s.files trivial copied flags garbage answers)
      fun _ _ => lasting_frame.done rfl
  | dup2 cur oldfd newfd reclaims =>
    refine frame_skip fun _ => ?_
    exact lasting_frame.both (lasting_frame.sysDup2 s.files trivial oldfd newfd reclaims)
      fun _ _ => lasting_frame.done rfl
  | close cur fd reclaims =>
    refine frame_skip fun _ => ?_
    exact lasting_frame.both (lasting_frame.sysClose s.files trivial fd reclaims)
      fun _ _ => lasting_frame.done rfl
  | fork cur p room threaded reclaims =>
    refine frame_skip fun _ => ?_
    refine (s.procCreate_lasting p room).then fun made lasting => ?_
    cases made with
    | error err => exact Outcome.ensures_fault
    | ok files =>
      have before := lasting files rfl
      refine (?_ : Outcome.Ensures _ fun t => Lasting files t.files).mono fun _ => before.trans
      refine lasting_frame.next (lasting_frame.fileCopy files trivial cur trivial) fun files => ?_
      cases threaded with
      | true => exact lasting_frame.done rfl
      | false => exact s.abandon_lasting files p cur reclaims
  | exit cur reclaims =>
    refine frame_skip fun _ => ?_
    refine lasting_frame.both (lasting_frame.closeAllF s.files trivial cur reclaims) fun _ files => ?_
    exact frame_skip fun _ => lasting_frame.done rfl
  | reap p =>
    refine frame_skip fun _ => ?_
    exact lasting_frame.next (lasting_frame.fdDestroy s.files trivial) fun _ => lasting_frame.done rfl

/-! ### Permissions -/

section Permissions

variable {s u : Files P F V} {q : P} {fd : Int} {f : F} {file : File V P} {flags : UInt32}

theorem slot_descriptor (named : u.descriptor q fd = some f) : u.slot q fd = .done (some f) := by
  obtain ⟨i, inside, slot⟩ := Option.bind_eq_some_iff.mp named
  obtain ⟨fdesc, table, there⟩ := open_table slot
  exact slot_done.mpr ⟨fdesc, i, table, inside, there⟩

theorem inside_descriptor (named : u.descriptor q fd = some f) : ¬ (fd < 0 ∨ 129 < fd) := by
  obtain ⟨i, inside, -⟩ := Option.bind_eq_some_iff.mp named
  unfold index at inside
  split at inside
  · omega
  · cases inside

theorem permitted_iff (named : u.descriptor q fd = some f) (live : u.files f = .live file)
    (rw : UioRw) : Permitted u q fd rw ↔ file.fOflags ≠ refused rw := by
  have checks : ∀ buffer nBytes : UInt32, buffer ≠ 0 → nBytes ≠ 0 →
      u.checkTransfer q ⟨rw, fd, buffer, nBytes⟩ =
        if file.fOflags = refused rw then .done (.error .eacces) else .done (.ok f) := by
    intro buffer nBytes there some
    rw [checkTransfer, if_neg (inside_descriptor named), slot_descriptor named, Outcome.done_bind]
    dsimp only
    rw [if_neg there, get_done.mpr live, Outcome.done_bind, if_neg some]
    rfl
  constructor
  · intro permitted same
    obtain ⟨g, passes⟩ := permitted 1 1 (by decide) (by decide)
    rw [checks 1 1 (by decide) (by decide), if_pos same] at passes
    cases passes
  · intro other buffer nBytes there some
    exact ⟨f, by rw [checks buffer nBytes there some, if_neg other]⟩

theorem permitted_freed (named : u.descriptor q fd = some f) (freed : u.files f = .freed)
    (rw : UioRw) : ¬ Permitted u q fd rw := by
  intro permitted
  obtain ⟨g, passes⟩ := permitted 1 1 (by decide) (by decide)
  rw [checkTransfer, if_neg (inside_descriptor named), slot_descriptor named, Outcome.done_bind]
    at passes
  dsimp only at passes
  have gone : u.files.get f = .fault := by simp [Heap.get, freed, Cell.value?, Outcome.deref]
  rw [if_neg (by decide), gone] at passes
  cases passes

theorem validFlags_mode (valid : validFlags flags = true) :
    flags &&& oAccmode = oRdonly ∨ flags &&& oAccmode = oWronly ∨ flags &&& oAccmode = oRdwr := by
  by_contra other
  simp only [not_or] at other
  obtain ⟨notRead, notWrite, notBoth⟩ := other
  simp [validFlags, notRead, notWrite, notBoth] at valid

/-- The access mode is in the 16 bits that are kept. -/
theorem kept_mode (flags : UInt32) :
    (flags &&& oAccmode).toUInt16 = flags.toUInt16 &&& oAccmode.toUInt16 :=
  UInt32.toUInt16_and ..

/-- The two comparisons with all the flags are right just when there is nothing to mask. -/
theorem compared_iff (valid : validFlags flags = true) :
    ((flags.toUInt16 ≠ refused .read ↔ flags &&& oAccmode ≠ oWronly) ∧
      (flags.toUInt16 ≠ refused .write ↔ flags &&& oAccmode ≠ oRdonly)) ↔ ModeAlone flags := by
  have masked := kept_mode flags
  have away : ∀ n : UInt16, (flags &&& oAccmode).toUInt16 ≠ n &&& 3 → flags.toUInt16 ≠ n := by
    rintro n other rfl
    exact other masked
  simp only [ModeAlone]
  rcases validFlags_mode valid with mode | mode | mode
  · have notWrite : flags.toUInt16 ≠ 1 := away 1 (by rw [mode]; decide)
    rw [mode]
    simp [refused, oRdonly, oWronly, oRdwr, notWrite]
  · have notRead : flags.toUInt16 ≠ 0 := away 0 (by rw [mode]; decide)
    rw [mode]
    simp [refused, oRdonly, oWronly, oRdwr, notRead]
  · have notWrite : flags.toUInt16 ≠ 1 := away 1 (by rw [mode]; decide)
    have notRead : flags.toUInt16 ≠ 0 := away 0 (by rw [mode]; decide)
    rw [mode]
    simp [refused, oRdonly, oWronly, oRdwr, notRead, notWrite]

end Permissions

/-- For a file that an accepted open has made, and any descriptor of any process that names it
later on, the permissions are right just when no option bits are kept, and the file is still there. -/
theorem permissions_iff {p0 : P} {s u : State P F V} {files : Files P F V} {cur q : P} {fd : Int}
    {i : Fin 8} {f : F} {flags : UInt32} {answers : Answers F V} {actions : List (Action P F V)}
    (valid : validFlags flags = true)
    (opens : s.files.kOpen cur cur flags answers = .done (.ok i, files))
    (slot : files.sharing.slots (cur, i) = some f)
    (later : (machine p0).run { s with files := files } actions = .done u)
    (named : u.files.descriptor q fd = some f) :
    PermissionsRight u.files q fd flags ↔ u.files.files f ≠ .freed ∧ ModeAlone flags := by
  obtain ⟨g, file, made, live, mode⟩ := s.files.kOpen_makes cur cur flags answers _ opens i rfl
  obtain rfl := Option.some.inj (slot.symm.trans made)
  have lasting : Lasting files u.files :=
    Machine.run_ensures (R := fun s t : State P F V => Lasting s.files t.files)
      (fun _ => .refl) .trans step_lasting actions _ u later
  rcases (lasting f).2 file live with freed | ⟨file', live', -, same⟩
  · refine iff_of_false (fun right => ?_) (fun still => still.1 freed)
    have reads := mt right.1.mpr (permitted_freed named freed .read)
    have writes := mt right.2.mpr (permitted_freed named freed .write)
    rw [not_ne_iff] at reads writes
    rw [reads] at writes
    cases writes
  · have alive : u.files.files f ≠ .freed := by
      rw [live']
      exact nofun
    rw [PermissionsRight, permitted_iff named live', permitted_iff named live', same, mode,
      compared_iff valid]
    exact (and_iff_right alive).symm

/-- A file is opened for both with `O_APPEND`, and shared with a child, which duplicates it. -/
theorem permissions_shared : ∃ s u : State (Fin 3) Nat Unit, ∃ files, (machine 0).Reachable s ∧
    s.files.kOpen 1 1 (oRdwr ||| oAppend) (good 3) = .done (.ok 3, files) ∧
      (machine 0).run { s with files := files }
        [.fork 1 2 (true, true) true fun _ => false, .dup2 2 3 5 fun _ => false] = .done u ∧
          PermissionsRight u.files 2 5 (oRdwr ||| oAppend) := by
  have passes : ((machine (0 : Fin 3)).run boot [startOne]).passes (fun s =>
      (s.files.kOpen 1 1 (oRdwr ||| oAppend) (good 3)).passes fun (result, files) =>
        decide (result.toOption = some 3 ∧ files.sharing.slots (1, 3) = some 3) &&
          ((machine (0 : Fin 3)).run { s with files := files }
            [.fork 1 2 (true, true) true fun _ => false, .dup2 2 3 5 fun _ => false]).passes
              fun u => decide (u.files.descriptor 2 5 = some 3 ∧ u.files.files 3 ≠ .freed)) =
                true := by
    decide +kernel
  obtain ⟨s, run, checked⟩ := Outcome.passes_done passes
  obtain ⟨⟨result, files⟩, opens, checked⟩ := Outcome.passes_done checked
  rw [Bool.and_eq_true] at checked
  obtain ⟨isThree, slot⟩ := of_decide_eq_true checked.1
  obtain rfl : result = .ok 3 := by
    cases result with
    | ok r => exact congrArg Except.ok (Option.some.inj isThree)
    | error err => cases isThree
  obtain ⟨u, later, shared⟩ := Outcome.passes_done checked.2
  obtain ⟨named, still⟩ := of_decide_eq_true shared
  exact ⟨s, u, files, Started.reached run, opens, later,
    (permissions_iff (by decide) opens slot later named).mpr ⟨still, .inl (by decide)⟩⟩

/-- A file is opened for writing with `O_CREAT`, and reading it is permitted. -/
theorem permissions_wrong : ∃ s t : State (Fin 3) Nat Unit, (machine 0).Reachable s ∧
    (machine 0).step s (.open 1 none (oWronly ||| oCreat) 3 (good 3)) = .done t ∧
      Permitted t.files 1 3 .read ∧ ¬ PermissionsRight t.files 1 3 (oWronly ||| oCreat) := by
  have passes : ((machine (0 : Fin 3)).run boot [startOne]).passes (fun s =>
      ((machine (0 : Fin 3)).step s (.open 1 none (oWronly ||| oCreat) 3 (good 3))).passes fun t =>
        decide (t.files.descriptor 1 3 = some 3) && (t.files.files.get 3).passes fun file =>
          decide (file.fOflags = 5)) = true := by
    decide +kernel
  obtain ⟨s, run, checked⟩ := Outcome.passes_done passes
  obtain ⟨t, opens, checked⟩ := Outcome.passes_done checked
  rw [Bool.and_eq_true] at checked
  obtain ⟨file, gets, mode⟩ := Outcome.passes_done checked.2
  have named := of_decide_eq_true checked.1
  have permitted := permitted_iff named (get_done.mp gets)
  rw [of_decide_eq_true mode] at permitted
  have reads : Permitted t.files 1 3 .read := (permitted .read).mpr (by decide)
  exact ⟨s, t, Started.reached run, opens, reads, fun right => right.1.mp reads (by decide)⟩

end Os161.FileCalls
