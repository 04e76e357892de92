import Os161.File.Calls

/-!
# What the calls leave alone

Whatever state the layer is in, a call changes the table that it is given and no other, and the
vnode and the mode of a file are never written. Such facts are relations between the state before
and the state after that all small changes are in; each function is walked through once, for every
such relation.
-/

set_option linter.unusedSectionVars false

namespace Os161.Files

variable {P F V : Type} [DecidableEq P] [DecidableEq F] [DecidableEq V]
variable {s t u : Files P F V} {p : P} {mine : P → Prop}
variable {R : Files P F V → Files P F V → Prop}

/-- The part of a file that is set when it is opened. -/
def SameOpening (file file' : File V P) : Prop :=
  file'.fVnode = file.fVnode ∧ file'.fOflags = file.fOflags

/-- A relation that holds over every change that the layer makes to the tables of `mine`, to the
files and to the vnodes. -/
structure Frame (mine : P → Prop) (R : Files P F V → Files P F V → Prop) : Prop where
  refl : ∀ s, R s s
  trans : ∀ {s t u}, R s t → R t u → R s u
  table : ∀ s {p} o, mine p → R s { s with tables := Function.update s.tables p o }
  vnodes : ∀ s vnodes, R s { s with vnodes := vnodes }
  change : ∀ s {f file file'}, (s.files f).value? = some file → SameOpening file file' →
    R s { s with files := Function.update s.files f (.live file') }
  alloc : ∀ s {f} file, s.files f = .unused →
    R s { s with files := Function.update s.files f (.live file) }
  free : ∀ s {f file}, (s.files f).value? = some file →
    R s { s with files := Function.update s.files f .freed }

theorem frame_skip {α β : Type} {x : Outcome β} {g : β → Outcome α} {after : α → Files P F V}
    (rest : ∀ b, (g b).Ensures fun out => R s (after out)) :
    (x >>= g).Ensures fun out => R s (after out) :=
  Outcome.ensures_bind.mpr fun b _ => rest b

namespace Frame

variable (frame : Frame mine R)

include frame

theorem next {α : Type} {x : Outcome (Files P F V)} {g : Files P F V → Outcome α}
    {after : α → Files P F V} (first : x.Ensures (R s))
    (rest : ∀ t, (g t).Ensures fun out => R t (after out)) :
    (x >>= g).Ensures fun out => R s (after out) :=
  Outcome.Ensures.then first fun t kept => (rest t).mono fun _ kept' => frame.trans kept kept'

theorem both {α β : Type} {x : Outcome (β × Files P F V)}
    {g : β × Files P F V → Outcome α} {after : α → Files P F V}
    (first : x.Ensures fun out => R s out.2)
    (rest : ∀ b t, (g (b, t)).Ensures fun out => R t (after out)) :
    (x >>= g).Ensures fun out => R s (after out) :=
  Outcome.Ensures.then first fun (b, t) kept =>
    (rest b t).mono fun _ kept' => frame.trans kept kept'

theorem done {α : Type} {a : α} {after : α → Files P F V} (same : after a = s) :
    (pure a : Outcome α).Ensures fun out => R s (after out) :=
  Outcome.ensures_pure.mpr (same ▸ frame.refl _)

variable (s)

theorem updateTable (own : mine p) (g : Filedesc F P → Outcome (Filedesc F P)) :
    (s.updateTable p g).Ensures (R s) := by
  simp only [Files.updateTable, Outcome.ensures_bind, Outcome.ensures_deref, Outcome.ensures_pure]
  exact fun _ _ after _ => frame.table s _ own

theorem updateFile (f : F) {g : File V P → Outcome (File V P)}
    (keeps : ∀ file, (g file).Ensures (SameOpening file)) : (s.updateFile f g).Ensures (R s) := by
  simp only [Files.updateFile, Outcome.ensures_bind, Heap.modify_ensures, Outcome.ensures_pure]
  exact fun file there => (keeps file).mono fun _ same => frame.change s there same

theorem fLock (f : F) (cur : P) : (s.fLock f cur).Ensures (R s) := by
  apply frame.updateFile s f fun file => ?_
  simp only [Outcome.ensures_bind, Outcome.ensures_pure]
  exact fun _ _ _ _ => ⟨rfl, rfl⟩

theorem fUnlock (f : F) (cur : P) : (s.fUnlock f cur).Ensures (R s) := by
  apply frame.updateFile s f fun file => ?_
  simp only [Outcome.ensures_bind, Outcome.ensures_pure]
  exact fun _ _ _ _ => ⟨rfl, rfl⟩

theorem fLockDestroy (f : F) : (s.fLockDestroy f).Ensures (R s) := by
  apply frame.updateFile s f fun file => ?_
  simp only [Outcome.ensures_bind, Outcome.ensures_pure]
  exact fun _ _ _ _ => ⟨rfl, rfl⟩

theorem addRefcount (f : F) (n : UInt16) : (s.addRefcount f n).Ensures (R s) :=
  frame.updateFile s f fun _ => Outcome.ensures_pure.mpr ⟨rfl, rfl⟩

theorem setOffset (f : F) (pos : Int) :
    (s.updateFile f fun file => return { file with fOffset := pos }).Ensures (R s) :=
  frame.updateFile s f fun _ => Outcome.ensures_pure.mpr ⟨rfl, rfl⟩

theorem kfreeFile (f : F) : (s.kfreeFile f).Ensures (R s) := by
  simp only [Files.kfreeFile, Outcome.ensures_bind, Heap.free_ensures, Outcome.ensures_pure]
  exact fun _ there => frame.free s there

theorem vopIncref (vn : V) : (s.vopIncref vn).Ensures (R s) := by
  simp only [Files.vopIncref, Outcome.ensures_bind, Outcome.ensures_pure]
  exact fun _ _ => frame.vnodes s _

theorem vopDecref (reclaims : Reclaims V) (vn : V) : (s.vopDecref reclaims vn).Ensures (R s) := by
  refine frame_skip fun count => frame_skip fun _ => ?_
  split
  · exact Outcome.ensures_pure.mpr (frame.vnodes s _)
  · split
    · exact Outcome.ensures_pure.mpr (frame.vnodes s _)
    · exact frame.done rfl

variable (own : mine p) (cur : P)

include own

theorem fdCreate {room : Bool × Bool} (made : s.fdCreate p room = .ok t) : R s t := by
  unfold Files.fdCreate at made
  split at made
  · obtain rfl := Except.ok.inj made
    exact frame.table s _ own
  · cases made

theorem fdDestroy : (s.fdDestroy p).Ensures (R s) :=
  frame_skip fun _ => frame_skip fun _ => frame.next (frame.updateTable s own _) fun t =>
    Outcome.ensures_pure.mpr (frame.table t none own)

theorem fdAttach (f : F) : (s.fdAttach p cur f).Ensures fun out => R s out.2 := by
  refine frame.next (frame.updateTable s own _) fun t => frame_skip fun fdesc => ?_
  split
  · refine frame.next (frame.updateTable t own _) fun t => ?_
    refine frame.next (frame.updateTable t own _) fun t => ?_
    exact frame.next (frame.updateTable t own _) fun t => frame.done rfl
  · exact frame.next (frame.updateTable t own _) fun t => frame.done rfl

theorem fdDetach (i : Fin 8) : (s.fdDetach p cur i).Ensures (R s) := by
  refine frame.next (frame.updateTable s own _) fun t => ?_
  refine frame.next (frame.updateTable t own _) fun t => ?_
  exact frame.next (frame.updateTable t own _) fun t => frame.updateTable t own _

theorem desFile (reclaims : Reclaims V) (f : F) : (s.desFile reclaims f).Ensures (R s) := by
  refine frame_skip fun file => frame_skip fun _ => ?_
  refine frame.next (frame.vopDecref s reclaims _) fun t => ?_
  exact frame.next (frame.fLockDestroy t f) fun t => frame.kfreeFile t f

theorem getFile (fd : Int) : (s.getFile p cur fd).Ensures fun out => R s out.2 := by
  unfold Files.getFile
  split
  · exact frame.done rfl
  · refine frame.next (frame.updateTable s own _) fun t => frame_skip fun fdesc => ?_
    split
    · refine frame.next (frame.fLock t _ cur) fun t => ?_
      exact frame.next (frame.updateTable t own _) fun t => frame.done rfl
    · exact frame.next (frame.updateTable t own _) fun t => frame.done rfl

theorem desDescriptor (reclaims : Reclaims V) (i : Fin 8) :
    (s.desDescriptor p cur reclaims i).Ensures fun out => R s out.2 := by
  refine frame.both (frame.getFile s own cur i) fun result t => ?_
  cases result with
  | error err => exact frame.done rfl
  | ok f =>
    refine frame_skip fun file => frame_skip fun _ => ?_
    refine frame.next (frame.fdDetach t own cur i) fun t => ?_
    refine frame.next (frame.addRefcount t f _) fun t => ?_
    refine frame.next (frame.vopDecref t reclaims _) fun t => frame_skip fun file => ?_
    split
    · refine frame.next (frame.fUnlock t f cur) fun t => ?_
      exact frame.next (frame.desFile t own reclaims f) fun t => frame.done rfl
    · exact frame.next (frame.fUnlock t f cur) fun t => frame.done rfl

theorem closeSlots (reclaims : Reclaims V) (slots : List (Fin 8)) :
    (s.closeSlots p cur reclaims slots).Ensures fun out => R s out.2 := by
  induction slots generalizing s with
  | nil => exact frame.next (frame.updateTable s own _) fun t => frame.done rfl
  | cons i rest ih =>
    refine frame_skip fun fdesc => ?_
    split
    · exact ih s
    · refine frame.next (frame.updateTable s own _) fun t => ?_
      refine frame.both (frame.desDescriptor t own cur reclaims i) fun result t => ?_
      cases result with
      | error err => exact frame.done rfl
      | ok _ => exact frame.next (frame.updateTable t own _) fun t => ih t

theorem closeAllF (reclaims : Reclaims V) :
    (s.closeAllF p cur reclaims).Ensures fun out => R s out.2 :=
  frame.next (frame.updateTable s own _) fun t => frame.closeSlots t own cur reclaims _

theorem attach (answers : Answers F V) (vn : V) (f : F) :
    (kOpen.attach p cur answers s vn f).Ensures fun out => R s out.2 := by
  refine frame.next (frame.fLock s f cur) fun t => ?_
  refine frame.both (frame.fdAttach t own cur f) fun result t => ?_
  cases result with
  | error err =>
    refine frame.next (frame.fUnlock t f cur) fun t => ?_
    refine frame.next (frame.vopDecref t _ vn) fun t => ?_
    exact frame.next (frame.desFile t own _ f) fun t => frame.done rfl
  | ok i =>
    refine frame.next (frame.addRefcount t f _) fun t => ?_
    refine frame.next (frame.vopIncref t vn) fun t => ?_
    exact frame.next (frame.fUnlock t f cur) fun t => frame.done rfl

theorem seek (flags : UInt32) (answers : Answers F V) (vn : V) (f : F) :
    (kOpen.seek p cur flags answers s vn f).Ensures fun out => R s out.2 := by
  unfold kOpen.seek
  split
  · split
    · refine frame_skip fun file => frame.next (frame.vopDecref s _ vn) fun t => ?_
      exact frame.next (frame.desFile t own _ f) fun t => frame.done rfl
    · exact frame.next (frame.setOffset s f _) fun t => frame.attach t own cur answers vn f
  · exact frame.attach s own cur answers vn f

theorem kOpen (flags : UInt32) (answers : Answers F V) :
    (s.kOpen p cur flags answers).Ensures fun out => R s out.2 := by
  unfold Files.kOpen
  split
  · exact frame.done rfl
  · exact Outcome.ensures_pure.mpr (frame.vnodes s _)
  · rename_i vn f _ _
    rw [Outcome.ensures_bind, Heap.alloc_ensures]
    intro unused
    have made := frame.trans (frame.vnodes s _)
      (frame.alloc (s.vfsOpened vn) ⟨vn, flags.toUInt16, 0, 0, some none⟩ unused)
    dsimp only
    split
    · exact (frame.seek _ own cur flags answers vn f).mono fun _ kept => frame.trans made kept
    · refine (frame.next (frame.kfreeFile _ f) fun t => ?_).mono fun _ kept => frame.trans made kept
      exact frame.seek t own cur flags answers vn f

theorem sysOpen (copied : Option Errno) (flags : UInt32) (garbage : Int)
    (answers : Answers F V) :
    (s.sysOpen p copied flags garbage answers).Ensures fun out => R s out.2 := by
  unfold Files.sysOpen
  split
  · split
    · exact frame.done rfl
    · refine frame.both (frame.kOpen s own p flags answers) fun result t => ?_
      cases result <;> exact frame.done rfl
  · exact frame.done rfl

theorem undoCount (reclaims : Reclaims V) (old : Fin 8) :
    (sysDup2.undoCount p reclaims s old).Ensures (R s) := by
  refine frame.next (frame.updateTable s own _) fun t => ?_
  refine frame_skip fun fdesc => frame_skip fun f => ?_
  refine frame.next (frame.addRefcount t f _) fun t => frame_skip fun file => ?_
  refine frame.next (frame.updateTable t own _) fun t => ?_
  split
  · exact frame.done rfl
  · refine frame.next (frame.updateTable t own _) fun t => ?_
    refine frame.next (frame.vopDecref t reclaims _) fun t => ?_
    exact Outcome.ensures_pure.mpr (frame.table t none own)

theorem sysDup2 (oldfd newfd : Int) (reclaims : Reclaims V) :
    (s.sysDup2 p oldfd newfd reclaims).Ensures fun out => R s out.2 := by
  unfold Files.sysDup2
  split
  · refine frame_skip fun fdesc => frame_skip fun old => ?_
    split
    · exact frame.done rfl
    · split
      · exact frame.done rfl
      · refine frame_skip fun new => frame.next (frame.updateTable s own _) fun t => ?_
        refine frame_skip fun fdesc => frame_skip fun f => ?_
        refine frame.next (frame.updateTable t own _) fun t => ?_
        refine frame.next (frame.addRefcount t f _) fun t => ?_
        refine frame.next (frame.updateTable t own _) fun t => ?_
        split
        · exact frame.next (frame.undoCount t own reclaims old) fun t => frame.done rfl
        · exact frame.done rfl
  · exact frame.done rfl

theorem sysClose (fd : Int) (reclaims : Reclaims V) :
    (s.sysClose p fd reclaims).Ensures fun out => R s out.2 := by
  unfold Files.sysClose
  split
  · exact frame.done rfl
  · refine frame_skip fun fdesc => frame_skip fun i => ?_
    split
    · exact frame.done rfl
    · rename_i f _
      refine frame.next (frame.updateTable s own _) fun t => ?_
      refine frame_skip fun file => frame_skip fun _ => ?_
      refine frame.next (frame.addRefcount t f _) fun t => frame_skip fun file => ?_
      split
      · refine frame.next (frame.vopDecref t reclaims _) fun t => ?_
        refine frame.next (frame.updateTable t own _) fun t => ?_
        refine frame.next (frame.updateTable t own _) fun t => ?_
        refine frame.next (frame.kfreeFile t f) fun t => ?_
        exact frame.next (frame.updateTable t own _) fun t => frame.done rfl
      · exact frame.next (frame.updateTable t own _) fun t => frame.done rfl

theorem copySlots (source : P) (slots : List (Fin 8)) :
    (s.copySlots source p cur slots).Ensures (R s) := by
  induction slots generalizing s with
  | nil => exact frame.done rfl
  | cons i rest ih =>
    refine frame_skip fun fdesc => ?_
    split
    · exact ih s
    · refine frame.next (frame.fLock s _ cur) fun t => ?_
      refine frame.next (frame.updateTable t own _) fun t => ?_
      refine frame.next (frame.updateTable t own _) fun t => ?_
      refine frame.next (frame.addRefcount t _ _) fun t => frame_skip fun file => ?_
      refine frame.next (frame.vopIncref t _) fun t => ?_
      exact frame.next (frame.fUnlock t _ cur) fun t => ih t

theorem fileCopy {source : P} (ownSource : mine source) :
    (s.fileCopy source p cur).Ensures (R s) := by
  refine frame.next (frame.updateTable s ownSource _) fun t => ?_
  refine frame.next (frame.copySlots t own cur source _) fun t => ?_
  refine frame_skip fun _ => frame_skip fun _ => frame_skip fun _ => ?_
  exact frame.updateTable t ownSource _

theorem openStandardFiles (answers : Fin 3 → Answers F V) (reclaims : Reclaims V) :
    (FileCalls.openStandardFiles s p cur answers reclaims).Ensures fun out => R s out.2 := by
  unfold FileCalls.openStandardFiles
  generalize [(oRdonly, answers 0), (oWronly, answers 1), (oWronly, answers 2)] = opens
  induction opens generalizing s with
  | nil => exact frame.done rfl
  | cons first rest ih =>
    refine frame.both (frame.kOpen s own cur first.1 first.2) fun result t => ?_
    cases result with
    | ok i => exact ih t
    | error err => exact frame.both (frame.closeAllF t own cur reclaims) fun _ t => frame.done rfl

end Frame

/-! ### Tables of others -/

/-- Only the tables of `mine` may differ. -/
def Near (mine : P → Prop) (s t : Files P F V) : Prop := ∀ q, ¬ mine q → t.tables q = s.tables q

section Near

omit [DecidableEq P] [DecidableEq F] [DecidableEq V]

theorem Near.refl : Near mine s s := fun _ _ => rfl

theorem Near.trans (h : Near mine s t) (h' : Near mine t u) : Near mine s u :=
  fun q other => (h' q other).trans (h q other)

theorem Near.mono {wider : P → Prop} (h : Near mine s t) (imp : ∀ q, mine q → wider q) :
    Near wider s t :=
  fun q other => h q fun own => other (imp q own)

end Near

/-- `fd_create` of one process, seen from another. -/
example : ((⟨fun _ => none, fun _ => .unused, fun _ => none⟩ : Files Bool Bool Bool).fdCreate false
    (true, true)).toOption.map (fun t => (t.tables true).isNone) = some true := by
  decide +kernel

theorem near_frame : Frame mine (Near (F := F) (V := V) mine) where
  refl _ := .refl
  trans := .trans
  table s p o own := fun q other => by
    have away : q ≠ p := by
      rintro rfl
      exact other own
    exact Function.update_of_ne away ..
  vnodes _ _ := fun _ _ => rfl
  change _ _ _ _ _ _ := fun _ _ => rfl
  alloc _ _ _ _ := fun _ _ => rfl
  free _ _ _ _ := fun _ _ => rfl

variable (s)

theorem updateFile_near (f : F) (g : File V P → Outcome (File V P)) :
    (s.updateFile f g).Ensures (Near mine s) := by
  simp only [updateFile, Outcome.ensures_bind, Outcome.ensures_pure]
  exact fun _ _ _ _ => rfl

theorem kfreeFile_near (f : F) : (s.kfreeFile f).Ensures (Near mine s) := near_frame.kfreeFile s f

theorem vopIncref_near (vn : V) : (s.vopIncref vn).Ensures (Near mine s) := near_frame.vopIncref s vn

theorem vopDecref_near (reclaims : Reclaims V) (vn : V) :
    (s.vopDecref reclaims vn).Ensures (Near mine s) :=
  near_frame.vopDecref s reclaims vn

variable (own : mine p) (cur : P)

include own

theorem fdDestroy_near : (s.fdDestroy p).Ensures (Near mine s) := near_frame.fdDestroy s own

theorem closeAllF_near (reclaims : Reclaims V) :
    (s.closeAllF p cur reclaims).Ensures fun out => Near mine s out.2 :=
  near_frame.closeAllF s own cur reclaims

theorem sysOpen_near (copied : Option Errno) (flags : UInt32) (garbage : Int)
    (answers : Answers F V) :
    (s.sysOpen p copied flags garbage answers).Ensures fun out => Near mine s out.2 :=
  near_frame.sysOpen s own copied flags garbage answers

theorem sysDup2_near (oldfd newfd : Int) (reclaims : Reclaims V) :
    (s.sysDup2 p oldfd newfd reclaims).Ensures fun out => Near mine s out.2 :=
  near_frame.sysDup2 s own oldfd newfd reclaims

theorem sysClose_near (fd : Int) (reclaims : Reclaims V) :
    (s.sysClose p fd reclaims).Ensures fun out => Near mine s out.2 :=
  near_frame.sysClose s own fd reclaims

theorem fileCopy_near {source : P} (ownSource : mine source) :
    (s.fileCopy source p cur).Ensures (Near mine s) :=
  near_frame.fileCopy s own cur ownSource

omit s in
theorem openStandardFiles_near {s : Files P F V} (answers : Fin 3 → Answers F V)
    (reclaims : Reclaims V) :
    (FileCalls.openStandardFiles s p cur answers reclaims).Ensures fun out => Near mine s out.2 :=
  near_frame.openStandardFiles s own cur answers reclaims

end Os161.Files
