import Os161.Sfs.Filesystem

/-!
# Runs of the file system

What holds after any sequence of calls that users may make, while the device has no errors.
-/

namespace Os161.Sfs

variable {Space User : Type} [DecidableEq Space] {copy : UserCopy User} {byte : User → Bytes}

/-- The inodes that are in use: the root directory, what has a name, and what somebody has a vnode of. -/
def Volume.InUse (s : Volume) (i : UInt32) : Prop :=
  i = sfsRootdirIno ∨ (∃ name, s.slots.lookup name = some i) ∨ ∃ v, s.handle v = some i

section Shown

variable {s t : Volume} {a b : Store} {live : UInt32 → Prop} {x : View} {v : Nat} {i : UInt32}

theorem Good.inUse_iff (h : Good s live x) : s.InUse i ↔ live i := by
  have same : s.InUse i ↔ x.store.Exists i := by
    unfold Volume.InUse
    rw [h.looks.slots, h.looks.handle]
    exact Iff.rfl
  exact same.trans ⟨h.looks.inUse, h.closed i⟩

theorem Good.inUse (h : Good s live x) : s.InUse = live := funext fun _ => propext h.inUse_iff

theorem Shows.handle (h : Shows s a) : s.handle = a.handle := by
  obtain ⟨live, x, good, rfl⟩ := h
  exact good.looks.handle

theorem Shows.refs (h : Shows s a) : s.refs = a.refs := by
  obtain ⟨live, x, good, rfl⟩ := h
  exact good.looks.refs

theorem Shows.names (h : Shows s a) : s.slots.lookup = a.names := by
  obtain ⟨live, x, good, rfl⟩ := h
  exact congrArg Slots.lookup good.looks.slots

theorem Shows.contents (h : Shows s a) (there : s.InUse i) (other : i ≠ sfsRootdirIno) :
    s.contents i = a.contents i := by
  obtain ⟨live, x, good, rfl⟩ := h
  exact good.looks.contents i (good.inUse_iff.mp there) other

end Shown

section Runs

variable {s t u : Volume} {a b : Store} {ops : List (Call Space User × Replies)}
variable {answers : List (Except Errno (Answer Space User))} {op : Call Space User × Replies}
variable {r : Except Errno (Answer Space User)} {i : UInt32}

/-- What a run leaves shows a store again. -/
theorem Shows.run (sound : copy.Sound byte) (shows : Shows s a) (legal : (filesystem copy).Allows Legal s ops)
    (goes : (filesystem copy).calls s ops = .done (answers, t)) :
    ∃ b, (files byte).Run a ops answers b ∧ Shows t b := by
  obtain ⟨answers', t', b, goes', run, shows'⟩ := (filesystem_implements sound).calls shows legal
  rw [goes] at goes'
  cases goes'
  exact ⟨b, run, shows'⟩

/-- The references that a call takes and gives back. -/
def references (op : Call Space User × Replies) (r : Except Errno (Answer Space User)) : Nat → Int :=
  match op.1, r with
  | .incref v, .ok _ => Pi.single v 1
  | .decref v, .ok _ => Pi.single v (-1)
  | _, .ok (.vnode v) => Pi.single v 1
  | _, .ok (.parent v _) => Pi.single v 1
  | _, _ => 0

/-- The reference that comes with a vnode. -/
def gained : Except Errno Nat → Nat → Int
  | .ok v => Pi.single v 1
  | .error _ => 0

theorem Store.get_refs (v : Nat) (ino : UInt32) : (a.get v ino).refs = a.refs + Pi.single v 1 := by
  funext u
  rw [Pi.add_apply, Pi.single_apply]
  change Function.update a.refs v (a.refs v + 1) u = _
  rw [Function.update_apply]
  split
  · rename_i same
    rw [same]
  · rw [add_zero]

theorem Store.drop_refs (v : Nat) : (a.drop v).refs = a.refs + Pi.single v (-1) := by
  funext u
  rw [Pi.add_apply, Pi.single_apply]
  change Function.update a.refs v (a.refs v - 1) u = _
  rw [Function.update_apply]
  split
  · rename_i same
    rw [same, Int.sub_eq_add_neg]
  · rw [add_zero]

theorem Store.Loads.refs {e : Except Errno Nat} (h : a.Loads i e b) : b.refs = a.refs + gained e := by
  cases h with
  | gets => exact get_refs ..
  | noMemory => exact (add_zero _).symm

theorem Store.Lookup.refs {name : Name} {e : Except Errno Nat} (h : a.Lookup name e b) :
    b.refs = a.refs + gained e := by
  cases h with
  | missing => exact (add_zero _).symm
  | found _ loads => exact loads.refs

theorem Store.Creat.refs {name : Name} {excl : Bool} {e : Except Errno Nat} (h : a.Creat name excl e b) :
    b.refs = a.refs + gained e := by
  cases h with
  | taken => exact (add_zero _).symm
  | found _ _ loads => exact loads.refs
  | @made v ino => exact @get_refs ((a.fill ino .empty).bind name ino) v ino
  | refused => exact (add_zero _).symm

theorem Store.Lookparent.refs {v buflen : Nat} {path : Name} {e : Except Errno (Nat × Name)}
    (h : a.Lookparent v path buflen e b) : b.refs = a.refs + gained (e.map Prod.fst) := by
  cases h with
  | tooLong => exact (add_zero _).symm
  | parent => exact get_refs ..

theorem Store.Link.refs {name : Name} {e : Except Errno Unit} (h : a.Link name i e b) : b.refs = a.refs := by
  cases h with
  | directory => rfl
  | refused => rfl
  | linked => rfl

theorem Store.Remove.refs {name : Name} {e : Except Errno Unit} (h : a.Remove name e b) : b.refs = a.refs := by
  cases h with
  | missing => rfl
  | noMemory => rfl
  | removed => rfl

theorem Store.Rename.refs {n1 n2 : Name} {e : Except Errno Unit} (h : a.Rename n1 n2 e b) : b.refs = a.refs := by
  cases h with
  | missing => rfl
  | noMemory => rfl
  | refused => rfl
  | renamed => rfl

theorem Store.Truncate.refs {len : Int} {e : Except Errno Unit} (h : a.Truncate i len e b) : b.refs = a.refs := by
  cases h with
  | cut => rfl

theorem Store.Stats.same {e : Except Errno Stat} (h : a.Stats i e b) : b = a := by
  cases h with
  | directory => rfl
  | file => rfl

omit [DecidableEq Space] in
theorem Store.io_refs {memory : Memory Space User} {uio : Uio Space}
    {e : Except Errno (Except Errno Unit × Memory Space User × Uio Space)} {rw : UioRw}
    (h : a.io byte rw i memory uio e b) : b.refs = a.refs := by
  obtain ⟨_, _, _, c, _, _, -, rfl, -⟩ := h
  rfl

section Dispatch

variable {α : Type} {v : Nat} {e : Except Errno α}

/-- What an operation of a directory changes; without a directory nothing does. -/
theorem Store.onDir_refs {P : Except Errno α → Store → Prop} (change : Except Errno α → Nat → Int)
    (failed : ∀ err, change (.error err) = 0)
    (each : ∀ e b, P e b → b.refs = a.refs + change e) (h : a.onDir v P e b) : b.refs = a.refs + change e := by
  unfold Store.onDir at h
  split at h
  · exact each e b h
  · obtain ⟨rfl, rfl⟩ := h
    rw [failed, add_zero]

theorem Store.onFile_refs {P : UInt32 → Except Errno α → Store → Prop}
    (each : ∀ ino e b, P ino e b → b.refs = a.refs) (h : a.onFile v P e b) : b.refs = a.refs := by
  obtain ⟨ino, -, h⟩ := h
  split at h
  · exact congrArg Store.refs h.2
  · exact each ino e b h

end Dispatch

omit [DecidableEq Space] in
/-- A call changes the number of references by those that it takes and gives back. -/
theorem Store.Allows.refs (h : a.Allows byte op.1 r b) : b.refs = a.refs + references op r := by
  obtain ⟨call, w⟩ := op
  have vnode {e : Except Errno Nat} {call : Call Space User} (gets : ∀ v, references (call, w) (.ok (.vnode v)) =
      Pi.single v 1) (fails : ∀ err, references (call, w) (.error err) = 0) :
      references (call, w) (e.map .vnode) = gained e := by
    cases e with
    | ok v => exact gets v
    | error err => exact fails err
  have nothing {α : Type} {e : Except Errno α} {f : α → Answer Space User} {call : Call Space User}
      (gets : ∀ x, references (call, w) (.ok (f x)) = 0) (fails : ∀ err, references (call, w) (.error err) = 0)
      (same : b.refs = a.refs) : b.refs = a.refs + references (call, w) (e.map f) := by
    have none : references (call, w) (e.map f) = 0 := by
      cases e with
      | ok x => exact gets x
      | error err => exact fails err
    rw [none, add_zero]
    exact same
  have same (h : b.refs = a.refs + 0) : b.refs = a.refs := h.trans (add_zero _)
  cases call with
  | getroot =>
    obtain ⟨e, rfl, loads⟩ := h
    exact loads.refs.trans (congrArg _ (vnode (fun _ => rfl) fun _ => rfl).symm)
  | lookup =>
    obtain ⟨e, rfl, h⟩ := h
    exact (onDir_refs gained (fun _ => rfl) (fun e b h => h.refs) h).trans
      (congrArg _ (vnode (fun _ => rfl) fun _ => rfl).symm)
  | lookparent v path buflen =>
    obtain ⟨e, rfl, h⟩ := h
    refine (onDir_refs (fun e => gained (e.map Prod.fst)) (fun _ => rfl) (fun e b h => h.refs) h).trans ?_
    cases e with
    | ok p => rfl
    | error err => rfl
  | creat =>
    obtain ⟨e, rfl, h⟩ := h
    exact (onDir_refs gained (fun _ => rfl) (fun e b h => h.refs) h).trans
      (congrArg _ (vnode (fun _ => rfl) fun _ => rfl).symm)
  | link =>
    obtain ⟨e, rfl, h⟩ := h
    refine nothing (fun _ => rfl) (fun _ => rfl)
      (same (onDir_refs (fun _ => 0) (fun _ => rfl) (fun e b h => ?_) h))
    obtain ⟨ino, -, h⟩ := h
    exact h.refs.trans (add_zero _).symm
  | remove =>
    obtain ⟨e, rfl, h⟩ := h
    exact nothing (fun _ => rfl) (fun _ => rfl) (same (onDir_refs (fun _ => 0) (fun _ => rfl)
      (fun e b h => h.refs.trans (add_zero _).symm) h))
  | rename =>
    obtain ⟨e, rfl, h⟩ := h
    exact nothing (fun _ => rfl) (fun _ => rfl) (same (onDir_refs (fun _ => 0) (fun _ => rfl)
      (fun e b h => h.refs.trans (add_zero _).symm) h))
  | truncate =>
    obtain ⟨e, rfl, h⟩ := h
    exact nothing (fun _ => rfl) (fun _ => rfl) (onFile_refs (fun ino e b h => h.refs) h)
  | read =>
    obtain ⟨e, rfl, h⟩ := h
    exact nothing (fun _ => rfl) (fun _ => rfl) (onFile_refs (fun ino e b h => io_refs h) h)
  | write =>
    obtain ⟨e, rfl, h⟩ := h
    exact nothing (fun _ => rfl) (fun _ => rfl) (onFile_refs (fun ino e b h => io_refs h) h)
  | stat =>
    obtain ⟨e, rfl, ino, -, h⟩ := h
    exact nothing (fun _ => rfl) (fun _ => rfl) (congrArg Store.refs h.same)
  | gettype =>
    obtain ⟨rfl, rfl⟩ := h
    exact (add_zero _).symm
  | fsync =>
    obtain ⟨rfl, rfl⟩ := h
    exact (add_zero _).symm
  | incref v =>
    obtain ⟨rfl, ino, -, rfl⟩ := h
    exact get_refs v ino
  | decref v =>
    obtain ⟨rfl, rfl⟩ := h
    exact drop_refs v

theorem Shows.counted (sound : copy.Sound byte) (shows : Shows s a)
    (legal : (filesystem copy).Allows Legal s ops)
    (goes : (filesystem copy).calls s ops = .done (answers, t)) :
    t.refs = s.refs + (List.zipWith references ops answers).sum := by
  obtain ⟨b, run, shows'⟩ := shows.run sound legal goes
  rw [shows'.refs, shows.refs]
  exact run.sum Store.refs references fun a op r b allowed => Store.Allows.refs allowed

theorem Store.Loads.failed {err : Errno} (h : a.Loads i (.error err) b) : b = a := by
  cases h with
  | noMemory => rfl

theorem Store.Lookup.failed {name : Name} {err : Errno} (h : a.Lookup name (.error err) b) : b = a := by
  cases h with
  | missing => rfl
  | found _ loads => exact loads.failed

theorem Store.Creat.failed {name : Name} {excl : Bool} {err : Errno} (h : a.Creat name excl (.error err) b) :
    b = a := by
  cases h with
  | taken => rfl
  | found _ _ loads => exact loads.failed
  | refused => rfl

theorem Store.Lookparent.failed {v buflen : Nat} {path : Name} {err : Errno}
    (h : a.Lookparent v path buflen (.error err) b) : b = a := by
  cases h with
  | tooLong => rfl

theorem Store.Link.failed {name : Name} {err : Errno} (h : a.Link name i (.error err) b) : b = a := by
  cases h with
  | directory => rfl
  | refused => rfl

theorem Store.Remove.failed {name : Name} {err : Errno} (h : a.Remove name (.error err) b) : b = a := by
  cases h with
  | missing => rfl
  | noMemory => rfl

theorem Store.Rename.failed {n1 n2 : Name} {err : Errno} (h : a.Rename n1 n2 (.error err) b) : b = a := by
  cases h with
  | missing => rfl
  | noMemory => rfl
  | refused => rfl

section Dispatch

variable {α : Type} {v : Nat} {err : Errno}

theorem Store.onDir_failed {P : Except Errno α → Store → Prop} (each : ∀ err b, P (.error err) b → b = a)
    (h : a.onDir v P (.error err) b) : b = a := by
  unfold Store.onDir at h
  split at h
  · exact each err b h
  · exact h.2

theorem Store.onFile_failed {P : UInt32 → Except Errno α → Store → Prop}
    (each : ∀ ino err b, P ino (.error err) b → b = a) (h : a.onFile v P (.error err) b) : b = a := by
  obtain ⟨ino, -, h⟩ := h
  split at h
  · exact h.2
  · exact each ino err b h

omit [DecidableEq Space] in
theorem map_error {e : Except Errno α} {f : α → Answer Space User} (h : .error err = e.map f) :
    e = .error err := by
  cases e with
  | ok x => cases h
  | error err' =>
    cases h
    rfl

end Dispatch

omit [DecidableEq Space] in
theorem Store.Allows.failed {call : Call Space User} {err : Errno} (h : a.Allows byte call (.error err) b) :
    b = a := by
  cases call with
  | getroot =>
    obtain ⟨e, is, h⟩ := h
    exact (map_error is ▸ h).failed
  | lookup =>
    obtain ⟨e, is, h⟩ := h
    exact onDir_failed (fun _ _ h => h.failed) (map_error is ▸ h)
  | lookparent =>
    obtain ⟨e, is, h⟩ := h
    exact onDir_failed (fun _ _ h => h.failed) (map_error is ▸ h)
  | creat =>
    obtain ⟨e, is, h⟩ := h
    exact onDir_failed (fun _ _ h => h.failed) (map_error is ▸ h)
  | link =>
    obtain ⟨e, is, h⟩ := h
    refine onDir_failed (fun _ _ h => ?_) (map_error is ▸ h)
    obtain ⟨ino, -, h⟩ := h
    exact h.failed
  | remove =>
    obtain ⟨e, is, h⟩ := h
    exact onDir_failed (fun _ _ h => h.failed) (map_error is ▸ h)
  | rename =>
    obtain ⟨e, is, h⟩ := h
    exact onDir_failed (fun _ _ h => h.failed) (map_error is ▸ h)
  | truncate =>
    obtain ⟨e, is, h⟩ := h
    refine onFile_failed (fun _ _ _ h => ?_) (map_error is ▸ h)
    cases h
  | read =>
    obtain ⟨e, is, h⟩ := h
    refine onFile_failed (fun _ _ _ h => ?_) (map_error is ▸ h)
    obtain ⟨_, _, _, _, _, _, is, -⟩ := h
    cases is
  | write =>
    obtain ⟨e, is, h⟩ := h
    refine onFile_failed (fun _ _ _ h => ?_) (map_error is ▸ h)
    obtain ⟨_, _, _, _, _, _, is, -⟩ := h
    cases is
  | stat =>
    obtain ⟨e, is, ino, -, h⟩ := h
    exact h.same
  | gettype => exact h.2
  | fsync => exact h.2
  | incref => cases h.1
  | decref => cases h.1

/-- The call may change what is in a file. -/
def Call.Writes (s : Volume) (i : UInt32) : Call Space User → Prop
  | .truncate v _ => s.handle v = some i
  | .write v _ _ => s.handle v = some i
  | _ => False

/-- A file that is there keeps its contents in calls that are not for it. -/
theorem Store.Loads.contents {j : UInt32} {e : Except Errno Nat} (h : a.Loads j e b) : b.contents = a.contents := by
  cases h with
  | gets => rfl
  | noMemory => rfl

section Dispatch

variable {α : Type} {v : Nat} {e : Except Errno α}

theorem Store.onDir_contents {P : Except Errno α → Store → Prop}
    (each : ∀ e b, P e b → b.contents i = a.contents i) (h : a.onDir v P e b) : b.contents i = a.contents i := by
  unfold Store.onDir at h
  split at h
  · exact each e b h
  · rw [h.2]

theorem Store.onFile_contents {P : UInt32 → Except Errno α → Store → Prop}
    (each : ∀ ino e b, a.handle v = some ino → P ino e b → b.contents i = a.contents i) (h : a.onFile v P e b) :
    b.contents i = a.contents i := by
  obtain ⟨ino, held, h⟩ := h
  split at h
  · rw [h.2]
  · exact each ino e b held h

end Dispatch

omit [DecidableEq Space] in
theorem Store.Allows.contents {call : Call Space User} (h : a.Allows byte call r b) (shows : Shows s a)
    (there : s.InUse i) (other : ¬ call.Writes s i) : b.contents i = a.contents i := by
  have filled {ino : UInt32} {c : Contents} (apart : i ≠ ino) : (a.fill ino c).contents i = a.contents i :=
    Function.update_of_ne apart ..
  cases call with
  | getroot =>
    obtain ⟨e, -, h⟩ := h
    rw [h.contents]
  | lookup =>
    obtain ⟨e, -, h⟩ := h
    refine onDir_contents (fun e b h => ?_) h
    cases h with
    | missing => rfl
    | found _ loads => rw [loads.contents]
  | lookparent =>
    obtain ⟨e, -, h⟩ := h
    refine onDir_contents (fun e b h => ?_) h
    cases h with
    | tooLong => rfl
    | parent => rfl
  | creat =>
    obtain ⟨e, -, h⟩ := h
    refine onDir_contents (fun e b h => ?_) h
    cases h with
    | taken => rfl
    | found _ _ loads => rw [loads.contents]
    | @made _ ino _ _ new =>
      refine filled ?_
      rintro rfl
      apply new
      unfold Volume.InUse at there
      rw [shows.names, shows.handle] at there
      exact there
    | refused => rfl
  | link =>
    obtain ⟨e, -, h⟩ := h
    refine onDir_contents (fun e b h => ?_) h
    obtain ⟨ino, -, h⟩ := h
    cases h with
    | directory => rfl
    | refused => rfl
    | linked => rfl
  | remove =>
    obtain ⟨e, -, h⟩ := h
    refine onDir_contents (fun e b h => ?_) h
    cases h with
    | missing => rfl
    | noMemory => rfl
    | removed => rfl
  | rename =>
    obtain ⟨e, -, h⟩ := h
    refine onDir_contents (fun e b h => ?_) h
    cases h with
    | missing => rfl
    | noMemory => rfl
    | refused => rfl
    | renamed => rfl
  | truncate v len =>
    obtain ⟨e, -, h⟩ := h
    refine onFile_contents (fun ino e b held h => ?_) h
    cases h with
    | cut =>
      refine filled fun same => other ?_
      rw [same]
      exact (congrFun shows.handle v).trans held
  | read v memory uio =>
    obtain ⟨e, -, h⟩ := h
    refine onFile_contents (fun ino e b held h => ?_) h
    obtain ⟨e, memory', uio', c, base, off, -, rfl, ready, transfers⟩ := h
    have same : c = a.contents ino := by
      cases transfers with
      | all moved => exact (moved.loaded ready.rw).1
      | fault moved => exact (moved.loaded ready.rw).1
      | tooBig moved => exact (moved.loaded ready.rw).1
      | full moved => exact (moved.loaded ready.rw).1
    rw [same]
    exact congrFun (Function.update_eq_self ..) i
  | write v memory uio =>
    obtain ⟨e, -, h⟩ := h
    refine onFile_contents (fun ino e b held h => ?_) h
    obtain ⟨e, memory', uio', c, base, off, -, rfl, -⟩ := h
    refine filled fun same => other ?_
    rw [same]
    exact (congrFun shows.handle v).trans held
  | stat =>
    obtain ⟨e, -, ino, -, h⟩ := h
    rw [h.same]
  | gettype =>
    obtain ⟨-, rfl⟩ := h
    rfl
  | fsync =>
    obtain ⟨-, rfl⟩ := h
    rfl
  | incref =>
    obtain ⟨-, ino, -, rfl⟩ := h
    rfl
  | decref =>
    obtain ⟨-, rfl⟩ := h
    rfl

omit [DecidableEq Space] in
/-- There is one block, and one place in the file. -/
theorem Call.Ready.one {rw rw' : UioRw} {memory memory' : Memory Space User} {uio : Uio Space}
    {base base' off off' : Nat} (first : Call.Ready rw memory uio base off)
    (second : Call.Ready rw' memory' uio base' off') : base = base' ∧ off = off' := by
  obtain ⟨len, block, -⟩ := first.block.block
  obtain ⟨len', block', -⟩ := second.block.block
  have place := first.offset.symm.trans second.offset
  rw [block] at block'
  cases block'
  exact ⟨rfl, by omega⟩

def zeros : Memory Unit Unit := ⟨fun _ => 0, (), none⟩

end Runs

end Os161.Sfs
