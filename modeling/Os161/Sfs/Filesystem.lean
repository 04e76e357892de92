import Os161.Base.Spec
import Os161.Sfs.Refine

/-!
# The file system as an object

Users call the operations on the vnodes that they have, one after the other under `vfs_biglock`. The
file system implements the store of `Sfs.Store`: every call comes back, with an answer of the store.
-/

namespace Os161.Sfs

variable {Space User : Type}

/-- A call; `kmalloc` returns what is in `mallocs`. -/
inductive Call (Space User : Type) where
  | getroot (mallocs : LoadMallocs)
  | lookup (v : Nat) (path : Name) (mallocs : LoadMallocs)
  | lookparent (v : Nat) (path : Name) (buflen : Nat)
  | creat (v : Nat) (name : Name) (excl : Bool) (mallocs : LoadMallocs)
  | link (dir : Nat) (name : Name) (file : Nat)
  | remove (dir : Nat) (name : Name) (mallocs : LoadMallocs)
  | rename (d1 : Nat) (n1 : Name) (d2 : Nat) (n2 : Name) (mallocs : LoadMallocs)
  | truncate (v : Nat) (len : Int)
  | read (v : Nat) (memory : Memory Space User) (uio : Uio Space)
  | write (v : Nat) (memory : Memory Space User) (uio : Uio Space)
  | stat (v : Nat)
  | gettype (v : Nat)
  | fsync (v : Nat)
  | incref (v : Nat)
  | decref (v : Nat)

inductive Answer (Space User : Type) where
  | nothing
  | vnode (v : Nat)
  | parent (v : Nat) (name : Name)
  | stat (st : Stat)
  | type (type : UInt32)
  | moved (result : Except Errno Unit) (memory : Memory Space User) (uio : Uio Space)

namespace Call

def answer {α : Type} (f : α → Answer Space User) (call : Fallible Errno Replies Volume α) :
    Fallible Errno Replies Volume (Answer Space User) := do
  let a ← call
  return f a

/-- What a call does. -/
def exec [DecidableEq Space] (copy : UserCopy User) :
    Call Space User → Fallible Errno Replies Volume (Answer Space User)
  | getroot mallocs => answer .vnode (sfsGetroot mallocs)
  | lookup v path mallocs => answer .vnode (vopLookup v path mallocs)
  | lookparent v path buflen => answer (fun p => .parent p.1 p.2) (vopLookparent v path buflen)
  | creat v name excl mallocs => answer .vnode (vopCreat v name excl mallocs)
  | link dir name file => answer (fun _ => .nothing) (vopLink dir name file)
  | remove dir name mallocs => answer (fun _ => .nothing) (vopRemove dir name mallocs)
  | rename d1 n1 d2 n2 mallocs => answer (fun _ => .nothing) (vopRename d1 n1 d2 n2 mallocs)
  | truncate v len => answer (fun _ => .nothing) (vopTruncate v len)
  | read v memory uio => answer (fun m => .moved m.1 m.2.1 m.2.2) (vopRead copy v memory uio)
  | write v memory uio => answer (fun m => .moved m.1 m.2.1 m.2.2) (vopWrite copy v memory uio)
  | stat v => answer .stat (vopStat v)
  | gettype v => answer .type (vopGettype v)
  | fsync v => answer (fun _ => .nothing) (vopFsync v)
  | incref v => answer (fun _ => .nothing) (vnodeIncref v)
  | decref v => answer (fun _ => .nothing) (vnodeDecref v)

/-- A transfer of a block of the caller's memory, to or from a place that has a block number. -/
structure Ready (rw : UioRw) (memory : Memory Space User) (uio : Uio Space) (base off : Nat) : Prop where
  rw : uio.uioRw = rw
  block : uio.Ready memory base
  offset : uio.uioOffset = (off : Nat)
  short : off < 2 ^ 41

/-- Users pass vnodes that they have, `kmalloc` returns memory that nobody has, and the second directory
of `VOP_RENAME` comes from `VOP_LOOKPARENT`. -/
def Legal (s : Volume) : Call Space User → Prop
  | getroot mallocs => FreshMalloc s mallocs
  | lookup v _ mallocs => s.handle v ≠ none ∧ FreshMalloc s mallocs
  | lookparent v _ _ => s.handle v ≠ none
  | creat v _ _ mallocs => s.handle v ≠ none ∧ FreshMalloc s mallocs
  | link dir _ file => s.handle dir ≠ none ∧ s.handle file ≠ none
  | remove dir _ mallocs => s.handle dir ≠ none ∧ FreshMalloc s mallocs
  | rename d1 _ d2 _ mallocs => s.handle d1 ≠ none ∧ s.handle d2 = some sfsRootdirIno ∧ FreshMalloc s mallocs
  | truncate v _ => s.handle v ≠ none
  | read v memory uio => s.handle v ≠ none ∧ ∃ base off, Ready .read memory uio base off
  | write v memory uio => s.handle v ≠ none ∧ ∃ base off, Ready .write memory uio base off
  | stat v => s.handle v ≠ none
  | gettype v => s.handle v ≠ none
  | fsync v => s.handle v ≠ none
  | incref v => s.handle v ≠ none
  | decref v => s.handle v ≠ none

end Call

namespace Store

/-- What a call of the operations of a directory may come to. -/
def onDir {α : Type} (a : Store) (v : Nat) (P : Except Errno α → Store → Prop) (r : Except Errno α) (b : Store) :
    Prop :=
  if a.handle v = some sfsRootdirIno then P r b else r = .error .enotdir ∧ b = a

/-- What a call of the operations of a file may come to. -/
def onFile {α : Type} (a : Store) (v : Nat) (P : UInt32 → Except Errno α → Store → Prop) (r : Except Errno α)
    (b : Store) : Prop :=
  ∃ ino, a.handle v = some ino ∧ if ino = sfsRootdirIno then r = .error .eisdir ∧ b = a else P ino r b

/-- A transfer for a file, with what it leaves of the caller's memory and `uio`. -/
def io (byte : User → Bytes) (a : Store) (rw : UioRw) (ino : UInt32) (memory : Memory Space User) (uio : Uio Space)
    (r : Except Errno (Except Errno Unit × Memory Space User × Uio Space)) (b : Store) : Prop :=
  ∃ e memory' uio' c base off, r = .ok (e, memory', uio') ∧ b = a.fill ino c ∧ Call.Ready rw memory uio base off ∧
    Transfers byte (a.contents ino) c memory memory' uio uio' base off e

/-- What a call may answer, and what it may leave. -/
def Allows (byte : User → Bytes) (a : Store) (call : Call Space User) (r : Except Errno (Answer Space User))
    (b : Store) : Prop :=
  match call with
  | .getroot _ => ∃ e, r = e.map .vnode ∧ a.Loads sfsRootdirIno e b
  | .lookup v path _ => ∃ e, r = e.map .vnode ∧ a.onDir v (a.Lookup path) e b
  | .lookparent v path buflen =>
    ∃ e, r = e.map (fun p => .parent p.1 p.2) ∧ a.onDir v (a.Lookparent v path buflen) e b
  | .creat v name excl _ => ∃ e, r = e.map .vnode ∧ a.onDir v (a.Creat name excl) e b
  | .link dir name file => ∃ e, r = e.map (fun _ => .nothing) ∧
    a.onDir dir (fun e b => ∃ ino, a.handle file = some ino ∧ a.Link name ino e b) e b
  | .remove dir name _ => ∃ e, r = e.map (fun _ => .nothing) ∧ a.onDir dir (a.Remove name) e b
  | .rename d1 n1 _ n2 _ => ∃ e, r = e.map (fun _ => .nothing) ∧ a.onDir d1 (a.Rename n1 n2) e b
  | .truncate v len => ∃ e, r = e.map (fun _ => .nothing) ∧ a.onFile v (fun ino => a.Truncate ino len) e b
  | .read v memory uio => ∃ e, r = e.map (fun m => .moved m.1 m.2.1 m.2.2) ∧
    a.onFile v (fun ino => a.io byte .read ino memory uio) e b
  | .write v memory uio => ∃ e, r = e.map (fun m => .moved m.1 m.2.1 m.2.2) ∧
    a.onFile v (fun ino => a.io byte .write ino memory uio) e b
  | .stat v => ∃ e, r = e.map .stat ∧ ∃ ino, a.handle v = some ino ∧ a.Stats ino e b
  | .gettype v => r = .ok (.type (if a.handle v = some sfsRootdirIno then sIfdir else sIfreg)) ∧ b = a
  | .fsync _ => r = .ok .nothing ∧ b = a
  | .incref v => r = .ok .nothing ∧ ∃ ino, a.handle v = some ino ∧ b = a.get v ino
  | .decref v => r = .ok .nothing ∧ b = a.drop v

end Store

/-- The calls of users, with the answers of the device to each. -/
def filesystem [DecidableEq Space] (copy : UserCopy User) :
    Object Volume (Call Space User × Replies) (Except Errno (Answer Space User)) where
  call s op := do
    let (r, t, _) ← op.1.exec copy s op.2
    return (r, t)

/-- The store of files. -/
def files (byte : User → Bytes) :
    Spec Store (Call Space User × Replies) (Except Errno (Answer Space User)) where
  allows a op r b := a.Allows byte op.1 r b

/-- A call that users may make, while the device has no errors. -/
def Legal (s : Volume) (op : Call Space User × Replies) : Prop := op.1.Legal s ∧ Fine op.2

/-- The store that a volume shows. -/
def Shows (s : Volume) (a : Store) : Prop := ∃ live x, Good s live x ∧ x.store = a

section Answers

variable {α : Type} {s : Volume} {w : Replies} {P : Except Errno α → Store → Prop}

theorem Comes.answer {call : Fallible Errno Replies Volume α} (f : α → Answer Space User) (h : Comes call s w P) :
    Comes (Call.answer f call) s w fun r b => ∃ e, r = e.map f ∧ P e b := by
  refine Goes.bind h (fun a t u fine ends => ?_) fun err t ends => ?_
  · obtain ⟨live, x, good, holds⟩ := ends
    exact goes_pure fine ⟨live, x, good, .ok a, rfl, holds⟩
  · obtain ⟨live, x, good, holds⟩ := ends
    exact ⟨live, x, good, .error err, rfl, holds⟩

theorem Comes.mono {call : Fallible Errno Replies Volume α} {Q : Except Errno α → Store → Prop}
    (h : Comes call s w P) (imp : ∀ r b, P r b → Q r b) : Comes call s w Q := by
  refine Goes.mono h fun r t ends => ?_
  obtain ⟨live, x, good, holds⟩ := ends
  exact ⟨live, x, good, imp r _ holds⟩

theorem Comes.congr {call call' : Fallible Errno Replies Volume α} (same : call s w = call' s w)
    (h : Comes call' s w P) : Comes call s w P := by
  obtain ⟨r, t, u, goes, ends⟩ := h
  exact ⟨r, t, u, same.trans goes, ends⟩

end Answers

section Dispatch

variable {α : Type} {s : Volume} {live : UInt32 → Prop} {x : View} {v : Nat} {ino : UInt32} {w : Replies}

/-- The operations of a directory, which files do not have. -/
theorem Good.onDir {call : Fallible Errno Replies Volume α} {P : Except Errno α → Store → Prop} (h : Good s live x)
    (fine : Fine w) (held : x.handle v ≠ none)
    (dir : x.handle v = some sfsRootdirIno → Comes call s w P) :
    Comes (Sfs.vop v (.fail .enotdir) call) s w (x.store.onDir v P) := by
  obtain ⟨ino, held⟩ := Option.ne_none_iff_exists'.mp held
  by_cases root : ino = sfsRootdirIno
  · subst root
    refine .congr ((h.vop held w).trans (if_pos rfl)) ((dir held).mono fun r b holds => ?_)
    exact (if_pos held).mpr holds
  · refine .congr ((h.vop held w).trans (if_neg root)) (goes_fail fine ⟨live, x, h, ?_⟩)
    have file : x.store.handle v ≠ some sfsRootdirIno := fun is => root (Option.some.inj (held.symm.trans is))
    exact (if_neg file).mpr ⟨rfl, rfl⟩

/-- The operations of a file, which directories do not have. -/
theorem Good.onFile {call : Fallible Errno Replies Volume α} {P : UInt32 → Except Errno α → Store → Prop}
    (h : Good s live x) (fine : Fine w) (held : x.handle v ≠ none)
    (file : ∀ ino, x.handle v = some ino → ino ≠ sfsRootdirIno → Comes call s w (P ino)) :
    Comes (Sfs.vop v call (.fail .eisdir)) s w (x.store.onFile v P) := by
  obtain ⟨ino, held⟩ := Option.ne_none_iff_exists'.mp held
  by_cases root : ino = sfsRootdirIno
  · exact .congr ((h.vop held w).trans (if_pos root))
      (goes_fail fine ⟨live, x, h, ino, held, (if_pos root).mpr ⟨rfl, rfl⟩⟩)
  · refine .congr ((h.vop held w).trans (if_neg root)) ((file ino held root).mono fun r b holds => ?_)
    exact ⟨ino, held, (if_neg root).mpr holds⟩

end Dispatch

section Calls

variable [DecidableEq Space] {copy : UserCopy User} {byte : User → Bytes} {s : Volume} {live : UInt32 → Prop}
variable {x : View} {w : Replies}

/-- A read or a write of a file. -/
theorem Good.transfer {v : Nat} {memory : Memory Space User} {uio : Uio Space} {rw : UioRw} (h : Good s live x)
    (sound : copy.Sound byte) (fine : Fine w) (held : x.handle v ≠ none)
    (ready : ∃ base off, Call.Ready rw memory uio base off) :
    Comes (Sfs.vop v (do .kassert (uio.uioRw = rw); ioVnode copy v memory uio) (.fail .eisdir)) s w
      (x.store.onFile v fun ino => x.store.io byte rw ino memory uio) := by
  obtain ⟨base, off, ready⟩ := ready
  refine h.onFile fine held fun ino held other => goes_kassert ready.rw ?_
  refine (h.io sound fine held other ready.block ready.offset ready.short).mono fun r b holds => ?_
  obtain ⟨e, memory', uio', c, is, fill, transfers⟩ := holds
  exact ⟨e, memory', uio', c, base, off, is, fill, ready, transfers⟩

/-- Every call of a user comes back with an answer of the store. -/
theorem Good.call (h : Good s live x) (sound : copy.Sound byte) (fine : Fine w) (call : Call Space User)
    (legal : call.Legal s) : Comes (call.exec copy) s w (x.store.Allows byte call) := by
  have handle := h.looks.handle
  unfold Call.Legal at legal
  rw [handle] at legal
  cases call with
  | getroot mallocs => exact (h.getroot fine legal).answer _
  | lookup v path mallocs =>
    exact (h.onDir fine legal.1 fun dir => h.lookup fine dir path legal.2).answer _
  | lookparent v path buflen =>
    exact (h.onDir fine legal fun dir => h.lookparent fine dir path buflen).answer _
  | creat v name excl mallocs =>
    exact (h.onDir fine legal.1 fun dir => h.creat fine dir name excl legal.2).answer _
  | link dir name file =>
    obtain ⟨ino, held⟩ := Option.ne_none_iff_exists'.mp legal.2
    refine (h.onDir fine legal.1 fun dir => ?_).answer _
    exact (h.link fine dir name held).mono fun r b holds => ⟨ino, held, holds⟩
  | remove dir name mallocs =>
    exact (h.onDir fine legal.1 fun dir => h.remove fine dir name legal.2).answer _
  | rename d1 n1 d2 n2 mallocs =>
    refine (h.onDir fine legal.1 fun dir => ?_).answer _
    rw [h.looks.apart legal.2.1 dir]
    exact h.rename fine dir n1 n2 legal.2.2
  | truncate v len =>
    exact (h.onFile fine legal fun ino held other => h.truncate fine held other len).answer _
  | read v memory uio => exact (h.transfer sound fine legal.1 legal.2).answer _
  | write v memory uio => exact (h.transfer sound fine legal.1 legal.2).answer _
  | stat v =>
    obtain ⟨ino, held⟩ := Option.ne_none_iff_exists'.mp legal
    exact ((h.stat fine held).mono fun r b holds => ⟨ino, held, holds⟩).answer _
  | gettype v =>
    obtain ⟨ino, held⟩ := Option.ne_none_iff_exists'.mp legal
    refine ⟨_, s, w, Fallible.bind_ok (h.gettype held w), fine, live, x, h, ?_, rfl⟩
    have store : x.store.handle v = some ino := held
    rw [store]
    by_cases root : ino = sfsRootdirIno
    · rw [if_pos root, if_pos (congrArg some root)]
    · rw [if_neg root, if_neg fun is => root (Option.some.inj is)]
  | fsync v =>
    obtain ⟨ino, held⟩ := Option.ne_none_iff_exists'.mp legal
    refine ((h.fsync fine held).answer _).mono fun r b holds => ?_
    obtain ⟨e, is, rfl, same⟩ := holds
    exact ⟨is, same⟩
  | incref v =>
    obtain ⟨ino, held⟩ := Option.ne_none_iff_exists'.mp legal
    refine ((h.incref fine held).answer _).mono fun r b holds => ?_
    obtain ⟨e, is, rfl, got⟩ := holds
    exact ⟨is, ino, held, got⟩
  | decref v =>
    obtain ⟨ino, held⟩ := Option.ne_none_iff_exists'.mp legal
    refine ((h.decref fine held).answer _).mono fun r b holds => ?_
    obtain ⟨e, is, rfl, dropped⟩ := holds
    exact ⟨is, dropped⟩

theorem filesystem_implements (sound : copy.Sound byte) :
    (@filesystem Space User _ copy).Implements (files byte) Shows Legal := by
  rintro s a op ⟨live, x, good, rfl⟩ legal
  obtain ⟨r, t, u, goes, -, live', y, good', allowed⟩ := good.call sound legal.2 op.1 legal.1
  refine ⟨r, t, y.store, ?_, allowed, live', y, good', rfl⟩
  change (op.1.exec copy s op.2 >>= _) = _
  rw [goes]
  rfl

end Calls

/-! ### A small volume -/

theorem Superblock.ofSector_toSector (sb : Superblock) : .ofSector sb.toSector = sb := by
  have words : sectorWords sb.toSector = sb.words := sectorWords_wordsSector sb.words
  have name : (fun i : Fin 8 => sb.words ⟨i + 2, by omega⟩) = unpackWords (n := 8) sb.sbVolname := by
    funext i
    unfold Superblock.words
    dsimp only
    rw [if_neg (by omega), if_neg (by omega), dif_pos (by omega)]
    exact congrArg (unpackWords (n := 8) sb.sbVolname) (Fin.ext (Nat.add_sub_cancel ..))
  have rest : (fun i : Fin 118 => sb.words ⟨i + 10, by omega⟩) = sb.reserved := by
    funext i
    unfold Superblock.words
    dsimp only
    rw [if_neg (by omega), if_neg (by omega), dif_neg (by omega)]
    exact congrArg sb.reserved (Fin.ext (Nat.add_sub_cancel ..))
  unfold Superblock.ofSector
  rw [words, name, rest, pack_unpackWords (n := 8)]
  rfl

/-- What can be seen of a volume, as it is. -/
def Volume.view (s : Volume) : View := ⟨s.slots, s.links, s.contents, s.refs, s.handle⟩

theorem Books.looks {s : Volume} {live : UInt32 → Prop} (h : Books s live) : Looks s live s.view :=
  ⟨h, rfl, fun _ _ => rfl, fun _ _ _ => rfl, rfl, rfl⟩

end Os161.Sfs
