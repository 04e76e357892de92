import Os161.Sfs.Live
import Mathlib.Data.Set.Card

/-!
# What a file system is for

A store of files: names for them, what is in them, and the vnodes through which users have them. What
each call does to the store, and how it can fail; a call that fails leaves the store as it was, but
for a transfer, that may have moved a part.
-/

namespace Os161.Sfs

namespace Contents

/-- A file without bytes. -/
def empty : Contents := ⟨0, fun _ => 0⟩

/-- `n` bytes are written at `off`, and the file is longer then if it has to be. -/
def write (c : Contents) (off : Nat) (src : Bytes) (base n : Nat) : Contents :=
  ⟨if 0 < n then max c.size (off + n) else c.size, c.bytes.memmove off src base n⟩

end Contents

@[ext] structure Store where
  names : Name → Option UInt32
  contents : UInt32 → Contents
  refs : Nat → Int
  handle : Nat → Option UInt32

/-- Why a name cannot be put into the directory. -/
def Refuses (names : Name → Option UInt32) (name : Name) (err : Errno) : Prop :=
  err = .eexist ∧ names name ≠ none ∨
  names name = none ∧ (err = .enametoolong ∧ 59 < name.val.length ∨
    (err = .enospc ∨ err = .efbig) ∧ name.val.length ≤ 59)

namespace Store

/-- A file is there as long as it has a name or somebody has a vnode of it. -/
def Exists (a : Store) (ino : UInt32) : Prop :=
  ino = sfsRootdirIno ∨ (∃ name, a.names name = some ino) ∨ ∃ v, a.handle v = some ino

/-- Somebody has one more reference to a vnode. -/
def get (a : Store) (v : Nat) (ino : UInt32) : Store :=
  { a with refs := Function.update a.refs v (a.refs v + 1), handle := Function.update a.handle v (some ino) }

/-- Somebody gives a reference up, and the last one takes the vnode along. -/
def drop (a : Store) (v : Nat) : Store :=
  { a with
    refs := Function.update a.refs v (a.refs v - 1)
    handle := if a.refs v = 1 then Function.update a.handle v none else a.handle }

def bind (a : Store) (name : Name) (ino : UInt32) : Store :=
  { a with names := Function.update a.names name (some ino) }

def unbind (a : Store) (name : Name) : Store := { a with names := Function.update a.names name none }

def fill (a : Store) (ino : UInt32) (c : Contents) : Store :=
  { a with contents := Function.update a.contents ino c }

/-- A reference that is taken and given back leaves the store as it was. -/
theorem drop_get {a : Store} {v : Nat} {ino : UInt32} (was : a.handle v = none ∨ a.handle v = some ino)
    (count : a.handle v = none ↔ a.refs v = 0) : (a.get v ino).drop v = a := by
  have refs : (a.get v ino).refs v = a.refs v + 1 := Function.update_self ..
  refine Store.ext rfl rfl ?_ ?_
  · change Function.update (Function.update a.refs v (a.refs v + 1)) v ((a.get v ino).refs v - 1) = a.refs
    rw [refs, Function.update_idem, Int.add_sub_cancel, Function.update_eq_self]
  · change (if (a.get v ino).refs v = 1 then Function.update (Function.update a.handle v (some ino)) v none
      else Function.update a.handle v (some ino)) = a.handle
    rw [refs]
    by_cases none : a.handle v = none
    · rw [if_pos (by rw [count.mp none]; rfl), Function.update_idem, ← none, Function.update_eq_self]
    · rw [if_neg fun one => none (count.mpr (by omega)), ← was.resolve_left none, Function.update_eq_self]

/-- A user gets a vnode of a file. -/
inductive Loads (a : Store) (ino : UInt32) : Except Errno Nat → Store → Prop
  | gets {v : Nat} (was : a.handle v = none ∨ a.handle v = some ino) : Loads a ino (.ok v) (a.get v ino)
  | noMemory : Loads a ino (.error .enomem) a

inductive Lookup (a : Store) (name : Name) : Except Errno Nat → Store → Prop
  | missing (unbound : a.names name = none) : Lookup a name (.error .enoent) a
  | found {ino : UInt32} {r : Except Errno Nat} {b : Store} (bound : a.names name = some ino)
      (loads : a.Loads ino r b) : Lookup a name r b

inductive Creat (a : Store) (name : Name) (excl : Bool) : Except Errno Nat → Store → Prop
  | taken (only : excl = true) (bound : a.names name ≠ none) : Creat a name excl (.error .eexist) a
  | found {ino : UInt32} {r : Except Errno Nat} {b : Store} (any : excl = false) (bound : a.names name = some ino)
      (loads : a.Loads ino r b) : Creat a name excl r b
  | made {v : Nat} {ino : UInt32} (unbound : a.names name = none) (short : name.val.length ≤ 59)
      (new : ¬ a.Exists ino) (fresh : a.handle v = none) :
      Creat a name excl (.ok v) (((a.fill ino .empty).bind name ino).get v ino)
  | refused {err : Errno} (unbound : a.names name = none) (refuses : Refuses a.names name err ∨
      err = .enospc ∨ err = .enomem) : Creat a name excl (.error err) a

inductive Link (a : Store) (name : Name) (ino : UInt32) : Except Errno Unit → Store → Prop
  | directory (root : ino = sfsRootdirIno) : Link a name ino (.error .einval) a
  | refused {err : Errno} (other : ino ≠ sfsRootdirIno) (refuses : Refuses a.names name err) :
      Link a name ino (.error err) a
  | linked (other : ino ≠ sfsRootdirIno) (unbound : a.names name = none) (short : name.val.length ≤ 59) :
      Link a name ino (.ok ()) (a.bind name ino)

inductive Remove (a : Store) (name : Name) : Except Errno Unit → Store → Prop
  | missing (unbound : a.names name = none) : Remove a name (.error .enoent) a
  | noMemory (bound : a.names name ≠ none) : Remove a name (.error .enomem) a
  | removed (bound : a.names name ≠ none) : Remove a name (.ok ()) (a.unbind name)

inductive Rename (a : Store) (n1 n2 : Name) : Except Errno Unit → Store → Prop
  | missing (unbound : a.names n1 = none) : Rename a n1 n2 (.error .enoent) a
  | noMemory (bound : a.names n1 ≠ none) : Rename a n1 n2 (.error .enomem) a
  | refused {err : Errno} (bound : a.names n1 ≠ none) (refuses : Refuses a.names n2 err) :
      Rename a n1 n2 (.error err) a
  | renamed {ino : UInt32} (bound : a.names n1 = some ino) (unbound : a.names n2 = none)
      (short : n2.val.length ≤ 59) : Rename a n1 n2 (.ok ()) ((a.bind n2 ino).unbind n1)

inductive Lookparent (a : Store) (v : Nat) (path : Name) (buflen : Nat) : Except Errno (Nat × Name) → Store → Prop
  | tooLong (long : buflen ≤ path.val.length) : Lookparent a v path buflen (.error .enametoolong) a
  | parent (short : path.val.length < buflen) :
      Lookparent a v path buflen (.ok (v, path)) (a.get v sfsRootdirIno)

/-- A file is cut, or made longer; each byte of it stays or is 0. -/
inductive Truncate (a : Store) (ino : UInt32) (len : Int) : Except Errno Unit → Store → Prop
  | cut {c : Contents} (size : c.size = (UInt32.ofInt len).toNat)
      (stays : ∀ p, c.bytes p = (a.contents ino).bytes p ∨ c.bytes p = 0)
      (kept : len + 512 ≤ 2 ^ 41 → ∀ p : Nat, p < len → c.bytes p = (a.contents ino).bytes p) :
      Truncate a ino len (.ok ()) (a.fill ino c)

/-- The number of links is the number of names. -/
inductive Stats (a : Store) (ino : UInt32) : Except Errno Stat → Store → Prop
  | directory {st : Stat} (root : ino = sfsRootdirIno) (mode : st.stMode = sIfdir) : Stats a ino (.ok st) a
  | file {st : Stat} (other : ino ≠ sfsRootdirIno) (mode : st.stMode = sIfreg)
      (size : st.stSize.toNat = (a.contents ino).size)
      (nlink : st.stNlink.toNat = {name | a.names name = some ino}.ncard) : Stats a ino (.ok st) a

section Transfer

variable {Space User : Type} (byte : User → Bytes)

/-- `n` bytes have gone from the file to the caller, or the other way. -/
structure Moved (c d : Contents) (memory memory' : Memory Space User) (uio uio' : Uio Space) (base off n : Nat) :
    Prop where
  advanced : uio' = uio.advance n
  space : memory'.tAddrspace = memory.tAddrspace
  stored : uio.uioRw = .write → memory' = memory ∧ d = c.write off (memory.at byte uio.uioSegflg) base n
  loaded : uio.uioRw = .read → d = c ∧
    memory'.at byte uio.uioSegflg = (memory.at byte uio.uioSegflg).memmove base c.bytes off n

/-- What a transfer has to move: a read stops at the end of the file. -/
def wanted (c : Contents) (uio : Uio Space) (off : Nat) : Nat :=
  if uio.uioRw = .read then min uio.uioResid.toNat (c.size - off) else uio.uioResid.toNat

/-- A transfer moves what it has to move, or it stops where the caller has no memory, a file cannot have
a block or the volume is full. -/
inductive Transfers (c d : Contents) (memory memory' : Memory Space User) (uio uio' : Uio Space)
    (base off : Nat) : Except Errno Unit → Prop
  | all (moved : Moved byte c d memory memory' uio uio' base off (wanted c uio off)) :
      Transfers c d memory memory' uio uio' base off (.ok ())
  | fault {between : Memory Space User} {n : Nat} (moved : Moved byte c d memory between uio uio' base off n)
      (used : n ≤ wanted c uio off) (user : uio.uioSegflg ≠ .sysspace) :
      Transfers c d memory memory' uio uio' base off (.error .efault)
  | tooBig {n : Nat} (moved : Moved byte c d memory memory' uio uio' base off n) (used : n ≤ wanted c uio off)
      (border : 143 * 512 ≤ off + n) : Transfers c d memory memory' uio uio' base off (.error .efbig)
  | full {n : Nat} (moved : Moved byte c d memory memory' uio uio' base off n) (used : n ≤ wanted c uio off)
      (write : uio.uioRw = .write) : Transfers c d memory memory' uio uio' base off (.error .enospc)

end Transfer

end Store

end Os161.Sfs
