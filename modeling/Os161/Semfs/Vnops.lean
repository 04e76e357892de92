import Os161.Base.LockCode
import Os161.File.Layer

/-!
# Names and vnodes of semfs

`semfs_vnops.c` and the parts of `vnode.c`, `vfslookup.c` and `vfspath.c` through which it is called,
lock by lock. A path names a semaphore of the one semfs: it is what comes after `sem:`.
-/

namespace Os161.Semfs

open Locks (Code look act choose acquire release destroy kassert deref)

def semfsRootdir : Nat := 0xffffffff

structure SemfsSem where
  semsCount : UInt32
  semsHasvnode : Bool
  semsLinked : Bool
  deriving DecidableEq

structure SemfsDirentry where
  semdName : String
  semdSemnum : Nat
  deriving DecidableEq

/-- `struct semfs_vnode` with its `struct vnode`. -/
structure SemfsVnode where
  vnRefcount : Int
  semvSemnum : Nat
  deriving DecidableEq

/-- `struct semfs`, and what its pointers point to. -/
structure Table where
  semfsVnodes : List Nat
  semfsSems : List (Option Nat)
  semfsDents : List (Option SemfsDirentry)
  vnodes : Heap Nat SemfsVnode
  sems : Heap Nat SemfsSem

inductive Lock where
  | vfsBiglock
  | semfsDirlock
  | semfsTablelock
  | semsLock (sem : Nat)
  deriving DecidableEq

/-- Its holder may acquire `vfs_biglock` again; `vfs_biglock_depth` counts how often. -/
def recursive : Lock → Bool
  | .vfsBiglock => true
  | _ => false

/-- What an allocation comes to. -/
structure Kmalloc where
  ptr : Nat
  room : Bool

/-- Kernel code. -/
abbrev K (α : Type) := Code Table Lock Kmalloc α

/-! ### The data -/

def vnode (vn : Nat) : K SemfsVnode := do
  deref ((← look).vnodes vn).value?

def setVnode (vn : Nat) (g : SemfsVnode → SemfsVnode) : K Unit :=
  act fun s => do
    let vnodes ← s.vnodes.modify vn fun vnode => return g vnode
    return { s with vnodes := vnodes }

def addRefcount (vn : Nat) (n : Int) : K Unit :=
  setVnode vn fun vnode => { vnode with vnRefcount := vnode.vnRefcount + n }

def sem (ptr : Nat) : K SemfsSem := do
  deref ((← look).sems ptr).value?

def setSem (ptr : Nat) (g : SemfsSem → SemfsSem) : K Unit :=
  act fun s => do
    let sems ← s.sems.modify ptr fun sem => return g sem
    return { s with sems := sems }

/-- `semfs_semarray_get`; to follow what it gives is to find a semaphore there. -/
def semarrayGet (semnum : Nat) : K Nat := do
  deref ((← look).semfsSems[semnum]?.join)

def semarraySet (semnum : Nat) (o : Option Nat) : K Unit :=
  act fun s => return { s with semfsSems := s.semfsSems.set semnum o }

def direntryarraySet (i : Nat) (o : Option SemfsDirentry) : K Unit :=
  act fun s => return { s with semfsDents := s.semfsDents.set i o }

/-! ### vnode.c -/

/-- `vnode_check`, which comes before every operation on a vnode. -/
def vnodeCheck (vn : Nat) (reclaim : Bool) : K Unit := do
  acquire .vfsBiglock
  let refcount := (← vnode vn).vnRefcount
  kassert (0 ≤ refcount)
  kassert (refcount ≠ 0 ∨ reclaim)
  release .vfsBiglock

def vnodeIncref (vn : Nat) : K Unit := do
  acquire .vfsBiglock
  addRefcount vn 1
  release .vfsBiglock

/-! ### semfs_obj.c -/

/-- `semfs_sem_create`, with one answer for its three allocations. -/
def semfsSemCreate : K (Option Nat) := do
  let answer ← choose
  if answer.room then do
    act fun s => do
      let sems ← s.sems.alloc answer.ptr ⟨0, false, false⟩
      return { s with sems := sems }
    return some answer.ptr
  else return none

def semfsSemDestroy (ptr : Nat) : K Unit := do
  destroy (.semsLock ptr)
  act fun s => do
    let sems ← s.sems.free ptr
    return { s with sems := sems }

/-- With `semfs_tablelock`. -/
def semfsSemInsert (ptr : Nat) : K (Except Errno Nat) := do
  let sems := (← look).semfsSems
  if sems.length = semfsRootdir then return .error .enospc
  else
    match sems.findIdx? Option.isNone with
    | some i => do
      semarraySet i (some ptr)
      return .ok i
    | none =>
      if (← choose).room then do
        act fun s => return { s with semfsSems := s.semfsSems ++ [some ptr] }
        return .ok sems.length
      else return .error .enomem

/-! ### semfs_vnops.c: vnodes -/

/-- `semfs_vnode_destroy`, with the assertion of `vnode_cleanup`. -/
def semfsVnodeDestroy (vn : Nat) : K Unit := do
  kassert ((← vnode vn).vnRefcount = 1)
  act fun s => do
    let vnodes ← s.vnodes.free vn
    return { s with vnodes := vnodes }

/-- It releases `semfs_tablelock` twice. -/
def semfsReclaim (vn : Nat) : K (Option Errno) := do
  acquire .semfsTablelock
  if 1 < (← vnode vn).vnRefcount then do
    addRefcount vn (-1)
    release .semfsTablelock
    return some .ebusy
  else do
    release .semfsTablelock
    act fun s => return { s with semfsVnodes := s.semfsVnodes.erase vn }
    let semnum := (← vnode vn).semvSemnum
    if semnum ≠ semfsRootdir then do
      let ptr ← semarrayGet semnum
      kassert ((← sem ptr).semsHasvnode)
      setSem ptr fun sem => { sem with semsHasvnode := false }
      if (← sem ptr).semsLinked = false then do
        semarraySet semnum none
        semfsSemDestroy ptr
    release .semfsTablelock
    semfsVnodeDestroy vn
    return none

def vnodeDecref (vn : Nat) : K Unit := do
  acquire .vfsBiglock
  let refcount := (← vnode vn).vnRefcount
  kassert (0 < refcount)
  if 1 < refcount then addRefcount vn (-1)
  else do
    vnodeCheck vn true
    let _ ← semfsReclaim vn
  release .vfsBiglock

/-- The vnode with a number among these. -/
def findVnode (s : Table) (semnum : Nat) : Option Nat :=
  s.semfsVnodes.find? fun vn => (s.vnodes vn).value?.any fun vnode => vnode.semvSemnum = semnum

def semfsGetvnode (semnum : Nat) : K (Except Errno Nat) := do
  acquire .semfsTablelock
  match findVnode (← look) semnum with
  | some vn => do
    vnodeIncref vn
    release .semfsTablelock
    return .ok vn
  | none => do
    let answer ← choose
    if answer.room then do
      act fun s => do
        let vnodes ← s.vnodes.alloc answer.ptr ⟨1, semnum⟩
        return { s with vnodes := vnodes }
      if (← choose).room then do
        act fun s => return { s with semfsVnodes := s.semfsVnodes ++ [answer.ptr] }
        if semnum ≠ semfsRootdir then do
          let ptr ← semarrayGet semnum
          kassert (!(← sem ptr).semsHasvnode)
          setSem ptr fun sem => { sem with semsHasvnode := true }
        release .semfsTablelock
        return .ok answer.ptr
      else do
        semfsVnodeDestroy answer.ptr
        release .semfsTablelock
        return .error .enomem
    else do
      release .semfsTablelock
      return .error .enomem

/-! ### semfs_vnops.c: semaphores and names -/

def semfsEachopen (vn : Nat) (openflags : UInt32) : K (Option Errno) := do
  if (← vnode vn).semvSemnum = semfsRootdir then
    if openflags &&& Files.oAccmode ≠ Files.oRdonly then return some .eisdir
    else if openflags &&& Files.oAppend ≠ 0 then return some .eisdir
    else return none
  else return none

def semfsGetsembynum (semnum : Nat) : K Nat := do
  acquire .semfsTablelock
  let ptr ← semarrayGet semnum
  release .semfsTablelock
  return ptr

/-- `VOP_TRUNCATE` to 0, which wakes nobody. A directory is not truncated. -/
def semfsTruncate (vn : Nat) : K (Option Errno) := do
  let semnum := (← vnode vn).semvSemnum
  if semnum = semfsRootdir then return some .eisdir
  else do
    let ptr ← semfsGetsembynum semnum
    acquire (.semsLock ptr)
    setSem ptr fun sem => { sem with semsCount := 0 }
    release (.semsLock ptr)
    return none

def isDot (name : String) : Bool := name == "." || name == ".."

def findName (s : Table) (name : String) : Option (Nat × SemfsDirentry) := do
  let i ← s.semfsDents.findIdx? fun o => o.any fun dent => dent.semdName == name
  let dent ← s.semfsDents[i]?.join
  return (i, dent)

/-- The part of `semfs_creat` after the semaphore is in the table. Without memory for the name it
returns 0, and gives no vnode. -/
def creatDirentry (name : String) (ptr semnum empty : Nat) : K (Except Errno (Option Nat)) := do
  if (← choose).room then do
    let dent : SemfsDirentry := ⟨name, semnum⟩
    if empty < (← look).semfsDents.length then do
      direntryarraySet empty (some dent)
      link
    else if (← choose).room then do
      act fun s => return { s with semfsDents := s.semfsDents ++ [some dent] }
      link
    else uninsert (.error .enomem)
  else uninsert (.ok none)
where
  link : K (Except Errno (Option Nat)) := do
    match ← semfsGetvnode semnum with
    | .error err => do
      direntryarraySet empty none
      uninsert (.error err)
    | .ok vn => do
      setSem ptr fun sem => { sem with semsLinked := true }
      release .semfsDirlock
      return .ok (some vn)
  uninsert (result : Except Errno (Option Nat)) : K (Except Errno (Option Nat)) := do
    acquire .semfsTablelock
    semarraySet semnum none
    release .semfsTablelock
    semfsSemDestroy ptr
    release .semfsDirlock
    return result

def semfsCreat (name : String) (excl : Bool) : K (Except Errno (Option Nat)) := do
  if isDot name then return .error .eexist
  else do
    acquire .semfsDirlock
    match findName (← look) name with
    | some (_, dent) =>
      if excl then do
        release .semfsDirlock
        return .error .eexist
      else do
        let result ← semfsGetvnode dent.semdSemnum
        release .semfsDirlock
        return result.map some
    | none => do
      let dents := (← look).semfsDents
      let empty := (dents.findIdx? Option.isNone).getD dents.length
      match ← semfsSemCreate with
      | none => do
        release .semfsDirlock
        return .error .enomem
      | some ptr => do
        acquire .semfsTablelock
        let inserted ← semfsSemInsert ptr
        release .semfsTablelock
        match inserted with
        | .error err => do
          semfsSemDestroy ptr
          release .semfsDirlock
          return .error err
        | .ok semnum => creatDirentry name ptr semnum empty

def semfsRemove (name : String) : K (Option Errno) := do
  if isDot name then return some .einval
  else do
    acquire .semfsDirlock
    match findName (← look) name with
    | some (i, dent) => do
      let ptr ← semfsGetsembynum dent.semdSemnum
      acquire (.semsLock ptr)
      kassert ((← sem ptr).semsLinked)
      setSem ptr fun sem => { sem with semsLinked := false }
      if (← sem ptr).semsHasvnode = false then do
        acquire .semfsTablelock
        semarraySet dent.semdSemnum none
        release .semfsTablelock
        release (.semsLock ptr)
        semfsSemDestroy ptr
      else release (.semsLock ptr)
      direntryarraySet i none
      release .semfsDirlock
      return none
    | none => do
      release .semfsDirlock
      return some .enoent

def semfsLookup (dirvn : Nat) (path : String) : K (Except Errno Nat) := do
  if isDot path then do
    vnodeIncref dirvn
    return .ok dirvn
  else do
    acquire .semfsDirlock
    match findName (← look) path with
    | some (_, dent) => do
      let result ← semfsGetvnode dent.semdSemnum
      release .semfsDirlock
      return result
    | none => do
      release .semfsDirlock
      return .error .enoent

/-- `bufmax` is what `vfs_open` and `vfs_remove` have for a name. -/
def semfsLookparent (dirvn : Nat) (path : String) : K (Except Errno (Nat × String)) := do
  if 256 < path.utf8ByteSize + 1 then return .error .enametoolong
  else do
    vnodeIncref dirvn
    return .ok (dirvn, path)

/-! ### vfslookup.c -/

/-- With `vfs_biglock`. What `vfs_getroot` finds for `sem` is the root of semfs. -/
def getdevice : K (Except Errno Nat) := semfsGetvnode semfsRootdir

def vfsLookparent (path : String) : K (Except Errno (Nat × String)) := do
  acquire .vfsBiglock
  match ← getdevice with
  | .error err => do
    release .vfsBiglock
    return .error err
  | .ok startvn => do
    let result ← lookIn startvn
    vnodeDecref startvn
    release .vfsBiglock
    return result
where
  lookIn (startvn : Nat) : K (Except Errno (Nat × String)) := do
    if path.utf8ByteSize = 0 then return .error .einval
    else do
      vnodeCheck startvn false
      semfsLookparent startvn path

def vfsLookup (path : String) : K (Except Errno Nat) := do
  acquire .vfsBiglock
  match ← getdevice with
  | .error err => do
    release .vfsBiglock
    return .error err
  | .ok startvn =>
    if path.utf8ByteSize = 0 then do
      release .vfsBiglock
      return .ok startvn
    else do
      vnodeCheck startvn false
      let result ← semfsLookup startvn path
      vnodeDecref startvn
      release .vfsBiglock
      return result

/-! ### vfspath.c -/

def oCreat : UInt32 := 4
def oExcl : UInt32 := 8
def oTrunc : UInt32 := 16

/-- The part of `vfs_open` that finds or makes the vnode. -/
def vfsFind (path : String) (openflags : UInt32) : K (Except Errno (Option Nat)) := do
  if openflags &&& oCreat ≠ 0 then do
    match ← vfsLookparent path with
    | .error err => return .error err
    | .ok (dir, name) => do
      vnodeCheck dir false
      let result ← semfsCreat name (openflags &&& oExcl != 0)
      vnodeDecref dir
      return result
  else return (← vfsLookup path).map some

/-- The part of `vfs_open` for `O_TRUNC`. -/
def vfsTruncate (vn : Nat) (how : UInt32) : K (Option Errno) := do
  if how = Files.oRdonly then return some .einval
  else do
    vnodeCheck vn false
    semfsTruncate vn

def vfsOpen (path : String) (openflags : UInt32) : K (Except Errno Nat) := do
  let how := openflags &&& Files.oAccmode
  if how = Files.oAccmode then return .error .einval
  else do
    match ← vfsFind path openflags with
    | .error err => return .error err
    | .ok found => do
      let vn ← deref found
      vnodeCheck vn false
      match ← semfsEachopen vn openflags with
      | some err => do
        vnodeDecref vn
        return .error err
      | none =>
        if openflags &&& oTrunc ≠ 0 then do
          match ← vfsTruncate vn how with
          | some err => do
            vnodeDecref vn
            return .error err
          | none => return .ok vn
        else return .ok vn

def vfsRemove (path : String) : K (Option Errno) := do
  match ← vfsLookparent path with
  | .error err => return some err
  | .ok (dir, name) => do
    vnodeCheck dir false
    let result ← semfsRemove name
    vnodeDecref dir
    return result

/-! ### The system -/

inductive Call where
  | vfsOpen (path : String) (openflags : UInt32)
  | vfsLookup (path : String)
  /-- `vfs_close` is `VOP_DECREF`. -/
  | vfsClose (vn : Nat)
  | vfsRemove (path : String)

def code : Call → K Unit
  | .vfsOpen path openflags => do let _ ← vfsOpen path openflags
  | .vfsLookup path => do let _ ← vfsLookup path
  | .vfsClose vn => vnodeDecref vn
  | .vfsRemove path => do let _ ← vfsRemove path

/-- Threads that use a semfs as `semfs_create` makes it. -/
def system (T : Type) : Locks.System Table T Lock Kmalloc Call where
  recursive := recursive
  ready _ _ _ := true
  code _ := code
  initial s := s = ⟨[], [], [], fun _ => .unused, fun _ => .unused⟩

end Os161.Semfs
