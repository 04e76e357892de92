import Os161.Errno
import Os161.Base.Heap
import Os161.Base.Sync
import Mathlib.Data.List.FinRange

/-!
# The open-file layer

The data of `file.c`, `filedesc.c` and `file_syscall.c` and their functions. A call is one atomic
step: every lock that it takes on the way it also gives back. Files are on a heap with provenance,
a table that is freed is `none`, and what the file system and the allocator answer comes from
outside.
-/

namespace Os161

/-- `struct file`. -/
structure File (V Thread : Type) where
  fVnode : V
  fOflags : UInt16
  fRefcount : UInt16
  fOffset : Int
  fLk : Option (AtomicLock Thread)
  deriving DecidableEq

/-- `struct filedesc`. -/
structure Filedesc (F Thread : Type) where
  fdOfiles : Fin 8 → Option F
  fdLk : Option (AtomicLock Thread)
  fdNfiles : UInt16

/-- The tables of the processes, the files, and the reference counts of the vnodes in memory.
Processes have one thread, so a process stands for its thread too. -/
structure Files (P F V : Type) where
  tables : P → Option (Filedesc F P)
  files : Heap F (File V P)
  vnodes : V → Option Nat

/-- Whether `VOP_RECLAIM` lets go of a vnode: that of a device stays. -/
abbrev Reclaims (V : Type) := V → Bool

namespace Files

variable {P F V : Type} [DecidableEq P] [DecidableEq F] [DecidableEq V]

/-! ### Tables, locks and vnodes -/

def updateTable (s : Files P F V) (p : P) (g : Filedesc F P → Outcome (Filedesc F P)) :
    Outcome (Files P F V) := do
  let fdesc ← Outcome.deref (s.tables p)
  let fdesc ← g fdesc
  return { s with tables := Function.update s.tables p (some fdesc) }

def updateFile (s : Files P F V) (f : F) (g : File V P → Outcome (File V P)) :
    Outcome (Files P F V) := do
  let files ← s.files.modify f g
  return { s with files := files }

def fdLock (s : Files P F V) (p cur : P) : Outcome (Files P F V) :=
  s.updateTable p fun fdesc => do
    let lock ← Outcome.deref fdesc.fdLk
    let lock ← AtomicLock.acquire lock cur
    return { fdesc with fdLk := some lock }

def fdUnlock (s : Files P F V) (p cur : P) : Outcome (Files P F V) :=
  s.updateTable p fun fdesc => do
    let lock ← Outcome.deref fdesc.fdLk
    let lock ← AtomicLock.release lock cur
    return { fdesc with fdLk := some lock }

/-- `lock_destroy` on `fd_lk`. -/
def fdLockDestroy (s : Files P F V) (p : P) : Outcome (Files P F V) :=
  s.updateTable p fun fdesc => do
    let lock ← Outcome.deref fdesc.fdLk
    Outcome.kassert (lock = none)
    return { fdesc with fdLk := none }

/-- Writes a slot, with the lock held. -/
def setSlot (s : Files P F V) (p : P) (i : Fin 8) (o : Option F) : Outcome (Files P F V) :=
  s.updateTable p fun fdesc => return { fdesc with fdOfiles := Function.update fdesc.fdOfiles i o }

def addNfiles (s : Files P F V) (p : P) (n : UInt16) : Outcome (Files P F V) :=
  s.updateTable p fun fdesc => return { fdesc with fdNfiles := fdesc.fdNfiles + n }

def fLock (s : Files P F V) (f : F) (cur : P) : Outcome (Files P F V) :=
  s.updateFile f fun file => do
    let lock ← Outcome.deref file.fLk
    let lock ← AtomicLock.acquire lock cur
    return { file with fLk := some lock }

def fUnlock (s : Files P F V) (f : F) (cur : P) : Outcome (Files P F V) :=
  s.updateFile f fun file => do
    let lock ← Outcome.deref file.fLk
    let lock ← AtomicLock.release lock cur
    return { file with fLk := some lock }

/-- `lock_destroy` on `f_lk`. -/
def fLockDestroy (s : Files P F V) (f : F) : Outcome (Files P F V) :=
  s.updateFile f fun file => do
    let lock ← Outcome.deref file.fLk
    Outcome.kassert (lock = none)
    return { file with fLk := none }

def addRefcount (s : Files P F V) (f : F) (n : UInt16) : Outcome (Files P F V) :=
  s.updateFile f fun file => return { file with fRefcount := file.fRefcount + n }

def kfreeFile (s : Files P F V) (f : F) : Outcome (Files P F V) := do
  let files ← s.files.free f
  return { s with files := files }

def vopIncref (s : Files P F V) (vn : V) : Outcome (Files P F V) := do
  let count ← Outcome.deref (s.vnodes vn)
  return { s with vnodes := Function.update s.vnodes vn (some (count + 1)) }

def vopDecref (s : Files P F V) (reclaims : Reclaims V) (vn : V) : Outcome (Files P F V) := do
  let count ← Outcome.deref (s.vnodes vn)
  Outcome.kassert (0 < count)
  if 1 < count then
    return { s with vnodes := Function.update s.vnodes vn (some (count - 1)) }
  else if reclaims vn then
    return { s with vnodes := Function.update s.vnodes vn none }
  else
    return s

/-- `vfs_close` is `VOP_DECREF`. -/
def vfsClose (s : Files P F V) (reclaims : Reclaims V) (vn : V) : Outcome (Files P F V) :=
  s.vopDecref reclaims vn

/-- The reference that `vfs_open` gives, to a vnode that is in memory already or is loaded now. -/
def vfsOpened (s : Files P F V) (vn : V) : Files P F V :=
  { s with vnodes := Function.update s.vnodes vn (some ((s.vnodes vn).getD 0 + 1)) }

/-! ### filedesc.c -/

/-- `fd_create`; `room` says which of its two allocations succeed. -/
def fdCreate (s : Files P F V) (p : P) (room : Bool × Bool) : Except Errno (Files P F V) :=
  if room.1 && room.2 then
    .ok { s with tables := Function.update s.tables p (some ⟨fun _ => none, some none, 0⟩) }
  else
    .error .enomem

def fdDestroy (s : Files P F V) (p : P) : Outcome (Files P F V) := do
  let fdesc ← Outcome.deref (s.tables p)
  Outcome.kassert (fdesc.fdNfiles = 0)
  let s ← s.fdLockDestroy p
  return { s with tables := Function.update s.tables p none }

def fdAttach (s : Files P F V) (p cur : P) (f : F) :
    Outcome (Except Errno (Fin 8) × Files P F V) := do
  let s ← s.fdLock p cur
  let fdesc ← Outcome.deref (s.tables p)
  match (List.finRange 8).find? fun i => (fdesc.fdOfiles i).isNone with
  | some i => do
    let s ← s.setSlot p i (some f)
    let s ← s.addNfiles p 1
    let s ← s.fdUnlock p cur
    return (.ok i, s)
  | none => do
    let s ← s.fdUnlock p cur
    return (.error .enfile, s)

def fdDetach (s : Files P F V) (p cur : P) (i : Fin 8) : Outcome (Files P F V) := do
  let s ← s.fdLock p cur
  let s ← s.setSlot p i none
  let s ← s.addNfiles p (-1)
  s.fdUnlock p cur

/-- The loop of `file_copy`. -/
def copySlots (s : Files P F V) (source target cur : P) : List (Fin 8) → Outcome (Files P F V)
  | [] => .done s
  | i :: rest => do
    let fdesc ← Outcome.deref (s.tables source)
    match fdesc.fdOfiles i with
    | none => copySlots s source target cur rest
    | some f => do
      let s ← s.fLock f cur
      let s ← s.setSlot target i (some f)
      let s ← s.addNfiles target 1
      let s ← s.addRefcount f 1
      let file ← s.files.get f
      let s ← s.vopIncref file.fVnode
      let s ← s.fUnlock f cur
      copySlots s source target cur rest

def fileCopy (s : Files P F V) (source target cur : P) : Outcome (Files P F V) := do
  let s ← s.fdLock source cur
  let s ← s.copySlots source target cur (List.finRange 8)
  let fdesc ← Outcome.deref (s.tables source)
  let copy ← Outcome.deref (s.tables target)
  Outcome.kassert (fdesc.fdNfiles = copy.fdNfiles)
  s.fdUnlock source cur

/-! ### file.c -/

def desFile (s : Files P F V) (reclaims : Reclaims V) (f : F) : Outcome (Files P F V) := do
  let file ← s.files.get f
  Outcome.kassert (file.fRefcount = 0)
  let s ← s.vfsClose reclaims file.fVnode
  let s ← s.fLockDestroy f
  s.kfreeFile f

/-- A descriptor of the caller as an index of the table. -/
def index (fd : Int) : Option (Fin 8) :=
  if inside : 0 ≤ fd ∧ fd < 8 then some ⟨fd.toNat, by omega⟩ else none

def getFile (s : Files P F V) (p cur : P) (fd : Int) :
    Outcome (Except Errno F × Files P F V) :=
  match index fd with
  | none => return (.error .ebadf, s)
  | some i => do
    let s ← s.fdLock p cur
    let fdesc ← Outcome.deref (s.tables p)
    match fdesc.fdOfiles i with
    | some f => do
      let s ← s.fLock f cur
      let s ← s.fdUnlock p cur
      return (.ok f, s)
    | none => do
      let s ← s.fdUnlock p cur
      return (.error .ebadf, s)

def desDescriptor (s : Files P F V) (p cur : P) (reclaims : Reclaims V) (i : Fin 8) :
    Outcome (Except Errno Unit × Files P F V) := do
  let (result, s) ← s.getFile p cur i
  match result with
  | .error err => return (.error err, s)
  | .ok f => do
    let file ← s.files.get f
    Outcome.kassert (0 < file.fRefcount)
    let s ← s.fdDetach p cur i
    let s ← s.addRefcount f (-1)
    let s ← s.vopDecref reclaims file.fVnode
    let file ← s.files.get f
    if file.fRefcount = 0 then do
      let s ← s.fUnlock f cur
      let s ← s.desFile reclaims f
      return (.ok (), s)
    else do
      let s ← s.fUnlock f cur
      return (.ok (), s)

/-- The loop of `close_all_f`. It returns whether every slot was closed. -/
def closeSlots (s : Files P F V) (p cur : P) (reclaims : Reclaims V) :
    List (Fin 8) → Outcome (Bool × Files P F V)
  | [] => do
    let s ← s.fdUnlock p cur
    return (true, s)
  | i :: rest => do
    let fdesc ← Outcome.deref (s.tables p)
    match fdesc.fdOfiles i with
    | none => closeSlots s p cur reclaims rest
    | some _ => do
      let s ← s.fdUnlock p cur
      let (result, s) ← s.desDescriptor p cur reclaims i
      match result with
      | .error _ => return (false, s)
      | .ok _ => do
        let s ← s.fdLock p cur
        closeSlots s p cur reclaims rest

def closeAllF (s : Files P F V) (p cur : P) (reclaims : Reclaims V) :
    Outcome (Bool × Files P F V) := do
  let s ← s.fdLock p cur
  s.closeSlots p cur reclaims (List.finRange 8)

/-! ### file_syscall.c -/

/-! The flags of `kern/fcntl.h`. -/

def oRdonly : UInt32 := 0
def oWronly : UInt32 := 1
def oRdwr : UInt32 := 2
def oAccmode : UInt32 := 3
def oAppend : UInt32 := 32

def validFlags (flags : UInt32) : Bool :=
  let accmode := flags &&& oAccmode
  [oRdwr, oRdonly, oWronly].countP (accmode == ·) == 1

/-- What the allocator and the file system answer to one `k_open`. -/
structure Answers (F V : Type) where
  vfsOpen : Except Errno V
  kmalloc : Option F
  lockCreate : Bool
  vopStat : Except Errno Int
  reclaims : Reclaims V

def kOpen (s : Files P F V) (p cur : P) (flags : UInt32) (answers : Answers F V) :
    Outcome (Except Errno (Fin 8) × Files P F V) :=
  match answers.vfsOpen, answers.kmalloc with
  | .error err, _ => return (.error err, s)
  | .ok vn, none => return (.error .enomem, s.vfsOpened vn)
  | .ok vn, some f => do
    let files ← s.files.alloc f ⟨vn, flags.toUInt16, 0, 0, some none⟩
    let s := { s.vfsOpened vn with files := files }
    -- without a lock the file is freed, but err is then cleared and the call goes on with it
    let s ← if answers.lockCreate then pure s else s.kfreeFile f
    seek s vn f
where
  /-- The part of `k_open` from the test of `O_APPEND` on. -/
  seek (s : Files P F V) (vn : V) (f : F) : Outcome (Except Errno (Fin 8) × Files P F V) :=
    if flags &&& oAppend != 0 then
      match answers.vopStat with
      | .error err => do
        let _ ← s.files.get f
        let s ← s.vfsClose answers.reclaims vn
        let s ← s.desFile answers.reclaims f
        return (.error err, s)
      | .ok size => do
        let s ← s.updateFile f fun file => return { file with fOffset := size }
        attach s vn f
    else
      attach s vn f
  /-- The part of `k_open` from `F_LOCK` on. -/
  attach (s : Files P F V) (vn : V) (f : F) : Outcome (Except Errno (Fin 8) × Files P F V) := do
    let s ← s.fLock f cur
    let (result, s) ← s.fdAttach p cur f
    match result with
    | .error err => do
      let s ← s.fUnlock f cur
      let s ← s.vfsClose answers.reclaims vn
      let s ← s.desFile answers.reclaims f
      return (.error err, s)
    | .ok i => do
      let s ← s.addRefcount f 1
      let s ← s.vopIncref vn
      let s ← s.fUnlock f cur
      return (.ok i, s)

/-- `sys_open`; `copied` is what `copyinstr` returns for the name and `garbage` what the
uninitialised `retval` holds. It returns `retval` also when `k_open` fails. -/
def sysOpen (s : Files P F V) (cur : P) (copied : Option Errno) (flags : UInt32) (garbage : Int)
    (answers : Answers F V) : Outcome (Except Errno Int × Files P F V) :=
  if validFlags flags then
    match copied with
    | some err => return (.error err, s)
    | none => do
      let (result, s) ← s.kOpen cur cur flags answers
      match result with
      | .ok i => return (.ok i, s)
      | .error _ => return (.ok garbage, s)
  else
    return (.error .einval, s)

/-- The bounds check of `sys_dup2`, against `OPEN_MAX`. -/
def dup2Bounds (oldfd newfd : Int) : Bool :=
  !(decide (oldfd < 0) || decide (128 ≤ oldfd) || decide (newfd < 0) || decide (128 ≤ newfd))

def sysDup2 (s : Files P F V) (cur : P) (oldfd newfd : Int) (reclaims : Reclaims V) :
    Outcome (Except Errno Int × Files P F V) :=
  if dup2Bounds oldfd newfd then do
    let fdesc ← Outcome.deref (s.tables cur)
    let old ← Outcome.deref (index oldfd)
    match fdesc.fdOfiles old with
    | none => return (.error .ebadf, s)
    | some _ =>
      if oldfd = newfd then return (.ok newfd, s)
      else do
        let new ← Outcome.deref (index newfd)
        let newfdflag := (fdesc.fdOfiles new).isSome
        let s ← s.fdLock cur cur
        let fdesc ← Outcome.deref (s.tables cur)
        let f ← Outcome.deref (fdesc.fdOfiles old)
        let s ← s.setSlot cur new (some f)
        let s ← s.addRefcount f 1
        let s ← s.fdUnlock cur cur
        if newfdflag then do
          let s ← undoCount s old
          return (.ok newfd, s)
        else
          return (.ok newfd, s)
  else
    return (.error .ebadf, s)
where
  /-- What `sys_dup2` does when `newfd` was open: it takes a reference from the file of `oldfd`. -/
  undoCount (s : Files P F V) (old : Fin 8) : Outcome (Files P F V) := do
    let s ← s.fdLock cur cur
    let fdesc ← Outcome.deref (s.tables cur)
    let f ← Outcome.deref (fdesc.fdOfiles old)
    let s ← s.addRefcount f (-1)
    let file ← s.files.get f
    let s ← s.fdUnlock cur cur
    if 0 < file.fRefcount then return s
    else do
      let s ← s.fdLockDestroy cur
      let s ← s.vfsClose reclaims file.fVnode
      return { s with tables := Function.update s.tables cur none }

def sysClose (s : Files P F V) (cur : P) (fd : Int) (reclaims : Reclaims V) :
    Outcome (Except Errno Unit × Files P F V) :=
  if fd < 0 ∨ 129 < fd then return (.error .ebadf, s)
  else do
    let fdesc ← Outcome.deref (s.tables cur)
    let i ← Outcome.deref (index fd)
    match fdesc.fdOfiles i with
    | none => return (.error .ebadf, s)
    | some f => do
      let s ← s.fdLock cur cur
      let file ← s.files.get f
      Outcome.kassert (0 < file.fRefcount)
      let s ← s.addRefcount f (-1)
      let file ← s.files.get f
      if file.fRefcount = 0 then do
        let s ← s.vfsClose reclaims file.fVnode
        let s ← s.fdUnlock cur cur
        let s ← s.fdLockDestroy cur
        let s ← s.kfreeFile f
        let s ← s.setSlot cur i none
        return (.ok (), s)
      else do
        let s ← s.fdUnlock cur cur
        return (.ok (), s)

end Files

end Os161
