import Os161.Base.LockOrder
import Os161.File.Layer
import Os161.Proc.WaitExit

/-!
# System calls that take locks

`sys_open`, `sys_lseek`, `sys_fork`, `sys_exit`, `___waitpid` and `sys_execv`, with the functions
below them that take `lk_allproc`, the lock of a process, `fd_lk`, `f_lk` or `lk_exec`, lock by
lock. A process has one thread, and stands for it too. There is memory for every allocation. The
vnode layer is outside: it takes `vfs_biglock` only, and gives it back.
-/

namespace Os161.LockPaths

open Locks (Code look act choose acquire release destroy kassert deref)

inductive Lock (P F : Type) where
  | lkAllproc
  | proc (p : P)
  | fdLk (p : P)
  | fLk (f : F)
  | lkExec
  | vfsBiglock
  deriving DecidableEq

/-- Its holder may acquire `vfs_biglock` again. -/
def recursive {P F : Type} : Lock P F → Bool
  | .vfsBiglock => true
  | _ => false

/-- Processes, the process table, files, and the threads with their `t_cwd`. The lock fields say
that the locks are there; who has them is not in the data. `W` is for the vnode layer. -/
structure Data (P F V W : Type) where
  procs : Heap P (Proc P P (Filedesc F P))
  pTable : Fin 32 → Option P
  nextPid : Nat
  files : Heap F (File V P)
  threads : P → Option (Option V)
  rest : W

/-- What comes from outside: pointers of `kmalloc`, errors of copies, and how much a file has. -/
structure Choice (P F : Type) where
  newProc : P
  newFile : F
  err : Option Errno
  count : Nat

/-- A call of the vnode layer may take `vfs_biglock`. -/
abbrev VnodeCall (P F V W α : Type) [DecidableEq P] [DecidableEq F] : Type :=
  Locks.Balanced (recursive : Lock P F → Bool) (· = .vfsBiglock) (Data P F V W) (Choice P F) α

structure Vnodes (P F V W Path : Type) [DecidableEq P] [DecidableEq F] where
  vfsOpen : Path → (flags : UInt32) → VnodeCall P F V W (Except Errno V)
  vopIncref : V → VnodeCall P F V W Unit
  vopDecref : V → VnodeCall P F V W Unit
  vopStat : V → VnodeCall P F V W (Except Errno Int)
  vopTryseek : V → (pos : Int) → VnodeCall P F V W (Option Errno)
  vopRead : V → VnodeCall P F V W (Option Errno)

variable {P F V W Path : Type} [DecidableEq P] [DecidableEq F]

/-- Kernel code. -/
abbrev K (P F V W α : Type) := Code (Data P F V W) (Lock P F) (Choice P F) α

/-! ### The data -/

def process (p : P) : K P F V W (Proc P P (Filedesc F P)) := do
  deref ((← look).procs p).value?

def fdesc (p : P) : K P F V W (Filedesc F P) := do
  deref (← process p).pFd

def file (f : F) : K P F V W (File V P) := do
  deref ((← look).files f).value?

def setProc (p : P) (g : Proc P P (Filedesc F P) → Outcome (Proc P P (Filedesc F P))) :
    K P F V W Unit :=
  act fun s => do
    let procs ← s.procs.modify p g
    return { s with procs := procs }

def setFdesc (p : P) (g : Filedesc F P → Filedesc F P) : K P F V W Unit :=
  setProc p fun proc => do
    let fdesc ← Outcome.deref proc.pFd
    return { proc with pFd := some (g fdesc) }

def setSlot (p : P) (i : Fin 8) (o : Option F) : K P F V W Unit :=
  setFdesc p fun fdesc => { fdesc with fdOfiles := Function.update fdesc.fdOfiles i o }

def addNfiles (p : P) (n : UInt16) : K P F V W Unit :=
  setFdesc p fun fdesc => { fdesc with fdNfiles := fdesc.fdNfiles + n }

def setFile (f : F) (g : File V P → File V P) : K P F V W Unit :=
  act fun s => do
    let files ← s.files.modify f fun file => return g file
    return { s with files := files }

def addRefcount (f : F) (n : UInt16) : K P F V W Unit :=
  setFile f fun file => { file with fRefcount := file.fRefcount + n }

/-! ### Locks that are there -/

def fdLock (p : P) : K P F V W Unit := do
  let _ ← deref (← fdesc p).fdLk
  acquire (.fdLk p)

def fLock (f : F) : K P F V W Unit := do
  let _ ← deref (← file f).fLk
  acquire (.fLk f)

def procLock (p : P) : K P F V W Unit := do
  let _ ← deref (← process p).lock
  acquire (.proc p)

/-! ### filedesc.c -/

def fdAttach (p : P) (f : F) : K P F V W (Except Errno (Fin 8)) := do
  fdLock p
  let fdesc ← fdesc p
  match (List.finRange 8).find? fun i => (fdesc.fdOfiles i).isNone with
  | some i => do
    setSlot p i (some f)
    addNfiles p 1
    release (.fdLk p)
    return .ok i
  | none => do
    release (.fdLk p)
    return .error .enfile

def fdDetach (p : P) (i : Fin 8) : K P F V W Unit := do
  fdLock p
  setSlot p i none
  addNfiles p (-1)
  release (.fdLk p)

def fdDestroy (p : P) : K P F V W Unit := do
  kassert ((← fdesc p).fdNfiles = 0)
  destroy (.fdLk p)
  setProc p fun proc => return { proc with pFd := none }

section Vnodes

variable (vnodes : Vnodes P F V W Path)

/-- The loop of `file_copy`. -/
def copySlots (source target : P) : List (Fin 8) → K P F V W Unit
  | [] => return ()
  | i :: rest => do
    match (← fdesc source).fdOfiles i with
    | none => copySlots source target rest
    | some f => do
      fLock f
      setSlot target i (some f)
      addNfiles target 1
      addRefcount f 1
      (vnodes.vopIncref (← file f).fVnode).code
      release (.fLk f)
      copySlots source target rest

def fileCopy (source target : P) : K P F V W Unit := do
  fdLock source
  copySlots vnodes source target (List.finRange 8)
  kassert ((← fdesc source).fdNfiles = (← fdesc target).fdNfiles)
  release (.fdLk source)

/-! ### file.c -/

def desFile (f : F) : K P F V W Unit := do
  let file ← file f
  kassert (file.fRefcount = 0)
  -- vfs_close
  (vnodes.vopDecref file.fVnode).code
  destroy (.fLk f)
  act fun s => do
    let files ← s.files.free f
    return { s with files := files }

/-- The file that it finds is locked. -/
def getFile (p : P) (fd : Int) : K P F V W (Except Errno F) :=
  match Files.index fd with
  | none => return .error .ebadf
  | some i => do
    fdLock p
    match (← fdesc p).fdOfiles i with
    | some f => do
      fLock f
      release (.fdLk p)
      return .ok f
    | none => do
      release (.fdLk p)
      return .error .ebadf

def desDescriptor (p : P) (fd : Fin 8) : K P F V W (Option Errno) := do
  match ← getFile p fd with
  | .error err => return some err
  | .ok f => do
    kassert (0 < (← file f).fRefcount)
    fdDetach p fd
    addRefcount f (-1)
    (vnodes.vopDecref (← file f).fVnode).code
    if (← file f).fRefcount = 0 then do
      release (.fLk f)
      desFile vnodes f
      return none
    else do
      release (.fLk f)
      return none

/-- The loop of `close_all_f`, with the answer whether all is closed. -/
def closeSlots (p : P) : List (Fin 8) → K P F V W Bool
  | [] => do
    release (.fdLk p)
    return true
  | i :: rest => do
    match (← fdesc p).fdOfiles i with
    | none => closeSlots p rest
    | some _ => do
      release (.fdLk p)
      match ← desDescriptor vnodes p i with
      | some _ => return false
      | none => do
        fdLock p
        closeSlots p rest

def closeAllF (p : P) : K P F V W Bool := do
  fdLock p
  closeSlots vnodes p (List.finRange 8)

/-! ### file_syscall.c -/

/-- The part of `k_open` from `F_LOCK` on. -/
def kOpenAttach (p : P) (vn : V) (f : F) : K P F V W (Except Errno (Fin 8)) := do
  fLock f
  match ← fdAttach p f with
  | .error err => do
    release (.fLk f)
    (vnodes.vopDecref vn).code
    desFile vnodes f
    return .error err
  | .ok fd => do
    addRefcount f 1
    (vnodes.vopIncref (← file f).fVnode).code
    release (.fLk f)
    return .ok fd

def kOpen (p : P) (path : Path) (flags : UInt32) : K P F V W (Except Errno (Fin 8)) := do
  match ← (vnodes.vfsOpen path flags).code with
  | .error err => return .error err
  | .ok vn => do
    let f := (← choose).newFile
    act fun s => do
      let files ← s.files.alloc f ⟨vn, flags.toUInt16, 0, 0, some none⟩
      return { s with files := files }
    if flags &&& Files.oAppend != 0 then do
      match ← (vnodes.vopStat vn).code with
      | .error err => do
        (vnodes.vopDecref vn).code
        desFile vnodes f
        return .error err
      | .ok size => do
        setFile f fun file => { file with fOffset := size }
        kOpenAttach vnodes p vn f
    else kOpenAttach vnodes p vn f

/-- The part of `sys_lseek` after the switch, with the file locked. -/
def seekTo (f : F) (newOffset : Int) : K P F V W (Except Errno Int) := do
  match ← (vnodes.vopTryseek (← file f).fVnode newOffset).code with
  | some err => do
    release (.fLk f)
    return .error err
  | none => do
    setFile f fun file => { file with fOffset := newOffset }
    release (.fLk f)
    return .ok newOffset

def sysLseek (p : P) (fd offset whence : Int) : K P F V W (Except Errno Int) := do
  match ← getFile p fd with
  | .error err => return .error err
  | .ok f => do
    if whence = 0 then seekTo vnodes f offset
    else if whence = 1 then do seekTo vnodes f ((← file f).fOffset + offset)
    else if whence = 2 then do
      match ← (vnodes.vopStat (← file f).fVnode).code with
      | .error err => do
        release (.fLk f)
        return .error err
      | .ok size => seekTo vnodes f (size + offset)
    else do
      release (.fLk f)
      return .error .einval

end Vnodes

/-! ### proc.c -/

def procFoundSpot (spot : Fin 32) : K P F V W (Except Errno (Fin 32)) := do
  kassert (((← look).pTable spot).isNone)
  act fun s => return { s with nextPid := spot + 1 }
  release .lkAllproc
  return .ok spot

def procAllocPid : K P F V W (Except Errno (Fin 32)) := do
  acquire .lkAllproc
  act fun s => return { s with nextPid := if 32 ≤ s.nextPid then 0 else s.nextPid }
  let s ← look
  match Fin.find? fun i => decide (s.nextPid ≤ i.val) && (s.pTable i).isNone with
  | some i => procFoundSpot i
  | none =>
    match Fin.find? fun i => decide (i.val < s.nextPid) && (s.pTable i).isNone with
    | some i => procFoundSpot i
    | none => do
      release .lkAllproc
      return .error .enproc

def setSpot (spot : Fin 32) (o : Option P) : K P F V W Unit :=
  act fun s => return { s with pTable := Function.update s.pTable spot o }

def procAddToAllproc (p : P) (spot : Fin 32) : K P F V W Unit := do
  acquire .lkAllproc
  setSpot spot (some p)
  release .lkAllproc

def procDeallocPid (pid : Fin 32) : K P F V W Unit := do
  acquire .lkAllproc
  kassert (((← look).pTable pid).isSome)
  setSpot pid none
  release .lkAllproc

def procCreate : K P F V W (Except Errno P) := do
  match ← procAllocPid with
  | .error err => return .error err
  | .ok pid => do
    let p := (← choose).newProc
    act fun s => do
      let procs ← s.procs.alloc p
        ⟨pid, none, some none, some 0, some ⟨fun _ => none, some none, 0⟩, 0, false⟩
      return { s with procs := procs }
    procAddToAllproc p pid
    return .ok p

def procDestroy (p : P) : K P F V W Unit := do
  let pid := (← process p).pPid
  setProc p Proc.semDestroy
  destroy (.proc p)
  setProc p fun proc => return { proc with lock := none }
  fdDestroy p
  act fun s => do
    let procs ← s.procs.free p
    return { s with procs := procs }
  procDeallocPid pid

/-- The process that it finds is locked. -/
def procGet (pid : Int) : K P F V W (Except Errno P) :=
  if inside : 0 < pid ∧ pid < 32 then do
    acquire .lkAllproc
    match (← look).pTable ⟨pid.toNat, Kernel.pid_inside inside⟩ with
    | some p => do
      procLock p
      release .lkAllproc
      return .ok p
    | none => do
      release .lkAllproc
      return .error .esrch
  else return .error .einval

/-! ### fork.c -/

/-- `___waitpid`. -/
def waitpid (cur : P) (pid options : Int) : K P F V W (Except Errno (BitVec 32)) := do
  if options ≠ 0 ∧ options ≠ WaitExit.wnohang then return .error .einval
  else do
    match ← procGet pid with
    | .error err => return .error err
    | .ok p => do
      if (← process p).pProc ≠ some cur then do
        release (.proc p)
        return .error .echild
      else if !(← process p).pIsDead && options == WaitExit.wnohang then do
        release (.proc p)
        return .ok 0
      else do
        release (.proc p)
        setProc p Proc.semP
        procLock p
        let proc ← process p
        kassert proc.pIsDead
        release (.proc p)
        procDestroy p
        return .ok (WaitExit.mkwaitExit proc.pRetval)

section Vnodes

variable (vnodes : Vnodes P F V W Path)

/-- `thread_exit`, but for the address space. -/
def threadExit (p : P) : K P F V W Unit := do
  match ← deref ((← look).threads p) with
  | some cwd => (vnodes.vopDecref cwd).code
  | none => return ()
  act fun s => return { s with threads := Function.update s.threads p none }

def sysExit (p : P) (exitcode : BitVec 32) : K P F V W Unit := do
  let closed ← closeAllF vnodes p
  kassert closed
  procLock p
  setProc p fun proc => return { proc with pRetval := exitcode, pIsDead := true }
  match (← process p).pProc with
  | none => do
    release (.proc p)
    procDestroy p
  | some _ => do
    setProc p Proc.semV
    release (.proc p)
  threadExit vnodes p

/-- `thread_fork`: the new thread runs for the new process. -/
def threadFork (p new : P) : K P F V W Unit := do
  let cwd ← deref ((← look).threads p)
  match cwd with
  | some vn => (vnodes.vopIncref vn).code
  | none => return ()
  act fun s => return { s with threads := Function.update s.threads new (some cwd) }

/-- An error of `proc_copy` is not looked at, and then there is no process to take the pid of. -/
def sysFork (p : P) : K P F V W (Fin 32) := do
  match ← procCreate with
  | .error _ => .panic
  | .ok new => do
    fileCopy vnodes p new
    let pid := (← process new).pPid
    setProc new fun proc => return { proc with pProc := some p }
    threadFork vnodes p new
    return pid

/-- `load_elf` reads the file some times. -/
def loadElf (vn : V) : Nat → K P F V W (Option Errno)
  | 0 => return (← choose).err
  | n + 1 => do
    match ← (vnodes.vopRead vn).code with
    | some err => return some err
    | none => loadElf vn n

/-- An error exit of `sys_execv` from `load_elf` on, but for the address spaces. -/
def execFailed (vn : V) (err : Errno) : K P F V W (Option Errno) := do
  (vnodes.vopDecref vn).code
  release .lkExec
  return some err

/-- `sys_execv`, but for the address spaces. It returns `none` where it goes to the new program. -/
def sysExecv (path : Path) : K P F V W (Option Errno) := do
  acquire .lkExec
  -- copyinstr
  match (← choose).err with
  | some err => do
    release .lkExec
    return some err
  | none => do
    match ← (vnodes.vfsOpen path 0).code with
    | .error err => do
      release .lkExec
      return some err
    | .ok vn => do
      -- copy_args
      match (← choose).err with
      | some err => do
        release .lkExec
        (vnodes.vopDecref vn).code
        return some err
      | none => do
        match ← loadElf vnodes vn (← choose).count with
        | some err => execFailed vnodes vn err
        | none => do
          -- copyout
          match (← choose).err with
          | some err => execFailed vnodes vn err
          | none => do
            release .lkExec
            (vnodes.vopDecref vn).code
            return none

end Vnodes

/-! ### The system -/

inductive Call (P Path : Type) where
  | kOpen (path : Path) (flags : UInt32)
  | lseek (fd offset whence : Int)
  | fork
  | exit (exitcode : BitVec 32)
  | waitpid (pid options : Int)
  | execv (path : Path)

def code (vnodes : Vnodes P F V W Path) (p : P) : Call P Path → K P F V W Unit
  | .kOpen path flags => do let _ ← kOpen vnodes p path flags
  | .lseek fd offset whence => do let _ ← sysLseek vnodes p fd offset whence
  | .fork => do let _ ← sysFork vnodes p
  | .exit exitcode => sysExit vnodes p exitcode
  | .waitpid pid options => do let _ ← waitpid p pid options
  | .execv path => do let _ ← sysExecv vnodes path

/-- Any processes with any files. A process that has a thread makes calls. -/
def system (vnodes : Vnodes P F V W Path) :
    Locks.System (Data P F V W) P (Lock P F) (Choice P F) (Call P Path) where
  recursive := recursive
  ready s p _ := (s.threads p).isSome
  code := code vnodes
  initial _ := True

end Os161.LockPaths
