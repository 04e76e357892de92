import Os161.File.Transfer

/-!
# The handlers of system calls

What `syscall.c` calls for each number, from `file_syscall.c`, `fork.c`, `time_syscalls.c` and
`main.c`, over the functions below them.
-/

namespace Os161.Syscalls

/-- The registers that a system call reads and writes. -/
structure Trapframe where
  tfV0 : UInt32
  tfV1 : UInt32
  tfA0 : UInt32
  tfA1 : UInt32
  tfA2 : UInt32
  tfA3 : UInt32
  tfSp : UInt32
  tfEpc : UInt32
  deriving DecidableEq

structure Kernel (P F V D : Type) where
  files : Files P F V
  world : D
  lkExec : AtomicLock P

/-- A kernel function that returns an error code, and its result if that is 0. -/
abbrev Fallible (K α : Type) := K → Outcome (Except Errno α × K)

/-- The functions below the handlers, in the kernel of the current process. -/
structure Callees (P F V D : Type) where
  ops : VnodeOps P V D
  reclaims : Reclaims V
  curspl : Kernel P F V D → Int
  iplhighCount : Kernel P F V D → Int
  tPid : Kernel P F V D → Int
  cNumber : Kernel P F V D → Int
  gettime : Kernel P F V D → Int × Int
  /-- `copyin` of an `int`. -/
  copyin : (usersrc : UInt32) → Fallible (Kernel P F V D) Int
  copyinstr : (usersrc : UInt32) → (len : Nat) → Fallible (Kernel P F V D) (List UInt8)
  copyout : (value : Int) → (userdest : UInt32) → Fallible (Kernel P F V D) Unit
  /-- What the calls of `k_open` answer. -/
  opening : (path : List UInt8) → (flags : UInt32) → Kernel P F V D → Files.Answers F V
  /-- What the `retval` of `sys_open` holds before `k_open` runs. -/
  garbage : Int
  /-- It comes with the `uio_resid` that it leaves. -/
  vfsGetcwd : (buf buflen : UInt32) → Fallible (Kernel P F V D) UInt32
  vfsChdir : (path : List UInt8) → Fallible (Kernel P F V D) Unit
  waitpid : (pid options : Int) → Fallible (Kernel P F V D) Int
  /-- `sys_exit`, which does not return. -/
  exit : (code : Int) → Kernel P F V D → Outcome (Kernel P F V D)
  /-- `shutdown` and what comes after it, which does not return. -/
  shutdown : (code : Int) → Kernel P F V D → Outcome (Kernel P F V D)
  /-- `proc_copy` and the link to the parent. It comes with the pid. -/
  procCopy : Fallible (Kernel P F V D) Int
  trapframeCopy : Trapframe → Fallible (Kernel P F V D) Unit
  kmallocArgs : Fallible (Kernel P F V D) Unit
  asCopy : Fallible (Kernel P F V D) Unit
  threadFork : Fallible (Kernel P F V D) Unit
  /-- Frees what `sys_fork` has made so far. -/
  unfork : (pid : Int) → Kernel P F V D → Outcome (Kernel P F V D)
  vfsOpen : (path : List UInt8) → Fallible (Kernel P F V D) V
  vfsClose : V → Kernel P F V D → Outcome (Kernel P F V D)
  copyArgs : (uargs : UInt32) → Fallible (Kernel P F V D) Unit
  asCreate : Fallible (Kernel P F V D) Unit
  loadElf : V → Fallible (Kernel P F V D) Unit
  asDefineStack : Fallible (Kernel P F V D) Unit
  adjustKargbuf : Fallible (Kernel P F V D) Unit
  copyoutArgs : Fallible (Kernel P F V D) Unit
  /-- Goes back to the old address space. -/
  asRestore : Kernel P F V D → Outcome (Kernel P F V D)
  /-- `as_destroy` on the old address space and `enter_new_process`, which does not return. -/
  enterNewProcess : Kernel P F V D → Outcome (Kernel P F V D)

namespace Kernel

variable {P F V D : Type} [DecidableEq P] [DecidableEq F] [DecidableEq V]

/-- It returns only when the code is wrong. -/
def sysReboot (c : Callees P F V D) (code : Int) (k : Kernel P F V D) :
    Outcome (Option (Except Errno Int × Kernel P F V D)) :=
  if code = 0 ∨ code = 1 ∨ code = 2 then do
    let _ ← c.shutdown code k
    return none
  else
    return some (.error .einval, k)

def sysTime (c : Callees P F V D) (secondsPtr nanosecondsPtr : UInt32) (k : Kernel P F V D) :
    Outcome (Except Errno Int × Kernel P F V D) := do
  let ts := c.gettime k
  let (result, k) ← c.copyout ts.1 secondsPtr k
  match result with
  | .error err => return (.error err, k)
  | .ok () => do
    let (result, k) ← c.copyout ts.2 nanosecondsPtr k
    return (result.map fun _ => 0, k)

/-- `Files.sysOpen` with its name copied in. -/
def sysOpen (c : Callees P F V D) (cur : P) (filename flags : UInt32) (k : Kernel P F V D) :
    Outcome (Except Errno Int × Kernel P F V D) :=
  if Files.validFlags flags then do
    let (copied, k) ← c.copyinstr filename 32 k
    match copied with
    | .error err => return (.error err, k)
    | .ok path => do
      let answers := c.opening path flags k
      let (result, files) ← k.files.sysOpen cur none flags c.garbage answers
      return (result, { k with files := files })
  else
    return (.error .einval, k)

def sysRead (c : Callees P F V D) (cur : P) (fd : Int) (buffer nBytes : UInt32)
    (k : Kernel P F V D) : Outcome (Except Errno Int × Kernel P F V D) := do
  let (result, files, world) ← k.files.sysRead c.ops cur fd buffer nBytes k.world
  return (result, { k with files := files, world := world })

def sysWrite (c : Callees P F V D) (cur : P) (fd : Int) (buffer nBytes : UInt32)
    (k : Kernel P F V D) : Outcome (Except Errno Int × Kernel P F V D) := do
  let (result, files, world) ← k.files.sysWrite c.ops cur fd buffer nBytes k.world
  return (result, { k with files := files, world := world })

def sysClose (c : Callees P F V D) (cur : P) (fd : Int) (k : Kernel P F V D) :
    Outcome (Except Errno Int × Kernel P F V D) := do
  let (result, files) ← k.files.sysClose cur fd c.reclaims
  return (result.map fun _ => 0, { k with files := files })

def sysLseek (c : Callees P F V D) (cur : P) (fd offset whence : Int) (k : Kernel P F V D) :
    Outcome (Except Errno Int × Kernel P F V D) := do
  let (result, files) ← k.files.sysLseek c.ops cur ⟨fd, offset, whence⟩ k.world
  return (result, { k with files := files })

def sysDup2 (c : Callees P F V D) (cur : P) (oldfd newfd : Int) (k : Kernel P F V D) :
    Outcome (Except Errno Int × Kernel P F V D) := do
  let (result, files) ← k.files.sysDup2 cur oldfd newfd c.reclaims
  return (result, { k with files := files })

def sysGetpid (c : Callees P F V D) (k : Kernel P F V D) :
    Outcome (Except Errno Int × Kernel P F V D) :=
  return (.ok (c.tPid k), k)

def sysGetcpu (c : Callees P F V D) (k : Kernel P F V D) :
    Outcome (Except Errno Int × Kernel P F V D) :=
  return (.ok (c.cNumber k), k)

def sysWaitpid (c : Callees P F V D) (pid : Int) (uret : UInt32) (options : Int)
    (k : Kernel P F V D) : Outcome (Except Errno Int × Kernel P F V D) := do
  let (waited, k) ← c.waitpid pid options k
  match waited with
  | .error err => return (.error err, k)
  | .ok kstatus => do
    let (copied, k) ← c.copyout kstatus uret k
    return (copied.map fun _ => pid, k)

/-- The pointers that `sys_getcwd` and `sys_chdir` refuse. -/
def badPointer (ptr : UInt32) : Bool := ptr == 0 || ptr == 0x40000000 || ptr == 0x80000000

/-- A failure of `vfs_getcwd` comes back as the value of `!= 0`. -/
def sysGetcwd (c : Callees P F V D) (buf buflen : UInt32) (k : Kernel P F V D) :
    Outcome (Except Int Int × Kernel P F V D) :=
  if badPointer buf then return (.error Errno.efault.code, k)
  else do
    let (result, k) ← c.vfsGetcwd buf buflen k
    match result with
    | .error _ => return (.error 1, k)
    | .ok uioResid => return (.ok (Files.toInt (buflen - uioResid)), k)

/-- A failure of `copyinstr` comes back as the value of `!= 0`. -/
def sysChdir (c : Callees P F V D) (path : UInt32) (k : Kernel P F V D) :
    Outcome (Except Int Int × Kernel P F V D) :=
  if badPointer path then return (.error Errno.efault.code, k)
  else do
    let (copied, k) ← c.copyinstr path 255 k
    match copied with
    | .error _ => return (.error 1, k)
    | .ok pathNameFromUser => do
      let (result, k) ← c.vfsChdir pathNameFromUser k
      match result with
      | .error err => return (.error err.code, k)
      | .ok () => return (.ok 0, k)

/-- `sys_fork` follows `p_new` whether or not `proc_copy` has made it. -/
def sysFork (c : Callees P F V D) (tf : Trapframe) (k : Kernel P F V D) :
    Outcome (Except Errno Int × Kernel P F V D) := do
  let (copied, k) ← c.procCopy k
  match copied with
  | .error _ => .fault
  | .ok pid => do
    let (result, k) ← steps [c.trapframeCopy tf, c.kmallocArgs, c.asCopy, c.threadFork] k
    match result with
    | .error err => do
      let k ← c.unfork pid k
      return (.error err, k)
    | .ok () => return (.ok pid, k)
where
  /-- Functions in turn, until one fails. -/
  steps : List (Fallible (Kernel P F V D) Unit) → Fallible (Kernel P F V D) Unit
    | [], k => return (.ok (), k)
    | step :: rest, k => do
      let (result, k) ← step k
      match result with
      | .error err => return (.error err, k)
      | .ok () => steps rest k

def execLock (cur : P) (k : Kernel P F V D) : Outcome (Kernel P F V D) := do
  let lock ← AtomicLock.acquire k.lkExec cur
  return { k with lkExec := lock }

def execUnlock (cur : P) (k : Kernel P F V D) : Outcome (Kernel P F V D) := do
  let lock ← AtomicLock.release k.lkExec cur
  return { k with lkExec := lock }

/-- It returns only when a step fails. -/
def sysExecv (c : Callees P F V D) (cur : P) (upname uargs : UInt32) (k : Kernel P F V D) :
    Outcome (Option (Except Errno Int × Kernel P F V D)) := do
  let k ← k.execLock cur
  let (copied, k) ← c.copyinstr upname 32 k
  match copied with
  | .error err => do
    let k ← k.execUnlock cur
    return some (.error err, k)
  | .ok kpname => do
    let (opened, k) ← c.vfsOpen kpname k
    match opened with
    | .error err => do
      let k ← k.execUnlock cur
      return some (.error err, k)
    | .ok vn => do
      let (result, k) ← sysFork.steps [c.copyArgs uargs, c.asCreate] k
      match result with
      | .error err => do
        let k ← k.execUnlock cur
        let k ← c.vfsClose vn k
        return some (.error err, k)
      | .ok () => do
        let (result, k) ←
          sysFork.steps [c.loadElf vn, c.asDefineStack, c.adjustKargbuf, c.copyoutArgs] k
        match result with
        | .error err => do
          let k ← c.asRestore k
          let k ← c.vfsClose vn k
          let k ← k.execUnlock cur
          return some (.error err, k)
        | .ok () => do
          let k ← k.execUnlock cur
          let k ← c.vfsClose vn k
          let _ ← c.enterNewProcess k
          return none

end Kernel

end Os161.Syscalls
