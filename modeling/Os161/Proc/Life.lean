import Os161.File.Calls
import Os161.Proc.Process

/-!
# The life of processes

Any number of processes that are started from the menu or forked, that use files, wait for their
children and exit, in any order of their calls; a call is one step, and `___waitpid` is cut where it
waits. Memory that is freed is given out again. `birth`, `forker`, `returned`, `exited` and `clock`
are bookkeeping of the model: they tell apart the processes that come to lie at one address.
-/

namespace Os161.Life

/-- Where the thread of a process is. -/
inductive Status (Id : Type) where
  /-- In a user program, or in the menu. -/
  | running
  /-- In `cmd_progthread`, before user mode. -/
  | starting
  /-- In `common_prog`, before `___waitpid`. -/
  | calling (pid : Fin 32)
  /-- In `___waitpid`, at `P` on the semaphore of a process. -/
  | waiting (p : Id)
  | ended
  deriving DecidableEq

structure State (Id F V : Type) where
  kernel : Kernel Id Id Unit
  /-- The table that `p_fd` of a process points to is that of the process here. -/
  files : Files Id F V
  status : Id → Status Id
  tPid : Id → BitVec 32
  birth : Id → Nat
  forker : Id → Option Nat
  /-- What the `sys_fork` that has made the process has returned. -/
  returned : Id → Option (Fin 32)
  exited : Nat → Bool
  clock : Nat

/-- What the steps of `runprogram` come to. -/
structure Startup where
  vfsOpen : Option Errno
  asCreate : Bool
  loadElf : Option Errno
  asDefineStack : Option Errno

/-- The error that `runprogram` returns; when there is none it goes to user mode. -/
def runprogram (o : Startup) : Option Errno :=
  match o.vfsOpen with
  | some err => some err
  | none =>
    if o.asCreate then
      match o.loadElf with
      | some err => some err
      | none => o.asDefineStack
    else some .enomem

inductive Action (Id F V : Type) where
  /-- `common_prog` up to its `___waitpid`. `tPid` is what `thread_create` leaves in `t_pid`. -/
  | prog (p : Id) (room : Bool) (answers : Fin 3 → Files.Answers F V) (cargs threaded : Bool)
      (tPid : BitVec 32) (reclaims : Reclaims V)
  | startup (p : Id) (outcome : Startup)
  | fork (cur p : Id) (room threaded : Bool) (tPid : BitVec 32) (reclaims : Reclaims V)
  | exit (cur : Id) (exitcode : BitVec 32) (reclaims : Reclaims V)
  | wait (cur : Id) (pid options : Int)
  /-- `___waitpid` from its `P` on. -/
  | reap (cur : Id)
  | open (cur : Id) (copied : Option Errno) (flags : UInt32) (garbage : Int)
      (answers : Files.Answers F V)
  | dup2 (cur : Id) (oldfd newfd : Int) (reclaims : Reclaims V)
  | close (cur : Id) (fd : Int) (reclaims : Reclaims V)

variable {Id F V : Type} [DecidableEq Id] [DecidableEq F] [DecidableEq V]

/-- `proc_get`. The process that it finds is locked. -/
def procGet (k : Kernel Id Id Unit) (cur : Id) (pid : Int) :
    Outcome (Except Errno Id × Kernel Id Id Unit) :=
  if inside : 0 < pid ∧ pid < 32 then do
    Outcome.await (k.lkAllproc = none)
    match k.pTable ⟨pid.toNat, Kernel.pid_inside inside⟩ with
    | none => return (.error .esrch, k)
    | some p => do
      let k ← k.update p fun proc => proc.lockAcquire cur
      return (.ok p, k)
  else return (.error .einval, k)

namespace State

/-- `proc_create`; `room` says whether its allocations succeed. When one fails
`proc_dealloc_pid` takes back a slot that is not in use yet. -/
def procCreate (s : State Id F V) (p : Id) (room : Bool) :
    Outcome (Except Errno (Fin 32) × State Id F V) := do
  let (result, kernel) ← s.kernel.procAllocPid
  match result with
  | .error err => return (.error err, { s with kernel := kernel })
  | .ok pid => do
    Outcome.await (kernel.heap p = none)
    match s.files.fdCreate p (room, room) with
    | .error err => do
      let kernel ← kernel.procDeallocPid pid
      return (.error err, { s with kernel := kernel })
    | .ok files => do
      let proc : Proc Id Id Unit := ⟨pid, none, some none, some 0, some (), 0, false⟩
      let kernel := { kernel with heap := Function.update kernel.heap p (some proc) }
      let kernel ← kernel.procAddToAllproc p pid
      return (.ok pid, { s with kernel := kernel, files := files })

def procDestroy (s : State Id F V) (p : Id) : Outcome (State Id F V) := do
  let proc ← Outcome.deref (s.kernel.heap p)
  let kernel ← s.kernel.update p Proc.semDestroy
  let kernel ← kernel.update p Proc.lockDestroy
  let files ← s.files.fdDestroy p
  let kernel ← kernel.free p
  let kernel ← kernel.procDeallocPid proc.pPid
  return { s with kernel := kernel, files := files }

/-- `close_all_f` and `proc_destroy` of a process that gets no thread. -/
def abandon (s : State Id F V) (p cur : Id) (reclaims : Reclaims V) : Outcome (State Id F V) := do
  let (_, files) ← s.files.closeAllF p cur reclaims
  { s with files := files }.procDestroy p

def setParent (s : State Id F V) (p parent : Id) : Outcome (State Id F V) := do
  let kernel ← s.kernel.update p fun proc => return { proc with pProc := some parent }
  return { s with kernel := kernel }

def goTo (s : State Id F V) (p : Id) (status : Status Id) : State Id F V :=
  { s with status := Function.update s.status p status }

/-- The process gets its thread. -/
def spawn (s : State Id F V) (parent p : Id) (status : Status Id) (tPid : BitVec 32) :
    State Id F V :=
  { s with
    status := Function.update s.status p status
    tPid := Function.update s.tPid p tPid
    birth := Function.update s.birth p s.clock
    forker := Function.update s.forker p (some (s.birth parent))
    returned := Function.update s.returned p none
    clock := s.clock + 1 }

def prog (s : State Id F V) (p0 p : Id) (room : Bool) (answers : Fin 3 → Files.Answers F V)
    (cargs threaded : Bool) (tPid : BitVec 32) (reclaims : Reclaims V) :
    Outcome (State Id F V) := do
  Outcome.await (s.status p0 = .running)
  let (result, s) ← s.procCreate p room
  match result with
  | .error _ => return s
  | .ok pid => do
    let (result, files) ← FileCalls.openStandardFiles s.files p p0 answers reclaims
    let s := { s with files := files }
    match result with
    | .error _ => s.procDestroy p
    | .ok _ =>
      if cargs then do
        let s ← s.setParent p p0
        if threaded then return (s.spawn p0 p .starting tPid).goTo p0 (.calling pid)
        else s.abandon p p0 reclaims
      else s.abandon p p0 reclaims

/-- When `runprogram` fails `cmd_progthread` returns, and `thread_startup` goes on to
`thread_exit`. -/
def startup (s : State Id F V) (p : Id) (outcome : Startup) : Outcome (State Id F V) := do
  Outcome.await (s.status p = .starting)
  match runprogram outcome with
  | none => return s.goTo p .running
  | some _ => return s.goTo p .ended

/-- `sys_fork`: the pid that it returns is that of the process it has made. It does not look at
what `proc_copy` returns. -/
def sysFork (s : State Id F V) (cur p : Id) (room threaded : Bool) (tPid : BitVec 32)
    (reclaims : Reclaims V) : Outcome (Except Errno (Fin 32) × State Id F V) := do
  let (result, s) ← s.procCreate p room
  match result with
  | .error _ => .fault
  | .ok _ => do
    let files ← s.files.fileCopy cur p cur
    let proc ← Outcome.deref (s.kernel.heap p)
    let s ← { s with files := files }.setParent p cur
    if threaded then return (.ok proc.pPid, s.spawn cur p .running tPid)
    else do
      let s ← s.abandon p cur reclaims
      return (.error .enomem, s)

def sysExit (s : State Id F V) (cur : Id) (exitcode : BitVec 32) (reclaims : Reclaims V) :
    Outcome (State Id F V) := do
  let (closed, files) ← s.files.closeAllF cur cur reclaims
  Outcome.kassert (closed = true)
  let proc ← Outcome.deref (s.kernel.heap cur)
  let kernel ← s.kernel.update cur fun proc => do
    let proc ← proc.lockAcquire cur
    return { proc with pRetval := exitcode, pIsDead := true }
  let exited := Function.update s.exited (s.birth cur) true
  let s := { s with kernel := kernel, files := files, exited := exited }.goTo cur .ended
  match proc.pProc with
  | none => do
    let kernel ← s.kernel.update cur fun proc => proc.lockRelease cur
    { s with kernel := kernel }.procDestroy cur
  | some _ => do
    let kernel ← s.kernel.update cur Proc.semV
    let kernel ← kernel.update cur fun proc => proc.lockRelease cur
    return { s with kernel := kernel }

/-- `___waitpid` up to its `P`. -/
def waitpid (s : State Id F V) (cur : Id) (pid options : Int) :
    Outcome (Option (Except Errno Int) × State Id F V) :=
  if options ≠ 0 ∧ options ≠ 1 then return (some (.error .einval), s)
  else do
    let (result, kernel) ← procGet s.kernel cur pid
    match result with
    | .error err => return (some (.error err), { s with kernel := kernel })
    | .ok p => do
      let proc ← Outcome.deref (kernel.heap p)
      let kernel ← kernel.update p fun proc => proc.lockRelease cur
      let s := { s with kernel := kernel }
      if proc.pProc ≠ some cur then return (some (.error .echild), s)
      else if proc.pIsDead = false ∧ options = 1 then return (some (.ok 0), s)
      else return (none, s.goTo cur (.waiting p))

/-- `___waitpid` from its `P` on. -/
def reap (s : State Id F V) (cur : Id) : Outcome (State Id F V) :=
  match s.status cur with
  | .waiting p => do
    let kernel ← s.kernel.update p Proc.semP
    let kernel ← kernel.update p fun proc => do
      let proc ← proc.lockAcquire cur
      Outcome.kassert (proc.pIsDead = true)
      proc.lockRelease cur
    let s ← { s with kernel := kernel }.procDestroy p
    return s.goTo cur .running
  | _ => .blocked

def sysGetpid (s : State Id F V) (cur : Id) : BitVec 32 := s.tPid cur

/-- A user program runs; the menu's process `p0` makes no system calls. -/
def User (s : State Id F V) (p0 cur : Id) : Prop := s.status cur = .running ∧ cur ≠ p0

instance (s : State Id F V) (p0 cur : Id) : Decidable (s.User p0 cur) :=
  inferInstanceAs (Decidable (_ ∧ _))

/-- A program may wait for any pid, and the menu waits for the program that it has started. -/
def MayWait (s : State Id F V) (p0 cur : Id) (pid options : Int) : Prop :=
  s.User p0 cur ∨ cur = p0 ∧ options = 0 ∧
    ∃ slot : Fin 32, s.status p0 = .calling slot ∧ pid = slot.val

instance (s : State Id F V) (p0 cur : Id) (pid options : Int) :
    Decidable (s.MayWait p0 cur pid options) :=
  inferInstanceAs (Decidable (_ ∨ _ ∧ _ ∧ _))

def step (s : State Id F V) (p0 : Id) : Action Id F V → Outcome (State Id F V)
  | .prog p room answers cargs threaded tPid reclaims =>
    s.prog p0 p room answers cargs threaded tPid reclaims
  | .startup p outcome => s.startup p outcome
  | .fork cur p room threaded tPid reclaims => do
    Outcome.await (s.User p0 cur)
    let (result, s) ← s.sysFork cur p room threaded tPid reclaims
    match result with
    | .ok retval => return { s with returned := Function.update s.returned p (some retval) }
    | .error _ => return s
  | .exit cur exitcode reclaims => do
    Outcome.await (s.User p0 cur)
    s.sysExit cur exitcode reclaims
  | .wait cur pid options => do
    Outcome.await (s.MayWait p0 cur pid options)
    let (result, s) ← s.waitpid cur pid options
    match result with
    | none => return s
    | some _ => return s.goTo cur .running
  | .reap cur => s.reap cur
  | .open cur copied flags garbage answers => do
    Outcome.await (s.User p0 cur)
    let (_, files) ← s.files.sysOpen cur copied flags garbage answers
    return { s with files := files }
  | .dup2 cur oldfd newfd reclaims => do
    Outcome.await (s.User p0 cur)
    let (_, files) ← s.files.sysDup2 cur oldfd newfd reclaims
    return { s with files := files }
  | .close cur fd reclaims => do
    Outcome.await (s.User p0 cur)
    let (_, files) ← s.files.sysClose cur fd reclaims
    return { s with files := files }

end State

/-- At the start there is the menu's process, with pid 0 and the files that `proc0` has opened. -/
def machine (p0 : Id) : Machine (State Id F V) (Action Id F V) where
  initial s :=
    s.kernel.heap = Function.update (fun _ => none) p0
      (some ⟨0, none, some none, some 0, some (), 0, false⟩) ∧
      s.kernel.pTable = Function.update (fun _ => none) 0 (some p0) ∧
      s.kernel.nextPid = 1 ∧ s.kernel.lkAllproc = none ∧
      s.status = Function.update (fun _ => .ended) p0 .running ∧
      s.birth p0 = 0 ∧ s.forker p0 = none ∧ s.returned = (fun _ => none) ∧
      s.exited = (fun _ => false) ∧ s.clock = 1
  step s a := s.step p0 a

end Os161.Life
