import Os161.Syscall.Handlers
import Os161.Vm.Spaces

/-!
# User memory in system calls

`sys_read`, `sys_write`, `sys_getcwd` and `load_segment` describe user memory by a `uio` and hand it
to a vnode operation, which calls `uiomove`. The address space is recorded in the thread, which
`runprogram`, `sys_fork`, `sys_execv` and `thread_exit` keep, and in the process.
-/

namespace Os161.UserIo

open Dumbvm (Thread Phase Word)

structure Proc (A : Type) where
  tAddrspace : Option A
  pIsDead : Bool

/-- Where a program or `load_elf` is in a call, with its local variables. -/
inductive Place (P A : Type) where
  | outside
  /-- `sys_fork` after `proc_copy`. -/
  | fork (pNew : P)
  /-- A vnode operation that has a `uio` of user memory. -/
  | vnode (uio : Uio A)

structure State (n : Nat) (T P A User : Type) where
  vm : Dumbvm.State n T A
  procs : Heap P (Proc A)
  tdProc : T → Option P
  /-- The process in the arguments of a new thread. -/
  args : T → Option P
  place : T → Place P A
  kernel : Bytes
  user : User

/-- A call of `uiomove` inside a vnode operation, which may have cut `uio_resid` and moved
`uio_offset` before. -/
structure Move where
  buf : Bytes
  n : Nat
  uioResid : UInt32
  uioOffset : Int

/-- The arguments of `load_segment`. -/
structure Segment where
  offset : Int
  vaddr : Word
  memsize : UInt32
  filesize : UInt32
  isExecutable : Bool

inductive Action (n : Nat) (T P A : Type) where
  /-- A step that is about memory only. -/
  | vm (action : Dumbvm.Action n T A)
  /-- A new kernel thread, or with `common_prog` one that will run a program. -/
  | spawn (c : Fin n) (child : T) (prog : Option (P × Option A))
  | runprogram (c : Fin n) (as : Option A)
  /-- `proc_copy` of `sys_fork`, with what the memory of the process had in it. -/
  | forkCreate (c : Fin n) (pNew : P) (leftover : Option A)
  | forkThread (c : Fin n) (child : T)
  | forkFail (c : Fin n)
  | adopt (c : Fin n)
  | exit (c : Fin n)
  | procDestroy (p : P)
  /-- `sys_read` or `sys_write` after its checks. -/
  | transfer (c : Fin n) (r : RwRequest) (fOffset : Int)
  | loadSegment (c : Fin n) (segment : Segment)
  /-- `tCwd` says whether the thread has a current directory. -/
  | getcwd (c : Fin n) (buf buflen : UInt32) (tCwd : Bool)
  | uiomove (c : Fin n) (move : Move)
  /-- The vnode operation returns. -/
  | vnodeReturn (c : Fin n)

variable {n : Nat} {T P A User : Type} [DecidableEq T] [DecidableEq P] [DecidableEq A]

/-- The processor of a memory step. -/
def processor : Dumbvm.Action n T A → Option (Fin n)
  | .switch c _ | .touch c _ _ | .insert c | .activate c | .runprogram c _ | .defineRegion c _ _
  | .prepareLoad c _ | .fail c | .finish c | .execCreate c _ | .execAssign c | .destroy c
  | .asCopy c _ _ | .threadFork c _ | .adopt c | .exit c | .spawn c _ => some c
  | .allocKpages _ _ => none

/-- A memory step that can come anywhere. -/
def quiet : Dumbvm.Action n T A → Bool
  | .switch _ _ | .touch _ _ _ | .insert _ | .allocKpages _ _ => true
  | _ => false

/-- The other memory steps that are not part of an action of their own. -/
def permits : Place P A → Phase A → Dumbvm.Action n T A → Bool
  | .outside, _, .activate _ | .outside, _, .defineRegion _ _ _ | .outside, _, .prepareLoad _ _
  | .outside, _, .fail _ | .outside, _, .finish _ | .outside, _, .execCreate _ _
  | .outside, _, .execAssign _ | .outside, _, .destroy _ => true
  | .outside, .kernel, .exit _ | .outside, .load _ _, .exit _ => true
  | .fork _, _, .asCopy _ _ _ | .fork _, _, .destroy _ => true
  | _, _, _ => false

namespace State

def setPlace (s : State n T P A User) (x : T) (place : Place P A) : State n T P A User :=
  { s with place := Function.update s.place x place }

/-- The running thread goes on with `k`. -/
def here (s : State n T P A User) (c : Fin n)
    (k : T → Thread A → Outcome (State n T P A User)) : Outcome (State n T P A User) := do
  let (x, th) ← s.vm.current c
  k x th

/-- The program that runs makes a system call. -/
def program (s : State n T P A User) (c : Fin n)
    (k : T → Thread A → Outcome (State n T P A User)) : Outcome (State n T P A User) :=
  s.here c fun x th =>
    match th.phase, s.place x with
    | .user, .outside => k x th
    | _, _ => .blocked

def permitted (s : State n T P A User) (a : Dumbvm.Action n T A) : Bool :=
  match (processor a).bind s.vm.running with
  | none => false
  | some x => (s.vm.threads x).any fun th => permits (s.place x) th.phase a

def memory (s : State n T P A User) (a : Dumbvm.Action n T A) : Outcome (State n T P A User) := do
  Outcome.await (quiet a = true ∨ s.permitted a = true)
  let vm ← s.vm.step a
  return { s with vm := vm }

/-- `thread_fork`: the child will find a process in its arguments. -/
def fork (s : State n T P A User) (vm : Dumbvm.State n T A) (child : T) (p : Option P) :
    State n T P A User :=
  { s with vm := vm, args := Function.update s.args child p }.setPlace child .outside

/-- `common_prog` makes the process with `proc_create`, which does not set `t_addrspace`. -/
def spawn (s : State n T P A User) (c : Fin n) (child : T) (prog : Option (P × Option A)) :
    Outcome (State n T P A User) := do
  let vm ← s.vm.spawn c child
  match prog with
  | none => return s.fork vm child none
  | some (p, leftover) => do
    let procs ← s.procs.alloc p ⟨leftover, false⟩
    return { s with procs := procs }.fork vm child (some p)

/-- `cmd_progthread`. -/
def runprogram (s : State n T P A User) (c : Fin n) (as : Option A) :
    Outcome (State n T P A User) :=
  s.here c fun x _ =>
    match s.args x, s.place x with
    | some p, .outside => do
      let vm ← s.vm.runprogram c as
      return { s with vm := vm, tdProc := Function.update s.tdProc x (some p) }
    | _, _ => .blocked

def forkCreate (s : State n T P A User) (c : Fin n) (pNew : P) (leftover : Option A) :
    Outcome (State n T P A User) :=
  s.program c fun x _ => do
    let procs ← s.procs.alloc pNew ⟨leftover, false⟩
    return { s with procs := procs }.setPlace x (.fork pNew)

def forkThread (s : State n T P A User) (c : Fin n) (child : T) : Outcome (State n T P A User) :=
  s.here c fun x _ =>
    match s.place x with
    | .fork pNew => do
      let vm ← s.vm.threadFork c child
      return (s.fork vm child (some pNew)).setPlace x .outside
    | _ => .blocked

def forkFail (s : State n T P A User) (c : Fin n) : Outcome (State n T P A User) :=
  s.here c fun x th =>
    match th.phase, s.place x with
    | .user, .fork pNew => do
      let procs ← s.procs.free pNew
      return { s with procs := procs }.setPlace x .outside
    | _, _ => .blocked

/-- `fork_child_return`. -/
def adopt (s : State n T P A User) (c : Fin n) : Outcome (State n T P A User) :=
  s.here c fun x _ =>
    match s.args x, s.place x with
    | some p, .outside => do
      let vm ← s.vm.adopt c
      return { s with vm := vm, tdProc := Function.update s.tdProc x (some p) }
    | _, _ => .blocked

/-- `sys_exit` with the first part of `thread_exit`. -/
def exit (s : State n T P A User) (c : Fin n) : Outcome (State n T P A User) :=
  s.program c fun x _ => do
    let p ← Outcome.deref (s.tdProc x)
    let procs ← s.procs.modify p fun proc => return { proc with pIsDead := true }
    let vm ← s.vm.exit c
    return { s with vm := vm, procs := procs }

/-- `proc_destroy`, by the parent or by `sys_exit`. -/
def procDestroy (s : State n T P A User) (p : P) : Outcome (State n T P A User) := do
  let proc ← s.procs.get p
  Outcome.await (proc.pIsDead = true)
  let procs ← s.procs.free p
  return { s with procs := procs }

def transfer (s : State n T P A User) (c : Fin n) (r : RwRequest) (fOffset : Int) :
    Outcome (State n T P A User) :=
  s.program c fun x th =>
    return s.setPlace x (.vnode (Uio.uinit th.tAddrspace r.buffer r.nBytes fOffset r.rw))

def loadSegment (s : State n T P A User) (c : Fin n) (segment : Segment) :
    Outcome (State n T P A User) :=
  s.here c fun x th =>
    match th.phase, s.place x with
    | .load _ .prepared, .outside =>
      return s.setPlace x (.vnode
        { uioIov := [⟨segment.vaddr.toNat, segment.memsize.toNat⟩]
          uioOffset := segment.offset
          uioResid := min segment.filesize segment.memsize
          uioSegflg := if segment.isExecutable then .userispace else .userspace
          uioRw := .read
          uioSpace := th.tAddrspace })
    | _, _ => .blocked

/-- `sys_getcwd`, and `vfs_getcwd` up to its first `uiomove`. -/
def getcwd (s : State n T P A User) (c : Fin n) (buf buflen : UInt32) (tCwd : Bool) :
    Outcome (State n T P A User) :=
  s.program c fun x _ => do
    let curproc ← Outcome.deref (s.tdProc x)
    let proc ← s.procs.get curproc
    let user := { (Uio.kinit buf.toNat buflen 0 .read : Uio A) with
      uioSegflg := .userspace
      uioSpace := proc.tAddrspace }
    if Syscalls.Kernel.badPointer buf then return s
    else if tCwd then return s.setPlace x (.vnode user)
    else return s

/-- The memory that `uiomove` gets to see. -/
def view (s : State n T P A User) (th : Thread A) (uio : Uio A) (move : Move) : Transfer A User :=
  ⟨move.buf, ⟨s.kernel, s.user, th.tAddrspace⟩,
    { uio with uioResid := move.uioResid, uioOffset := move.uioOffset }⟩

def uiomove (copy : UserCopy User) (s : State n T P A User) (c : Fin n) (move : Move) :
    Outcome (State n T P A User) :=
  s.here c fun x th =>
    match s.place x with
    | .vnode uio => do
      let (_, t) ← (s.view th uio move).uiomove copy move.n
      return { s with kernel := t.memory.kernel, user := t.memory.user }.setPlace x (.vnode t.uio)
    | _ => .blocked

def vnodeReturn (s : State n T P A User) (c : Fin n) : Outcome (State n T P A User) :=
  s.here c fun x _ =>
    match s.place x with
    | .vnode _ => return s.setPlace x .outside
    | _ => .blocked

def step (copy : UserCopy User) (s : State n T P A User) :
    Action n T P A → Outcome (State n T P A User)
  | .vm a => s.memory a
  | .spawn c child prog => s.spawn c child prog
  | .runprogram c as => s.runprogram c as
  | .forkCreate c pNew leftover => s.forkCreate c pNew leftover
  | .forkThread c child => s.forkThread c child
  | .forkFail c => s.forkFail c
  | .adopt c => s.adopt c
  | .exit c => s.exit c
  | .procDestroy p => s.procDestroy p
  | .transfer c r fOffset => s.transfer c r fOffset
  | .loadSegment c segment => s.loadSegment c segment
  | .getcwd c buf buflen tCwd => s.getcwd c buf buflen tCwd
  | .uiomove c move => s.uiomove copy c move
  | .vnodeReturn c => s.vnodeReturn c

end State

/-- At the start there are kernel threads, and no program has been run. -/
def machine (copy : UserCopy User) : Machine (State n T P A User) (Action n T P A) where
  initial s := Dumbvm.vm.initial s.vm ∧ (∀ p, s.procs p = .unused) ∧ (∀ x, s.args x = none) ∧
    ∀ x, s.place x = .outside
  step s a := s.step copy a

end Os161.UserIo
