import Os161.Base.Machine
import Os161.Vm.Dumbvm

/-!
# Address spaces of threads

The kernel paths that make, switch and destroy address spaces: `runprogram`, `sys_execv` with
`load_elf`, `sys_fork` with `fork_child_return`, and `thread_exit`. Every thread goes along its path
statement by statement, and a processor may be given to another thread between any two of them, also
in the middle of `vm_fault`. Each processor has a TLB of its own.
-/

namespace Os161.Dumbvm

/-- How far `load_elf` is: regions are defined, then there is memory, or something has failed. -/
inductive Stage where
  | defining
  | prepared
  | failed
  deriving DecidableEq

/-- Where a thread is on its path, with the address spaces that its local variables name. -/
inductive Phase (A : Type) where
  /-- A kernel thread, or a thread that has not run a program yet. -/
  | kernel
  /-- `runprogram` has set `t_addrspace`, and activates it next. -/
  | created
  /-- `load_elf`, with `as_old` if it is for `sys_execv`. -/
  | load (asOld : Option A) (stage : Stage)
  /-- The program, or a system call that uses its memory. -/
  | user
  /-- `sys_execv` has made `as_new`, and activates it next. -/
  | execCreated (asNew : A)
  /-- `sys_execv` sets `t_addrspace` next. -/
  | execActivated (asNew : A)
  /-- `sys_execv` has put `as_old` back, and activates it next. -/
  | restoring (asNew : A)
  /-- `sys_execv` destroys `as_new` next. -/
  | restored (asNew : A)
  /-- `sys_execv` destroys `as_old` next. -/
  | loaded (asOld : A)
  /-- `sys_fork` has the copy. -/
  | forking (asSource : A)
  /-- The new thread in front of `fork_child_return`, which has the copy. -/
  | newborn (asSource : A)
  /-- `fork_child_return` has set `t_addrspace`, and activates it next. -/
  | adopted
  /-- `thread_exit` has cleared `t_addrspace`, and flushes the TLB next. -/
  | exiting (as : A)
  /-- `thread_exit` destroys the address space next. -/
  | leaving (as : A)
  | gone
  deriving DecidableEq

/-- Where a thread goes on after `as_activate`. -/
def Phase.activated {A : Type} : Phase A → Phase A
  | .created => .load none .defining
  | .execCreated asNew => .execActivated asNew
  | .restoring asNew => .restored asNew
  | .adopted => .user
  | .exiting as => .leaving as
  | phase => phase

structure Thread (A : Type) where
  tAddrspace : Option A
  phase : Phase A
  /-- The page and the frame that `vm_fault` has found and not yet put into the TLB. -/
  fault : Option (Word × Word)
  deriving DecidableEq

/-- The path in these phases uses user memory. -/
def Phase.touches {A : Type} : Phase A → Bool
  | .user => true
  | .load _ .prepared => true
  | _ => false

structure State (n : Nat) (T A : Type) where
  threads : T → Option (Thread A)
  running : Fin n → Option T
  tlb : Fin n → Tlb
  spaces : A → Option Addrspace
  stolen : Stolen

inductive Action (n : Nat) (T A : Type) where
  /-- `thread_switch` to `next`, which was not running anywhere else. -/
  | switch (c : Fin n) (next : T)
  /-- The thread uses user memory. -/
  | touch (c : Fin n) (vaddr : Word) (write : Bool)
  | insert (c : Fin n)
  /-- `as_activate`, wherever the thread calls it. -/
  | activate (c : Fin n)
  | runprogram (c : Fin n) (as : Option A)
  | defineRegion (c : Fin n) (vaddr sz : Word)
  | prepareLoad (c : Fin n) (answers : Answers)
  /-- An error in `load_elf` or after it. -/
  | fail (c : Fin n)
  | finish (c : Fin n)
  | execCreate (c : Fin n) (asNew : Option A)
  | execAssign (c : Fin n)
  | destroy (c : Fin n)
  | asCopy (c : Fin n) (asNew : Option A) (answers : Answers)
  /-- `thread_fork` of `sys_fork`. -/
  | threadFork (c : Fin n) (child : T)
  | adopt (c : Fin n)
  | exit (c : Fin n)
  /-- A new kernel thread. -/
  | spawn (c : Fin n) (new : T)
  /-- `alloc_kpages`. -/
  | allocKpages (npages answer : Word)

variable {n : Nat} {T A : Type} [DecidableEq T] [DecidableEq A]

namespace State

/-- The thread that runs on a processor, out of `vm_fault`. -/
def current (s : State n T A) (c : Fin n) : Outcome (T × Thread A) :=
  match s.running c with
  | none => .blocked
  | some x =>
    match s.threads x with
    | none => .blocked
    | some th => if th.fault = none then .done (x, th) else .blocked

def setThread (s : State n T A) (x : T) (th : Thread A) : State n T A :=
  { s with threads := Function.update s.threads x (some th) }

def setSpace (s : State n T A) (a : A) (o : Option Addrspace) : State n T A :=
  { s with spaces := Function.update s.spaces a o }

def setTlb (s : State n T A) (c : Fin n) (tlb : Tlb) : State n T A :=
  { s with tlb := Function.update s.tlb c tlb }

/-- The thread goes on in another phase. -/
def goOn (s : State n T A) (x : T) (th : Thread A) (phase : Phase A) : State n T A :=
  s.setThread x { th with phase := phase }

/-- `as_create`, with the memory that `kmalloc` gives. -/
def asCreate (s : State n T A) (a : A) : Outcome (State n T A) := do
  Outcome.await (s.spaces a = none)
  return s.setSpace a (some Dumbvm.asCreate)

/-- `as_destroy` gives back the structure, and no frame. -/
def asDestroy (s : State n T A) (a : A) : Outcome (State n T A) := do
  let _ ← Outcome.deref (s.spaces a)
  return s.setSpace a none

/-- `thread_switch` and `thread_startup`: the TLB is flushed for a thread with an address space. -/
def switch (s : State n T A) (c : Fin n) (next : T) : Outcome (State n T A) := do
  Outcome.await (∀ d, d ≠ c → s.running d ≠ some next)
  match s.threads next with
  | none => .blocked
  | some th =>
    let s := { s with running := Function.update s.running c (some next) }
    if th.tAddrspace = none then return s else return s.setTlb c asActivate

/-- A user address that the TLB does not serve is a fault. An error of `vm_fault` is for the
program. -/
def touch (s : State n T A) (c : Fin n) (vaddr : Word) (write : Bool) : Outcome (State n T A) := do
  let (x, th) ← s.current c
  Outcome.await (th.phase.touches = true ∧ vaddr < userspacetop)
  let fault (faulttype : FaultType) : Outcome (State n T A) := do
    match ← vmFaultPage faulttype (th.tAddrspace.bind s.spaces) vaddr with
    | .error _ => return s
    | .ok pair => return s.setThread x { th with fault := some pair }
  match (s.tlb c).lookup vaddr with
  | some e => if write && !e.dirty then fault .readonly else return s
  | none => fault (if write then .write else .read)

def insert (s : State n T A) (c : Fin n) : Outcome (State n T A) :=
  match s.running c with
  | none => .blocked
  | some x =>
    match s.threads x with
    | none => .blocked
    | some th =>
      match th.fault with
      | none => .blocked
      | some (faultaddress, paddr) =>
        let (_, tlb) := vmFaultTlb (s.tlb c) faultaddress paddr
        return (s.setTlb c tlb).setThread x { th with fault := none }

/-- The running thread goes on with `k`. -/
def here (s : State n T A) (c : Fin n) (k : T → Thread A → Outcome (State n T A)) :
    Outcome (State n T A) := do
  let (x, th) ← s.current c
  k x th

def activate (s : State n T A) (c : Fin n) : Outcome (State n T A) :=
  s.here c fun x th => return (s.setTlb c asActivate).goOn x th th.phase.activated

/-- `runprogram` up to `as_activate`. -/
def runprogram (s : State n T A) (c : Fin n) (as : Option A) : Outcome (State n T A) :=
  s.here c fun x th =>
    match th.phase with
    | .kernel => do
      Outcome.kassert (th.tAddrspace = none)
      match as with
      | none => return s
      | some a => do
        let s ← s.asCreate a
        return s.setThread x { th with tAddrspace := some a, phase := .created }
    | _ => .blocked

def defineRegion (s : State n T A) (c : Fin n) (vaddr sz : Word) : Outcome (State n T A) :=
  s.here c fun x th =>
    match th.phase, th.tAddrspace with
    | .load asOld .defining, some a => do
      let as ← Outcome.deref (s.spaces a)
      let (result, as) := asDefineRegion as vaddr sz
      let s := s.setSpace a (some as)
      if result = 0 then return s else return s.goOn x th (.load asOld .failed)
    | _, _ => .blocked

def prepareLoad (s : State n T A) (c : Fin n) (answers : Answers) : Outcome (State n T A) :=
  s.here c fun x th =>
    match th.phase, th.tAddrspace with
    | .load asOld .defining, some a => do
      let as ← Outcome.deref (s.spaces a)
      let (result, as, stolen) ← asPrepareLoad as s.stolen answers
      let s := { s.setSpace a (some as) with stolen := stolen }
      return s.goOn x th (.load asOld (if result = none then .prepared else .failed))
    | _, _ => .blocked

/-- After an error `sys_execv` puts `as_old` back; `runprogram` returns, and its thread exits. -/
def fail (s : State n T A) (c : Fin n) : Outcome (State n T A) :=
  s.here c fun x th =>
    match th.phase, th.tAddrspace with
    | .load (some asOld) _, some asNew =>
      return s.setThread x { th with tAddrspace := some asOld, phase := .restoring asNew }
    | _, _ => .blocked

def finish (s : State n T A) (c : Fin n) : Outcome (State n T A) :=
  s.here c fun x th =>
    match th.phase with
    | .load (some asOld) .prepared => return s.goOn x th (.loaded asOld)
    | .load none .prepared => return s.goOn x th .user
    | _ => .blocked

def execCreate (s : State n T A) (c : Fin n) (asNew : Option A) : Outcome (State n T A) :=
  s.here c fun x th =>
    match th.phase, asNew with
    | .user, none => return s
    | .user, some a => do
      let s ← s.asCreate a
      return s.goOn x th (.execCreated a)
    | _, _ => .blocked

def execAssign (s : State n T A) (c : Fin n) : Outcome (State n T A) :=
  s.here c fun x th =>
    match th.phase, th.tAddrspace with
    | .execActivated asNew, some asOld =>
      return s.setThread x
        { th with tAddrspace := some asNew, phase := .load (some asOld) .defining }
    | _, _ => .blocked

/-- The calls of `as_destroy` at the end of `sys_execv`, `sys_fork` and `thread_exit`. -/
def destroy (s : State n T A) (c : Fin n) : Outcome (State n T A) :=
  s.here c fun x th =>
    match th.phase with
    | .loaded a | .restored a | .forking a => do
      let s ← s.asDestroy a
      return s.goOn x th .user
    | .leaving a => do
      let s ← s.asDestroy a
      return s.goOn x th .gone
    | _ => .blocked

/-- `as_copy` of `sys_fork`; if there is not enough memory the new address space is destroyed. -/
def asCopy (s : State n T A) (c : Fin n) (asNew : Option A) (answers : Answers) :
    Outcome (State n T A) :=
  s.here c fun x th =>
    match th.phase, th.tAddrspace, asNew with
    | .user, some _, none => return s
    | .user, some a, some b => do
      let old ← Outcome.deref (s.spaces a)
      let s ← s.asCreate b
      let (result, as, stolen) ← asPrepareLoad (copied old) s.stolen answers
      if result = none then
        Outcome.kassert (as.asPbase1 ≠ 0)
        Outcome.kassert (as.asPbase2 ≠ 0)
        Outcome.kassert (as.asStackpbase ≠ 0)
        return { s.setSpace b (some as) with stolen := stolen }.goOn x th (.forking b)
      else do
        let s ← s.asDestroy b
        return { s with stolen := stolen }
    | _, _, _ => .blocked

def threadFork (s : State n T A) (c : Fin n) (child : T) : Outcome (State n T A) :=
  s.here c fun x th =>
    match th.phase with
    | .forking asSource => do
      Outcome.await (s.threads child = none)
      return (s.setThread child ⟨none, .newborn asSource, none⟩).goOn x th .user
    | _ => .blocked

def adopt (s : State n T A) (c : Fin n) : Outcome (State n T A) :=
  s.here c fun x th =>
    match th.phase with
    | .newborn asSource => do
      Outcome.kassert (th.tAddrspace = none)
      return s.setThread x { th with tAddrspace := some asSource, phase := .adopted }
    | _ => .blocked

/-- `thread_exit`, from a program, a kernel thread or a `runprogram` that failed. -/
def exit (s : State n T A) (c : Fin n) : Outcome (State n T A) :=
  s.here c fun x th =>
    match th.phase with
    | .user | .kernel | .load none _ =>
      match th.tAddrspace with
      | some a => return s.setThread x { th with tAddrspace := none, phase := .exiting a }
      | none => return s.goOn x th .gone
    | _ => .blocked

def spawn (s : State n T A) (c : Fin n) (new : T) : Outcome (State n T A) :=
  s.here c fun _ _ => do
    Outcome.await (s.threads new = none)
    return s.setThread new ⟨none, .kernel, none⟩

def allocKpages (s : State n T A) (npages answer : Word) : Outcome (State n T A) := do
  let (_, stolen) ← getppages s.stolen npages answer
  return { s with stolen := stolen }

def step (s : State n T A) : Action n T A → Outcome (State n T A)
  | .switch c next => s.switch c next
  | .touch c vaddr write => s.touch c vaddr write
  | .insert c => s.insert c
  | .activate c => s.activate c
  | .runprogram c as => s.runprogram c as
  | .defineRegion c vaddr sz => s.defineRegion c vaddr sz
  | .prepareLoad c answers => s.prepareLoad c answers
  | .fail c => s.fail c
  | .finish c => s.finish c
  | .execCreate c asNew => s.execCreate c asNew
  | .execAssign c => s.execAssign c
  | .destroy c => s.destroy c
  | .asCopy c asNew answers => s.asCopy c asNew answers
  | .threadFork c child => s.threadFork c child
  | .adopt c => s.adopt c
  | .exit c => s.exit c
  | .spawn c new => s.spawn c new
  | .allocKpages npages answer => s.allocKpages npages answer

end State

/-- At the start there are kernel threads only, each on one processor at most. What the TLBs hold
and what memory has been handed out may be anything. -/
def vm : Machine (State n T A) (Action n T A) where
  initial s :=
    (∀ x th, s.threads x = some th → th = ⟨none, .kernel, none⟩) ∧
      (∀ c d x, s.running c = some x → s.running d = some x → c = d) ∧ ∀ a, s.spaces a = none
  step s a := s.step a

end Os161.Dumbvm
