import Mathlib.Data.Finset.Card
import Mathlib.Data.Finset.Insert
import Os161.Thread.OnePlace

/-!
# Interrupt levels, spinlocks and traps

`spl.c`, `spinlock.c`, the switch of `thread.c` and `mips_trap`, for any number of cpus. The queues
and lists are those of the scheduler, and a section of it under a spinlock is one step.

What a thread has to come back to is its list of frames: the levels that `splhigh`, `spl0` and
`splx` have returned to it, and its trap frames. Levels come back in the order in which they were
saved, and a trap is left with the spinlocks with which it was entered.
-/

set_option linter.unusedSectionVars false

namespace Os161.Interrupts

open Scheduler (Newstate)

/-- `IPL_NONE` and `IPL_HIGH`. -/
inductive Ipl where
  | none
  | high
  deriving DecidableEq

/-- What a level counts for in `t_iplhigh_count`. -/
def Ipl.charge : Ipl → Int
  | .none => 0
  | .high => 1

/-- The run queue locks of `n` cpus, the locks of the wait channels `W`, and others. -/
inductive Spinlock (n : Nat) (W L : Type) where
  | runqueue (c : Fin n)
  | wchan (wc : W)
  | other (l : L)
  deriving DecidableEq

/-- What a cpu is at. -/
inductive Mode where
  | kernel
  | user
  /-- `thread_switch` or `thread_startup` has the run queue lock from the thread before it. -/
  | resuming
  /-- In the loop of `thread_switch`, with the run queue lock and no thread to go on with. -/
  | idle
  /-- In `cpu_idle`, about to switch interrupts on. -/
  | idling
  /-- Between the two halves of `cpu_irqonoff`. -/
  | window
  /-- Back from `cpu_idle`. -/
  | idled
  deriving DecidableEq

/-- What a thread comes back to. -/
inductive Frame (K : Type) where
  /-- The level that a call has returned, for the `splx` that goes with it. -/
  | saved (spl : Ipl)
  /-- `thread_startup` up to its `spl0`. -/
  | startup
  /-- A trap, with the mode and the interrupt flag it goes back to. -/
  | trap (mode : Mode) (irq : Bool) (held : Finset K)
  | interrupt (mode : Mode) (doadjust oldIn : Bool)

/-- The interrupt state of a `struct thread`. -/
structure Thread (K : Type) where
  tCurspl : Ipl
  tIplhighCount : Int
  tInInterrupt : Bool
  frames : List (Frame K)
  /-- The spinlocks that it has acquired and not released. -/
  held : Finset K
  /-- It has acquired a run queue lock, and the thread that runs after it releases that, or it will
  release the one that the thread before it has acquired. -/
  handover : Bool

/-- The current thread of a cpu, and whether interrupts are on. -/
structure Core (K : Type) where
  thread : Thread K
  irq : Bool

variable {n : Nat} {T W O L K : Type} [DecidableEq T] [DecidableEq W] [DecidableEq O] [DecidableEq L]
  [DecidableEq K]

/-! ### spl.c -/

namespace Core

def splraise (s : Core K) : Core K :=
  let irq := if s.thread.tIplhighCount = 0 then false else s.irq
  { irq := irq, thread := { s.thread with tIplhighCount := s.thread.tIplhighCount + 1 } }

/-- A count that would go below 0 is a fault. -/
def spllower (s : Core K) : Outcome (Core K) :=
  let count := s.thread.tIplhighCount - 1
  if count < 0 then .fault
  else
    .done { irq := if count = 0 then true else s.irq, thread := { s.thread with tIplhighCount := count } }

/-- The level before, and the core after it. -/
def splx (s : Core K) (spl : Ipl) : Outcome (Ipl × Core K) :=
  match s.thread.tCurspl, spl with
  | .none, .high =>
    let s := s.splraise
    return (.none, { s with thread := { s.thread with tCurspl := .high } })
  | .high, .none => do
    let s ← { s with thread := { s.thread with tCurspl := .none } }.spllower
    return (.high, s)
  | _, _ => return (spl, s)

def setFrames (s : Core K) (frames : List (Frame K)) : Core K :=
  { s with thread := { s.thread with frames := frames } }

def push (s : Core K) (frame : Frame K) : Core K := s.setFrames (frame :: s.thread.frames)

/-- Notes that the thread has a spinlock. -/
def take (s : Core K) (k : K) : Core K :=
  { s with thread := { s.thread with held := insert k s.thread.held } }

def give (s : Core K) (k : K) : Core K :=
  { s with thread := { s.thread with held := s.thread.held.erase k } }

def setHandover (s : Core K) (handover : Bool) : Core K :=
  { s with thread := { s.thread with handover := handover } }

end Core

def isReady : Newstate W → Bool
  | .ready => true
  | _ => false

structure State (n : Nat) (T W O L : Type) where
  sched : Scheduler.State n T W O
  thread : T → Thread (Spinlock n W L)
  splkHolder : Spinlock n W L → Option (Fin n)
  irq : Fin n → Bool
  mode : Fin n → Mode

namespace State

def core (s : State n T W O L) (c : Fin n) : Core (Spinlock n W L) :=
  ⟨s.thread (s.sched.cCurthread c), s.irq c⟩

def setCore (s : State n T W O L) (c : Fin n) (core : Core (Spinlock n W L)) : State n T W O L :=
  { s with
    thread := Function.update s.thread (s.sched.cCurthread c) core.thread
    irq := Function.update s.irq c core.irq }

def setMode (s : State n T W O L) (c : Fin n) (mode : Mode) : State n T W O L :=
  { s with mode := Function.update s.mode c mode }

def setHolder (s : State n T W O L) (k : Spinlock n W L) (holder : Option (Fin n)) :
    State n T W O L :=
  { s with splkHolder := Function.update s.splkHolder k holder }

def splx (s : State n T W O L) (c : Fin n) (spl : Ipl) : Outcome (Ipl × State n T W O L) := do
  let (old, core) ← (s.core c).splx spl
  return (old, s.setCore c core)

/-! ### spinlock.c -/

def spinlockAcquire (s : State n T W O L) (c : Fin n) (k : Spinlock n W L) :
    Outcome (State n T W O L) := do
  let s := s.setCore c (s.core c).splraise
  Outcome.kassert (s.splkHolder k ≠ some c)
  Outcome.await (s.splkHolder k = none)
  return s.setHolder k (some c)

def spinlockRelease (s : State n T W O L) (c : Fin n) (k : Spinlock n W L) :
    Outcome (State n T W O L) := do
  Outcome.kassert (s.splkHolder k = some c)
  let core ← (s.core c).spllower
  return (s.setHolder k none).setCore c core

/-! ### Steps of a thread -/

def splSave (s : State n T W O L) (c : Fin n) (spl : Ipl) : Outcome (State n T W O L) := do
  Outcome.await (s.mode c = .kernel)
  let (old, s) ← s.splx c spl
  return s.setCore c ((s.core c).push (.saved old))

/-- The `splx` that goes with the last call that saved a level. -/
def splRestore (s : State n T W O L) (c : Fin n) : Outcome (State n T W O L) := do
  Outcome.await (s.mode c = .kernel)
  let .saved spl :: frames := (s.core c).thread.frames | .blocked
  let (_, s) ← s.splx c spl
  return s.setCore c ((s.core c).setFrames frames)

def acquire (s : State n T W O L) (c : Fin n) (k : Spinlock n W L) : Outcome (State n T W O L) := do
  Outcome.await (s.mode c = .kernel)
  let s ← s.spinlockAcquire c k
  return s.setCore c ((s.core c).take k)

/-- A thread releases what it has acquired. -/
def release (s : State n T W O L) (c : Fin n) (k : Spinlock n W L) : Outcome (State n T W O L) := do
  Outcome.await (s.mode c = .kernel ∧ k ∈ (s.core c).thread.held)
  let s ← s.spinlockRelease c k
  return s.setCore c ((s.core c).give k)

/-! ### mips_trap -/

/-- The processor takes an interrupt and turns interrupts off, and `mips_trap` adjusts the recorded
state. -/
def interrupt (s : State n T W O L) (c : Fin n) : Outcome (State n T W O L) := do
  Outcome.await (s.irq c = true ∧ (s.mode c = .kernel ∨ s.mode c = .user ∨ s.mode c = .window))
  let t := (s.core c).thread
  let doadjust := decide (t.tCurspl = .none)
  let frames := .interrupt (s.mode c) doadjust t.tInInterrupt :: t.frames
  let t ←
    if doadjust then do
      Outcome.kassert (t.tIplhighCount = 0)
      pure { t with tCurspl := .high, tIplhighCount := t.tIplhighCount + 1 }
    else pure t
  return (s.setCore c ⟨{ t with tInInterrupt := true, frames := frames }, false⟩).setMode c .kernel

/-- The processor turns interrupts on again as it goes back to where it was interrupted. -/
def interruptDone (s : State n T W O L) (c : Fin n) : Outcome (State n T W O L) := do
  Outcome.await (s.mode c = .kernel)
  let t := (s.core c).thread
  let .interrupt mode doadjust oldIn :: frames := t.frames | .blocked
  let t ←
    if doadjust then do
      Outcome.kassert (t.tCurspl = .high)
      Outcome.kassert (t.tIplhighCount = 1)
      pure { t with tIplhighCount := t.tIplhighCount - 1, tCurspl := .none }
    else pure t
  return (s.setCore c ⟨{ t with tInInterrupt := oldIn, frames := frames }, true⟩).setMode c mode

/-- A system call, or another exception, up to the call of its handler. -/
def trap (s : State n T W O L) (c : Fin n) (isSyscall : Bool) : Outcome (State n T W O L) := do
  Outcome.await (s.mode c = .user ∨ s.mode c = .kernel ∧ isSyscall = false)
  let frame := .trap (s.mode c) (s.irq c) (s.core c).thread.held
  let s := s.setCore c { s.core c with irq := false }
  let (spl, s) ← s.splx c .high
  let (_, s) ← s.splx c spl
  Outcome.kassert (isSyscall = true → (s.core c).thread.tCurspl = .none)
  Outcome.kassert (isSyscall = true → (s.core c).thread.tIplhighCount = 0)
  return (s.setCore c ((s.core c).push frame)).setMode c .kernel

def trapDone (s : State n T W O L) (c : Fin n) : Outcome (State n T W O L) := do
  Outcome.await (s.mode c = .kernel)
  let .trap mode irq held :: frames := (s.core c).thread.frames | .blocked
  Outcome.await ((s.core c).thread.held = held)
  return (s.setCore c { (s.core c).setFrames frames with irq := irq }).setMode c mode

/-- `mips_usermode`. It leaves the kernel stack behind; its callers are not interrupt handlers and
have no spinlock. -/
def mipsUsermode (s : State n T W O L) (c : Fin n) : Outcome (State n T W O L) := do
  Outcome.await (s.mode c = .kernel ∧ (s.core c).thread.tInInterrupt = false ∧
    (s.core c).thread.held = ∅)
  let (_, s) ← s.splx c .none
  return (s.setCore c { (s.core c).setFrames [] with irq := true }).setMode c .user

/-! ### thread_switch -/

/-- The scheduler's part of a switch: the thread goes to its place, and the cpu goes on with the
next one or is idle. -/
def goOn (s : State n T W O L) (c : Fin n) (a : Scheduler.Action n T W O) :
    Outcome (State n T W O L) := do
  let sched ← s.sched.step a
  return { s with sched := sched }.setMode c (if sched.cIsidle c then .idle else .resuming)

def switchAction (c : Fin n) : Newstate W → Scheduler.Action n T W O
  | .ready => .yield c
  | .sleep wc => .sleep c wc
  | .zombie => .exit c

/-- `thread_switch` once it knows that it switches, with the run queue locked and the level before
it in `spl`. -/
def switchAway (s : State n T W O L) (c : Fin n) (newstate : Newstate W) (spl : Ipl) :
    Outcome (State n T W O L) := do
  let s ←
    match newstate with
    | .sleep wc => do
      -- only the thread that has locked the channel may unlock it here
      Outcome.await (s.splkHolder (.wchan wc) = some c → .wchan wc ∈ (s.core c).thread.held)
      let s ← s.spinlockRelease c (.wchan wc)
      pure (s.setCore c ((s.core c).give (.wchan wc)))
    | _ => pure s
  let s := s.setCore c (((s.core c).push (.saved spl)).setHandover true)
  s.goOn c (switchAction c newstate)

def threadSwitch (s : State n T W O L) (c : Fin n) (newstate : Newstate W) :
    Outcome (State n T W O L) := do
  let (spl, s) ← s.splx c .high
  if s.sched.cIsidle c then do
    let (_, s) ← s.splx c spl
    return s
  else do
    let s ← s.spinlockAcquire c (.runqueue c)
    if isReady newstate && (s.sched.cRunqueue c).isEmpty then do
      let s ← s.spinlockRelease c (.runqueue c)
      let (_, s) ← s.splx c spl
      return s
    else s.switchAway c newstate spl

def threadYield (s : State n T W O L) (c : Fin n) : Outcome (State n T W O L) := do
  Outcome.await (s.mode c = .kernel)
  s.threadSwitch c .ready

def wchanSleep (s : State n T W O L) (c : Fin n) (wc : W) : Outcome (State n T W O L) := do
  Outcome.await (s.mode c = .kernel)
  Outcome.kassert ((s.core c).thread.tInInterrupt = false)
  s.threadSwitch c (.sleep wc)

/-- The end of `thread_exit`; a zombie must not walk. -/
def threadExit (s : State n T W O L) (c : Fin n) : Outcome (State n T W O L) := do
  let s ← s.splSave c .high
  Outcome.kassert (s.sched.cIsidle c = false)
  s.threadSwitch c .zombie

/-- The loop of `thread_switch` unlocks the run queue. -/
def idleUnlock (s : State n T W O L) (c : Fin n) : Outcome (State n T W O L) := do
  Outcome.await (s.mode c = .idle)
  let s ← s.spinlockRelease c (.runqueue c)
  return (s.setCore c ((s.core c).setHandover false)).setMode c .idling

/-- The first half of `cpu_irqonoff`. -/
def idleOpen (s : State n T W O L) (c : Fin n) : Outcome (State n T W O L) := do
  Outcome.await (s.mode c = .idling)
  return (s.setCore c { s.core c with irq := true }).setMode c .window

def idleClose (s : State n T W O L) (c : Fin n) : Outcome (State n T W O L) := do
  Outcome.await (s.mode c = .window)
  return (s.setCore c { s.core c with irq := false }).setMode c .idled

/-- The loop locks the run queue and looks at it again. -/
def idleLook (s : State n T W O L) (c : Fin n) : Outcome (State n T W O L) := do
  Outcome.await (s.mode c = .idled)
  let s ← s.spinlockAcquire c (.runqueue c)
  (s.setCore c ((s.core c).setHandover true)).goOn c (.unidle c)

/-- The thread that the cpu goes on with unlocks the run queue. -/
def resume (s : State n T W O L) (c : Fin n) : Outcome (State n T W O L) := do
  Outcome.await (s.mode c = .resuming)
  let s ← s.spinlockRelease c (.runqueue c)
  return (s.setCore c ((s.core c).setHandover false)).setMode c .kernel

/-- The `spl0` of `thread_startup`. -/
def threadStartup (s : State n T W O L) (c : Fin n) : Outcome (State n T W O L) := do
  Outcome.await (s.mode c = .kernel)
  let .startup :: frames := (s.core c).thread.frames | .blocked
  let (_, s) ← s.splx c .none
  return s.setCore c ((s.core c).setFrames frames)

end State

/-! ### Other sections of the scheduler -/

/-- What the current thread of a cpu does in the scheduler without a switch. -/
inductive Section (T W O : Type) where
  | fork (o : O) (newthread : T)
  | forked (o : O)
  | exorcise
  | wakeone (o : O) (wc : W)
  | wakeall (o : O) (wc : W)
  | woken (o : O)
  | considerMigration
  | migrate

namespace Section

def action (c : Fin n) : Section T W O → Scheduler.Action n T W O
  | .fork o newthread => .fork o c newthread
  | .forked o => .forked o
  | .exorcise => .exorcise c
  | .wakeone o wc => .wakeone o wc
  | .wakeall o wc => .wakeall o wc
  | .woken o => .woken o
  | .considerMigration => .considerMigration c
  | .migrate => .migrate c

/-- The spinlock that the section is under. -/
def lock (L : Type) (s : Scheduler.State n T W O) (c : Fin n) : Section T W O → Option (Spinlock n W L)
  | .fork _ _ | .exorcise | .considerMigration => none
  | .forked o => (s.newthread o).map fun t => .runqueue (s.tCpu t)
  | .wakeone _ wc | .wakeall _ wc => some (.wchan wc)
  | .woken o => (s.list o).head?.map fun t => .runqueue (s.tCpu t)
  | .migrate =>
    match s.phase c with
    | .counting i _ _ => if inside : i < n then some (.runqueue ⟨i, inside⟩) else none
    | .sending i _ toSend _ =>
      if inside : i < n ∧ 0 < toSend then
        if i = c then none else some (.runqueue ⟨i, Scheduler.State.cpu_inside inside⟩)
      else some (.runqueue c)
    | _ => some (.runqueue c)

end Section

/-- The thread that `thread_fork` makes: the count of its level, and one for the run queue lock that
it will release. -/
def newThread : Thread K where
  tCurspl := .high
  tIplhighCount := 1 + 1
  tInInterrupt := false
  frames := [.startup]
  held := ∅
  handover := true

namespace State

/-- A new thread gets its fields. -/
def setNew (s : State n T W O L) : Section T W O → State n T W O L
  | .fork _ newthread => { s with thread := Function.update s.thread newthread newThread }
  | _ => s

/-- A section; what it takes and gives back inside its lock is left out. -/
def runSection (s : State n T W O L) (c : Fin n) (a : Section T W O) : Outcome (State n T W O L) := do
  Outcome.await (s.mode c = .kernel)
  match a.lock L s.sched c with
  | none => do
    let sched ← s.sched.step (a.action c)
    return { s with sched := sched }.setNew a
  | some k => do
    let s ← s.spinlockAcquire c k
    let sched ← s.sched.step (a.action c)
    { s with sched := sched }.spinlockRelease c k

end State

inductive Action (n : Nat) (T W O L : Type) where
  | splSave (c : Fin n) (spl : Ipl)
  | splRestore (c : Fin n)
  | acquire (c : Fin n) (k : Spinlock n W L)
  | release (c : Fin n) (k : Spinlock n W L)
  | interrupt (c : Fin n)
  | interruptDone (c : Fin n)
  | trap (c : Fin n) (isSyscall : Bool)
  | trapDone (c : Fin n)
  | mipsUsermode (c : Fin n)
  | threadYield (c : Fin n)
  | wchanSleep (c : Fin n) (wc : W)
  | threadExit (c : Fin n)
  | idleUnlock (c : Fin n)
  | idleOpen (c : Fin n)
  | idleClose (c : Fin n)
  | idleLook (c : Fin n)
  | resume (c : Fin n)
  | threadStartup (c : Fin n)
  | runSection (c : Fin n) (a : Section T W O)

def State.step (s : State n T W O L) : Action n T W O L → Outcome (State n T W O L)
  | .splSave c spl => s.splSave c spl
  | .splRestore c => s.splRestore c
  | .acquire c k => s.acquire c k
  | .release c k => s.release c k
  | .interrupt c => s.interrupt c
  | .interruptDone c => s.interruptDone c
  | .trap c isSyscall => s.trap c isSyscall
  | .trapDone c => s.trapDone c
  | .mipsUsermode c => s.mipsUsermode c
  | .threadYield c => s.threadYield c
  | .wchanSleep c wc => s.wchanSleep c wc
  | .threadExit c => s.threadExit c
  | .idleUnlock c => s.idleUnlock c
  | .idleOpen c => s.idleOpen c
  | .idleClose c => s.idleClose c
  | .idleLook c => s.idleLook c
  | .resume c => s.resume c
  | .threadStartup c => s.threadStartup c
  | .runSection c a => s.runSection c a

/-- What `thread_create` makes of the thread that boots a cpu. -/
def bootThread : Thread K where
  tCurspl := .high
  tIplhighCount := 1
  tInInterrupt := false
  frames := []
  held := ∅
  handover := false

/-- Every cpu boots in its own thread with interrupts off. -/
def machine : Machine (State n T W O L) (Action n T W O L) where
  initial s := Scheduler.machine.initial s.sched ∧ (∀ t, s.thread t = bootThread) ∧
    (∀ k, s.splkHolder k = none) ∧ (∀ c, s.irq c = false) ∧ ∀ c, s.mode c = .kernel
  step := State.step

end Os161.Interrupts
