import Mathlib.Data.Fintype.Basic
import Mathlib.Logic.Function.Basic
import Os161.Base.Machine

/-!
# Scheduling

The scheduler of `thread.c`. A section under the lock of a run queue or of a wait channel is one
step, and what a function keeps in its own list between two sections is part of the state. The
migration of threads runs in the timer interrupt, so its cpu does nothing else until it is over.
-/

namespace Os161.Scheduler

inductive ThreadState where
  | run
  | ready
  | sleep
  | zombie
  deriving DecidableEq

/-- What a cpu is at. In `run` a thread runs or the cpu idles; the other phases are the end of
`thread_switch` and the sections of `thread_consider_migration`. -/
inductive Phase (T : Type) where
  | run
  | resuming
  | counting (i totalCount myCount : Nat)
  | grabbing (oneShare toSend : Nat)
  | sending (i oneShare toSend : Nat) (victims : List T)

/-- The private list of a migration. -/
def Phase.victims {T : Type} : Phase T → List T
  | .sending _ _ _ victims => victims
  | _ => []

/-- `n` cpus, threads `T`, wait channels `W`. `O` names the calls of `thread_fork`, `wchan_wakeone`
and `wchan_wakeall`: what such a call has in hand it keeps also when its thread is preempted. -/
structure State (n : Nat) (T W O : Type) where
  cCurthread : Fin n → T
  cIsidle : Fin n → Bool
  cRunqueue : Fin n → List T
  cZombies : Fin n → List T
  phase : Fin n → Phase T
  wcThreads : W → List T
  tCpu : T → Fin n
  tState : T → ThreadState
  /-- The thread is allocated. -/
  live : T → Bool
  /-- The new thread of a `thread_fork`. -/
  newthread : O → Option T
  /-- The threads that a wakeup has taken off its channel. -/
  list : O → List T

/-- The state that `thread_switch` is called with. -/
inductive Newstate (W : Type) where
  | ready
  | sleep (wc : W)
  | zombie

inductive Action (n : Nat) (T W O : Type) where
  | fork (o : O) (c : Fin n) (newthread : T)
  /-- The call of `thread_make_runnable` in `thread_fork`. -/
  | forked (o : O)
  | yield (c : Fin n)
  | sleep (c : Fin n) (wc : W)
  | exit (c : Fin n)
  /-- The loop of `thread_switch` looks at the run queue again. -/
  | unidle (c : Fin n)
  | exorcise (c : Fin n)
  | wakeone (o : O) (wc : W)
  | wakeall (o : O) (wc : W)
  /-- A call of `thread_make_runnable` in a wakeup. -/
  | woken (o : O)
  | considerMigration (c : Fin n)
  /-- The next section of `thread_consider_migration`. -/
  | migrate (c : Fin n)

variable {n : Nat} {T W O : Type} [DecidableEq T] [DecidableEq W] [DecidableEq O]

namespace State

def setPhase (s : State n T W O) (c : Fin n) (phase : Phase T) : State n T W O :=
  { s with phase := Function.update s.phase c phase }

def makeRunnable (s : State n T W O) (target : T) : State n T W O :=
  let targetcpu := s.tCpu target
  { s with cRunqueue := Function.update s.cRunqueue targetcpu (s.cRunqueue targetcpu ++ [target]) }

/-- The cpu is idle until there is a next thread, which goes on at the end of `thread_switch`. -/
def pick (s : State n T W O) (c : Fin n) : State n T W O :=
  match s.cRunqueue c with
  | [] => s
  | next :: rest =>
    { s with
      cRunqueue := Function.update s.cRunqueue c rest
      cIsidle := Function.update s.cIsidle c false
      cCurthread := Function.update s.cCurthread c next
      tState := Function.update s.tState next .run
      phase := Function.update s.phase c .resuming }

/-- What `thread_switch` notes once it has put the thread in the right place. -/
def leave (s : State n T W O) (c : Fin n) (newstate : ThreadState) : State n T W O :=
  { s with
    tState := Function.update s.tState (s.cCurthread c) newstate
    cIsidle := Function.update s.cIsidle c true }

def threadSwitch (s : State n T W O) (c : Fin n) (newstate : Newstate W) :
    Outcome (State n T W O) :=
  let cur := s.cCurthread c
  if s.cIsidle c then return s
  else
    match newstate with
    | .ready =>
      if s.cRunqueue c = [] then return s
      else do
        -- it has the lock of its own cpu, and needs that of the thread's
        Outcome.kassert (s.tCpu cur = c)
        return ((s.makeRunnable cur).leave c .ready).pick c
    | .sleep wc =>
      let s := { s with wcThreads := Function.update s.wcThreads wc (s.wcThreads wc ++ [cur]) }
      return (s.leave c .sleep).pick c
    | .zombie =>
      let s := { s with cZombies := Function.update s.cZombies c (s.cZombies c ++ [cur]) }
      return (s.leave c .zombie).pick c

/-- `thread_create`, and the fields that `thread_fork` fills in. -/
def fork (s : State n T W O) (o : O) (c : Fin n) (newthread : T) : Outcome (State n T W O) := do
  Outcome.await (s.newthread o = none ∧ s.list o = [] ∧ s.live newthread = false)
  return { s with
    live := Function.update s.live newthread true
    tCpu := Function.update s.tCpu newthread (s.tCpu (s.cCurthread c))
    tState := Function.update s.tState newthread .ready
    newthread := Function.update s.newthread o (some newthread) }

def forked (s : State n T W O) (o : O) : Outcome (State n T W O) :=
  match s.newthread o with
  | none => .blocked
  | some newthread =>
    return { s.makeRunnable newthread with newthread := Function.update s.newthread o none }

/-- `thread_destroy`. -/
def threadDestroy (s : State n T W O) (c : Fin n) (z : T) : Outcome (State n T W O) := do
  Outcome.kassert (z ≠ s.cCurthread c)
  Outcome.kassert (s.tState z ≠ .run)
  return { s with live := Function.update s.live z false }

/-- One round of the loop of `exorcise`. -/
def exorcise (s : State n T W O) (c : Fin n) : Outcome (State n T W O) :=
  match s.cZombies c with
  | [] => return s.setPhase c .run
  | z :: rest => do
    Outcome.kassert (z ≠ s.cCurthread c)
    Outcome.kassert (s.tState z = .zombie)
    let s := { s with cZombies := Function.update s.cZombies c rest }
    s.threadDestroy c z

def wchanWakeone (s : State n T W O) (o : O) (wc : W) : Outcome (State n T W O) := do
  Outcome.await (s.newthread o = none ∧ s.list o = [])
  match s.wcThreads wc with
  | [] => return s
  | target :: rest =>
    return { s with
      wcThreads := Function.update s.wcThreads wc rest
      list := Function.update s.list o [target] }

def wchanWakeall (s : State n T W O) (o : O) (wc : W) : Outcome (State n T W O) := do
  Outcome.await (s.newthread o = none ∧ s.list o = [])
  return { s with
    wcThreads := Function.update s.wcThreads wc []
    list := Function.update s.list o (s.wcThreads wc) }

def woken (s : State n T W O) (o : O) : Outcome (State n T W O) :=
  match s.list o with
  | [] => .blocked
  | target :: rest =>
    return { s.makeRunnable target with list := Function.update s.list o rest }

/-! ### thread_consider_migration -/

/-- `DIVROUNDUP`. -/
def divRoundUp (a b : Nat) : Nat := (a + (b - 1)) / b

/-- Counts the run queue of one cpu, and after the last compares. -/
def countQueue (s : State n T W O) (c : Fin n) (i totalCount myCount : Nat) : State n T W O :=
  if inside : i < n then
    let count := (s.cRunqueue ⟨i, inside⟩).length
    s.setPhase c (.counting (i + 1) (totalCount + count) (if i = c then count else myCount))
  else
    let oneShare := divRoundUp totalCount n
    if myCount < oneShare then s.setPhase c .run
    else s.setPhase c (.grabbing oneShare (myCount - oneShare))

/-- Takes threads from the tail of a run queue to the head of `victims`. -/
def remtails (queue victims : List T) : Nat → Outcome (List T × List T)
  | 0 => return (queue, victims)
  | toSend + 1 => do
    let t ← Outcome.deref queue.getLast?
    remtails queue.dropLast (t :: victims) toSend

def grab (s : State n T W O) (c : Fin n) (oneShare toSend : Nat) : Outcome (State n T W O) := do
  let (queue, victims) ← remtails (s.cRunqueue c) [] toSend
  let s := { s with cRunqueue := Function.update s.cRunqueue c queue }
  return s.setPhase c (.sending 0 oneShare toSend victims)

/-- The threads for one cpu. The current thread stays, at the end of `victims`. -/
def sendTo (s : State n T W O) (c target : Fin n) (oneShare : Nat) (victims : List T) :
    Nat → Outcome (State n T W O × List T × Nat)
  | 0 => return (s, victims, 0)
  | toSend + 1 =>
    if (s.cRunqueue target).length < oneShare then
      match victims with
      | [] => .fault
      | t :: rest =>
        if t = s.cCurthread c then sendTo s c target oneShare (rest ++ [t]) toSend
        else
          let s := { s with
            tCpu := Function.update s.tCpu t target
            cRunqueue := Function.update s.cRunqueue target (s.cRunqueue target ++ [t]) }
          sendTo s c target oneShare rest toSend
    else
      return (s, victims, toSend + 1)

theorem cpu_inside {i toSend : Nat} (inside : i < n ∧ 0 < toSend) : i < n := inside.1

/-- Sends to the next cpu, and at last puts back what is left. -/
def send (s : State n T W O) (c : Fin n) (i oneShare toSend : Nat) (victims : List T) :
    Outcome (State n T W O) :=
  if inside : i < n ∧ 0 < toSend then
    if i = c then return s.setPhase c (.sending (i + 1) oneShare toSend victims)
    else do
      let (s, victims, toSend) ← s.sendTo c ⟨i, cpu_inside inside⟩ oneShare victims toSend
      return s.setPhase c (.sending (i + 1) oneShare toSend victims)
  else
    let s := { s with cRunqueue := Function.update s.cRunqueue c (s.cRunqueue c ++ victims) }
    return s.setPhase c .run

def step (s : State n T W O) : Action n T W O → Outcome (State n T W O)
  | .fork o c newthread => s.fork o c newthread
  | .forked o => s.forked o
  | .yield c => do
    let .run := s.phase c | .blocked
    s.threadSwitch c .ready
  | .sleep c wc => do
    let .run := s.phase c | .blocked
    s.threadSwitch c (.sleep wc)
  | .exit c => do
    let .run := s.phase c | .blocked
    s.threadSwitch c .zombie
  | .unidle c => do
    let .run := s.phase c | .blocked
    Outcome.await (s.cIsidle c = true)
    return s.pick c
  | .exorcise c => do
    let .resuming := s.phase c | .blocked
    s.exorcise c
  | .wakeone o wc => s.wchanWakeone o wc
  | .wakeall o wc => s.wchanWakeall o wc
  | .woken o => s.woken o
  | .considerMigration c => do
    let .run := s.phase c | .blocked
    return s.setPhase c (.counting 0 0 0)
  | .migrate c =>
    match s.phase c with
    | .counting i totalCount myCount => return s.countQueue c i totalCount myCount
    | .grabbing oneShare toSend => s.grab c oneShare toSend
    | .sending i oneShare toSend victims => s.send c i oneShare toSend victims
    | _ => .blocked

end State

/-- After `thread_bootstrap` and `cpu_hatch` every cpu runs its own thread. -/
def machine : Machine (State n T W O) (Action n T W O) where
  initial s :=
    Function.Injective s.cCurthread ∧ (∀ c, s.tCpu (s.cCurthread c) = c) ∧
      (∀ c, s.cIsidle c = false ∧ s.cRunqueue c = [] ∧ s.cZombies c = [] ∧ s.phase c = .run) ∧
      (∀ wc, s.wcThreads wc = []) ∧ (∀ o, s.newthread o = none ∧ s.list o = []) ∧
      ∀ t, s.live t = true ↔ ∃ c, s.cCurthread c = t
  step s a := s.step a

end Os161.Scheduler
