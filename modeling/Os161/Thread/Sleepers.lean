import Os161.Thread.OneCpu

/-!
# The callers of `wchan_sleep`

`synch.c` and `clocksleep`, statement by statement, with any other code around them and interrupts in
between. A thread has the functions that it is in on a stack, and an interrupt handler goes on top of
them. A section under a spinlock that calls none of `wchan_lock` and `wchan_sleep` is one step.
-/

set_option linter.unusedSectionVars false

namespace Os161.Sleepers

open Interrupts (Spinlock Section)

/-- The wait channels. -/
inductive Chan (S K V : Type) where
  | sem (sem : S)
  | lock (lock : K)
  | cv (cv : V)
  | lbolt
  deriving DecidableEq

/-- `sem_lock`, `lk_lock`, and the spinlocks of other code. -/
inductive Splk (S K X : Type) where
  | sem (sem : S)
  | lock (lock : K)
  | other (x : X)
  deriving DecidableEq

/-- Where a thread is in the loop of `P` or of `lock_acquire`. -/
inductive Pc where
  | enter
  /-- At the condition of the loop, with the spinlock. -/
  | test
  /-- The channel is locked, and the spinlock is released next. -/
  | chan
  | sleep
  /-- In `wchan_sleep`, behind the switch. -/
  | asleep
  /-- Back from `wchan_sleep`. -/
  | back
  deriving DecidableEq

inductive CvPc where
  | enter
  /-- The channel is locked, and `lock_release` is next. -/
  | release
  | sleep
  | asleep
  deriving DecidableEq

inductive Call (S K V : Type) where
  | handler
  | p (sem : S) (pc : Pc)
  | lockAcquire (lock : K) (pc : Pc)
  | cvWait (cv : V) (lock : K) (pc : CvPc)
  | clocksleep (numSecs : Int) (asleep : Bool)
  deriving DecidableEq

variable {n : Nat} {T S K V X O : Type} [DecidableEq T] [DecidableEq S] [DecidableEq K]
  [DecidableEq V] [DecidableEq X] [DecidableEq O]

/-- The cpus with these channels and spinlocks. -/
abbrev Cpus (n : Nat) (T S K V X O : Type) := Interrupts.State n T (Chan S K V) O (Splk S K X)

structure State (n : Nat) (T S K V X O : Type) where
  cpus : Cpus n T S K V X O
  semCount : S → UInt32
  lkHolder : K → Option T
  calls : T → List (Call S K V)

/-- `wchan_wakeone`, with the call of `thread_make_runnable`. -/
def wchanWakeone (s : Cpus n T S K V X O) (c : Fin n) (o : O) (wc : Chan S K V) :
    Outcome (Cpus n T S K V X O) := do
  let s ← s.runSection c (.wakeone o wc)
  if s.sched.list o = [] then return s else s.runSection c (.woken o)

/-- So many rounds of a loop over a list of threads. -/
def rounds (c : Fin n) (a : Section T (Chan S K V) O) :
    Nat → Cpus n T S K V X O → Outcome (Cpus n T S K V X O)
  | 0, s => return s
  | count + 1, s => do
    let s ← s.runSection c a
    rounds c a count s

def wchanWakeall (s : Cpus n T S K V X O) (c : Fin n) (o : O) (wc : Chan S K V) :
    Outcome (Cpus n T S K V X O) := do
  let s ← s.runSection c (.wakeall o wc)
  rounds c (.woken o) (s.sched.list o).length s

/-- Round by round until there are no zombies. -/
def exorcise (s : Cpus n T S K V X O) (c : Fin n) : Outcome (Cpus n T S K V X O) :=
  rounds c .exorcise ((s.sched.cZombies c).length + 1) s

namespace State

def cur (s : State n T S K V X O) (c : Fin n) : T := s.cpus.sched.cCurthread c

def setCalls (s : State n T S K V X O) (x : T) (calls : List (Call S K V)) : State n T S K V X O :=
  { s with calls := Function.update s.calls x calls }

/-- The thread goes on at another place in its function. -/
def goTo (s : State n T S K V X O) (x : T) (call : Call S K V) : State n T S K V X O :=
  s.setCalls x (call :: (s.calls x).tail)

def push (s : State n T S K V X O) (x : T) (call : Call S K V) : State n T S K V X O :=
  s.setCalls x (call :: s.calls x)

/-- The function returns. -/
def pop (s : State n T S K V X O) (x : T) : State n T S K V X O := s.setCalls x (s.calls x).tail

def lockDoIHold (s : State n T S K V X O) (c : Fin n) (lock : K) :
    Outcome (Bool × State n T S K V X O) := do
  let cpus ← s.cpus.acquire c (.other (.lock lock))
  let ret := decide (s.lkHolder lock = some (s.cur c))
  let cpus ← cpus.release c (.other (.lock lock))
  return (ret, { s with cpus := cpus })

/-- `V`; `o` stands for the thread in the list of threads to wake. -/
def v (s : State n T S K V X O) (c : Fin n) (o : O) (sem : S) : Outcome (State n T S K V X O) := do
  let cpus ← s.cpus.acquire c (.other (.sem sem))
  let count := s.semCount sem + 1
  Outcome.kassert (0 < count)
  let cpus ← wchanWakeone cpus c o (.sem sem)
  let cpus ← cpus.release c (.other (.sem sem))
  return { s with cpus := cpus, semCount := Function.update s.semCount sem count }

def lockRelease (s : State n T S K V X O) (c : Fin n) (o : O) (lock : K) :
    Outcome (State n T S K V X O) := do
  let (held, s) ← s.lockDoIHold c lock
  Outcome.kassert (held = true)
  let cpus ← s.cpus.acquire c (.other (.lock lock))
  let cpus ← wchanWakeone cpus c o (.lock lock)
  let cpus ← cpus.release c (.other (.lock lock))
  return { s with cpus := cpus, lkHolder := Function.update s.lkHolder lock none }

def cvSignal (s : State n T S K V X O) (c : Fin n) (o : O) (cv : V) (lock : K) :
    Outcome (State n T S K V X O) := do
  let (held, s) ← s.lockDoIHold c lock
  Outcome.kassert (held = true)
  return { s with cpus := ← wchanWakeone s.cpus c o (.cv cv) }

def cvBroadcast (s : State n T S K V X O) (c : Fin n) (o : O) (cv : V) (lock : K) :
    Outcome (State n T S K V X O) := do
  let (held, s) ← s.lockDoIHold c lock
  Outcome.kassert (held = true)
  return { s with cpus := ← wchanWakeall s.cpus c o (.cv cv) }

/-- The thread that sleeps next in `wchan_sleep` goes on behind the switch. -/
def sleepOn (s : State n T S K V X O) (c : Fin n) (wc : Chan S K V) (next : Call S K V) :
    Outcome (State n T S K V X O) := do
  let cpus ← s.cpus.wchanSleep c wc
  return { s with cpus := cpus }.goTo (s.cur c) next

/-- The end of `thread_switch` behind `resume`. -/
def wakeUp (s : State n T S K V X O) (c : Fin n) (next : Call S K V) :
    Outcome (State n T S K V X O) := do
  let cpus ← exorcise s.cpus c
  let cpus ← cpus.splRestore c
  return { s with cpus := cpus }.goTo (s.cur c) next

/-- What `P` and `lock_acquire` do for a spinlock and a channel: they wait while `busy`, and `take`. -/
def waitLoop (s : State n T S K V X O) (c : Fin n) (lk : Splk S K X) (wc : Chan S K V) (busy : Bool)
    (take : Outcome (State n T S K V X O)) (place : Pc → Call S K V) :
    Pc → Outcome (State n T S K V X O)
  | .enter | .back => do
    let cpus ← s.cpus.acquire c (.other lk)
    return { s with cpus := cpus }.goTo (s.cur c) (place .test)
  | .test =>
    if busy then do
      let cpus ← s.cpus.acquire c (.wchan wc)
      return { s with cpus := cpus }.goTo (s.cur c) (place .chan)
    else do
      let s ← take
      let cpus ← s.cpus.release c (.other lk)
      return { s with cpus := cpus }.pop (s.cur c)
  | .chan => do
    let cpus ← s.cpus.release c (.other lk)
    return { s with cpus := cpus }.goTo (s.cur c) (place .sleep)
  | .sleep => s.sleepOn c wc (place .asleep)
  | .asleep => s.wakeUp c (place .back)

def inInterrupt (s : State n T S K V X O) (c : Fin n) : Bool := (s.cpus.core c).thread.tInInterrupt

def p (s : State n T S K V X O) (c : Fin n) (sem : S) (pc : Pc) : Outcome (State n T S K V X O) := do
  Outcome.kassert (pc = .enter → s.inInterrupt c = false)
  s.waitLoop c (.sem sem) (.sem sem) (s.semCount sem = 0)
    (do
      Outcome.kassert (0 < s.semCount sem)
      return { s with semCount := Function.update s.semCount sem (s.semCount sem - 1) })
    (.p sem) pc

def lockAcquire (s : State n T S K V X O) (c : Fin n) (lock : K) (pc : Pc) :
    Outcome (State n T S K V X O) := do
  let s ←
    if pc = .enter then do
      let (held, s) ← s.lockDoIHold c lock
      Outcome.kassert (held = false)
      Outcome.kassert (s.inInterrupt c = false)
      pure s
    else pure s
  s.waitLoop c (.lock lock) (.lock lock) (s.lkHolder lock ≠ none)
    (return { s with lkHolder := Function.update s.lkHolder lock (some (s.cur c)) })
    (.lockAcquire lock) pc

def cvWait (s : State n T S K V X O) (c : Fin n) (o : O) (cv : V) (lock : K) :
    CvPc → Outcome (State n T S K V X O)
  | .enter => do
    let (held, s) ← s.lockDoIHold c lock
    Outcome.kassert (held = true)
    let cpus ← s.cpus.acquire c (.wchan (.cv cv))
    return { s with cpus := cpus }.goTo (s.cur c) (.cvWait cv lock .release)
  | .release => do
    let s ← s.lockRelease c o lock
    return s.goTo (s.cur c) (.cvWait cv lock .sleep)
  | .sleep => s.sleepOn c (.cv cv) (.cvWait cv lock .asleep)
  | .asleep => s.wakeUp c (.lockAcquire lock .enter)

/-- The lines that would lock and unlock are commented out. -/
def clocksleep (s : State n T S K V X O) (c : Fin n) (numSecs : Int) :
    Bool → Outcome (State n T S K V X O)
  | false =>
    if 0 < numSecs then s.sleepOn c .lbolt (.clocksleep numSecs true) else return s.pop (s.cur c)
  | true => s.wakeUp c (.clocksleep (numSecs - 1) false)

/-- The next statement of the function that the thread is in. -/
def advance (s : State n T S K V X O) (c : Fin n) (o : O) : Outcome (State n T S K V X O) :=
  match s.calls (s.cur c) with
  | .p sem pc :: _ => s.p c sem pc
  | .lockAcquire lock pc :: _ => s.lockAcquire c lock pc
  | .cvWait cv lock pc :: _ => s.cvWait c o cv lock pc
  | .clocksleep numSecs asleep :: _ => s.clocksleep c numSecs asleep
  | _ => .blocked

/-- The thread is in none of these functions, or in an interrupt handler over them. -/
def outside (s : State n T S K V X O) (c : Fin n) : Bool :=
  match s.calls (s.cur c) with
  | [] | .handler :: _ => true
  | _ => false

/-- What code that is in none of the functions starts with. -/
def await (s : State n T S K V X O) (c : Fin n) : Outcome PUnit :=
  Outcome.await (s.cpus.mode c = .kernel ∧ s.outside c = true)

def enter (s : State n T S K V X O) (c : Fin n) (call : Call S K V) :
    Outcome (State n T S K V X O) := do
  s.await c
  return s.push (s.cur c) call

def interrupt (s : State n T S K V X O) (c : Fin n) : Outcome (State n T S K V X O) := do
  let cpus ← s.cpus.interrupt c
  return { s with cpus := cpus }.push (s.cur c) .handler

def interruptDone (s : State n T S K V X O) (c : Fin n) : Outcome (State n T S K V X O) := do
  let .handler :: calls := s.calls (s.cur c) | .blocked
  let cpus ← s.cpus.interruptDone c
  return { s with cpus := cpus }.setCalls (s.cur c) calls

end State

/-- A step of another function. Such functions keep to their own spinlocks. -/
def plain : Interrupts.Action n T (Chan S K V) O (Splk S K X) → Bool
  | .wchanSleep .. | .interrupt _ | .interruptDone _ => false
  | .acquire _ (.other (.other _)) | .release _ (.other (.other _)) => true
  | .acquire .. | .release .. => false
  | _ => true

/-- A step of `thread_switch` behind the place where the thread is put. -/
def onward : Interrupts.Action n T (Chan S K V) O (Splk S K X) → Bool
  | .idleUnlock _ | .idleOpen _ | .idleClose _ | .idleLook _ | .resume _ => true
  | _ => false

/-- The cpu that takes the step. -/
def cpu : Interrupts.Action n T (Chan S K V) O (Splk S K X) → Fin n
  | .splSave c _ | .splRestore c | .acquire c _ | .release c _ | .interrupt c | .interruptDone c => c
  | .trap c _ | .trapDone c | .mipsUsermode c | .threadYield c | .wchanSleep c _ | .threadExit c => c
  | .idleUnlock c | .idleOpen c | .idleClose c | .idleLook c | .resume c | .threadStartup c => c
  | .runSection c _ => c

/-- A new thread is in no function. -/
def newCalls (calls : T → List (Call S K V)) :
    Interrupts.Action n T (Chan S K V) O (Splk S K X) → T → List (Call S K V)
  | .runSection _ (.fork _ newthread) => Function.update calls newthread []
  | _ => calls

def State.code (s : State n T S K V X O) (a : Interrupts.Action n T (Chan S K V) O (Splk S K X)) :
    Outcome (State n T S K V X O) := do
  Outcome.await (plain a = true ∧ (onward a = true ∨ s.outside (cpu a) = true))
  let cpus ← s.cpus.step a
  return { s with cpus := cpus, calls := newCalls s.calls a }

inductive Action (n : Nat) (T S K V X O : Type) where
  | code (a : Interrupts.Action n T (Chan S K V) O (Splk S K X))
  | interrupt (c : Fin n)
  | interruptDone (c : Fin n)
  | v (c : Fin n) (o : O) (sem : S)
  | lockRelease (c : Fin n) (o : O) (lock : K)
  | cvSignal (c : Fin n) (o : O) (cv : V) (lock : K)
  | cvBroadcast (c : Fin n) (o : O) (cv : V) (lock : K)
  | p (c : Fin n) (sem : S)
  | lockAcquire (c : Fin n) (lock : K)
  | cvWait (c : Fin n) (cv : V) (lock : K)
  | clocksleep (c : Fin n) (numSecs : Int)
  | advance (c : Fin n) (o : O)

def State.step (s : State n T S K V X O) : Action n T S K V X O → Outcome (State n T S K V X O)
  | .code a => s.code a
  | .interrupt c => s.interrupt c
  | .interruptDone c => s.interruptDone c
  | .v c o sem => do
    s.await c
    s.v c o sem
  | .lockRelease c o lock => do
    s.await c
    s.lockRelease c o lock
  | .cvSignal c o cv lock => do
    s.await c
    s.cvSignal c o cv lock
  | .cvBroadcast c o cv lock => do
    s.await c
    s.cvBroadcast c o cv lock
  | .p c sem => s.enter c (.p sem .enter)
  | .lockAcquire c lock => s.enter c (.lockAcquire lock .enter)
  | .cvWait c cv lock => s.enter c (.cvWait cv lock .enter)
  | .clocksleep c numSecs => s.enter c (.clocksleep numSecs false)
  | .advance c o => s.advance c o

def machine : Machine (State n T S K V X O) (Action n T S K V X O) where
  initial s := Interrupts.machine.initial s.cpus ∧ (∀ lock, s.lkHolder lock = none) ∧ ∀ x, s.calls x = []
  step := State.step

namespace Call

/-- The channel that the thread has locked here. -/
def chan : Call S K V → Option (Chan S K V)
  | .p sem .chan | .p sem .sleep => some (.sem sem)
  | .lockAcquire lock .chan | .lockAcquire lock .sleep => some (.lock lock)
  | .cvWait cv _ .release | .cvWait cv _ .sleep => some (.cv cv)
  | _ => none

/-- The channel that `wchan_sleep` is called for here. -/
def sleepsOn : Call S K V → Option (Chan S K V)
  | .p sem .sleep => some (.sem sem)
  | .lockAcquire lock .sleep => some (.lock lock)
  | .cvWait cv _ .sleep => some (.cv cv)
  | .clocksleep numSecs false => if 0 < numSecs then some .lbolt else none
  | _ => none

/-- The thread is in `wchan_sleep`, behind the switch. -/
def isAsleep : Call S K V → Bool
  | .p _ .asleep | .lockAcquire _ .asleep | .cvWait _ _ .asleep | .clocksleep _ true => true
  | _ => false

/-- `clocksleep` with seconds to sleep. -/
def isTimed : Call S K V → Bool
  | .clocksleep numSecs _ => decide (0 < numSecs)
  | _ => false

end Call

/-- The channel that a thread with these calls has locked. -/
def lockedChan (calls : List (Call S K V)) : Option (Chan S K V) := calls.head?.bind Call.chan

namespace State

variable (s : State n T S K V X O)

/-- The thread of the cpu calls `wchan_sleep` next, for this channel. -/
def SleepsOn (c : Fin n) (wc : Chan S K V) : Prop :=
  s.cpus.mode c = .kernel ∧ (s.calls (s.cur c)).head?.bind Call.sleepsOn = some wc

/-- The thread of the cpu goes on behind its switch in `wchan_sleep`. -/
def IsAsleep (c : Fin n) : Prop :=
  s.cpus.mode c = .kernel ∧ (s.calls (s.cur c)).head?.any Call.isAsleep = true

instance (c : Fin n) (wc : Chan S K V) : Decidable (s.SleepsOn c wc) :=
  inferInstanceAs (Decidable (_ ∧ _))

instance (c : Fin n) : Decidable (s.IsAsleep c) := inferInstanceAs (Decidable (_ ∧ _))

/-- What the callers of `wchan_sleep` and `thread_switch` promise each other. -/
structure Follows : Prop where
  /-- The channel is locked by the thread that is to sleep on it. -/
  locked : ∀ c wc, s.SleepsOn c wc →
    s.cpus.splkHolder (.wchan wc) = some c ∧ .wchan wc ∈ (s.cpus.thread (s.cur c)).held
  /-- If `thread_switch` goes through, then with the thread on the channel and the lock released. -/
  switched : ∀ c wc o, s.SleepsOn c wc → (s.advance c o).Ensures fun t =>
    t.cpus.sched.wcThreads wc = s.cpus.sched.wcThreads wc ++ [s.cur c] ∧
      t.cpus.splkHolder (.wchan wc) = none ∧ ∀ k, .wchan k ∉ (t.cpus.thread (s.cur c)).held
  returned : ∀ c o, s.IsAsleep c → (s.advance c o).Ensures fun t =>
    ∀ wc, .wchan wc ∉ (t.cpus.thread (s.cur c)).held

end State

end Os161.Sleepers
