import Os161.Base.Sync
import Os161.Io.Uio
import Mathlib.Algebra.Ring.Int.Defs
import Mathlib.Logic.Function.Basic

/-!
# Semaphores of semfs

`semfs_read`, `semfs_write` and `semfs_truncate` on one semaphore, with `sems_lock` an atomic lock
and `sems_cv` a Mesa condition variable: `cv_signal` wakes any one sleeper, and a woken thread goes
on only after it has acquired the lock again.
-/

namespace Os161.Semfs

/-- What `semfs_wakeup` does. -/
inductive Wakeup where
  | nothing
  | signal
  | broadcast
  deriving DecidableEq

def semfsWakeup (semsCount newcount : UInt32) : Wakeup :=
  if 0 < semsCount ∨ newcount = 0 then .nothing
  else if newcount = 1 then .signal
  else .broadcast

/-- How one round of the loop in `semfs_read` ends. -/
inductive Round where
  | leave
  | wait
  | again
  deriving DecidableEq

variable {Space : Type}

/-- One round of the loop in `semfs_read`. -/
def semfsReadRound (semsCount : UInt32) (uio : Uio Space) : UInt32 × Uio Space × Round :=
  if 0 < uio.uioResid then
    let (semsCount, uio) :=
      if 0 < semsCount then
        let consume := if semsCount < uio.uioResid then semsCount else uio.uioResid
        (semsCount - consume,
          { uio with uioOffset := uio.uioOffset + consume.toNat, uioResid := uio.uioResid - consume })
      else (semsCount, uio)
    if uio.uioResid = 0 then (semsCount, uio, .leave)
    else if semsCount = 0 then (semsCount, uio, .wait)
    else (semsCount, uio, .again)
  else (semsCount, uio, .leave)

/-- The count that `semfs_write` sets, if any. -/
def writeCount (semsCount : UInt32) (uio : Uio Space) : Except Errno (Option UInt32) :=
  if 0 < uio.uioResid then
    let newcount := semsCount + uio.uioResid
    if newcount < semsCount then .error .efbig else .ok (some newcount)
  else .ok none

/-- The count that `semfs_truncate` sets. -/
def truncateCount (len : Int) : Except Errno UInt32 :=
  if len < 0 then .error .einval
  else if 2 ^ 32 - 1 < len then .error .efbig
  else .ok (UInt32.ofNat len.toNat)

/-- Where a thread is in a call on the semaphore. -/
inductive Phase (Space : Type) where
  | outside
  /-- `semfs_read` acquires the lock next. -/
  | read (uio : Uio Space)
  /-- The loop of `semfs_read`. -/
  | loop (uio : Uio Space)
  /-- `cv_wait` sleeps. -/
  | asleep (uio : Uio Space)
  /-- `cv_wait` acquires the lock again next. -/
  | woken (uio : Uio Space)
  /-- `cv_wait` has returned, and the loop goes on. -/
  | awake (uio : Uio Space)
  | write (uio : Uio Space)
  | add (uio : Uio Space)
  | truncate (newcount : UInt32)
  | set (newcount : UInt32)
  /-- The lock is released next. -/
  | leaving (result : Option Errno)

structure State (T Space : Type) where
  semsLock : AtomicLock T
  /-- The threads that sleep on `sems_cv`. -/
  semsCv : List T
  semsCount : UInt32
  phase : T → Phase Space

inductive Action (T Space : Type) where
  | semfsRead (t : T) (uio : Uio Space)
  | semfsWrite (t : T) (uio : Uio Space)
  | semfsTruncate (t : T) (len : Int)
  | lockAcquire (t : T)
  /-- The code under the lock. `picked` is the thread that `cv_signal` wakes. -/
  | run (t : T) (picked : T)
  | lockRelease (t : T)

variable {T : Type} [DecidableEq T]

namespace State

def goOn (s : State T Space) (t : T) (phase : Phase Space) : State T Space :=
  { s with phase := Function.update s.phase t phase }

/-- These threads wake up. -/
def wake (s : State T Space) (chosen : T → Bool) : State T Space where
  semsLock := s.semsLock
  semsCv := s.semsCv.filter fun t => !chosen t
  semsCount := s.semsCount
  phase t :=
    match s.phase t with
    | .asleep uio => if chosen t then .woken uio else .asleep uio
    | phase => phase

/-- `cv_signal`, `cv_broadcast` or neither. -/
def perform (s : State T Space) (picked : T) : Wakeup → Outcome (State T Space)
  | .nothing => return s
  | .signal => do
    Outcome.await (s.semsCv = [] ∨ picked ∈ s.semsCv)
    return s.wake fun t => t = picked
  | .broadcast => return s.wake fun _ => true

/-- `semfs_wakeup`, and then the assignment to the count. -/
def setCount (s : State T Space) (t picked : T) (newcount : UInt32) : Outcome (State T Space) := do
  let s ← s.perform picked (semfsWakeup s.semsCount newcount)
  return { s with semsCount := newcount }.goOn t (.leaving none)

/-- The loop of `semfs_read`; `cv_wait` releases the lock. -/
def readLoop (s : State T Space) (t : T) (uio : Uio Space) : Outcome (State T Space) :=
  let (semsCount, uio, round) := semfsReadRound s.semsCount uio
  let s := { s with semsCount := semsCount }
  match round with
  | .leave => return s.goOn t (.leaving none)
  | .again => return s.goOn t (.loop uio)
  | .wait => do
    let semsLock ← s.semsLock.release t
    return { s with semsLock := semsLock, semsCv := s.semsCv ++ [t] }.goOn t (.asleep uio)

def run (s : State T Space) (t picked : T) : Outcome (State T Space) :=
  match s.phase t with
  | .loop uio | .awake uio => s.readLoop t uio
  | .add uio =>
    match writeCount s.semsCount uio with
    | .error err => return s.goOn t (.leaving (some err))
    | .ok none => return s.goOn t (.leaving none)
    | .ok (some newcount) => s.setCount t picked newcount
  | .set newcount => s.setCount t picked newcount
  | _ => .blocked

/-- A thread that is in no call makes one. -/
def call (s : State T Space) (t : T) (phase : Phase Space) : Outcome (State T Space) :=
  match s.phase t with
  | .outside => return s.goOn t phase
  | _ => .blocked

def lockAcquire (s : State T Space) (t : T) : Outcome (State T Space) := do
  let semsLock ← s.semsLock.acquire t
  let s := { s with semsLock := semsLock }
  match s.phase t with
  | .read uio => return s.goOn t (.loop uio)
  | .woken uio => return s.goOn t (.awake uio)
  | .write uio => return s.goOn t (.add uio)
  | .truncate newcount => return s.goOn t (.set newcount)
  | _ => .blocked

def lockRelease (s : State T Space) (t : T) : Outcome (State T Space) :=
  match s.phase t with
  | .leaving _ => do
    let semsLock ← s.semsLock.release t
    return { s with semsLock := semsLock }.goOn t .outside
  | _ => .blocked

def step (s : State T Space) : Action T Space → Outcome (State T Space)
  | .semfsRead t uio => s.call t (.read uio)
  | .semfsWrite t uio => s.call t (.write uio)
  | .semfsTruncate t len =>
    match truncateCount len with
    | .error _ => return s
    | .ok newcount => s.call t (.truncate newcount)
  | .lockAcquire t => s.lockAcquire t
  | .run t picked => s.run t picked
  | .lockRelease t => s.lockRelease t

end State

/-- A semaphore with any count, and no thread in a call on it. -/
def machine : Machine (State T Space) (Action T Space) where
  initial s := s.semsLock = none ∧ s.semsCv = [] ∧ ∀ t, s.phase t = .outside
  step s a := s.step a

end Os161.Semfs
