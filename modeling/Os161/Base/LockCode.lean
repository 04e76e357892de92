import Mathlib.Logic.Function.Basic
import Os161.Base.Machine

/-!
# Code that takes locks

Threads that run code over shared data and locks. Code is a tree of atomic steps, so that a thread
can be anywhere in it.
-/

namespace Os161.Locks

/-- Code of one thread over shared data `S` and locks `L`; what comes from outside is a `C`. -/
inductive Code (S L C α : Type) where
  | pure (a : α)
  | look (next : S → Code S L C α)
  /-- A change of the data, which may wait or fail. -/
  | act (f : S → Outcome S) (next : Code S L C α)
  | choose (next : C → Code S L C α)
  | acquire (l : L) (next : Code S L C α)
  | release (l : L) (next : Code S L C α)
  /-- The lock is not used again. -/
  | destroy (l : L) (next : Code S L C α)
  | panic

variable {S T L C Call α β : Type}

namespace Code

def bind (c : Code S L C α) (f : α → Code S L C β) : Code S L C β :=
  match c with
  | .pure a => f a
  | .look next => .look fun s => (next s).bind f
  | .act g next => .act g (next.bind f)
  | .choose next => .choose fun c => (next c).bind f
  | .acquire l next => .acquire l (next.bind f)
  | .release l next => .release l (next.bind f)
  | .destroy l next => .destroy l (next.bind f)
  | .panic => .panic

instance : Monad (Code S L C) where
  pure := .pure
  bind := .bind

end Code

/-! The single steps, for code in `do` notation. -/

def look : Code S L C S := .look .pure
def act (f : S → Outcome S) : Code S L C Unit := .act f (.pure ())
def choose : Code S L C C := .choose .pure
def acquire (l : L) : Code S L C Unit := .acquire l (.pure ())
def release (l : L) : Code S L C Unit := .release l (.pure ())
def destroy (l : L) : Code S L C Unit := .destroy l (.pure ())

def kassert (p : Prop) [Decidable p] : Code S L C Unit := if p then .pure () else .panic

/-- Follows a pointer. -/
def deref : Option α → Code S L C α
  | some a => .pure a
  | none => .panic

/-! ### Systems of threads -/

inductive Status (S L C : Type) where
  | idle
  | running (code : Code S L C Unit)
  /-- Waits for a lock. -/
  | waiting (l : L) (next : Code S L C Unit)

structure State (S T L C : Type) where
  data : S
  /-- The holder of a lock, and how often it has it. -/
  locks : L → Option (T × Nat)
  status : T → Status S L C

inductive Action (T Call C : Type) where
  | call (t : T) (call : Call)
  | step (t : T) (choice : C)

/-- Calls that threads make one after the other, when they are ready for one. -/
structure System (S T L C Call : Type) where
  /-- The holder may acquire this lock again. -/
  recursive : L → Bool
  ready : S → T → Call → Bool
  code : T → Call → Code S L C Unit
  initial : S → Prop

namespace State

variable [DecidableEq T] [DecidableEq L]

def goOn (s : State S T L C) (t : T) (status : Status S L C) : State S T L C :=
  { s with status := Function.update s.status t status }

def setLock (s : State S T L C) (l : L) (o : Option (T × Nat)) : State S T L C :=
  { s with locks := Function.update s.locks l o }

def run (s : State S T L C) (recursive : L → Bool) (t : T) (choice : C) :
    Code S L C Unit → Outcome (State S T L C)
  | .pure _ => return s.goOn t .idle
  | .look next => return s.goOn t (.running (next s.data))
  | .act f next => do
    let data ← f s.data
    return { s with data := data }.goOn t (.running next)
  | .choose next => return s.goOn t (.running (next choice))
  | .acquire l next =>
    match s.locks l with
    | none => return (s.setLock l (some (t, 1))).goOn t (.running next)
    | some (u, n) =>
      if u = t then
        if recursive l then return (s.setLock l (some (t, n + 1))).goOn t (.running next) else .panic
      else return s.goOn t (.waiting l next)
  | .release l next =>
    match s.locks l with
    | none => .panic
    | some (u, n) =>
      if u = t then
        return (s.setLock l (if n = 1 then none else some (t, n - 1))).goOn t (.running next)
      else .panic
  | .destroy l next =>
    match s.locks l with
    | none => return s.goOn t (.running next)
    | some _ => .panic
  | .panic => .panic

def step (s : State S T L C) (M : System S T L C Call) : Action T Call C → Outcome (State S T L C)
  | .call t call =>
    match s.status t with
    | .idle => do
      Outcome.await (M.ready s.data t call = true)
      return s.goOn t (.running (M.code t call))
    | _ => .blocked
  | .step t choice =>
    match s.status t with
    | .idle => .blocked
    | .running code => s.run M.recursive t choice code
    | .waiting l next =>
      match s.locks l with
      | none => return (s.setLock l (some (t, 1))).goOn t (.running next)
      | some _ => .blocked

/-- How often a thread has a lock. -/
def times (s : State S T L C) (t : T) (l : L) : Nat :=
  match s.locks l with
  | some (u, n) => if u = t then n else 0
  | none => 0

/-- The thread has the lock. -/
def Holds (s : State S T L C) (t : T) (l : L) : Prop := s.times t l ≠ 0

/-- Whoever has the first lock waits for the second. -/
def Waits (s : State S T L C) (l l' : L) : Prop :=
  ∃ t next, s.Holds t l ∧ s.status t = .waiting l' next

end State

variable [DecidableEq T] [DecidableEq L]

/-- At the start no lock is held and no thread is in a call. -/
def System.machine (M : System S T L C Call) : Machine (State S T L C) (Action T Call C) where
  initial s := M.initial s.data ∧ (∀ l, s.locks l = none) ∧ ∀ t, s.status t = .idle
  step s a := s.step M a

end Os161.Locks
