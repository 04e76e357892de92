import Os161.Base.Machine

/-!
# Atomic semaphores and locks

What a counting semaphore and a sleep lock are for, with each operation one atomic step. Code that
is given a correct semaphore and lock is verified over these; an implementation is correct when its
machine refines them.
-/

namespace Os161

universe u

/-! A counting semaphore is its count. -/
namespace AtomicSem

/-- Waits until the count is positive and takes one. -/
def acquire (n : Nat) : Outcome Nat := do
  Outcome.await (0 < n)
  return n - 1

/-- Puts one back. -/
def release (n : Nat) : Nat := n + 1

inductive Action where
  | acquire
  | release

def machine (initial : Nat) : Machine Nat Action where
  initial n := n = initial
  step n
    | .acquire => acquire n
    | .release => .done (release n)

theorem acquire_done {n m : Nat} : acquire n = .done m ↔ n = m + 1 := by
  simp only [acquire, Outcome.bind_done, Outcome.await_done, Outcome.pure_done]
  constructor
  · rintro ⟨_, positive, rfl⟩
    omega
  · rintro rfl
    exact ⟨⟨⟩, by omega, by omega⟩

@[simp] theorem acquire_blocked {n : Nat} : acquire n = .blocked ↔ n = 0 := by
  simp [acquire]

@[simp] theorem acquire_meets {n : Nat} {P : Nat → Prop} :
    (acquire n).Meets P = (∀ m, n = m + 1 → P m) := by
  simp only [acquire, Outcome.meets_bind, Outcome.meets_await, Outcome.meets_pure]
  apply propext
  constructor
  · rintro h m rfl
    exact h (Nat.succ_pos m)
  · intro h positive
    exact h (n - 1) (by omega)

@[simp] theorem acquire_ensures {n : Nat} {P : Nat → Prop} :
    (acquire n).Ensures P = (∀ m, n = m + 1 → P m) := by
  apply propext
  constructor
  · intro h m value
    exact h m (acquire_done.mpr value)
  · intro h m value
    exact h m (acquire_done.mp value)

end AtomicSem

/-- A sleep lock is its holder. -/
abbrev AtomicLock (Thread : Type u) := Option Thread

namespace AtomicLock

variable {Thread : Type u} [DecidableEq Thread]

/-- Waits until nobody holds the lock and takes it. The holder must not ask again. -/
def acquire (l : AtomicLock Thread) (cur : Thread) : Outcome (AtomicLock Thread) :=
  match l with
  | none => .done (some cur)
  | some t => if t = cur then .panic else .blocked

/-- The holder gives the lock back. -/
def release (l : AtomicLock Thread) (cur : Thread) : Outcome (AtomicLock Thread) :=
  if l = some cur then .done none else .panic

inductive Action (Thread : Type u) where
  | acquire (cur : Thread)
  | release (cur : Thread)

def machine : Machine (AtomicLock Thread) (Action Thread) where
  initial l := l = none
  step l
    | .acquire cur => acquire l cur
    | .release cur => release l cur

theorem acquire_done {l m : AtomicLock Thread} {cur : Thread} :
    acquire l cur = .done m ↔ l = none ∧ m = some cur := by
  cases l with
  | none => simp [acquire, eq_comm]
  | some t => by_cases same : t = cur <;> simp [acquire, same]

theorem release_done {l m : AtomicLock Thread} {cur : Thread} :
    release l cur = .done m ↔ l = some cur ∧ m = none := by
  by_cases held : l = some cur <;> simp [release, held, eq_comm]

@[simp] theorem acquire_free {cur : Thread} : acquire none cur = .done (some cur) := rfl

@[simp] theorem release_ne_blocked {l : AtomicLock Thread} {cur : Thread} :
    release l cur ≠ .blocked := by
  unfold release
  split <;> simp

@[simp] theorem acquire_meets {l : AtomicLock Thread} {cur : Thread}
    {P : AtomicLock Thread → Prop} :
    (acquire l cur).Meets P = (l ≠ some cur ∧ (l = none → P (some cur))) := by
  cases l with
  | none => simp [acquire]
  | some t => by_cases same : t = cur <;> simp [acquire, same, Outcome.Meets]

@[simp] theorem release_meets {l : AtomicLock Thread} {cur : Thread}
    {P : AtomicLock Thread → Prop} : (release l cur).Meets P = (l = some cur ∧ P none) := by
  by_cases held : l = some cur <;> simp [release, held, Outcome.Meets]

@[simp] theorem acquire_ensures {l : AtomicLock Thread} {cur : Thread}
    {P : AtomicLock Thread → Prop} : (acquire l cur).Ensures P = (l = none → P (some cur)) := by
  cases l with
  | none => simp [acquire]
  | some t => by_cases same : t = cur <;> simp [acquire, same]

@[simp] theorem release_ensures {l : AtomicLock Thread} {cur : Thread}
    {P : AtomicLock Thread → Prop} : (release l cur).Ensures P = (l = some cur → P none) := by
  by_cases held : l = some cur <;> simp [release, held]

end AtomicLock

end Os161
