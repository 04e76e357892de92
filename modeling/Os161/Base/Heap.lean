import Os161.Base.Outcome
import Mathlib.Logic.Function.Basic

/-!
# Heaps with provenance

A pointer is the identity of one allocation, never given out twice. So a pointer that outlives what
it named is seen as stale, and following it is a fault.
-/

namespace Os161

universe u v

/-- What a pointer names. -/
inductive Cell (α : Type u) where
  | unused
  | live (value : α)
  | freed
  deriving DecidableEq

/-- The value that is there, if one is. -/
def Cell.value? {α : Type u} : Cell α → Option α
  | live a => some a
  | _ => none

def Cell.map {α β : Type u} (f : α → β) : Cell α → Cell β
  | unused => .unused
  | live a => .live (f a)
  | freed => .freed

abbrev Heap (Ptr : Type v) (α : Type u) := Ptr → Cell α

namespace Heap

variable {Ptr α : Type u} {h : Heap Ptr α} {ptr : Ptr} {P : α → Prop} {Q : Heap Ptr α → Prop}

/-- Follows a pointer. -/
def get (h : Heap Ptr α) (ptr : Ptr) : Outcome α := Outcome.deref (h ptr).value?

variable [DecidableEq Ptr]

/-- An allocation comes back with a pointer that was never given out. -/
def alloc (h : Heap Ptr α) (ptr : Ptr) (a : α) : Outcome (Heap Ptr α) :=
  match h ptr with
  | .unused => .done (Function.update h ptr (.live a))
  | _ => .blocked

/-- Follows a pointer and changes what it points to. -/
def modify (h : Heap Ptr α) (ptr : Ptr) (f : α → Outcome α) : Outcome (Heap Ptr α) := do
  let a ← h.get ptr
  let a ← f a
  return Function.update h ptr (.live a)

def free (h : Heap Ptr α) (ptr : Ptr) : Outcome (Heap Ptr α) := do
  let _ ← h.get ptr
  return Function.update h ptr .freed

omit [DecidableEq Ptr] in
@[simp] theorem get_ensures : (h.get ptr).Ensures P = (∀ a, (h ptr).value? = some a → P a) := by
  simp [get]

@[simp] theorem alloc_ensures {a : α} : (h.alloc ptr a).Ensures Q =
    (h ptr = .unused → Q (Function.update h ptr (.live a))) := by
  unfold alloc
  split <;> simp_all

@[simp] theorem modify_ensures {f : α → Outcome α} : (h.modify ptr f).Ensures Q =
    (∀ a, (h ptr).value? = some a → (f a).Ensures fun b => Q (Function.update h ptr (.live b))) := by
  simp [modify]

@[simp] theorem free_ensures : (h.free ptr).Ensures Q =
    (∀ a, (h ptr).value? = some a → Q (Function.update h ptr .freed)) := by
  simp [free]

/-! The same for steps that must not fail. -/

@[simp] theorem alloc_meets {a : α} : (h.alloc ptr a).Meets Q =
    (h ptr = .unused → Q (Function.update h ptr (.live a))) := by
  unfold alloc
  split <;> simp_all

@[simp] theorem modify_meets {f : α → Outcome α} : (h.modify ptr f).Meets Q =
    (∃ a, (h ptr).value? = some a ∧ (f a).Meets fun b => Q (Function.update h ptr (.live b))) := by
  simp [modify, get]

@[simp] theorem free_meets : (h.free ptr).Meets Q =
    (∃ a, (h ptr).value? = some a ∧ Q (Function.update h ptr .freed)) := by
  simp [free, get]

/-- The values after one cell has changed. -/
theorem value_update {cell : Cell α} (p : Ptr) :
    (Function.update h ptr cell p).value? = Function.update (fun p => (h p).value?) ptr cell.value? p := by
  by_cases same : p = ptr
  · simp [same]
  · simp [same]

end Heap

end Os161
