import Os161.Base.Object

/-!
# Specifications of objects

A specification says what a call may answer and what it may leave; it may leave something open. An
object implements it where each of its calls comes back with what the specification allows.
-/

namespace Os161

universe u

structure Spec (Abs Op Answer : Type u) where
  allows : Abs → Op → Answer → Abs → Prop

namespace Spec

variable {Abs Op Answer : Type u} {A : Spec Abs Op Answer} {a b c : Abs}

/-- The calls of a list in order, each with an answer that is allowed. -/
inductive Run (A : Spec Abs Op Answer) : Abs → List Op → List Answer → Abs → Prop where
  | nil {a : Abs} : Run A a [] [] a
  | cons {a b c : Abs} {op : Op} {answer : Answer} {ops : List Op} {answers : List Answer}
      (first : A.allows a op answer b) (rest : Run A b ops answers c) :
      Run A a (op :: ops) (answer :: answers) c

/-- The rule for what calls add up to: each of them changes a quantity by what can be told from the
call and its answer. -/
theorem Run.sum {M : Type} [AddMonoid M] (value : Abs → M) (change : Op → Answer → M)
    (each : ∀ a op answer b, A.allows a op answer b → value b = value a + change op answer)
    {ops : List Op} {answers : List Answer} (run : A.Run a ops answers b) :
    value b = value a + (List.zipWith change ops answers).sum := by
  induction run with
  | nil => rw [List.zipWith_nil_left, List.sum_nil, add_zero]
  | cons first _ ih => rw [ih, each _ _ _ _ first, List.zipWith_cons_cons, List.sum_cons, add_assoc]

end Spec

namespace Object

variable {State Abs Op Answer : Type u} {O : Object State Op Answer} {A : Spec Abs Op Answer}
variable {R : State → Abs → Prop} {guard : State → Op → Prop} {s : State} {a : Abs}

/-- Calls that meet `guard` come back, with what the specification allows in a state that `R` relates. -/
def Implements (O : Object State Op Answer) (A : Spec Abs Op Answer) (R : State → Abs → Prop)
    (guard : State → Op → Prop) : Prop :=
  ∀ s a op, R s a → guard s op →
    ∃ answer t b, O.call s op = .done (answer, t) ∧ A.allows a op answer b ∧ R t b

/-- The run rule: sequences of calls come back, as a run of the specification. -/
theorem Implements.calls (implements : O.Implements A R guard) {ops : List Op} (related : R s a)
    (allowed : O.Allows guard s ops) :
    ∃ answers t b, O.calls s ops = .done (answers, t) ∧ A.Run a ops answers b ∧ R t b := by
  induction ops generalizing s a with
  | nil => exact ⟨[], s, a, rfl, .nil, related⟩
  | cons op rest ih =>
    obtain ⟨answer, t, b, goes, first, related'⟩ := implements s a op related allowed.1
    obtain ⟨answers, u, c, goes', run, last⟩ := ih related' (allowed.2 answer t goes)
    refine ⟨answer :: answers, u, c, ?_, .cons first run, last⟩
    unfold Object.calls
    rw [goes, Outcome.done_bind]
    dsimp only
    rw [goes', Outcome.done_bind]
    rfl

end Object

end Os161
