import Mathlib.Data.Fintype.Basic
import Mathlib.Data.Fintype.Card
import Mathlib.Data.Finset.Card
import Mathlib.Algebra.BigOperators.Group.Finset.Basic
import Mathlib.Algebra.BigOperators.Group.Finset.Piecewise
import Mathlib.Tactic.Ring

/-!
# Counting the places of a finite family

`countWhere p f` is the number of indices at which the family `f` has the property `p`. One update
of the family moves the count by at most one, and `countWhere_update` says exactly how.
-/

namespace Os161

universe u v

variable {ι : Type u} {β : Type v} [Fintype ι]

/-- The number of indices whose value has property `p`. -/
def countWhere (p : β → Prop) [DecidablePred p] (f : ι → β) : Nat :=
  (Finset.univ.filter fun i => p (f i)).card

variable {p : β → Prop} [DecidablePred p] {f g : ι → β}

theorem countWhere_eq_sum : countWhere p f = ∑ i, if p (f i) then 1 else 0 :=
  Finset.card_filter _ _

theorem countWhere_congr (h : ∀ i, p (f i) ↔ p (g i)) : countWhere p f = countWhere p g := by
  simp [countWhere, h]

theorem countWhere_eq_zero : countWhere p f = 0 ↔ ∀ i, ¬ p (f i) := by
  simp [countWhere, Finset.filter_eq_empty_iff]

theorem countWhere_pos : 0 < countWhere p f ↔ ∃ i, p (f i) := by
  simp [countWhere, Finset.card_pos, Finset.Nonempty]

theorem countWhere_le_card : countWhere p f ≤ Fintype.card ι :=
  Finset.card_le_univ _

variable [DecidableEq ι]

/-- Writing one place takes its old value out of the count and puts the new one in. -/
theorem countWhere_update (i : ι) (b : β) :
    countWhere p (Function.update f i b) + (if p (f i) then 1 else 0) =
      countWhere p f + (if p b then 1 else 0) := by
  have others : ∀ j ∈ (Finset.univ : Finset ι).erase i,
      (if p (Function.update f i b j) then 1 else 0) = if p (f j) then 1 else 0 := by
    intro j hj
    rw [Function.update_of_ne (Finset.ne_of_mem_erase hj)]
  rw [countWhere_eq_sum, countWhere_eq_sum, ← Finset.add_sum_erase _ _ (Finset.mem_univ i),
    ← Finset.add_sum_erase (a := i) _ (fun j => if p (f j) then 1 else 0) (Finset.mem_univ i),
    Finset.sum_congr rfl others, Function.update_self]
  ring

end Os161
