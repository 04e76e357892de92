import Mathlib.Algebra.BigOperators.Group.Finset.Basic
import Mathlib.Algebra.BigOperators.Group.Finset.Piecewise
import Mathlib.Algebra.BigOperators.Pi
import Mathlib.Algebra.Order.BigOperators.Group.Finset
import Mathlib.Tactic.Abel

/-!
# References that objects hold

Each object holds a number of references to one target, and each target counts the references to
it. The counts are balanced over `d` when they are what the objects hold and `d` of every target
besides: what others hold, and what the code at hand has taken and not yet handed on.
-/

set_option linter.unusedSectionVars false

namespace Os161

universe u v

structure References (F : Type u) (V : Type v) where
  holders : F → Option (V × Nat)
  refs : V → Nat

namespace References

variable {F : Type u} {V : Type v} [DecidableEq F] [DecidableEq V]
variable {a : References F V} {d : V → Int} {f g : F} {vn : V} {n : Nat} {spare : Option F}

def setHolder (a : References F V) (f : F) (o : Option (V × Nat)) : References F V :=
  { a with holders := Function.update a.holders f o }

def setRefs (a : References F V) (vn : V) (n : Nat) : References F V :=
  { a with refs := Function.update a.refs vn n }

/-- What a holder holds, as a number for every target. -/
def holding : Option (V × Nat) → V → Int
  | none => 0
  | some (vn, n) => Pi.single vn (n : Int)

@[simp] theorem setHolder_self {o : Option (V × Nat)} : (a.setHolder f o).holders f = o := by
  simp [setHolder]

theorem setHolder_other {o : Option (V × Nat)} (other : g ≠ f) :
    (a.setHolder f o).holders g = a.holders g := by
  simp [setHolder, other]

@[simp] theorem setHolder_setHolder {o o' : Option (V × Nat)} :
    (a.setHolder f o).setHolder f o' = a.setHolder f o' := by
  simp [setHolder]

theorem setHolder_same {o : Option (V × Nat)} (holds : a.holders f = o) : a.setHolder f o = a := by
  rw [setHolder, ← holds, Function.update_eq_self]

@[simp] theorem setHolder_refs {o : Option (V × Nat)} : (a.setHolder f o).refs = a.refs := rfl

@[simp] theorem setRefs_holders : (a.setRefs vn n).holders = a.holders := rfl

theorem holding_nonneg (o : Option (V × Nat)) (v : V) : 0 ≤ holding o v := by
  cases o with
  | none => exact le_refl _
  | some pair =>
    obtain ⟨vn, n⟩ := pair
    by_cases here : v = vn
    · subst here
      simp [holding]
    · simp [holding, here]

/-- The counts are what is held and `d`. -/
def Owes (a : References F V) (d : V → Int) : Prop :=
  ∃ S : Finset F, (∀ f, a.holders f ≠ none → f ∈ S) ∧
    (fun v => (a.refs v : Int)) = d + ∑ f ∈ S, holding (a.holders f)

/-- No object but `spare` holds just one reference. -/
def Spare (a : References F V) (spare : Option F) : Prop :=
  ∀ f vn n, a.holders f = some (vn, n) → n ≤ 1 → spare = some f

theorem holding_update (a : References F V) (o : Option (V × Nat)) :
    (fun g => holding ((a.setHolder f o).holders g)) =
      Function.update (fun g => holding (a.holders g)) f (holding o) := by
  funext g
  by_cases here : g = f
  · subst here
    simp
  · rw [setHolder_other here, Function.update_of_ne here]

/-- What is no longer held is owed. -/
theorem Owes.setHolder (h : a.Owes d) (f : F) (o : Option (V × Nat)) :
    (a.setHolder f o).Owes (d + holding (a.holders f) - holding o) := by
  obtain ⟨S, all, balance⟩ := h
  refine ⟨insert f S, ?_, ?_⟩
  · intro g there
    by_cases here : g = f
    · exact here ▸ Finset.mem_insert_self ..
    · rw [setHolder_other here] at there
      exact Finset.mem_insert_of_mem (all g there)
  · have without : ∑ g ∈ S, holding (a.holders g) = ∑ g ∈ insert f S, holding (a.holders g) := by
      by_cases member : f ∈ S
      · rw [Finset.insert_eq_of_mem member]
      · have empty : a.holders f = none := by
          by_contra there
          exact member (all f there)
        rw [Finset.sum_insert member, empty]
        exact (zero_add _).symm
    rw [holding_update, Finset.sum_update_of_mem (Finset.mem_insert_self ..), setHolder_refs, balance,
      without, ← Finset.add_sum_erase _ _ (Finset.mem_insert_self f S), Finset.sdiff_singleton_eq_erase]
    abel

theorem Owes.setRefs (h : a.Owes d) (vn : V) (n : Nat) :
    (a.setRefs vn n).Owes (d + Pi.single vn ((n : Int) - a.refs vn)) := by
  obtain ⟨S, all, balance⟩ := h
  refine ⟨S, all, ?_⟩
  funext v
  have before := congrFun balance v
  simp only [Pi.add_apply] at before ⊢
  by_cases here : v = vn
  · subst here
    simp only [References.setRefs, Function.update_self, Pi.single_eq_same]
    omega
  · simp only [References.setRefs, Function.update_of_ne here, Pi.single_eq_of_ne here]
    omega

/-- What one object holds is counted. -/
theorem Owes.held (h : a.Owes d) (holds : a.holders f = some (vn, n)) : d vn + n ≤ a.refs vn := by
  obtain ⟨S, all, balance⟩ := h
  have total := congrFun balance vn
  have mine : holding (a.holders f) vn = n := by rw [holds, holding, Pi.single_eq_same]
  have part : holding (a.holders f) vn ≤ ∑ g ∈ S, holding (a.holders g) vn :=
    Finset.single_le_sum (fun g _ => holding_nonneg (a.holders g) vn)
      (all f (by rw [holds]; exact Option.some_ne_none _))
  simp only [Pi.add_apply, Finset.sum_apply] at total
  omega

/-- A target that no object holds is owed all its references. -/
theorem Owes.unheld (h : a.Owes d) (none : ∀ f n, a.holders f ≠ some (vn, n)) : (a.refs vn : Int) = d vn := by
  obtain ⟨S, _, balance⟩ := h
  have total := congrFun balance vn
  have zero : ∑ g ∈ S, holding (a.holders g) vn = 0 := by
    apply Finset.sum_eq_zero
    intro g _
    cases held : a.holders g with
    | none => rfl
    | some pair =>
      obtain ⟨other, n⟩ := pair
      have differ : vn ≠ other := by
        rintro rfl
        exact none g n held
      exact Pi.single_eq_of_ne differ _
  simp only [Pi.add_apply, Finset.sum_apply, zero] at total
  omega

theorem Spare.setHolder (h : a.Spare spare) {left : Option F} {o : Option (V × Nat)}
    (kept : ∀ g, g ≠ f → spare = some g → left = some g)
    (new : ∀ vn n, o = some (vn, n) → n ≤ 1 → left = some f) : (a.setHolder f o).Spare left := by
  intro g vn n held few
  by_cases here : g = f
  · subst here
    rw [setHolder_self] at held
    exact new vn n held few
  · rw [setHolder_other here] at held
    exact kept g here (h g vn n held few)

end References

end Os161
