import Mathlib.Data.List.Perm.Basic
import Mathlib.Data.List.Nodup

/-!
# Items in places

A distribution gives every place the list of the items that are there. Items are moved between
places, come in and go out, and no item is ever in two places or twice in one.
-/

namespace Os161.Places

universe u v

variable {Place : Type u} {Item : Type v}

/-- No item is in two places or twice in one. -/
structure Apart (items : Place → List Item) : Prop where
  nodup : ∀ p, (items p).Nodup
  unique : ∀ p q x, x ∈ items p → x ∈ items q → p = q

/-- The items `xs` go from `p` to `q`. -/
structure Moved (before after : Place → List Item) (p q : Place) (xs : List Item) : Prop where
  away : p ≠ q
  source : (before p).Perm (xs ++ after p)
  target : (after q).Perm (xs ++ before q)
  others : ∀ r, r ≠ p → r ≠ q → after r = before r

/-- A new item comes to `q`. -/
structure Added (before after : Place → List Item) (q : Place) (x : Item) : Prop where
  target : (after q).Perm (x :: before q)
  others : ∀ r, r ≠ q → after r = before r

/-- An item goes away from `p`. -/
structure Removed (before after : Place → List Item) (p : Place) (x : Item) : Prop where
  source : (before p).Perm (x :: after p)
  others : ∀ r, r ≠ p → after r = before r

variable {before after : Place → List Item} {p q r : Place} {xs : List Item} {x y : Item}

namespace Moved

theorem mem (h : Moved before after p q xs) (apart : Apart before) :
    y ∈ after r ↔ y ∈ xs ∧ r = q ∨ y ∉ xs ∧ y ∈ before r := by
  have start : ∀ y, y ∈ before p ↔ y ∈ xs ∨ y ∈ after p := fun y => by
    rw [h.source.mem_iff, List.mem_append]
  have split : ∀ y ∈ xs, y ∉ after p := by
    intro y mem
    have nodup := h.source.nodup_iff.mp (apart.nodup p)
    exact List.disjoint_of_nodup_append nodup mem
  by_cases is_q : r = q
  · subst is_q
    rw [h.target.mem_iff, List.mem_append]
    have unmoved : y ∈ before r → y ∉ xs := fun here moved =>
      h.away (apart.unique p r y ((start y).mpr (.inl moved)) here)
    by_cases moved : y ∈ xs <;> simp [moved]
  · by_cases is_p : r = p
    · subst is_p
      simp only [is_q, and_false, false_or, start]
      constructor
      · exact fun there => ⟨fun moved => split y moved there, .inr there⟩
      · rintro ⟨unmoved, moved | there⟩
        · exact (unmoved moved).elim
        · exact there
    · rw [h.others r is_p is_q]
      simp only [is_q, and_false, false_or]
      refine ⟨fun there => ⟨fun moved => ?_, there⟩, fun there => there.2⟩
      exact is_p (apart.unique r p y there ((start y).mpr (.inl moved)))

theorem apart (h : Moved before after p q xs) (apart : Apart before) : Apart after := by
  have start := h.source.nodup_iff.mp (apart.nodup p)
  constructor
  · intro r
    by_cases is_q : r = q
    · subst is_q
      refine h.target.nodup_iff.mpr (List.nodup_append'.mpr ⟨?_, apart.nodup r, ?_⟩)
      · exact (List.nodup_append'.mp start).1
      · intro y moved here
        have there := h.source.mem_iff.mpr (List.mem_append_left _ moved)
        exact h.away (apart.unique p r y there here)
    · by_cases is_p : r = p
      · subst is_p
        exact (List.nodup_append'.mp start).2.1
      · rw [h.others r is_p is_q]
        exact apart.nodup r
  · intro r r' y here there
    rcases (h.mem apart).mp here with ⟨moved, rfl⟩ | ⟨unmoved, here⟩
    · rcases (h.mem apart).mp there with ⟨_, rfl⟩ | ⟨unmoved, _⟩
      · rfl
      · exact (unmoved moved).elim
    · rcases (h.mem apart).mp there with ⟨moved, _⟩ | ⟨_, there⟩
      · exact (unmoved moved).elim
      · exact apart.unique r r' y here there

theorem somewhere (h : Moved before after p q xs) (apart : Apart before) :
    (∃ r, y ∈ after r) ↔ ∃ r, y ∈ before r := by
  constructor
  · rintro ⟨r, here⟩
    rcases (h.mem apart).mp here with ⟨moved, _⟩ | ⟨_, here⟩
    · exact ⟨p, h.source.mem_iff.mpr (List.mem_append_left _ moved)⟩
    · exact ⟨r, here⟩
  · rintro ⟨r, here⟩
    by_cases moved : y ∈ xs
    · exact ⟨q, (h.mem apart).mpr (.inl ⟨moved, rfl⟩)⟩
    · exact ⟨r, (h.mem apart).mpr (.inr ⟨moved, here⟩)⟩

end Moved

namespace Added

theorem mem (h : Added before after q x) : y ∈ after r ↔ y = x ∧ r = q ∨ y ∈ before r := by
  by_cases is_q : r = q
  · subst is_q
    simp [h.target.mem_iff]
  · simp [h.others r is_q, is_q]

theorem apart (h : Added before after q x) (apart : Apart before) (new : ∀ r, x ∉ before r) :
    Apart after := by
  constructor
  · intro r
    by_cases is_q : r = q
    · subst is_q
      exact h.target.nodup_iff.mpr (List.nodup_cons.mpr ⟨new r, apart.nodup r⟩)
    · rw [h.others r is_q]
      exact apart.nodup r
  · intro r r' y here there
    rcases h.mem.mp here with ⟨rfl, rfl⟩ | here
    · rcases h.mem.mp there with ⟨_, rfl⟩ | there
      · rfl
      · exact (new r' there).elim
    · rcases h.mem.mp there with ⟨rfl, _⟩ | there
      · exact (new r here).elim
      · exact apart.unique r r' y here there

end Added

namespace Removed

theorem mem (h : Removed before after p x) (apart : Apart before) :
    y ∈ after r ↔ y ≠ x ∧ y ∈ before r := by
  have nodup := h.source.nodup_iff.mp (apart.nodup p)
  have here : x ∈ before p := h.source.mem_iff.mpr (List.mem_cons_self ..)
  by_cases is_p : r = p
  · subst is_p
    rw [h.source.mem_iff, List.mem_cons]
    constructor
    · intro kept
      refine ⟨?_, .inr kept⟩
      rintro rfl
      exact (List.nodup_cons.mp nodup).1 kept
    · rintro ⟨other, same | kept⟩
      · exact (other same).elim
      · exact kept
  · rw [h.others r is_p]
    refine ⟨fun there => ⟨?_, there⟩, fun there => there.2⟩
    rintro rfl
    exact is_p (apart.unique r p y there here)

theorem apart (h : Removed before after p x) (apart : Apart before) : Apart after := by
  constructor
  · intro r
    by_cases is_p : r = p
    · subst is_p
      exact (List.nodup_cons.mp (h.source.nodup_iff.mp (apart.nodup r))).2
    · rw [h.others r is_p]
      exact apart.nodup r
  · intro r r' y here there
    exact apart.unique r r' y ((h.mem apart).mp here).2 ((h.mem apart).mp there).2

end Removed

end Os161.Places
