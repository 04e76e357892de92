import Mathlib.Logic.ExistsUnique

/-!
# Owners

Things in use that are divided among owners. When one owner gives some up or takes free ones, they are
still divided.
-/

namespace Os161

variable {X O : Type}

/-- What is in use belongs to just one owner, and nothing else belongs to one. -/
structure Owned (used : X → Prop) (owns : O → X → Prop) : Prop where
  covered : ∀ x, used x → ∃ o, owns o x
  used : ∀ o x, owns o x → used x
  apart : ∀ o p x, owns o x → owns p x → o = p

namespace Owned

variable {used used' : X → Prop} {owns owns' : O → X → Prop} {o p : O} {x : X}

theorem iff : Owned used owns ↔ ∀ x, (used x ↔ ∃! o, owns o x) ∧ ∀ o, owns o x → used x := by
  constructor
  · intro h x
    refine ⟨⟨fun is => ?_, ?_⟩, fun o => h.used o x⟩
    · obtain ⟨o, is⟩ := h.covered x is
      exact ⟨o, is, fun p other => h.apart p o x other is⟩
    · rintro ⟨o, is, -⟩
      exact h.used o x is
  · intro h
    refine ⟨fun x is => ((h x).1.mp is).exists, fun o x => (h x).2 o, fun o p x first second => ?_⟩
    exact ((h x).1.mp ((h x).2 o first)).unique first second

theorem congr (h : Owned used owns) (same : ∀ x, used' x ↔ used x) (owners : ∀ o x, owns' o x ↔ owns o x) :
    Owned used' owns' where
  covered x is := (h.covered x ((same x).mp is)).imp fun o owned => (owners o x).mpr owned
  used o x is := (same x).mpr (h.used o x ((owners o x).mp is))
  apart o p x first second := h.apart o p x ((owners o x).mp first) ((owners p x).mp second)

/-- What one owner has changes: it keeps some, and takes some that nobody had. -/
theorem change (h : Owned used owns) (o : O) (others : ∀ p, p ≠ o → ∀ x, owns' p x ↔ owns p x)
    (inUse : ∀ x, used' x ↔ used x ∧ ¬ owns o x ∨ owns' o x)
    (free : ∀ x, owns' o x → used x → owns o x) : Owned used' owns' where
  covered x is := by
    obtain ⟨before, foreign⟩ | is := (inUse x).mp is
    · obtain ⟨p, owned⟩ := h.covered x before
      have other : p ≠ o := fun same => foreign (same ▸ owned)
      exact ⟨p, (others p other x).mpr owned⟩
    · exact ⟨o, is⟩
  used p x is := by
    by_cases same : p = o
    · exact (inUse x).mpr (.inr (same ▸ is))
    · have owned := (others p same x).mp is
      exact (inUse x).mpr (.inl ⟨h.used p x owned, fun own => same (h.apart p o x owned own)⟩)
  apart p q x first second := by
    -- what the owner has now, no other owner can have
    have alone (r : O) (other : r ≠ o) (theirs : owns' r x) (its : owns' o x) : False := by
      have owned := (others r other x).mp theirs
      exact other (h.apart r o x owned (free x its (h.used r x owned)))
    by_cases left : p = o
    · by_cases right : q = o
      · rw [left, right]
      · exact (alone q right second (left ▸ first)).elim
    · by_cases right : q = o
      · exact (alone p left first (right ▸ second)).elim
      · exact h.apart p q x ((others p left x).mp first) ((others q right x).mp second)

end Owned

end Os161
