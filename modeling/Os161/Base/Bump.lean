import Mathlib.Data.List.Basic

/-!
# Giving out space from the bottom

Space is given out in order, from `next` up to `limit`, and never taken back. A request that does
not fit is refused.
-/

namespace Os161

structure Bump where
  next : Nat
  limit : Nat
  inside : next ≤ limit

namespace Bump

/-- The start of what is given, and what is left. -/
def take (b : Bump) (size : Nat) : Option Nat × Bump :=
  if fits : b.next + size ≤ b.limit then (some b.next, ⟨b.next + size, b.limit, fits⟩) else (none, b)

theorem take_fits {b : Bump} {size : Nat} (fits : b.next + size ≤ b.limit) :
    b.take size = (some b.next, ⟨b.next + size, b.limit, fits⟩) :=
  dif_pos fits

theorem take_full {b : Bump} {size : Nat} (full : ¬ b.next + size ≤ b.limit) :
    b.take size = (none, b) :=
  dif_neg full

@[simp] theorem take_limit (b : Bump) (size : Nat) : (b.take size).2.limit = b.limit := by
  unfold take
  split <;> rfl

theorem next_le_take (b : Bump) (size : Nat) : b.next ≤ (b.take size).2.next := by
  unfold take
  split
  · exact Nat.le_add_right _ _
  · exact Nat.le_refl _

/-- What is given for a list of sizes: starts and sizes. -/
def given (b : Bump) : List Nat → List (Nat × Nat)
  | [] => []
  | size :: rest =>
    match b.take size with
    | (some start, left) => (start, size) :: left.given rest
    | (none, left) => left.given rest

theorem given_fits {b : Bump} {size : Nat} (fits : b.next + size ≤ b.limit) (rest : List Nat) :
    b.given (size :: rest) = (b.next, size) :: given ⟨b.next + size, b.limit, fits⟩ rest := by
  simp only [given, take_fits fits]

theorem given_full {b : Bump} {size : Nat} (full : ¬ b.next + size ≤ b.limit) (rest : List Nat) :
    b.given (size :: rest) = b.given rest := by
  simp only [given, take_full full]

theorem given_inside {sizes : List Nat} : ∀ {b : Bump} {r : Nat × Nat}, r ∈ b.given sizes →
    b.next ≤ r.1 ∧ r.1 + r.2 ≤ b.limit := by
  induction sizes with
  | nil =>
    intro b r member
    cases member
  | cons size rest ih =>
    intro b r member
    by_cases fits : b.next + size ≤ b.limit
    · rw [given_fits fits] at member
      obtain rfl | later := List.mem_cons.mp member
      · exact ⟨Nat.le_refl _, fits⟩
      · obtain ⟨above, below⟩ := ih later
        exact ⟨Nat.le_trans (Nat.le_add_right _ _) above, below⟩
    · rw [given_full fits] at member
      exact ih member

/-- What is given later starts where what was given before has ended. -/
theorem given_apart {sizes : List Nat} : ∀ b : Bump,
    (b.given sizes).Pairwise fun r r' => r.1 + r.2 ≤ r'.1 := by
  induction sizes with
  | nil => exact fun _ => .nil
  | cons size rest ih =>
    intro b
    by_cases fits : b.next + size ≤ b.limit
    · rw [given_fits fits]
      apply List.Pairwise.cons _ (ih _)
      intro r' member
      exact (given_inside member).1
    · rw [given_full fits]
      exact ih b

end Bump

end Os161
