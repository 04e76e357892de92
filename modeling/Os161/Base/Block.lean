import Mathlib.Logic.Function.Basic
import Os161.Base.Outcome

/-!
# Blocks of cells

An allocated block has room for some cells. What is behind them is not there to be touched, and
what is in them at first is not known.
-/

namespace Os161

universe u

structure Block (α : Type u) where
  room : Nat
  cells : Nat → α

namespace Block

variable {α : Type u}

/-- The first cells, as a list. -/
def front (b : Block α) (n : Nat) : List α := (List.range n).map b.cells

def set (b : Block α) (i : Nat) (x : α) : Block α := { b with cells := Function.update b.cells i x }

/-- Moves `n` cells at `s` of `src` to `d` of `dst`. -/
def move (dst : Block α) (d : Nat) (src : Block α) (s n : Nat) : Block α :=
  { dst with cells := fun a => if d ≤ a ∧ a < d + n then src.cells (s + (a - d)) else dst.cells a }

variable {b c : Block α} {i n m : Nat} {x : α}

@[simp] theorem front_length : (b.front n).length = n := by simp [front]

theorem front_getElem (h : i < (b.front n).length) : (b.front n)[i] = b.cells i := by
  simp [front]

theorem front_zero : b.front 0 = [] := rfl

theorem front_succ : b.front (n + 1) = b.front n ++ [b.cells n] := by
  simp [front, List.range_succ]

/-- Lists of cells are the same if the cells are. -/
theorem front_eq (same : ∀ i < n, b.cells i = c.cells i) : b.front n = c.front n := by
  apply List.ext_getElem (by simp)
  intro i inside _
  rw [front_getElem, front_getElem]
  exact same i (by simpa using inside)

theorem front_take : (b.front n).take m = b.front (min m n) := by
  apply List.ext_getElem (by simp)
  intro i _ _
  rw [List.getElem_take, front_getElem, front_getElem]

theorem front_set : (b.set i x).front n = (b.front n).set i x := by
  apply List.ext_getElem (by simp)
  intro j _ _
  rw [front_getElem, List.getElem_set, front_getElem]
  unfold set
  dsimp only
  by_cases here : i = j
  · rw [if_pos here, ← here, Function.update_self]
  · rw [if_neg here, Function.update_of_ne (Ne.symm here)]

theorem front_set_behind (behind : n ≤ i) : (b.set i x).front n = b.front n := by
  rw [front_set, List.set_eq_of_length_le (by simpa using behind)]

theorem set_front_succ : (b.set n x).front (n + 1) = b.front n ++ [x] := by
  rw [front_succ, front_set_behind (Nat.le_refl n)]
  simp [set]

@[simp] theorem move_none {d s : Nat} : c.move d b s 0 = c := by
  unfold move
  congr 1
  funext a
  exact if_neg (by omega)

/-- A copy of the first cells. -/
theorem move_front : (c.move 0 b 0 n).front n = b.front n := by
  apply front_eq
  intro i inside
  simp [move, inside]

/-- Sliding the cells down over one of them takes it out. -/
theorem move_down (inside : i < n) :
    (b.move i b (i + 1) (n - (i + 1))).front (n - 1) = (b.front n).eraseIdx i := by
  apply List.ext_getElem (by simp [List.length_eraseIdx, inside])
  intro j below _
  rw [front_length] at below
  rw [front_getElem, List.getElem_eraseIdx]
  unfold move
  dsimp only
  by_cases before : j < i
  · rw [if_neg (by omega), dif_pos before, front_getElem]
  · have place : i + 1 + (j - i) = j + 1 := by omega
    rw [if_pos (by omega), dif_neg before, front_getElem, place]

end Block

end Os161
