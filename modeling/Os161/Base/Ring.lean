import Mathlib.Logic.Function.Basic

/-!
# Ring buffers

Slots in a circle, with the slot to put the next item in and the slot to take the next item out of. The two
are the same when the ring is empty, so one slot is never used.
-/

namespace Os161

structure Ring (α : Type) (size : Nat) where
  slots : Nat → α
  head : Nat
  tail : Nat

namespace Ring

variable {α : Type} {size i j : Nat} {r : Ring α size} {a : α}

/-- The number of items in the ring. -/
def held (r : Ring α size) : Nat := if r.tail ≤ r.head then r.head - r.tail else r.head + size - r.tail

/-- The slot of the `i`-th item. -/
def place (r : Ring α size) (i : Nat) : Nat := (r.tail + i) % size

/-- The items, the oldest first. -/
def contents (r : Ring α size) : List α := (List.range r.held).map fun i => r.slots (r.place i)

structure Inside (r : Ring α size) : Prop where
  head : r.head < size
  tail : r.tail < size

/-- Puts an item where the next one goes. It is not in the ring before `advance`. -/
def store (r : Ring α size) (a : α) : Ring α size := { r with slots := Function.update r.slots r.head a }

def advance (r : Ring α size) : Ring α size := { r with head := (r.head + 1) % size }

/-- Takes the oldest item out. -/
def take (r : Ring α size) : Ring α size := { r with tail := (r.tail + 1) % size }

theorem next_cases (h : i < size) : i + 1 < size ∧ (i + 1) % size = i + 1 ∨ i + 1 = size ∧ (i + 1) % size = 0 := by
  by_cases last : i + 1 = size
  · exact .inr ⟨last, by rw [last, Nat.mod_self]⟩
  · have inside : i + 1 < size := by omega
    exact .inl ⟨inside, Nat.mod_eq_of_lt inside⟩

theorem wrap_cases (h : i < size) (h' : j < size) :
    i + j < size ∧ (i + j) % size = i + j ∨ size ≤ i + j ∧ (i + j) % size = i + j - size := by
  by_cases inside : i + j < size
  · exact .inl ⟨inside, Nat.mod_eq_of_lt inside⟩
  · refine .inr ⟨by omega, ?_⟩
    rw [Nat.mod_eq_sub_mod (by omega), Nat.mod_eq_of_lt (by omega)]

theorem held_cases (r : Ring α size) :
    r.tail ≤ r.head ∧ r.held = r.head - r.tail ∨ r.head < r.tail ∧ r.held = r.head + size - r.tail := by
  unfold held
  split
  · exact .inl ⟨‹_›, rfl⟩
  · exact .inr ⟨by omega, rfl⟩

theorem Inside.held_lt (h : r.Inside) : r.held < size := by
  have head := h.head
  have tail := h.tail
  have cases := r.held_cases
  omega

theorem Inside.head_eq (h : r.Inside) : r.head = r.place r.held := by
  have head := h.head
  have tail := h.tail
  have cases := r.held_cases
  have wrap := wrap_cases tail h.held_lt
  unfold place
  omega

/-- Different items are in different slots, and so is the next one. -/
theorem Inside.place_inj (h : r.Inside) (hi : i < size) (hj : j < size) (same : r.place i = r.place j) :
    i = j := by
  have tail := h.tail
  have first := wrap_cases tail hi
  have second := wrap_cases tail hj
  unfold place at same
  omega

theorem Inside.advance (h : r.Inside) : r.advance.Inside :=
  ⟨Nat.mod_lt _ (Nat.lt_of_le_of_lt (Nat.zero_le _) h.head), h.tail⟩

theorem Inside.take (h : r.Inside) : r.take.Inside :=
  ⟨h.head, Nat.mod_lt _ (Nat.lt_of_le_of_lt (Nat.zero_le _) h.head)⟩

theorem Inside.store (h : r.Inside) : (r.store a).Inside := ⟨h.head, h.tail⟩

/-- The ring is full when the head would meet the tail. -/
theorem Inside.full_iff (h : r.Inside) : (r.head + 1) % size = r.tail ↔ r.held + 1 = size := by
  have head := h.head
  have tail := h.tail
  have cases := r.held_cases
  have next := next_cases head
  omega

theorem Inside.advance_held (h : r.Inside) (room : (r.head + 1) % size ≠ r.tail) :
    r.advance.held = r.held + 1 := by
  have head := h.head
  have tail := h.tail
  have before := r.held_cases
  have behind := r.advance.held_cases
  have next := next_cases head
  unfold Ring.advance at *
  dsimp only at behind
  omega

theorem Inside.take_held (h : r.Inside) (some : 0 < r.held) : r.take.held = r.held - 1 := by
  have head := h.head
  have tail := h.tail
  have before := r.held_cases
  have behind := r.take.held_cases
  have next := next_cases tail
  unfold Ring.take at *
  dsimp only at behind
  omega

@[simp] theorem contents_length : r.contents.length = r.held := by
  rw [contents, List.length_map, List.length_range]

/-- What is put next is put beside the items. -/
theorem Inside.store_contents (h : r.Inside) : (r.store a).contents = r.contents := by
  refine List.map_congr_left fun i inside => ?_
  rw [List.mem_range] at inside
  change Function.update r.slots r.head a (r.place i) = _
  refine Function.update_of_ne (fun same => ?_) ..
  rw [h.head_eq] at same
  exact Nat.ne_of_lt inside (h.place_inj (Nat.lt_trans inside h.held_lt) h.held_lt same)

theorem Inside.advance_contents (h : r.Inside) (room : (r.head + 1) % size ≠ r.tail) :
    r.advance.contents = r.contents ++ [r.slots r.head] := by
  unfold contents
  rw [h.advance_held room, List.range_succ, List.map_append, List.map_singleton, h.head_eq]
  rfl

theorem Inside.take_contents (h : r.Inside) (some : 0 < r.held) :
    r.contents = r.slots r.tail :: r.take.contents := by
  obtain ⟨n, count⟩ : ∃ n, r.held = n + 1 := ⟨r.held - 1, by omega⟩
  unfold contents
  rw [h.take_held some, count, Nat.add_sub_cancel, List.range_succ_eq_map, List.map_cons, List.map_map]
  congr 1
  · rw [place, Nat.add_zero, Nat.mod_eq_of_lt h.tail]
  · refine List.map_congr_left fun i _ => ?_
    have same : r.take.place i = r.place (i + 1) := by
      unfold place Ring.take
      rw [Nat.mod_add_mod]
      congr 1
      omega
    exact congrArg r.slots same.symm

end Ring

end Os161
