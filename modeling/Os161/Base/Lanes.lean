import Mathlib.Init

/-!
# Bytes of machine words

A word is its bytes; a mask of eight ones picks one of them, and a shift by a multiple of eight moves it.
-/

namespace Os161

/-- The byte at a place, the lowest one first. -/
def byteOf {w : Nat} (x : BitVec w) (k : Nat) : BitVec 8 := x.extractLsb' (8 * k) 8

/-- The mask for a byte. -/
def lane (w j : Nat) : BitVec w := 0xff#w <<< (8 * j)

variable {w n i j k s : Nat} {x y : BitVec w}

theorem byteOf_bit (inside : i < 8) : (byteOf x k).getLsbD i = x.getLsbD (8 * k + i) := by
  simp [byteOf, inside]

theorem byteOf_or : byteOf (x ||| y) k = byteOf x k ||| byteOf y k := by
  apply BitVec.eq_of_getLsbD_eq
  intro i inside
  rw [BitVec.getLsbD_or, byteOf_bit inside, byteOf_bit inside, byteOf_bit inside, BitVec.getLsbD_or]

theorem byteOf_and : byteOf (x &&& y) k = byteOf x k &&& byteOf y k := by
  apply BitVec.eq_of_getLsbD_eq
  intro i inside
  rw [BitVec.getLsbD_and, byteOf_bit inside, byteOf_bit inside, byteOf_bit inside, BitVec.getLsbD_and]

theorem lane_bit : (lane w j).getLsbD i = (decide (i < w) && decide (8 * j ≤ i) && decide (i < 8 * j + 8)) := by
  have ones : ∀ m, (0xff#w).getLsbD m = (decide (m < w) && decide (m < 8)) := by
    intro m
    have eight : (0xff : Nat) = 2 ^ 8 - 1 := rfl
    rw [BitVec.getLsbD_ofNat, eight, Nat.testBit_two_pow_sub_one]
  unfold lane
  rw [BitVec.getLsbD_shiftLeft, ones]
  grind

/-- A byte that is picked and moved up is there, and nothing else is. -/
theorem byteOf_up (room : 8 * k + 8 ≤ w) :
    byteOf ((x &&& lane w j) <<< (8 * s)) k = if k = j + s then byteOf x j else 0 := by
  apply BitVec.eq_of_getLsbD_eq
  intro i inside
  rw [byteOf_bit inside, BitVec.getLsbD_shiftLeft, BitVec.getLsbD_and, lane_bit]
  split
  · rename_i here
    rw [byteOf_bit inside]
    have place : 8 * k + i - 8 * s = 8 * j + i := by omega
    rw [place]
    grind
  · grind

/-- A byte that is picked and moved down is there, and nothing else is. -/
theorem byteOf_down : byteOf ((x &&& lane w j) >>> (8 * s)) k = if j = k + s then byteOf x j else 0 := by
  apply BitVec.eq_of_getLsbD_eq
  intro i inside
  rw [byteOf_bit inside, BitVec.getLsbD_ushiftRight, BitVec.getLsbD_and, lane_bit]
  split
  · rename_i here
    rw [byteOf_bit inside]
    have place : 8 * s + (8 * k + i) = 8 * j + i := by omega
    rw [place]
    by_cases bit : 8 * j + i < w
    · grind
    · rw [BitVec.getLsbD_of_ge _ _ (by omega)]
      rfl
  · grind

theorem byteOf_shiftLeft (room : 8 * k + 8 ≤ w) : byteOf (x <<< (8 * s)) k = if s ≤ k then byteOf x (k - s) else 0 := by
  apply BitVec.eq_of_getLsbD_eq
  intro i inside
  rw [byteOf_bit inside, BitVec.getLsbD_shiftLeft]
  split
  · rename_i there
    have place : 8 * k + i - 8 * s = 8 * (k - s) + i := by omega
    rw [byteOf_bit inside, place]
    grind
  · grind

theorem byteOf_shiftRight : byteOf (x >>> (8 * s)) k = byteOf x (k + s) := by
  apply BitVec.eq_of_getLsbD_eq
  intro i inside
  have place : 8 * s + (8 * k + i) = 8 * (k + s) + i := by omega
  rw [byteOf_bit inside, byteOf_bit inside, BitVec.getLsbD_ushiftRight, place]

theorem byteOf_setWidth {v : Nat} (room : 8 * k + 8 ≤ v) : byteOf (x.setWidth v) k = byteOf x k := by
  apply BitVec.eq_of_getLsbD_eq
  intro i inside
  have below : 8 * k + i < v := by omega
  simp [byteOf_bit inside, BitVec.getLsbD_setWidth, below]

theorem byteOf_beyond (beyond : w ≤ 8 * k) : byteOf x k = 0 := by
  apply BitVec.eq_of_getLsbD_eq
  intro i inside
  rw [byteOf_bit inside, BitVec.getLsbD_of_ge _ _ (by omega)]
  simp

/-- Words with the same bytes are the same. -/
theorem eq_of_bytes {x y : BitVec (8 * n)} (same : ∀ k, k < n → byteOf x k = byteOf y k) : x = y := by
  apply BitVec.eq_of_getLsbD_eq
  intro i inside
  have bit := congrArg (·.getLsbD (i % 8)) (same (i / 8) (by omega))
  have place : 8 * (i / 8) + i % 8 = i := by omega
  have within : i % 8 < 8 := Nat.mod_lt _ (by decide)
  simp only [byteOf_bit within, place] at bit
  exact bit

/-- The bytes of `y` are those of `x` in the other order. -/
def Reverses (x y : BitVec (8 * n)) : Prop := ∀ k, k < n → byteOf y k = byteOf x (n - 1 - k)

/-- There is one word with the bytes in the other order. -/
theorem Reverses.unique {x y z : BitVec (8 * n)} (first : Reverses x y) (second : Reverses x z) : y = z :=
  eq_of_bytes fun k inside => (first k inside).trans (second k inside).symm

theorem Reverses.symm {x y : BitVec (8 * n)} (reverses : Reverses x y) : Reverses y x := by
  intro k inside
  rw [reverses (n - 1 - k) (by omega)]
  have back : n - 1 - (n - 1 - k) = k := by omega
  rw [back]

end Os161
