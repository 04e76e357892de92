import Mathlib.Tactic.IntervalCases
import Os161.Base.Lanes

/-!
# Byte order

`lib/bswap.c`. `bswap16` and `bswap32` turn the bytes of a value around. `bswap64` shifts two of the eight
bytes the wrong way.
-/

namespace Os161

def bswap16 (val : UInt16) : UInt16 :=
  ((val &&& 0x00ff) <<< 8) ||| ((val &&& 0xff00) >>> 8)

def bswap32 (val : UInt32) : UInt32 :=
  ((val &&& 0x000000ff) <<< 24) ||| ((val &&& 0x0000ff00) <<< 8) |||
    ((val &&& 0x00ff0000) >>> 8) ||| ((val &&& 0xff000000) >>> 24)

def bswap64 (val : UInt64) : UInt64 :=
  ((val &&& 0x00000000000000ff) <<< 56) ||| ((val &&& 0x000000000000ff00) <<< 40) |||
    ((val &&& 0x0000000000ff0000) <<< 24) ||| ((val &&& 0x00000000ff000000) <<< 8) |||
    ((val &&& 0x000000ff00000000) <<< 8) ||| ((val &&& 0x0000ff0000000000) <<< 24) |||
    ((val &&& 0x00ff000000000000) >>> 40) ||| ((val &&& 0xff00000000000000) >>> 56)

/-- `_BYTE_ORDER`. -/
inductive ByteOrder where
  | big
  | little
  deriving DecidableEq

def join32to64 (order : ByteOrder) (x1 x2 : UInt32) : UInt64 :=
  match order with
  | .big => (x1.toUInt64 <<< 32) ||| x2.toUInt64
  | .little => x1.toUInt64 ||| (x2.toUInt64 <<< 32)

def split64to32 (order : ByteOrder) (x : UInt64) : UInt32 × UInt32 :=
  match order with
  | .big => ((x >>> 32).toUInt32, (x &&& 0xffffffff).toUInt32)
  | .little => ((x &&& 0xffffffff).toUInt32, (x >>> 32).toUInt32)

theorem bswap16_reverses (x : UInt16) : Reverses (n := 2) x.toBitVec (bswap16 x).toBitVec := by
  have lanes : (bswap16 x).toBitVec =
      ((x.toBitVec &&& lane 16 0) <<< (8 * 1)) ||| ((x.toBitVec &&& lane 16 1) >>> (8 * 1)) := rfl
  intro k inside
  rw [lanes, byteOf_or, byteOf_up (by omega), byteOf_down]
  interval_cases k <;> simp

theorem bswap32_reverses (x : UInt32) : Reverses (n := 4) x.toBitVec (bswap32 x).toBitVec := by
  have lanes : (bswap32 x).toBitVec =
      ((x.toBitVec &&& lane 32 0) <<< (8 * 3)) ||| ((x.toBitVec &&& lane 32 1) <<< (8 * 1)) |||
        ((x.toBitVec &&& lane 32 2) >>> (8 * 1)) ||| ((x.toBitVec &&& lane 32 3) >>> (8 * 3)) := rfl
  intro k inside
  rw [lanes, byteOf_or, byteOf_or, byteOf_or, byteOf_up (by omega), byteOf_up (by omega), byteOf_down, byteOf_down]
  interval_cases k <;> simp

theorem bswap64_byte (x : UInt64) {k : Nat} (inside : k < 8) : byteOf (bswap64 x).toBitVec k =
    if k = 5 then byteOf x.toBitVec 2 ||| byteOf x.toBitVec 4
    else if k = 2 ∨ k = 3 then 0
    else byteOf x.toBitVec (7 - k) := by
  have lanes : (bswap64 x).toBitVec =
      ((x.toBitVec &&& lane 64 0) <<< (8 * 7)) ||| ((x.toBitVec &&& lane 64 1) <<< (8 * 5)) |||
        ((x.toBitVec &&& lane 64 2) <<< (8 * 3)) ||| ((x.toBitVec &&& lane 64 3) <<< (8 * 1)) |||
        ((x.toBitVec &&& lane 64 4) <<< (8 * 1)) ||| ((x.toBitVec &&& lane 64 5) <<< (8 * 3)) |||
        ((x.toBitVec &&& lane 64 6) >>> (8 * 5)) ||| ((x.toBitVec &&& lane 64 7) >>> (8 * 7)) := rfl
  rw [lanes]
  simp only [byteOf_or, byteOf_down]
  rw [byteOf_up (by omega), byteOf_up (by omega), byteOf_up (by omega), byteOf_up (by omega), byteOf_up (by omega),
    byteOf_up (by omega)]
  interval_cases k <;> simp

/-- Bytes 4 and 5 go the wrong way: one to the place of byte 2 instead of its own, the other one out. -/
theorem bswap64_reverses_iff (x : UInt64) : Reverses (n := 8) x.toBitVec (bswap64 x).toBitVec ↔
    byteOf x.toBitVec 4 = 0 ∧ byteOf x.toBitVec 5 = 0 := by
  constructor
  · intro reverses
    have three := reverses 3 (by decide)
    have two := reverses 2 (by decide)
    rw [bswap64_byte x (by decide)] at three two
    exact ⟨three.symm, two.symm⟩
  · rintro ⟨four, five⟩ k inside
    rw [bswap64_byte x inside]
    interval_cases k <;> simp [four, five]

theorem bswap64_twice_iff (x : UInt64) : bswap64 (bswap64 x) = x ↔
    (byteOf x.toBitVec 2 = 0 ∧ byteOf x.toBitVec 3 = 0) ∧ byteOf x.toBitVec 4 = 0 ∧ byteOf x.toBitVec 5 = 0 := by
  have twice : ∀ k, k < 8 → byteOf (bswap64 (bswap64 x)).toBitVec k =
      if k = 5 then byteOf x.toBitVec 3 else if k = 2 ∨ k = 3 ∨ k = 4 then 0 else byteOf x.toBitVec k := by
    intro k inside
    rw [bswap64_byte _ inside]
    interval_cases k <;> simp [bswap64_byte]
  constructor
  · intro same
    have each := fun k inside => (twice k inside).symm.trans (congrArg (fun y => byteOf y.toBitVec k) same)
    have five := each 5 (by decide)
    have three := each 3 (by decide)
    exact ⟨⟨(each 2 (by decide)).symm, three.symm⟩, (each 4 (by decide)).symm, five.symm.trans three.symm⟩
  · rintro ⟨⟨two, three⟩, four, five⟩
    apply UInt64.toBitVec_inj.mp
    apply eq_of_bytes (n := 8)
    intro k inside
    rw [twice k inside]
    interval_cases k <;> simp [two, three, four, five]

/-! ### Halves -/

/-- Two halves as they are joined on either machine. -/
def paste (high low : UInt32) : UInt64 := (high.toUInt64 <<< 32) ||| low.toUInt64

theorem join_little (x1 x2 : UInt32) : join32to64 .little x1 x2 = paste x2 x1 := UInt64.or_comm ..

theorem paste_byte (high low : UInt32) {k : Nat} (inside : k < 8) : byteOf (paste high low).toBitVec k =
    if k < 4 then byteOf low.toBitVec k else byteOf high.toBitVec (k - 4) := by
  have halves : (paste high low).toBitVec =
      (high.toBitVec.setWidth 64 <<< (8 * 4)) ||| low.toBitVec.setWidth 64 := rfl
  have lower : byteOf (low.toBitVec.setWidth 64) k = byteOf low.toBitVec k := byteOf_setWidth (by omega)
  have upper : byteOf (high.toBitVec.setWidth 64) (k - 4) = byteOf high.toBitVec (k - 4) := byteOf_setWidth (by omega)
  rw [halves, byteOf_or, byteOf_shiftLeft (by omega), lower, upper]
  by_cases above : 4 ≤ k
  · rw [if_pos above, if_neg (by omega), byteOf_beyond (x := low.toBitVec) (by omega)]
    simp
  · rw [if_neg above, if_pos (by omega)]
    simp

theorem upper_half (x : UInt64) {k : Nat} (inside : k < 4) :
    byteOf (x >>> 32).toUInt32.toBitVec k = byteOf x.toBitVec (k + 4) := by
  have half : (x >>> 32).toUInt32.toBitVec = (x.toBitVec >>> (8 * 4)).setWidth 32 := rfl
  rw [half, byteOf_setWidth (by omega), byteOf_shiftRight]

theorem lower_half (x : UInt64) {k : Nat} (inside : k < 4) :
    byteOf (x &&& 0xffffffff).toUInt32.toBitVec k = byteOf x.toBitVec k := by
  have half : (x &&& 0xffffffff).toUInt32.toBitVec = (x.toBitVec &&& 0xffffffff#64).setWidth 32 := rfl
  rw [half, byteOf_setWidth (by omega)]
  apply BitVec.eq_of_getLsbD_eq
  intro i bit
  have ones : (0xffffffff : Nat) = 2 ^ 32 - 1 := rfl
  rw [byteOf_bit bit, byteOf_bit bit, BitVec.getLsbD_and, BitVec.getLsbD_ofNat, ones, Nat.testBit_two_pow_sub_one]
  grind

/-- The swapped halves the other way round are the bytes of both in the other order. -/
theorem paste_reverses (high low : UInt32) :
    Reverses (n := 8) (paste high low).toBitVec (paste (bswap32 low) (bswap32 high)).toBitVec := by
  intro k inside
  rw [paste_byte _ _ inside, paste_byte _ _ (by omega)]
  by_cases below : k < 4
  · rw [if_pos below, if_neg (by omega), bswap32_reverses high k below]
    congr 1
    omega
  · rw [if_neg below, if_pos (by omega), bswap32_reverses low (k - 4) (by omega)]
    congr 1
    omega

theorem join_reverses (order : ByteOrder) (x1 x2 : UInt32) :
    Reverses (n := 8) (join32to64 order x1 x2).toBitVec (join32to64 order (bswap32 x2) (bswap32 x1)).toBitVec := by
  cases order with
  | big => exact paste_reverses x1 x2
  | little =>
    rw [join_little, join_little]
    exact paste_reverses x2 x1

theorem paste_halves (high low : UInt32) :
    (paste high low >>> 32).toUInt32 = high ∧ (paste high low &&& 0xffffffff).toUInt32 = low := by
  refine ⟨UInt32.toBitVec_inj.mp (eq_of_bytes (n := 4) fun k inside => ?_),
    UInt32.toBitVec_inj.mp (eq_of_bytes (n := 4) fun k inside => ?_)⟩
  · rw [upper_half _ inside, paste_byte _ _ (by omega), if_neg (by omega), Nat.add_sub_cancel]
  · rw [lower_half _ inside, paste_byte _ _ (by omega), if_pos inside]

theorem halves_paste (x : UInt64) : paste (x >>> 32).toUInt32 (x &&& 0xffffffff).toUInt32 = x := by
  apply UInt64.toBitVec_inj.mp
  apply eq_of_bytes (n := 8)
  intro k inside
  rw [paste_byte _ _ inside]
  by_cases below : k < 4
  · rw [if_pos below, lower_half x below]
  · rw [if_neg below, upper_half x (by omega), Nat.sub_add_cancel (by omega)]

theorem split_join (order : ByteOrder) (x1 x2 : UInt32) : split64to32 order (join32to64 order x1 x2) = (x1, x2) := by
  cases order with
  | big =>
    obtain ⟨upper, lower⟩ := paste_halves x1 x2
    exact Prod.ext upper lower
  | little =>
    obtain ⟨upper, lower⟩ := paste_halves x2 x1
    rw [join_little]
    exact Prod.ext lower upper

theorem join_split (order : ByteOrder) (x : UInt64) :
    join32to64 order (split64to32 order x).1 (split64to32 order x).2 = x := by
  cases order with
  | big => exact halves_paste x
  | little =>
    rw [join_little]
    exact halves_paste x

/-- `bswap64` joined from the halves of a value is the join of the swapped halves, exchanged, when it turns
the bytes around. -/
theorem bswap64_halves_iff (order : ByteOrder) (x : UInt64) :
    bswap64 x = join32to64 order (bswap32 (split64to32 order x).2) (bswap32 (split64to32 order x).1) ↔
      Reverses (n := 8) x.toBitVec (bswap64 x).toBitVec := by
  have turned := join_reverses order (split64to32 order x).1 (split64to32 order x).2
  rw [join_split] at turned
  constructor
  · intro same
    rw [same]
    exact turned
  · intro reverses
    exact UInt64.toBitVec_inj.mp (reverses.unique turned)

theorem middle_iff (x : UInt64) : x &&& 0x0000ffffffff0000 = 0 ↔
    (byteOf x.toBitVec 2 = 0 ∧ byteOf x.toBitVec 3 = 0) ∧ byteOf x.toBitVec 4 = 0 ∧ byteOf x.toBitVec 5 = 0 := by
  have masked : ∀ k, byteOf (x &&& 0x0000ffffffff0000).toBitVec k =
      byteOf x.toBitVec k &&& byteOf 0x0000ffffffff0000#64 k := fun k => byteOf_and
  have ones : ∀ k : Fin 8, byteOf 0x0000ffffffff0000#64 k = if 2 ≤ k.val ∧ k.val < 6 then 0xff#8 else 0 := by decide
  have all : ∀ y : BitVec 8, y &&& 0xff#8 = y := fun y => BitVec.and_allOnes
  have none : ∀ k, byteOf (0 : UInt64).toBitVec k = 0 := by simp [byteOf]
  constructor
  · intro zero
    have each : ∀ k : Fin 8, 2 ≤ k.val ∧ k.val < 6 → byteOf x.toBitVec k = 0 := by
      intro k middle
      have byte := masked k
      rw [zero, ones k, if_pos middle, all, none] at byte
      exact byte.symm
    exact ⟨⟨each 2 (by decide), each 3 (by decide)⟩, each 4 (by decide), each 5 (by decide)⟩
  · rintro ⟨⟨two, three⟩, four, five⟩
    apply UInt64.toBitVec_inj.mp
    apply eq_of_bytes (n := 8)
    intro k inside
    rw [masked, ones ⟨k, inside⟩, none]
    interval_cases k <;> simp [two, three, four, five]

/-- What is asked of `bswap64` at a value. -/
def Swaps64 (x : UInt64) : Prop :=
  Reverses (n := 8) x.toBitVec (bswap64 x).toBitVec ∧ bswap64 (bswap64 x) = x ∧ ∀ order,
    bswap64 x = join32to64 order (bswap32 (split64to32 order x).2) (bswap32 (split64to32 order x).1)

/-- The swaps and joins do what they should at any values when the four bytes in the middle of the value
for `bswap64` are zero. -/
theorem bswap_swaps_iff (x16 : UInt16) (x32 x1 x2 : UInt32) (x : UInt64) (order : ByteOrder) :
    ((Reverses (n := 2) x16.toBitVec (bswap16 x16).toBitVec ∧ bswap16 (bswap16 x16) = x16) ∧
      (Reverses (n := 4) x32.toBitVec (bswap32 x32).toBitVec ∧ bswap32 (bswap32 x32) = x32) ∧
      (split64to32 order (join32to64 order x1 x2) = (x1, x2) ∧
        join32to64 order (split64to32 order x).1 (split64to32 order x).2 = x) ∧
      Swaps64 x) ↔ x &&& 0x0000ffffffff0000 = 0 := by
  have short : bswap16 (bswap16 x16) = x16 :=
    UInt16.toBitVec_inj.mp ((bswap16_reverses (bswap16 x16)).unique (bswap16_reverses x16).symm)
  have long : bswap32 (bswap32 x32) = x32 :=
    UInt32.toBitVec_inj.mp ((bswap32_reverses (bswap32 x32)).unique (bswap32_reverses x32).symm)
  rw [middle_iff]
  constructor
  · rintro ⟨-, -, -, -, twice, -⟩
    exact (bswap64_twice_iff x).mp twice
  · intro middle
    have reverses := (bswap64_reverses_iff x).mpr middle.2
    exact ⟨⟨bswap16_reverses x16, short⟩, ⟨bswap32_reverses x32, long⟩, ⟨split_join order x1 x2, join_split order x⟩,
      reverses, (bswap64_twice_iff x).mpr middle, fun order => (bswap64_halves_iff order x).mpr reverses⟩

/-- A value with one bit in its fifth byte. -/
theorem bswap64_crosses : bswap64 0x0000000100000000 = 0x0000010000000000 ∧ bswap64 (bswap64 0x0000000100000000) = 0 ∧
    ¬ Swaps64 0x0000000100000000 := by
  refine ⟨by decide, by decide, fun swaps => ?_⟩
  exact absurd swaps.2.1 (by decide)

end Os161
