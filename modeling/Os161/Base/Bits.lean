import Os161.Base.Memory

/-!
# Bits in memory

An array of bytes as an array of bits, the lowest bit of a byte first.
-/

namespace Os161

/-- The byte in which only this bit is set. -/
def bitMask (k : Nat) : UInt8 := 1 <<< UInt8.ofNat k

theorem bitMask_bit {k j : Nat} (byte : k < 8) : (bitMask k).toBitVec.getLsbD j = decide (j = k) := by
  have all : ∀ k : Fin 8, ∀ j : Fin 8,
      (bitMask k).toBitVec.getLsbD j = decide (j.val = k.val) := by decide
  by_cases inside : j < 8
  · exact all ⟨k, byte⟩ ⟨j, inside⟩
  · rw [BitVec.getLsbD_of_ge _ _ (by omega)]
    symm
    rw [decide_eq_false_iff_not]
    omega

namespace Bytes

/-- A bit of an array. -/
def bit (v : Bytes) (i : Nat) : Bool := (v (i / 8)).toBitVec.getLsbD (i % 8)

def setBit (v : Bytes) (i : Nat) : Bytes := Function.update v (i / 8) (v (i / 8) ||| bitMask (i % 8))

def clearBit (v : Bytes) (i : Nat) : Bytes :=
  Function.update v (i / 8) (v (i / 8) &&& ~~~bitMask (i % 8))

variable {v : Bytes} {i j : Nat}

theorem bit_setBit : (v.setBit i).bit j = (v.bit j || decide (i = j)) := by
  unfold bit setBit
  by_cases byte : j / 8 = i / 8
  · rw [byte, Function.update_self, UInt8.toBitVec_or, BitVec.getLsbD_or,
      bitMask_bit (Nat.mod_lt _ (by decide))]
    congr 1
    rw [decide_eq_decide]
    omega
  · rw [Function.update_of_ne byte]
    have other : i ≠ j := by
      rintro rfl
      exact byte rfl
    simp [other]

theorem bit_clearBit : (v.clearBit i).bit j = (v.bit j && decide (i ≠ j)) := by
  unfold bit clearBit
  by_cases byte : j / 8 = i / 8
  · rw [byte, Function.update_self, UInt8.toBitVec_and, BitVec.getLsbD_and, UInt8.toBitVec_not,
      BitVec.getLsbD_not, bitMask_bit (Nat.mod_lt _ (by decide))]
    have inside : j % 8 < 8 := Nat.mod_lt _ (by decide)
    simp only [inside, decide_true, Bool.true_and, decide_not]
    congr 2
    rw [decide_eq_decide]
    omega
  · rw [Function.update_of_ne byte]
    have other : i ≠ j := by
      rintro rfl
      exact byte rfl
    simp [other]

theorem setBit_bit : (v.setBit i).bit i = true := by
  rw [bit_setBit]
  simp

theorem setBit_other (other : i ≠ j) : (v.setBit i).bit j = v.bit j := by
  rw [bit_setBit]
  simp [other]

theorem clearBit_bit : (v.clearBit i).bit i = false := by
  rw [bit_clearBit]
  simp

theorem clearBit_other (other : i ≠ j) : (v.clearBit i).bit j = v.bit j := by
  rw [bit_clearBit]
  simp [other]

/-- Arrays with the same bits are the same. -/
theorem eq_of_bits {v' : Bytes} (same : ∀ i, v.bit i = v'.bit i) : v = v' := by
  funext a
  apply UInt8.toBitVec_inj.mp
  apply BitVec.eq_of_getLsbD_eq
  intro k inside
  have bits := same (8 * a + k)
  unfold bit at bits
  have index : (8 * a + k) / 8 = a := by omega
  have offset : (8 * a + k) % 8 = k := by omega
  rwa [index, offset] at bits

theorem clearBit_setBit (clear : v.bit i = false) : (v.setBit i).clearBit i = v := by
  apply eq_of_bits
  intro j
  rw [bit_clearBit, bit_setBit]
  by_cases same : i = j
  · subst same
    simp [clear]
  · simp [same]

/-- The test of the bit with its mask. -/
theorem and_bitMask : v (i / 8) &&& bitMask (i % 8) ≠ 0 ↔ v.bit i = true := by
  have inside : i % 8 < 8 := Nat.mod_lt _ (by decide)
  constructor
  · intro nonzero
    rw [← Bool.not_eq_false]
    intro clear
    apply nonzero
    apply UInt8.toBitVec_inj.mp
    apply BitVec.eq_of_getLsbD_eq
    intro k _
    rw [UInt8.toBitVec_and, BitVec.getLsbD_and, bitMask_bit inside]
    by_cases here : k = i % 8
    · subst here
      rw [show (v (i / 8)).toBitVec.getLsbD (i % 8) = false from clear]
      simp
    · simp [here]
  · intro set zero
    have both : (v (i / 8) &&& bitMask (i % 8)).toBitVec.getLsbD (i % 8) = true := by
      rw [UInt8.toBitVec_and, BitVec.getLsbD_and, bitMask_bit inside,
        show (v (i / 8)).toBitVec.getLsbD (i % 8) = true from set]
      simp
    rw [zero] at both
    simp at both

/-- A byte that is not all ones has a bit that is not set. -/
theorem exists_clear {k : Nat} (some : v k ≠ 0xff) : ∃ j, j < 8 ∧ v.bit (8 * k + j) = false := by
  by_contra none
  apply some
  apply UInt8.toBitVec_inj.mp
  apply BitVec.eq_of_getLsbD_eq
  intro j inside
  have index : (8 * k + j) / 8 = k := by omega
  have offset : (8 * k + j) % 8 = j := by omega
  have set : v.bit (8 * k + j) = true := by
    rw [← Bool.not_eq_false]
    exact fun clear => none ⟨j, inside, clear⟩
  unfold bit at set
  rw [index, offset] at set
  rw [set]
  have ones : ∀ j : Fin 8, (0xff : UInt8).toBitVec.getLsbD j = true := by decide
  exact (ones ⟨j, inside⟩).symm

theorem bit_of_full {k j : Nat} (full : v k = 0xff) (inside : j < 8) : v.bit (8 * k + j) = true := by
  unfold bit
  have index : (8 * k + j) / 8 = k := by omega
  have offset : (8 * k + j) % 8 = j := by omega
  rw [index, offset, full]
  have ones : ∀ j : Fin 8, (0xff : UInt8).toBitVec.getLsbD j = true := by decide
  exact ones ⟨j, inside⟩

end Bytes

end Os161
