import Mathlib.Algebra.GroupWithZero.Nat
import Mathlib.Data.Fin.Basic

/-!
# Words in memory

How 32-bit numbers are stored: the machine is big-endian.
-/

namespace Os161

/-- The number that is stored in some bytes. -/
def bytesWord (bytes : List UInt8) : UInt32 :=
  bytes.foldl (fun word byte => word <<< 8 ||| byte.toUInt32) 0

/-- How a word is stored. -/
def wordBytes (word : UInt32) : List UInt8 :=
  [(word >>> 24).toUInt8, (word >>> 16).toUInt8, (word >>> 8).toUInt8, word.toUInt8]

theorem bytesWord_wordBytes (word : UInt32) : bytesWord (wordBytes word) = word := by
  apply UInt32.toBitVec_inj.mp
  apply BitVec.eq_of_getLsbD_eq
  intro i inside
  simp only [bytesWord, wordBytes, List.foldl, UInt32.toBitVec_or, UInt32.toBitVec_shiftLeft,
    UInt8.toBitVec_toUInt32, UInt32.toBitVec_toUInt8, UInt32.toBitVec_shiftRight, BitVec.getLsbD_or]
  simp [-BitVec.setWidth_eq, BitVec.getLsbD_setWidth, BitVec.getLsbD_shiftLeft]
  grind

theorem wordBytes_bytesWord (a b c d : UInt8) : wordBytes (bytesWord [a, b, c, d]) = [a, b, c, d] := by
  have byte : ∀ {x y : UInt8}, (∀ i, i < 8 → x.toBitVec.getLsbD i = y.toBitVec.getLsbD i) → x = y := by
    intro x y same
    apply UInt8.toBitVec_inj.mp
    exact BitVec.eq_of_getLsbD_eq same
  simp only [bytesWord, wordBytes, List.foldl, List.cons.injEq, and_true]
  refine ⟨byte fun i inside => ?_, byte fun i inside => ?_, byte fun i inside => ?_,
    byte fun i inside => ?_⟩
  all_goals
    simp only [UInt32.toBitVec_or, UInt32.toBitVec_shiftLeft, UInt8.toBitVec_toUInt32,
      UInt32.toBitVec_toUInt8, UInt32.toBitVec_shiftRight]
    simp [-BitVec.setWidth_eq, BitVec.getLsbD_setWidth, BitVec.getLsbD_shiftLeft]
    grind

variable {n : Nat}

/-- The bytes of an array of words. -/
def packWords (words : Fin n → UInt32) : Fin (4 * n) → UInt8 := fun a =>
  (wordBytes (words ⟨a / 4, by omega⟩)).getD (a % 4) 0

/-- The array of words in some bytes. -/
def unpackWords (bytes : Fin (4 * n) → UInt8) : Fin n → UInt32 := fun i =>
  bytesWord [bytes ⟨4 * i, by omega⟩, bytes ⟨4 * i + 1, by omega⟩, bytes ⟨4 * i + 2, by omega⟩,
    bytes ⟨4 * i + 3, by omega⟩]

theorem packWords_byte (words : Fin n → UInt32) (i : Fin n) {k : Nat} (few : k < 4) :
    packWords words ⟨4 * i + k, by omega⟩ = (wordBytes (words i)).getD k 0 := by
  have index : (⟨(4 * i.val + k) / 4, by omega⟩ : Fin n) = i := by
    apply Fin.ext
    change (4 * i.val + k) / 4 = i
    omega
  have offset : (4 * i.val + k) % 4 = k := by omega
  unfold packWords
  rw [index, offset]

/-- Bytes are equal when the bytes of each word are. -/
theorem eq_of_words {bytes bytes' : Fin (4 * n) → UInt8}
    (same : ∀ (i : Fin n) (k : Nat) (few : k < 4),
      bytes ⟨4 * i + k, by omega⟩ = bytes' ⟨4 * i + k, by omega⟩) : bytes = bytes' := by
  funext a
  have split : a = ⟨4 * (a / 4) + a % 4, by omega⟩ := by
    apply Fin.ext
    change a.val = 4 * (a.val / 4) + a.val % 4
    omega
  rw [split]
  exact same ⟨a / 4, by omega⟩ (a % 4) (by omega)

@[simp] theorem unpack_packWords (words : Fin n → UInt32) : unpackWords (packWords words) = words := by
  funext i
  unfold unpackWords
  have first : packWords words ⟨4 * i, by omega⟩ = (wordBytes (words i)).getD 0 0 :=
    packWords_byte words i (k := 0) (by decide)
  rw [first, packWords_byte words i (k := 1) (by decide), packWords_byte words i (k := 2) (by decide),
    packWords_byte words i (k := 3) (by decide)]
  exact bytesWord_wordBytes (words i)

@[simp] theorem pack_unpackWords (bytes : Fin (4 * n) → UInt8) :
    packWords (unpackWords bytes) = bytes := by
  apply eq_of_words
  intro i k few
  rw [packWords_byte _ _ few]
  unfold unpackWords
  rw [wordBytes_bytesWord]
  match k, few with
  | 0, _ => rfl
  | 1, _ => rfl
  | 2, _ => rfl
  | 3, _ => rfl

/-- Zeroed memory is an array of zeros. -/
theorem packWords_zero : packWords (fun _ : Fin n => 0) = fun _ => 0 := by
  apply eq_of_words
  intro i k few
  rw [packWords_byte _ _ few]
  match k, few with
  | 0, _ => rfl
  | 1, _ => rfl
  | 2, _ => rfl
  | 3, _ => rfl

theorem unpackWords_zero : unpackWords (fun _ : Fin (4 * n) => 0) = fun _ => 0 := by
  rw [← packWords_zero, unpack_packWords]

end Os161
