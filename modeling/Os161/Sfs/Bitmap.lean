import Os161.Base.Bits
import Os161.Base.Outcome

/-!
# Bitmaps

`lib/bitmap.c`. The bits are in `v`, which has room for `words` bytes; what is behind them is not
there to be touched.
-/

namespace Os161

structure Bitmap where
  nbits : UInt32
  words : UInt32
  v : Bytes

def divroundup (a b : UInt32) : UInt32 := (a + b - 1) / b

namespace Bitmap

def load (b : Bitmap) (ix : UInt32) : Outcome UInt8 :=
  if ix < b.words then return b.v ix.toNat else .fault

def mask (bitno : UInt32) : UInt8 := bitMask (bitno % 8).toNat

/-- The leftover bits at the end of the last byte, from `j` on. -/
def markLeftover (byte : UInt8) (j : Nat) : Nat → UInt8
  | 0 => byte
  | left + 1 => markLeftover (byte ||| bitMask j) (j + 1) left

/-- `bitmap_create`, with the outcomes of its two calls of `kmalloc`. -/
def bitmapCreate (nbits : UInt32) (kmallocB kmallocV : Bool) : Outcome (Option Bitmap) :=
  let words := divroundup nbits 8
  if kmallocB = false then return none
  else if kmallocV = false then return none
  else if nbits / 8 < words then do
    let ix := words - 1
    let overbits := nbits - ix * 8
    Outcome.kassert (nbits / 8 = words - 1)
    Outcome.kassert (0 < overbits ∧ overbits < 8)
    let last := markLeftover 0 overbits.toNat (8 - overbits.toNat)
    return some ⟨nbits, words, Function.update (fun _ => 0) ix.toNat last⟩
  else return some ⟨nbits, words, fun _ => 0⟩

/-- The inner loop of `bitmap_alloc`, with the number of bits of the byte it has not looked at. -/
def allocIn (b : Bitmap) (ix : UInt32) (offset : UInt32) : Nat → Outcome (Option UInt32 × Bitmap)
  | 0 => .panic
  | left + 1 => do
    let byte ← b.load ix
    if byte &&& bitMask offset.toNat = 0 then
      let index := ix * 8 + offset
      Outcome.kassert (index < b.nbits)
      return (some index, { b with v := Function.update b.v ix.toNat (byte ||| bitMask offset.toNat) })
    else allocIn b ix (offset + 1) left

/-- The outer loop. Without an index it comes back with `ENOSPC`. -/
def allocFrom (b : Bitmap) (ix : UInt32) : Nat → Outcome (Option UInt32 × Bitmap)
  | 0 => return (none, b)
  | left + 1 => do
    let byte ← b.load ix
    if byte ≠ 0xff then allocIn b ix 0 8 else allocFrom b (ix + 1) left

def bitmapAlloc (b : Bitmap) : Outcome (Option UInt32 × Bitmap) :=
  allocFrom b 0 (divroundup b.nbits 8).toNat

def bitmapMark (b : Bitmap) (index : UInt32) : Outcome Bitmap := do
  Outcome.kassert (index < b.nbits)
  let byte ← b.load (index / 8)
  Outcome.kassert (byte &&& mask index = 0)
  return { b with v := Function.update b.v (index / 8).toNat (byte ||| mask index) }

def bitmapUnmark (b : Bitmap) (index : UInt32) : Outcome Bitmap := do
  Outcome.kassert (index < b.nbits)
  let byte ← b.load (index / 8)
  Outcome.kassert (byte &&& mask index ≠ 0)
  return { b with v := Function.update b.v (index / 8).toNat (byte &&& ~~~mask index) }

def bitmapIsset (b : Bitmap) (index : UInt32) : Outcome Bool := do
  let byte ← b.load (index / 8)
  return decide (byte &&& mask index ≠ 0)

/-- The bit of a number. -/
def bit (b : Bitmap) (i : UInt32) : Bool := b.v.bit i.toNat

/-- The bytes are the fewest with room for the bits, and what is left of the last one is set. -/
structure Padded (b : Bitmap) : Prop where
  fits : b.nbits.toNat + 7 < 2 ^ 32
  words : b.words.toNat = (b.nbits.toNat + 7) / 8
  padding : ∀ j, b.nbits.toNat ≤ j → j < 8 * b.words.toNat → b.v.bit j = true

/-- Every bit has its byte, and no byte has bits that are not counted. -/
structure Whole (b : Bitmap) : Prop where
  words : b.words = b.nbits / 8
  even : b.nbits % 8 = 0

def mark (b : Bitmap) (i : UInt32) : Bitmap := { b with v := b.v.setBit i.toNat }

def unmark (b : Bitmap) (i : UInt32) : Bitmap := { b with v := b.v.clearBit i.toNat }

variable {b : Bitmap} {i j : UInt32}

@[simp] theorem mark_nbits : (b.mark i).nbits = b.nbits := rfl
@[simp] theorem unmark_nbits : (b.unmark i).nbits = b.nbits := rfl

theorem Whole.mark (h : b.Whole) : (b.mark i).Whole := ⟨h.words, h.even⟩

theorem Whole.unmark (h : b.Whole) : (b.unmark i).Whole := ⟨h.words, h.even⟩

theorem Whole.padded (h : b.Whole) : b.Padded := by
  have words := h.words
  have even := h.even
  have limit := b.nbits.toNat_lt
  rw [← UInt32.toNat_inj, UInt32.toNat_mod] at even
  rw [← UInt32.toNat_inj, UInt32.toNat_div] at words
  simp only [UInt32.reduceToNat] at even words
  exact ⟨by omega, by omega, fun j above below => by omega⟩

theorem mark_bit : (b.mark i).bit j = (b.bit j || decide (i = j)) := by
  unfold mark bit
  rw [Bytes.bit_setBit]
  congr 1
  rw [decide_eq_decide, UInt32.toNat_inj]

theorem unmark_bit : (b.unmark i).bit j = (b.bit j && decide (i ≠ j)) := by
  unfold unmark bit
  rw [Bytes.bit_clearBit]
  congr 1
  rw [decide_eq_decide, Ne, Ne, UInt32.toNat_inj]

theorem unmark_mark (clear : b.bit i = false) : (b.mark i).unmark i = b := by
  unfold mark unmark
  rw [Bytes.clearBit_setBit clear]

theorem Padded.mark (h : b.Padded) : (b.mark i).Padded where
  fits := h.fits
  words := h.words
  padding j above below := by
    unfold Bitmap.mark
    rw [Bytes.bit_setBit, h.padding j above below, Bool.true_or]

theorem Padded.unmark (h : b.Padded) (inside : i < b.nbits) : (b.unmark i).Padded where
  fits := h.fits
  words := h.words
  padding j above below := by
    have other : i.toNat ≠ j := by
      rw [UInt32.lt_iff_toNat_lt] at inside
      change b.nbits.toNat ≤ j at above
      omega
    exact (Bytes.clearBit_other other).trans (h.padding j above below)

theorem Padded.index (h : b.Padded) (inside : i < b.nbits) : i / 8 < b.words := by
  have words := h.words
  rw [UInt32.lt_iff_toNat_lt] at inside
  rw [UInt32.lt_iff_toNat_lt, UInt32.toNat_div, words]
  simp only [UInt32.reduceToNat]
  omega

theorem Whole.index (h : b.Whole) (inside : i < b.nbits) : i / 8 < b.words := h.padded.index inside

theorem load_byte {ix : UInt32} (inside : ix < b.words) : b.load ix = .done (b.v ix.toNat) :=
  if_pos inside

theorem Padded.load (h : b.Padded) (inside : i < b.nbits) :
    b.load (i / 8) = .done (b.v (i.toNat / 8)) := by
  rw [load_byte (h.index inside), UInt32.toNat_div]
  rfl

theorem mask_eq : mask i = bitMask (i.toNat % 8) := by
  unfold mask
  rw [UInt32.toNat_mod]
  rfl

theorem Padded.isset (h : b.Padded) (inside : i < b.nbits) :
    bitmapIsset b i = .done (b.bit i) := by
  unfold bitmapIsset
  rw [h.load inside, Outcome.done_bind, mask_eq]
  have test : decide (b.v (i.toNat / 8) &&& bitMask (i.toNat % 8) ≠ 0) = b.bit i := by
    rw [Bool.eq_iff_iff, decide_eq_true_iff]
    exact Bytes.and_bitMask
  rw [test]
  rfl

theorem Whole.isset (h : b.Whole) (inside : i < b.nbits) : bitmapIsset b i = .done (b.bit i) :=
  h.padded.isset inside

theorem Padded.marks (h : b.Padded) (inside : i < b.nbits) (clear : b.bit i = false) :
    bitmapMark b i = .done (b.mark i) := by
  unfold bitmapMark
  have test : b.v (i.toNat / 8) &&& bitMask (i.toNat % 8) = 0 := by
    by_contra set
    exact Bool.false_ne_true (clear.symm.trans (Bytes.and_bitMask.mp set))
  rw [Outcome.kassert_bind inside, h.load inside, Outcome.done_bind, mask_eq,
    Outcome.kassert_bind test, UInt32.toNat_div]
  rfl

/-- Marking what is marked stops the machine. -/
theorem Padded.mark_panics (h : b.Padded) (inside : i < b.nbits) (set : b.bit i = true) :
    bitmapMark b i = .panic := by
  unfold bitmapMark
  rw [Outcome.kassert_bind inside, h.load inside, Outcome.done_bind, mask_eq,
    Outcome.kassert_fails]
  exact Bytes.and_bitMask.mpr set

theorem Padded.unmarks (h : b.Padded) (inside : i < b.nbits) (set : b.bit i = true) :
    bitmapUnmark b i = .done (b.unmark i) := by
  unfold bitmapUnmark
  rw [Outcome.kassert_bind inside, h.load inside, Outcome.done_bind, mask_eq,
    Outcome.kassert_bind (Bytes.and_bitMask.mpr set), UInt32.toNat_div]
  rfl

theorem Whole.unmarks (h : b.Whole) (inside : i < b.nbits) (set : b.bit i = true) :
    bitmapUnmark b i = .done (b.unmark i) :=
  h.padded.unmarks inside set

/-- Unmarking what is not marked stops the machine. -/
theorem Padded.unmark_panics (h : b.Padded) (inside : i < b.nbits) (clear : b.bit i = false) :
    bitmapUnmark b i = .panic := by
  unfold bitmapUnmark
  rw [Outcome.kassert_bind inside, h.load inside, Outcome.done_bind, mask_eq,
    Outcome.kassert_fails]
  rw [Bytes.and_bitMask]
  exact fun set => Bool.false_ne_true (clear.symm.trans set)

theorem Whole.unmark_panics (h : b.Whole) (inside : i < b.nbits) (clear : b.bit i = false) :
    bitmapUnmark b i = .panic :=
  h.padded.unmark_panics inside clear

/-- What `bitmap_alloc` is after. -/
def Free (b : Bitmap) (i : UInt32) : Prop := i < b.nbits ∧ b.bit i = false

/-- In a byte with a bit that is not set, the inner loop takes the first one. -/
theorem Padded.allocIn_takes (h : b.Padded) {ix : UInt32} (inside : ix < b.words) {offset : UInt32}
    {left : Nat} (bits : offset.toNat + left = 8)
    (clear : ∃ k, offset.toNat ≤ k ∧ k < 8 ∧ b.v.bit (8 * ix.toNat + k) = false) :
    ∃ i, b.Free i ∧ (∀ j, 8 * ix.toNat + offset.toNat ≤ j → j < i.toNat → b.v.bit j = true) ∧
      allocIn b ix offset left = .done (some i, b.mark i) := by
  induction left generalizing offset with
  | zero =>
    obtain ⟨k, above, below, _⟩ := clear
    omega
  | succ left ih =>
    have words := h.words
    have fits := h.fits
    have within := inside
    rw [UInt32.lt_iff_toNat_lt, words] at within
    have number : (ix * 8 + offset).toNat = 8 * ix.toNat + offset.toNat := by
      rw [UInt32.toNat_add, UInt32.toNat_mul]
      simp only [UInt32.reduceToNat]
      omega
    have place : (8 * ix.toNat + offset.toNat) / 8 = ix.toNat := by omega
    have bitno : (8 * ix.toNat + offset.toNat) % 8 = offset.toNat := by omega
    have test : b.v ix.toNat &&& bitMask offset.toNat ≠ 0 ↔
        b.v.bit (8 * ix.toNat + offset.toNat) = true := by
      have masked := @Bytes.and_bitMask b.v (8 * ix.toNat + offset.toNat)
      rwa [place, bitno] at masked
    unfold allocIn
    rw [load_byte inside, Outcome.done_bind]
    by_cases set : b.v ix.toNat &&& bitMask offset.toNat = 0
    · have free : b.v.bit (8 * ix.toNat + offset.toNat) = false := by
        rw [← Bool.not_eq_true]
        exact fun marked => test.mpr marked set
      have below : ix * 8 + offset < b.nbits := by
        rw [UInt32.lt_iff_toNat_lt, number]
        by_contra beyond
        have marked := h.padding (8 * ix.toNat + offset.toNat) (by omega) (by omega)
        exact Bool.false_ne_true (free.symm.trans marked)
      rw [if_pos set, Outcome.kassert_bind below]
      refine ⟨_, ⟨below, ?_⟩, fun j above before => ?_, ?_⟩
      · unfold Bitmap.bit
        rw [number, free]
      · omega
      · unfold Bitmap.mark Bytes.setBit
        rw [number, place, bitno]
        rfl
    · rw [if_neg set]
      have marked := test.mp set
      obtain ⟨k, above, below, clear⟩ := clear
      have later : offset.toNat ≠ k := by
        rintro rfl
        exact Bool.false_ne_true (clear.symm.trans marked)
      have next : (offset + 1).toNat = offset.toNat + 1 := by
        rw [UInt32.toNat_add]
        simp only [UInt32.reduceToNat]
        omega
      obtain ⟨i, free, least, takes⟩ := @ih (offset + 1) (by omega) ⟨k, by omega, below, clear⟩
      refine ⟨i, free, fun j above before => ?_, takes⟩
      by_cases here : j = 8 * ix.toNat + offset.toNat
      · exact here ▸ marked
      · exact least j (by omega) before

/-- The outer loop takes the first free bit, or there is none from where it starts. -/
theorem Padded.allocFrom_takes (h : b.Padded) {ix : UInt32} {left : Nat}
    (bytes : ix.toNat + left = b.words.toNat) :
    (∃ i, b.Free i ∧ (∀ j, 8 * ix.toNat ≤ j → j < i.toNat → b.v.bit j = true) ∧
      allocFrom b ix left = .done (some i, b.mark i)) ∨
      ((∀ j, 8 * ix.toNat ≤ j → j < b.nbits.toNat → b.v.bit j = true) ∧
        allocFrom b ix left = .done (none, b)) := by
  induction left generalizing ix with
  | zero =>
    have words := h.words
    exact .inr ⟨fun j above below => by omega, rfl⟩
  | succ left ih =>
    have inside : ix < b.words := by
      rw [UInt32.lt_iff_toNat_lt]
      omega
    unfold allocFrom
    rw [load_byte inside, Outcome.done_bind]
    by_cases full : b.v ix.toNat = 0xff
    · rw [if_neg (by simpa using full)]
      have next : (ix + 1).toNat = ix.toNat + 1 := by
        have limit := b.words.toNat_lt
        rw [UInt32.toNat_add]
        simp only [UInt32.reduceToNat]
        omega
      have here : ∀ j, 8 * ix.toNat ≤ j → j < 8 * (ix + 1).toNat → b.v.bit j = true := by
        intro j above below
        obtain ⟨k, rfl⟩ : ∃ k, j = 8 * ix.toNat + k := ⟨j - 8 * ix.toNat, by omega⟩
        exact Bytes.bit_of_full full (by omega)
      rcases @ih (ix + 1) (by omega) with ⟨i, free, least, takes⟩ | ⟨rest, none⟩
      · refine .inl ⟨i, free, fun j above before => ?_, takes⟩
        by_cases below : j < 8 * (ix + 1).toNat
        · exact here j above below
        · exact least j (by omega) before
      · refine .inr ⟨fun j above before => ?_, none⟩
        by_cases below : j < 8 * (ix + 1).toNat
        · exact here j above below
        · exact rest j (by omega) before
    · rw [if_pos full]
      obtain ⟨k, below, clear⟩ := Bytes.exists_clear full
      have takes := @Padded.allocIn_takes b h ix inside 0 8 rfl ⟨k, Nat.zero_le _, below, clear⟩
      exact .inl takes

/-- `bitmap_alloc` marks the first bit that was not marked, or all are. -/
theorem Padded.alloc (h : b.Padded) :
    (∃ i, b.Free i ∧ (∀ j, j < i → b.bit j = true) ∧ bitmapAlloc b = .done (some i, b.mark i)) ∨
      ((∀ i, i < b.nbits → b.bit i = true) ∧ bitmapAlloc b = .done (none, b)) := by
  have bytes : (divroundup b.nbits 8).toNat = b.words.toNat := by
    have words := h.words
    have fits := h.fits
    unfold divroundup
    rw [UInt32.toNat_div, UInt32.toNat_sub, UInt32.toNat_add]
    simp only [UInt32.reduceToNat]
    omega
  have takes := @Padded.allocFrom_takes b h 0 (divroundup b.nbits 8).toNat (by simpa using bytes)
  unfold bitmapAlloc
  rcases takes with ⟨i, free, least, takes⟩ | ⟨full, none⟩
  · exact .inl ⟨i, free, fun j before => least j.toNat (by simp) (UInt32.lt_iff_toNat_lt.mp before),
      takes⟩
  · exact .inr ⟨fun i inside => full i.toNat (by simp) (UInt32.lt_iff_toNat_lt.mp inside), none⟩

theorem Whole.alloc (h : b.Whole) : (∃ i, b.Free i ∧ bitmapAlloc b = .done (some i, b.mark i)) ∨
    ((∀ i, i < b.nbits → b.bit i = true) ∧ bitmapAlloc b = .done (none, b)) := by
  rcases h.padded.alloc with ⟨i, free, _, takes⟩ | full
  · exact .inl ⟨i, free, takes⟩
  · exact .inr full

end Bitmap

end Os161
