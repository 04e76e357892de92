import Mathlib.Data.Finset.Basic
import Mathlib.Data.Nat.Find
import Os161.Base.Object
import Os161.Sfs.Bitmap

/-!
# A bitmap is a set of numbers

`bitmap_create` and any sequence of `bitmap_alloc`, `bitmap_mark`, `bitmap_unmark` and
`bitmap_isset`. The set keeps no bytes, and `DIVROUNDUP` is in 32 bits.
-/

namespace Os161.Bitmap

inductive Op where
  | alloc
  | mark (index : UInt32)
  | unmark (index : UInt32)
  | isset (index : UInt32)

inductive Answer where
  | index (i : Nat)
  | enospc
  | unit
  | isset (set : Bool)
  deriving DecidableEq

def object : Object Bitmap Op Answer where
  call b
    | .alloc => do
      let (index, b) ← bitmapAlloc b
      match index with
      | some index => return (.index index.toNat, b)
      | none => return (.enospc, b)
    | .mark index => do
      let b ← bitmapMark b index
      return (.unit, b)
    | .unmark index => do
      let b ← bitmapUnmark b index
      return (.unit, b)
    | .isset index => do
      let set ← bitmapIsset b index
      return (.isset set, b)

/-- A set of numbers below `n`. -/
def indices (n : Nat) : Object (Finset Nat) Op Answer where
  call s
    | .alloc =>
      if free : ∃ i, i < n ∧ i ∉ s then
        return (.index (Nat.find free), insert (Nat.find free) s)
      else return (.enospc, s)
    | .mark index => do
      Outcome.kassert (index.toNat < n ∧ index.toNat ∉ s)
      return (.unit, insert index.toNat s)
    | .unmark index => do
      Outcome.kassert (index.toNat < n ∧ index.toNat ∈ s)
      return (.unit, s.erase index.toNat)
    | .isset index => return (.isset (decide (index.toNat ∈ s)), s)

/-- Only `bitmap_isset` does not check its index. -/
def Op.Inside (n : Nat) : Op → Prop
  | .isset index => index.toNat < n
  | _ => True

/-- The bitmap has the bits of these numbers set, of those it counts. -/
structure Holds (n : Nat) (b : Bitmap) (s : Finset Nat) : Prop where
  nbits : b.nbits.toNat = n
  padded : b.Padded
  mem : ∀ i, i ∈ s ↔ i < n ∧ b.v.bit i = true

section Operations

variable {n : Nat} {b : Bitmap} {s : Finset Nat} {i : UInt32}

theorem Holds.inside (h : Holds n b s) : i < b.nbits ↔ i.toNat < n := by
  rw [UInt32.lt_iff_toNat_lt, h.nbits]

theorem Holds.bit (h : Holds n b s) (inside : i.toNat < n) : b.bit i = decide (i.toNat ∈ s) := by
  rw [Bool.eq_iff_iff, decide_eq_true_iff, h.mem]
  exact ⟨fun set => ⟨inside, set⟩, fun member => member.2⟩

theorem Holds.marked (h : Holds n b s) (inside : i.toNat < n) :
    Holds n (b.mark i) (insert i.toNat s) where
  nbits := h.nbits
  padded := h.padded.mark
  mem j := by
    have set := @Bytes.bit_setBit b.v i.toNat j
    unfold Bitmap.mark
    rw [Finset.mem_insert, h.mem, set, Bool.or_eq_true, decide_eq_true_iff]
    constructor
    · rintro (rfl | ⟨below, marked⟩)
      · exact ⟨inside, .inr rfl⟩
      · exact ⟨below, .inl marked⟩
    · rintro ⟨below, marked | rfl⟩
      · exact .inr ⟨below, marked⟩
      · exact .inl rfl

theorem Holds.unmarked (h : Holds n b s) (inside : i.toNat < n) :
    Holds n (b.unmark i) (s.erase i.toNat) where
  nbits := h.nbits
  padded := h.padded.unmark (h.inside.mpr inside)
  mem j := by
    have clear := @Bytes.bit_clearBit b.v i.toNat j
    unfold Bitmap.unmark
    rw [Finset.mem_erase, h.mem, clear, Bool.and_eq_true, decide_eq_true_iff]
    constructor
    · rintro ⟨other, below, marked⟩
      exact ⟨below, marked, Ne.symm other⟩
    · rintro ⟨below, marked, other⟩
      exact ⟨Ne.symm other, below, marked⟩

/-- The call of the bitmap and the call of the set. -/
abbrev Sync (n : Nat) : Answer × Bitmap → Answer × Finset Nat → Prop :=
  fun x y => x.1 = y.1 ∧ Holds n x.2 y.2

theorem Holds.alloc (h : Holds n b s) :
    Outcome.Alike (Sync n) (object.call b .alloc) ((indices n).call s .alloc) := by
  unfold object indices
  dsimp only
  rcases h.padded.alloc with ⟨i, ⟨below, clear⟩, least, takes⟩ | ⟨full, none⟩
  · have inside := h.inside.mp below
    have absent : i.toNat ∉ s := by
      rw [h.bit inside, decide_eq_false_iff_not] at clear
      exact clear
    have free : ∃ k, k < n ∧ k ∉ s := ⟨i.toNat, inside, absent⟩
    have first : Nat.find free = i.toNat := by
      rw [Nat.find_eq_iff]
      refine ⟨⟨inside, absent⟩, fun k before ⟨_, missing⟩ => missing ?_⟩
      have number : (UInt32.ofNat k).toNat = k := by
        have limit := i.toNat_lt
        rw [UInt32.toNat_ofNat']
        omega
      have set := least (UInt32.ofNat k) (UInt32.lt_iff_toNat_lt.mpr (by omega))
      rwa [h.bit (by omega), number, decide_eq_true_iff] at set
    rw [takes, dif_pos free, first]
    exact .done ⟨rfl, h.marked inside⟩
  · have taken : ¬ ∃ k, k < n ∧ k ∉ s := by
      rintro ⟨k, below, absent⟩
      have number : (UInt32.ofNat k).toNat = k := by
        have limit := b.nbits.toNat_lt
        have size := h.nbits
        rw [UInt32.toNat_ofNat']
        omega
      have set := full (UInt32.ofNat k) (h.inside.mpr (by omega))
      rw [h.bit (by omega), number, decide_eq_true_iff] at set
      exact absent set
    rw [none, dif_neg taken]
    exact .done ⟨rfl, h⟩

theorem Holds.mark (h : Holds n b s) :
    Outcome.Alike (Sync n) (object.call b (.mark i)) ((indices n).call s (.mark i)) := by
  unfold object indices
  dsimp only
  by_cases inside : i.toNat < n
  · have below := h.inside.mpr inside
    by_cases member : i.toNat ∈ s
    · have set : b.bit i = true := by rw [h.bit inside, decide_eq_true member]
      rw [h.padded.mark_panics below set, Outcome.kassert_fails fun free => free.2 member]
      exact .panic
    · have clear : b.bit i = false := by rw [h.bit inside, decide_eq_false member]
      rw [h.padded.marks below clear, Outcome.kassert_bind ⟨inside, member⟩]
      exact .done ⟨rfl, h.marked inside⟩
  · unfold bitmapMark
    rw [Outcome.kassert_fails (mt h.inside.mp inside), Outcome.kassert_fails fun free => inside free.1]
    exact .panic

theorem Holds.unmark (h : Holds n b s) :
    Outcome.Alike (Sync n) (object.call b (.unmark i)) ((indices n).call s (.unmark i)) := by
  unfold object indices
  dsimp only
  by_cases inside : i.toNat < n
  · have below := h.inside.mpr inside
    by_cases member : i.toNat ∈ s
    · have set : b.bit i = true := by rw [h.bit inside, decide_eq_true member]
      rw [h.padded.unmarks below set, Outcome.kassert_bind ⟨inside, member⟩]
      exact .done ⟨rfl, h.unmarked inside⟩
    · have clear : b.bit i = false := by rw [h.bit inside, decide_eq_false member]
      rw [h.padded.unmark_panics below clear, Outcome.kassert_fails fun taken => member taken.2]
      exact .panic
  · unfold bitmapUnmark
    rw [Outcome.kassert_fails (mt h.inside.mp inside), Outcome.kassert_fails fun taken => inside taken.1]
    exact .panic

theorem Holds.isset (h : Holds n b s) (inside : i.toNat < n) :
    Outcome.Alike (Sync n) (object.call b (.isset i)) ((indices n).call s (.isset i)) := by
  unfold object indices
  dsimp only
  rw [h.padded.isset (h.inside.mpr inside), h.bit inside]
  exact .done ⟨rfl, h⟩

end Operations

theorem object_refines (n : Nat) :
    object.Refines (indices n) (Holds n) fun _ op => op.Inside n := by
  intro b s op h inside
  cases op with
  | alloc => exact h.alloc
  | mark i => exact h.mark
  | unmark i => exact h.unmark
  | isset i => exact h.isset inside

/-- A set touches no memory. -/
theorem indices_faultless (n : Nat) (s : Finset Nat) (op : Op) :
    ((indices n).call s op).Faultless fun _ => True := by
  unfold indices
  cases op with
  | alloc =>
    dsimp only
    split <;> simp
  | _ => simp

/-- The first call on a new set. -/
theorem indices_first {n : Nat} (positive : 0 < n) :
    (indices n).calls ∅ [.alloc] = .done ([.index 0], {0}) := by
  have free : ∃ i, i < n ∧ i ∉ (∅ : Finset Nat) := ⟨0, positive, by simp⟩
  have first : Nat.find free = 0 := (Nat.find_eq_zero free).mpr ⟨positive, by simp⟩
  unfold Object.calls indices
  dsimp only
  rw [dif_pos free, first]
  rfl

section Create

theorem markLeftover_bit {byte : UInt8} {j left k : Nat} (inside : j + left ≤ 8) :
    (markLeftover byte j left).toBitVec.getLsbD k =
      (byte.toBitVec.getLsbD k || decide (j ≤ k ∧ k < j + left)) := by
  induction left generalizing byte j with
  | zero =>
    have none : ¬ (j ≤ k ∧ k < j + 0) := by omega
    rw [decide_eq_false none, Bool.or_false]
    rfl
  | succ left ih =>
    unfold markLeftover
    rw [ih (by omega), UInt8.toBitVec_or, BitVec.getLsbD_or, bitMask_bit (by omega), Bool.or_assoc]
    congr 1
    rw [← Bool.decide_or, decide_eq_decide]
    omega

variable {nbits : UInt32} {kmallocB kmallocV : Bool} {b : Bitmap}

/-- Up to here the number of bytes does not wrap. -/
abbrev Fits (nbits : UInt32) : Prop := nbits.toNat ≤ 2 ^ 32 - 8

theorem divroundup_fits (fits : Fits nbits) :
    (divroundup nbits 8).toNat = (nbits.toNat + 7) / 8 := by
  have small := nbits.toNat_lt
  unfold Fits at fits
  unfold divroundup
  rw [UInt32.toNat_div, UInt32.toNat_sub, UInt32.toNat_add]
  simp only [UInt32.reduceToNat]
  omega

theorem divroundup_wraps (wraps : ¬ Fits nbits) : divroundup nbits 8 = 0 := by
  have small := nbits.toNat_lt
  unfold Fits at wraps
  apply UInt32.toNat_inj.mp
  unfold divroundup
  rw [UInt32.toNat_div, UInt32.toNat_sub, UInt32.toNat_add]
  simp only [UInt32.reduceToNat]
  omega

theorem zero_bit (j : Nat) : Bytes.bit (fun _ => 0) j = false := BitVec.getLsbD_zero

/-- The bits of a new array with a last byte that is not whole. -/
theorem leftover_bit {n j : Nat} (below : j < 8 * ((n + 7) / 8)) :
    Bytes.bit (Function.update (fun _ => 0) (n / 8) (markLeftover 0 (n % 8) (8 - n % 8))) j =
      decide (n ≤ j) := by
  have none := zero_bit j
  unfold Bytes.bit at none ⊢
  by_cases here : j / 8 = n / 8
  · rw [here, Function.update_self, markLeftover_bit (by omega), none, Bool.false_or, decide_eq_decide]
    omega
  · rw [Function.update_of_ne here, none, eq_comm, decide_eq_false_iff_not]
    omega

/-- What `bitmap_create` makes is the empty set. -/
theorem bitmapCreate_holds (fits : Fits nbits)
    (created : bitmapCreate nbits kmallocB kmallocV = .done (some b)) : Holds nbits.toNat b ∅ := by
  have words := divroundup_fits fits
  have small := nbits.toNat_lt
  unfold Fits at fits
  unfold bitmapCreate at created
  dsimp only at created
  split at created
  · cases created
  · split at created
    · cases created
    · split at created
      · rename_i partly
        rw [UInt32.lt_iff_toNat_lt, words, UInt32.toNat_div] at partly
        simp only [UInt32.reduceToNat] at partly
        have last : (divroundup nbits 8 - 1).toNat = nbits.toNat / 8 := by
          rw [UInt32.toNat_sub, words]
          simp only [UInt32.reduceToNat]
          omega
        have overbits : (nbits - (divroundup nbits 8 - 1) * 8).toNat = nbits.toNat % 8 := by
          rw [UInt32.toNat_sub, UInt32.toNat_mul, last]
          simp only [UInt32.reduceToNat]
          omega
        obtain ⟨_, _, created⟩ := Outcome.bind_done.mp created
        obtain ⟨_, _, created⟩ := Outcome.bind_done.mp created
        cases created
        rw [last, overbits]
        refine ⟨rfl, ⟨by dsimp only; omega, words, fun j above below => ?_⟩, fun i => ?_⟩
        · dsimp only at above below ⊢
          rw [words] at below
          rw [leftover_bit below, decide_eq_true above]
        · simp only [Finset.notMem_empty, false_iff, not_and, Bool.not_eq_true]
          intro below
          rw [leftover_bit (by omega), decide_eq_false (by omega)]
      · rename_i whole
        rw [UInt32.lt_iff_toNat_lt, words, UInt32.toNat_div] at whole
        simp only [UInt32.reduceToNat] at whole
        cases created
        refine ⟨rfl, ⟨by dsimp only; omega, words, fun j above below => ?_⟩, fun i => ?_⟩
        · dsimp only at above below
          rw [words] at below
          omega
        · simp [zero_bit]

/-- Past that there are no bytes. -/
theorem bitmapCreate_wraps (wraps : ¬ Fits nbits)
    (created : bitmapCreate nbits kmallocB kmallocV = .done (some b)) :
    b = ⟨nbits, 0, fun _ => 0⟩ := by
  unfold bitmapCreate at created
  rw [divroundup_wraps wraps] at created
  have none : ¬ nbits / 8 < 0 := by simp
  dsimp only at created
  rw [if_neg none] at created
  split at created
  · cases created
  · split at created
    · cases created
    · cases created
      rfl

theorem wraps_alloc (wraps : ¬ Fits nbits) : object.calls ⟨nbits, 0, fun _ => 0⟩ [.alloc] =
    .done ([.enospc], ⟨nbits, 0, fun _ => 0⟩) := by
  unfold Object.calls object bitmapAlloc
  dsimp only
  rw [divroundup_wraps wraps]
  rfl

/-- `bitmap_isset` answers with the padding, or reads outside the array. -/
theorem Padded.isset_outside (h : b.Padded) {i : UInt32} (outside : b.nbits ≤ i) :
    bitmapIsset b i = .done true ∨ bitmapIsset b i = .fault := by
  unfold bitmapIsset
  by_cases byte : i / 8 < b.words
  · have below : i.toNat < 8 * b.words.toNat := by
      rw [UInt32.lt_iff_toNat_lt, UInt32.toNat_div] at byte
      simp only [UInt32.reduceToNat] at byte
      omega
    have set := h.padding i.toNat (UInt32.le_iff_toNat_le.mp outside) below
    have masked := Bytes.and_bitMask.mpr set
    rw [load_byte byte, Outcome.done_bind, mask_eq, UInt32.toNat_div]
    exact .inl (congrArg Outcome.done (decide_eq_true masked))
  · unfold Bitmap.load
    rw [if_neg byte]
    exact .inr rfl

/-- A new bitmap is the empty set of numbers below `nbits` in every sequence of calls just when the
number of its bytes does not wrap. -/
theorem bitmap_refines_iff (created : bitmapCreate nbits kmallocB kmallocV = .done (some b)) :
    (∀ ops : List Op, (∀ op ∈ ops, op.Inside nbits.toNat) →
      Outcome.Alike (fun x y => x.1 = y.1 ∧ Holds nbits.toNat x.2 y.2)
        (object.calls b ops) ((indices nbits.toNat).calls ∅ ops) ∧
      object.calls b ops ≠ .fault) ↔ nbits.toNat ≤ 2 ^ 32 - 8 := by
  constructor
  · intro refines
    by_contra wraps
    have positive : 0 < nbits.toNat := by omega
    obtain ⟨alike, _⟩ := refines [.alloc] (by simp [Op.Inside])
    rw [bitmapCreate_wraps wraps created, wraps_alloc wraps, indices_first positive] at alike
    obtain ⟨_, same, answers, _⟩ := alike.of_done
    cases same
    cases answers
  · intro fits ops inside
    have alike := (object_refines nbits.toNat).calls (bitmapCreate_holds fits created)
      (Object.allows_of_all inside)
    exact ⟨alike, alike.not_fault (Object.calls_faultless (indices_faultless _) _ _)⟩

/-- Five bits, three of padding. -/
theorem bitmap_refines_five : ∃ b, bitmapCreate 5 true true = .done (some b) ∧
    Outcome.Alike (fun x y => x.1 = y.1 ∧ Holds 5 x.2 y.2)
      (object.calls b [.mark 1, .alloc, .alloc, .unmark 1, .isset 1])
      ((indices 5).calls ∅ [.mark 1, .alloc, .alloc, .unmark 1, .isset 1]) :=
  ⟨_, rfl, ((@bitmap_refines_iff 5 true true _ rfl).mpr (by decide)
    [.mark 1, .alloc, .alloc, .unmark 1, .isset 1] (by simp [Op.Inside])).1⟩

/-- With 2^32 - 1 bits there are no bytes, nothing can be handed out, and what is marked is not there;
and of eight bits, the ninth is read from behind the array. -/
theorem bitmap_create_wraps :
    bitmapCreate 0xffffffff true true = .done (some ⟨0xffffffff, 0, fun _ => 0⟩) ∧
      object.calls ⟨0xffffffff, 0, fun _ => 0⟩ [.alloc] = .done ([.enospc], ⟨0xffffffff, 0, fun _ => 0⟩) ∧
      (indices 0xffffffff).calls ∅ [.alloc] = .done ([.index 0], {0}) ∧
      object.calls ⟨0xffffffff, 0, fun _ => 0⟩ [.mark 0] = .fault ∧
      bitmapCreate 8 true true = .done (some ⟨8, 1, fun _ => 0⟩) ∧
      object.calls ⟨8, 1, fun _ => 0⟩ [.isset 8] = .fault :=
  ⟨rfl, rfl, indices_first (by decide), rfl, rfl, rfl⟩

end Create

end Os161.Bitmap
