import Os161.Base.Block
import Os161.Base.Machine
import Os161.Errno

/-!
# Arrays

`lib/array.c` and the operations of `array.h`. An array grows by doubling, in 32 bits, and its size
in bytes is in 32 bits too. What a call of `kmalloc` comes to, and what is in the new block, is part
of the call.
-/

namespace Os161

structure PtrArray (Ptr : Type) where
  v : Option (Block Ptr)
  num : UInt32
  max : UInt32

namespace PtrArray

variable {Ptr : Type}

/-- A block of `newmax*sizeof(*a->v)` bytes, or none. -/
abbrev Kmalloc (Ptr : Type) := Option (Nat → Ptr)

inductive Op (Ptr : Type) where
  | add (val : Ptr) (kmalloc : Kmalloc Ptr)
  | set (index : UInt32) (val : Ptr)
  | remove (index : UInt32)
  | setsize (num : UInt32) (kmalloc : Kmalloc Ptr)
  | preallocate (num : UInt32) (kmalloc : Kmalloc Ptr)

/-- The result, and the index that `array_add` reports. -/
inductive Answer where
  | ok
  | index (i : UInt32)
  | error (e : Errno)
  deriving DecidableEq

def arrayInit : PtrArray Ptr := ⟨none, 0, 0⟩

/-- How many pointers there is room for. -/
def room (a : PtrArray Ptr) : Nat := a.v.elim 0 Block.room

def load (a : PtrArray Ptr) (index : UInt32) : Outcome Ptr :=
  match a.v with
  | some v => if index.toNat < v.room then return v.cells index.toNat else .fault
  | none => .fault

def store (a : PtrArray Ptr) (index : UInt32) (val : Ptr) : Outcome (PtrArray Ptr) :=
  match a.v with
  | some v => if index.toNat < v.room then return { a with v := some (v.set index.toNat val) } else .fault
  | none => .fault

/-- `memcpy` of some pointers to the start of a block. -/
def memcpy (dst : Block Ptr) (src : Option (Block Ptr)) (count : Nat) : Outcome (Block Ptr) :=
  match count, src with
  | 0, _ => return dst
  | _ + 1, none => .fault
  | n + 1, some src => if n < dst.room ∧ n < src.room then return dst.move 0 src 0 (n + 1) else .fault

/-- `memmove` of some pointers inside a block. -/
def memmove (v : Option (Block Ptr)) (d s count : Nat) : Outcome (Option (Block Ptr)) :=
  match count, v with
  | 0, v => return v
  | _ + 1, none => .fault
  | n + 1, some v => if d + n < v.room ∧ s + n < v.room then return some (v.move d v s (n + 1)) else .fault

/-- The loop of `array_preallocate`; without fuel it has not come to its end. -/
def grow (num : UInt32) : Nat → UInt32 → Outcome UInt32
  | 0, _ => .blocked
  | fuel + 1, newmax =>
    if newmax < num then grow num fuel (if newmax = 0 then 4 else newmax * 2) else return newmax

def arrayPreallocate (fuel : Nat) (a : PtrArray Ptr) (num : UInt32) (kmalloc : Kmalloc Ptr) :
    Outcome (Except Errno Unit × PtrArray Ptr) :=
  if a.max < num then do
    let newmax ← grow num fuel a.max
    match kmalloc with
    | none => return (.error .enomem, a)
    | some cells =>
      let newptr ← memcpy ⟨(newmax * 4).toNat / 4, cells⟩ a.v ((a.num * 4).toNat / 4)
      return (.ok (), { a with v := some newptr, max := newmax })
  else return (.ok (), a)

def arraySetsize (fuel : Nat) (a : PtrArray Ptr) (num : UInt32) (kmalloc : Kmalloc Ptr) :
    Outcome (Except Errno Unit × PtrArray Ptr) := do
  let (result, a) ← arrayPreallocate fuel a num kmalloc
  match result with
  | .error e => return (.error e, a)
  | .ok () => return (.ok (), { a with num := num })

def arrayRemove (a : PtrArray Ptr) (index : UInt32) : Outcome (PtrArray Ptr) := do
  Outcome.kassert (a.num ≤ a.max)
  Outcome.kassert (index < a.num)
  let numToMove := a.num - (index + 1)
  let v ← memmove a.v index.toNat (index.toNat + 1) ((numToMove * 4).toNat / 4)
  return { a with v := v, num := a.num - 1 }

def arraySet (a : PtrArray Ptr) (index : UInt32) (val : Ptr) : Outcome (PtrArray Ptr) := do
  Outcome.kassert (index < a.num)
  a.store index val

def arrayAdd (fuel : Nat) (a : PtrArray Ptr) (val : Ptr) (kmalloc : Kmalloc Ptr) :
    Outcome (Except Errno UInt32 × PtrArray Ptr) := do
  let index := a.num
  let (ret, a) ← arraySetsize fuel a (index + 1) kmalloc
  match ret with
  | .error e => return (.error e, a)
  | .ok () =>
    let a ← a.store index val
    return (.ok index, a)

def answer : Except Errno Unit → Answer
  | .ok () => .ok
  | .error e => .error e

def call (fuel : Nat) (a : PtrArray Ptr) : Op Ptr → Outcome (Answer × PtrArray Ptr)
  | .add val kmalloc => do
    let (ret, a) ← arrayAdd fuel a val kmalloc
    match ret with
    | .ok index => return (.index index, a)
    | .error e => return (.error e, a)
  | .set index val => do
    let a ← arraySet a index val
    return (.ok, a)
  | .remove index => do
    let a ← arrayRemove a index
    return (.ok, a)
  | .setsize num kmalloc => do
    let (result, a) ← arraySetsize fuel a num kmalloc
    return (answer result, a)
  | .preallocate num kmalloc => do
    let (result, a) ← arrayPreallocate fuel a num kmalloc
    return (answer result, a)

/-- An array, from `array_init` on. -/
def machine (fuel : Nat) : Machine (PtrArray Ptr) (Op Ptr) where
  initial a := a = arrayInit
  step a op := do
    let (_, a) ← call fuel a op
    return a

/-- The pointers that are in use. -/
def contents (a : PtrArray Ptr) : List Ptr := a.v.elim [] fun v => v.front a.num.toNat

/-- What the calls do to a list. -/
inductive Acts (l : List Ptr) : Op Ptr → Answer → List Ptr → Prop where
  | add {val : Ptr} {kmalloc : Kmalloc Ptr} {i : UInt32} :
    i.toNat = l.length → Acts l (.add val kmalloc) (.index i) (l ++ [val])
  | set {index : UInt32} {val : Ptr} : Acts l (.set index val) .ok (l.set index.toNat val)
  | remove {index : UInt32} : Acts l (.remove index) .ok (l.eraseIdx index.toNat)
  | setsize {num : UInt32} {kmalloc : Kmalloc Ptr} {m : List Ptr} :
    m.length = num.toNat → m.take l.length = l.take num.toNat → Acts l (.setsize num kmalloc) .ok m
  | preallocate {num : UInt32} {kmalloc : Kmalloc Ptr} : Acts l (.preallocate num kmalloc) .ok l

/-- The number of pointers in use is at most `max`, and there is room for `max`. -/
structure Fits (a : PtrArray Ptr) : Prop where
  num : a.num ≤ a.max
  room : a.max.toNat ≤ a.room

/-- The array is asked to grow to this size, with this `kmalloc`. -/
def Op.asks (a : PtrArray Ptr) : Op Ptr → Option (UInt32 × Kmalloc Ptr)
  | .add _ kmalloc => some (a.num + 1, kmalloc)
  | .setsize num kmalloc => some (num, kmalloc)
  | .preallocate num kmalloc => some (num, kmalloc)
  | _ => none

/-- The index that is asserted to be in use. -/
def Op.index : Op Ptr → Option UInt32
  | .set index _ => some index
  | .remove index => some index
  | _ => none

/-- The call comes back and did to the array what it does to a list, or did nothing to it because
there was no memory; or an index is not in use, which fails an assertion. -/
def Behaves (fuel : Nat) (a : PtrArray Ptr) (op : Op Ptr) : Prop :=
  ((∀ i ∈ op.index, i < a.num) → ∃ answer b, call fuel a op = .done (answer, b) ∧ b.Fits ∧
    (Acts a.contents op answer b.contents ∨
      answer = .error .enomem ∧ b = a ∧ ∃ num, op.asks a = some (num, none))) ∧
  ((¬ ∀ i ∈ op.index, i < a.num) → call fuel a op = .panic)

/-- A size that can be had, or one that is refused. -/
def Sized (num : UInt32) (kmalloc : Kmalloc Ptr) : Prop :=
  num.toNat ≤ 2 ^ 29 ∨ num.toNat ≤ 2 ^ 31 ∧ kmalloc = none

def Granted (a : PtrArray Ptr) (op : Op Ptr) : Prop :=
  ∀ num kmalloc, op.asks a = some (num, kmalloc) → Sized num kmalloc

section Growing

/-- The values that `newmax` takes. -/
def Size (n : UInt32) : Prop := n = 0 ∨ ∃ k, k ≤ 29 ∧ n.toNat = 2 ^ (k + 2)

theorem pow_le {j k : Nat} : 2 ^ j ≤ 2 ^ k ↔ j ≤ k := Nat.pow_le_pow_iff_right (by decide)

theorem pow_inj {j k : Nat} (same : 2 ^ j = 2 ^ k) : j = k :=
  Nat.le_antisymm (pow_le.mp (Nat.le_of_eq same)) (pow_le.mp (Nat.le_of_eq same.symm))

theorem pow_lt {j k : Nat} : 2 ^ j < 2 ^ k ↔ j < k := Nat.pow_lt_pow_iff_right (by decide)

variable {num newmax : UInt32} {fuel : Nat}

theorem double {k : Nat} (size : newmax.toNat = 2 ^ (k + 2)) (small : k < 29) :
    (newmax * 2).toNat = 2 ^ (k + 1 + 2) := by
  have bound : 2 ^ (k + 3) ≤ 2 ^ 31 := pow_le.mpr (by omega)
  have twice : 2 ^ (k + 3) = 2 ^ (k + 2) * 2 := Nat.pow_succ ..
  rw [UInt32.toNat_mul, size]
  simp only [UInt32.reduceToNat]
  show 2 ^ (k + 2) * 2 % 2 ^ 32 = 2 ^ (k + 3)
  omega

/-- The loop ends with the first power of two that is large enough. -/
theorem grow_power (limit : num.toNat ≤ 2 ^ 31) {k : Nat} (size : newmax.toNat = 2 ^ (k + 2))
    (small : k ≤ 29) (enough : 30 ≤ fuel + k) :
    ∃ m j, grow num fuel newmax = .done m ∧ j ≤ 29 ∧ m.toNat = 2 ^ (j + 2) ∧ num ≤ m ∧
      (m = newmax ∨ 2 ^ (j + 1) < num.toNat) := by
  induction fuel generalizing newmax k with
  | zero => omega
  | succ fuel ih =>
    unfold grow
    by_cases more : newmax < num
    · have above : newmax.toNat < num.toNat := UInt32.lt_iff_toNat_lt.mp more
      have below : k + 2 < 31 := pow_lt.mp (by omega)
      have nonzero : newmax ≠ 0 := by
        rintro rfl
        exact Nat.ne_of_lt (Nat.two_pow_pos (k + 2)) size
      have twice := double size (by omega)
      rw [if_pos more, if_neg nonzero]
      obtain ⟨m, j, ends, last, power, covers, first⟩ := ih twice (by omega) (by omega)
      refine ⟨m, j, ends, last, power, covers, .inr ?_⟩
      rcases first with rfl | first
      · have same : 2 ^ (k + 1 + 2) = 2 ^ (j + 2) := twice.symm.trans power
        have exponent : k + 1 + 2 = j + 2 := pow_inj same
        rw [show j + 1 = k + 2 by omega]
        omega
      · exact first
    · rw [if_neg more]
      have covers : num ≤ newmax := UInt32.le_iff_toNat_le.mpr (by
        rw [UInt32.lt_iff_toNat_lt] at more
        omega)
      exact ⟨newmax, k, rfl, small, size, covers, .inl rfl⟩

/-- Enough for the loop to come to its end. -/
abbrev Enough (fuel : Nat) : Prop := 32 ≤ fuel

theorem grow_goes (enough : Enough fuel) (size : Size newmax) (more : newmax < num)
    (limit : num.toNat ≤ 2 ^ 31) : ∃ m j, grow num fuel newmax = .done m ∧ j ≤ 29 ∧
      m.toNat = 2 ^ (j + 2) ∧ num ≤ m ∧ (j = 0 ∨ 2 ^ (j + 1) < num.toNat) := by
  rcases size with rfl | ⟨k, small, power⟩
  · obtain ⟨fuel, rfl⟩ : ∃ n, fuel = n + 1 := ⟨fuel - 1, by omega⟩
    unfold grow
    rw [if_pos more, if_pos rfl]
    obtain ⟨m, j, ends, last, power, covers, first⟩ :=
      @grow_power num 4 fuel limit 0 rfl (by omega) (by omega)
    refine ⟨m, j, ends, last, power, covers, first.imp_left ?_⟩
    rintro rfl
    have exponent : 0 + 2 = j + 2 := pow_inj power
    omega
  · obtain ⟨m, j, ends, last, power, covers, first⟩ :=
      @grow_power num newmax fuel limit k power small (by omega)
    refine ⟨m, j, ends, last, power, covers, .inr (first.resolve_left ?_)⟩
    rintro rfl
    rw [UInt32.lt_iff_toNat_lt] at more
    rw [UInt32.le_iff_toNat_le] at covers
    omega

/-- Beyond 2^31 it goes round and round. -/
theorem grow_never (beyond : 2 ^ 31 < num.toNat) (size : Size newmax) :
    grow num fuel newmax = .blocked := by
  induction fuel generalizing newmax with
  | zero => rfl
  | succ fuel ih =>
    unfold grow
    rcases size with rfl | ⟨k, small, power⟩
    · have more : 0 < num := UInt32.lt_iff_toNat_lt.mpr (Nat.lt_of_le_of_lt (Nat.zero_le _) beyond)
      rw [if_pos more, if_pos rfl]
      exact ih (.inr ⟨0, by omega, rfl⟩)
    · have bound : 2 ^ (k + 2) ≤ 2 ^ 31 := pow_le.mpr (by omega)
      have more : newmax < num := UInt32.lt_iff_toNat_lt.mpr (by omega)
      have nonzero : newmax ≠ 0 := by
        rintro rfl
        exact Nat.ne_of_lt (Nat.two_pow_pos (k + 2)) power
      rw [if_pos more, if_neg nonzero]
      by_cases last : k < 29
      · exact ih (.inr ⟨k + 1, by omega, double power last⟩)
      · obtain rfl : k = 29 := by omega
        refine ih (.inl (UInt32.toNat_inj.mp ?_))
        rw [UInt32.toNat_mul, power]
        rfl

end Growing

section Calls

variable {fuel : Nat} {a b : PtrArray Ptr} {num index : UInt32} {kmalloc : Kmalloc Ptr}

/-- What the calls keep. -/
structure Inv (a : PtrArray Ptr) : Prop where
  fits : a.Fits
  size : Size a.max
  small : a.max.toNat ≤ 2 ^ 29

theorem Inv.below (h : Inv a) : a.num.toNat ≤ a.room :=
  Nat.le_trans (UInt32.le_iff_toNat_le.mp h.fits.num) h.fits.room

/-- An array with room for a pointer has a block. -/
theorem block_of_room {n : Nat} (inside : n < a.room) : ∃ v, a.v = some v ∧ n < v.room := by
  unfold room at inside
  cases block : a.v with
  | none =>
    rw [block] at inside
    exact absurd inside (Nat.not_lt_zero n)
  | some v =>
    rw [block] at inside
    exact ⟨v, rfl, inside⟩

theorem contents_block {v : Block Ptr} (block : a.v = some v) : a.contents = v.front a.num.toNat := by
  unfold contents
  rw [block]
  rfl

theorem room_block {v : Block Ptr} (block : a.v = some v) : a.room = v.room := by
  unfold room
  rw [block]
  rfl

theorem contents_mk {v : Block Ptr} {max : UInt32} :
    contents ⟨some v, num, max⟩ = v.front num.toNat := rfl

theorem contents_empty (empty : a.num.toNat = 0) : a.contents = [] := by
  unfold contents
  cases a.v with
  | none => rfl
  | some v => simp [empty, Block.front_zero]

theorem Inv.length (h : Inv a) : a.contents.length = a.num.toNat := by
  by_cases empty : a.num.toNat = 0
  · rw [contents_empty empty, empty]
    rfl
  · have below := h.below
    obtain ⟨v, block, _⟩ := @block_of_room _ a 0 (by omega)
    rw [contents_block block, Block.front_length]

/-- Four bytes a pointer, where that does not wrap. -/
theorem times_four {n : UInt32} (small : n.toNat ≤ 2 ^ 29) : (n * 4).toNat / 4 = n.toNat := by
  rw [UInt32.toNat_mul]
  simp only [UInt32.reduceToNat]
  omega

/-- The copy into a block with room for what is in use. -/
theorem memcpy_contents (h : Inv a) {dst : Block Ptr} (room : a.num.toNat ≤ dst.room) :
    ∃ v, memcpy dst a.v a.num.toNat = .done v ∧ v.room = dst.room ∧
      v.front a.num.toNat = a.contents := by
  have below := h.below
  unfold memcpy
  split
  · rename_i empty
    rw [contents_empty empty, empty]
    exact ⟨dst, rfl, rfl, Block.front_zero⟩
  · rename_i n size none
    obtain ⟨v, block, _⟩ := @block_of_room _ a n (by omega)
    cases none.symm.trans block
  · rename_i n src size block
    obtain ⟨v, same, inside⟩ := @block_of_room _ a n (by omega)
    obtain rfl : src = v := Option.some.inj (block.symm.trans same)
    rw [if_pos ⟨by omega, inside⟩, contents_block block, size]
    exact ⟨_, rfl, rfl, Block.move_front⟩

/-- The array has grown. -/
structure Grown (a b : PtrArray Ptr) (num : UInt32) : Prop where
  inv : Inv b
  used : b.num = a.num
  same : b.contents = a.contents
  covers : num ≤ b.max

theorem preallocate_goes (enough : Enough fuel) (h : Inv a) (sized : Sized num kmalloc) :
    arrayPreallocate fuel a num kmalloc = .done (.error .enomem, a) ∧ kmalloc = none ∨
      ∃ b : PtrArray Ptr, arrayPreallocate fuel a num kmalloc = .done (.ok (), b) ∧ Grown a b num := by
  unfold arrayPreallocate
  by_cases more : a.max < num
  · have limit : num.toNat ≤ 2 ^ 31 := by
      rcases sized with small | ⟨limit, _⟩ <;> omega
    obtain ⟨newmax, j, ends, last, power, covers, first⟩ := grow_goes enough h.size more limit
    rw [if_pos more, ends, Outcome.done_bind]
    cases kmalloc with
    | none => exact .inl ⟨rfl, rfl⟩
    | some cells =>
      right
      have small : num.toNat ≤ 2 ^ 29 := by
        rcases sized with small | ⟨_, refused⟩
        · exact small
        · cases refused
      have bound : newmax.toNat ≤ 2 ^ 29 := by
        rw [power]
        rcases first with rfl | first
        · decide
        · have exponent : j + 1 < 29 := pow_lt.mp (by omega)
          exact pow_le.mpr (by omega)
      rw [UInt32.lt_iff_toNat_lt] at more
      have larger := UInt32.le_iff_toNat_le.mp covers
      have used := UInt32.le_iff_toNat_le.mp h.fits.num
      have few := h.small
      dsimp only
      rw [times_four bound, times_four (by omega)]
      have room : a.num.toNat ≤ (Block.mk newmax.toNat cells).room := by
        show a.num.toNat ≤ newmax.toNat
        omega
      obtain ⟨v, copies, size, same⟩ := memcpy_contents h room
      rw [copies, Outcome.done_bind]
      refine ⟨_, rfl, ⟨⟨UInt32.le_iff_toNat_le.mpr ?_, ?_⟩, .inr ⟨j, last, power⟩, bound⟩, rfl, same, covers⟩
      · show a.num.toNat ≤ newmax.toNat
        omega
      · show newmax.toNat ≤ v.room
        exact Nat.le_of_eq size.symm
  · rw [if_neg more]
    have covers : num ≤ a.max := UInt32.le_iff_toNat_le.mpr (by
      rw [UInt32.lt_iff_toNat_lt] at more
      omega)
    exact .inr ⟨a, rfl, h, rfl, rfl, covers⟩

theorem setsize_goes (enough : Enough fuel) (h : Inv a) (sized : Sized num kmalloc) :
    arraySetsize fuel a num kmalloc = .done (.error .enomem, a) ∧ kmalloc = none ∨
      ∃ b : PtrArray Ptr, arraySetsize fuel a num kmalloc = .done (.ok (), { b with num := num }) ∧
        Grown a b num := by
  unfold arraySetsize
  rcases preallocate_goes enough h sized with ⟨fails, refused⟩ | ⟨b, goes, grown⟩
  · rw [fails]
    exact .inl ⟨rfl, refused⟩
  · rw [goes]
    exact .inr ⟨b, rfl, grown⟩

/-- A grown array may say that it has this many. -/
theorem Grown.resize (g : Grown a b num) : Inv { b with num := num } :=
  ⟨⟨g.covers, g.inv.fits.room⟩, g.inv.size, g.inv.small⟩

theorem Grown.keeps (h : Inv a) (g : Grown a b num) :
    ({ b with num := num } : PtrArray Ptr).contents.take a.contents.length =
      a.contents.take num.toNat := by
  have covers := Nat.le_trans (UInt32.le_iff_toNat_le.mp g.covers) g.inv.fits.room
  rw [h.length]
  by_cases empty : num.toNat = 0
  · rw [contents_empty empty, empty, List.take_nil, List.take_zero]
  · obtain ⟨v, block, _⟩ := @block_of_room _ b 0 (by omega)
    rw [← g.same, contents_block block, g.used, Block.front_take,
      contents_block (show ({ b with num := num } : PtrArray Ptr).v = some v from block),
      Block.front_take, Nat.min_comm]

/-- A store at an index with room behind or among what is in use. -/
theorem store_inside (val : Ptr) (inside : index.toNat < a.room) : ∃ v, a.v = some v ∧
    a.store index val = .done { a with v := some (v.set index.toNat val) } := by
  obtain ⟨v, block, room⟩ := block_of_room inside
  refine ⟨v, block, ?_⟩
  unfold store
  rw [block]
  exact if_pos room

/-- The call comes back with a good array. -/
def Follows (fuel : Nat) (a : PtrArray Ptr) (op : Op Ptr) : Prop :=
  ∃ answer b, call fuel a op = .done (answer, b) ∧ Inv b ∧
    (Acts a.contents op answer b.contents ∨
      answer = .error .enomem ∧ b = a ∧ ∃ num, op.asks a = some (num, none))

theorem preallocate_follows (enough : Enough fuel) (h : Inv a) (sized : Sized num kmalloc) :
    Follows fuel a (.preallocate num kmalloc) := by
  unfold Follows call
  rcases preallocate_goes enough h sized with ⟨fails, rfl⟩ | ⟨b, goes, grown⟩
  · dsimp only
    rw [fails]
    exact ⟨_, a, rfl, h, .inr ⟨rfl, rfl, num, rfl⟩⟩
  · dsimp only
    rw [goes]
    refine ⟨_, b, rfl, grown.inv, .inl ?_⟩
    rw [grown.same]
    exact .preallocate

theorem setsize_follows (enough : Enough fuel) (h : Inv a) (sized : Sized num kmalloc) :
    Follows fuel a (.setsize num kmalloc) := by
  unfold Follows call
  rcases setsize_goes enough h sized with ⟨fails, rfl⟩ | ⟨b, goes, grown⟩
  · dsimp only
    rw [fails]
    exact ⟨_, a, rfl, h, .inr ⟨rfl, rfl, num, rfl⟩⟩
  · dsimp only
    rw [goes]
    exact ⟨_, _, rfl, grown.resize, .inl (.setsize grown.resize.length (grown.keeps h))⟩

theorem add_follows (enough : Enough fuel) (h : Inv a) {val : Ptr}
    (sized : Sized (a.num + 1) kmalloc) : Follows fuel a (.add val kmalloc) := by
  unfold Follows call arrayAdd
  rcases setsize_goes enough h sized with ⟨fails, rfl⟩ | ⟨b, goes, grown⟩
  · dsimp only
    rw [fails]
    exact ⟨_, a, rfl, h, .inr ⟨rfl, rfl, _, rfl⟩⟩
  · have used := UInt32.le_iff_toNat_le.mp h.fits.num
    have few := h.small
    have next : (a.num + 1).toNat = a.num.toNat + 1 := by
      rw [UInt32.toNat_add]
      simp only [UInt32.reduceToNat]
      omega
    have covers := grown.resize.below
    rw [next] at covers
    obtain ⟨v, block, stores⟩ := store_inside val (show a.num.toNat < _ from covers)
    dsimp only
    rw [goes]
    dsimp only [Outcome.done_bind]
    rw [stores]
    refine ⟨_, _, rfl, ⟨⟨grown.resize.fits.num, ?_⟩, grown.resize.size, grown.resize.small⟩, .inl ?_⟩
    · have room := grown.resize.fits.room
      rwa [room_block block] at room
    · have same : v.front a.num.toNat = a.contents := by
        rw [← grown.same, contents_block (show b.v = some v from block), grown.used]
      rw [contents_mk, next, Block.set_front_succ, same]
      exact .add h.length.symm

theorem set_follows (h : Inv a) {val : Ptr} (inside : index < a.num) :
    Follows fuel a (.set index val) := by
  have below := h.below
  have used := UInt32.lt_iff_toNat_lt.mp inside
  obtain ⟨v, block, stores⟩ := store_inside val (show index.toNat < a.room by omega)
  unfold Follows call arraySet
  dsimp only
  rw [Outcome.kassert_bind inside, stores]
  refine ⟨_, _, rfl, ⟨⟨h.fits.num, ?_⟩, h.size, h.small⟩, .inl ?_⟩
  · have room := h.fits.room
    rwa [room_block block] at room
  · rw [contents_mk, contents_block block, Block.front_set]
    exact .set

theorem remove_follows (h : Inv a) (inside : index < a.num) : Follows fuel a (.remove index) := by
  have below := h.below
  have used := UInt32.lt_iff_toNat_lt.mp inside
  have fits := UInt32.le_iff_toNat_le.mp h.fits.num
  have few := h.small
  obtain ⟨v, block, room⟩ := @block_of_room _ a index.toNat (by omega)
  have size := room_block block
  have next : (index + 1).toNat = index.toNat + 1 := by
    rw [UInt32.toNat_add]
    simp only [UInt32.reduceToNat]
    omega
  have count : (a.num - (index + 1)).toNat = a.num.toNat - (index.toNat + 1) := by
    rw [UInt32.toNat_sub_of_le _ _ (UInt32.le_iff_toNat_le.mpr (by omega)), next]
  have fewer : (a.num - 1).toNat = a.num.toNat - 1 := by
    rw [UInt32.toNat_sub_of_le _ _ (UInt32.le_iff_toNat_le.mpr (by
      simp only [UInt32.reduceToNat]
      omega))]
    rfl
  have moves : memmove a.v index.toNat (index.toNat + 1) (a.num.toNat - (index.toNat + 1)) =
      .done (some (v.move index.toNat v (index.toNat + 1) (a.num.toNat - (index.toNat + 1)))) := by
    rw [block]
    unfold memmove
    split
    · rename_i none
      rw [none, Block.move_none]
      rfl
    · rename_i n some same
      cases same
    · rename_i n w some same
      cases same
      rw [if_pos ⟨by omega, by omega⟩, some]
      rfl
  unfold Follows call arrayRemove
  dsimp only
  rw [Outcome.kassert_bind h.fits.num, Outcome.kassert_bind inside, times_four (by omega), count, moves]
  refine ⟨_, _, rfl, ⟨⟨UInt32.le_iff_toNat_le.mpr ?_, ?_⟩, h.size, h.small⟩, .inl ?_⟩
  · show (a.num - 1).toNat ≤ a.max.toNat
    omega
  · have room := h.fits.room
    rwa [room_block block] at room
  · rw [contents_mk, contents_block block, fewer, Block.move_down used]
    exact .remove

theorem call_follows (enough : Enough fuel) (h : Inv a) {op : Op Ptr} (granted : Granted a op)
    (inside : ∀ i ∈ op.index, i < a.num) : Follows fuel a op := by
  cases op with
  | add val kmalloc => exact add_follows enough h (granted _ _ rfl)
  | set index val => exact set_follows h (inside index rfl)
  | remove index => exact remove_follows h (inside index rfl)
  | setsize num kmalloc => exact setsize_follows enough h (granted _ _ rfl)
  | preallocate num kmalloc => exact preallocate_follows enough h (granted _ _ rfl)

/-- An index that is not in use fails its assertion. -/
theorem call_panics (h : Inv a) {op : Op Ptr} (outside : ¬ ∀ i ∈ op.index, i < a.num) :
    call fuel a op = .panic := by
  cases op with
  | set index val =>
    have none : ¬ index < a.num := fun inside => outside fun i same => by
      cases same
      exact inside
    unfold call arraySet
    dsimp only
    rw [Outcome.kassert_fails none]
    rfl
  | remove index =>
    have none : ¬ index < a.num := fun inside => outside fun i same => by
      cases same
      exact inside
    unfold call arrayRemove
    dsimp only
    rw [Outcome.kassert_bind h.fits.num, Outcome.kassert_fails none]
    rfl
  | _ => exact (outside fun i same => nomatch same).elim

/-- A size that is too large is looked for without end, or gets a block with no room. -/
theorem preallocate_strays (enough : Enough fuel) (h : Inv a) (stray : ¬ Sized num kmalloc) :
    arrayPreallocate fuel a num kmalloc = .blocked ∨ arrayPreallocate fuel a num kmalloc = .fault ∨
      ∃ b : PtrArray Ptr, arrayPreallocate fuel a num kmalloc = .done (.ok (), b) ∧ b.room = 0 ∧
        0 < b.max.toNat := by
  have few := h.small
  unfold Sized at stray
  have more : a.max < num := UInt32.lt_iff_toNat_lt.mpr (by omega)
  unfold arrayPreallocate
  rw [if_pos more]
  by_cases beyond : 2 ^ 31 < num.toNat
  · rw [grow_never beyond h.size]
    exact .inl rfl
  · cases kmalloc with
    | none => exact (stray (.inr ⟨by omega, rfl⟩)).elim
    | some cells =>
      right
      obtain ⟨newmax, j, ends, last, power, covers, _⟩ := grow_goes enough h.size more (by omega)
      rw [UInt32.le_iff_toNat_le] at covers
      have exponent : 29 < j + 2 := pow_lt.mp (by omega)
      have wraps : (newmax * 4).toNat / 4 = 0 := by
        rw [UInt32.toNat_mul, power]
        obtain rfl | rfl : j = 28 ∨ j = 29 := by omega
        · rfl
        · rfl
      rw [ends, Outcome.done_bind]
      dsimp only
      rw [wraps]
      unfold memcpy
      split
      · refine .inr ⟨_, rfl, rfl, ?_⟩
        show 0 < newmax.toNat
        omega
      · exact .inl rfl
      · rw [if_neg fun inside => Nat.not_lt_zero _ inside.1]
        exact .inl rfl

theorem setsize_strays (enough : Enough fuel) (h : Inv a) (stray : ¬ Sized num kmalloc) :
    arraySetsize fuel a num kmalloc = .blocked ∨ arraySetsize fuel a num kmalloc = .fault ∨
      ∃ b : PtrArray Ptr, arraySetsize fuel a num kmalloc = .done (.ok (), b) ∧ b.room = 0 ∧
        0 < b.max.toNat := by
  unfold arraySetsize
  obtain never | faults | ⟨b, goes, none, some⟩ := preallocate_strays enough h stray
  · rw [never]
    exact .inl rfl
  · rw [faults]
    exact .inr (.inl rfl)
  · rw [goes]
    exact .inr (.inr ⟨_, rfl, none, some⟩)

/-- No room for what `max` says. -/
theorem Fits.not_empty (fits : b.Fits) (none : b.room = 0) (some : 0 < b.max.toNat) : False := by
  have room := fits.room
  omega

/-- A call that asks for such a size does not behave. -/
theorem call_strays (enough : Enough fuel) (h : Inv a) {op : Op Ptr}
    (asks : op.asks a = some (num, kmalloc)) (stray : ¬ Sized num kmalloc) :
    ∀ answer b, call fuel a op = .done (answer, b) → ¬ b.Fits := by
  intro answer b done fits
  cases op with
  | add val =>
    cases asks
    unfold call arrayAdd at done
    dsimp only at done
    obtain never | faults | ⟨c, goes, none, _⟩ := setsize_strays enough h stray
    · rw [never] at done
      cases done
    · rw [faults] at done
      cases done
    · have outside : c.store a.num val = .fault := by
        unfold store
        split
        · rename_i v block
          rw [room_block block] at none
          exact if_neg (by omega)
        · rfl
      rw [goes] at done
      dsimp only [Outcome.done_bind] at done
      rw [outside] at done
      cases done
  | setsize =>
    cases asks
    unfold call at done
    dsimp only at done
    obtain never | faults | ⟨c, goes, none, some⟩ := setsize_strays enough h stray
    · rw [never] at done
      cases done
    · rw [faults] at done
      cases done
    · rw [goes] at done
      cases done
      exact fits.not_empty none some
  | preallocate =>
    cases asks
    unfold call at done
    dsimp only at done
    obtain never | faults | ⟨c, goes, none, some⟩ := preallocate_strays enough h stray
    · rw [never] at done
      cases done
    · rw [faults] at done
      cases done
    · rw [goes] at done
      cases done
      exact fits.not_empty none some
  | _ => cases asks

theorem granted_index {op : Op Ptr} (asks : op.asks a = some (num, kmalloc)) : op.index = none := by
  cases op with
  | set index val => cases asks
  | remove index => cases asks
  | _ => rfl

end Calls

section Runs

variable {fuel : Nat} {a : PtrArray Ptr}

theorem arrayInit_inv : Inv (arrayInit : PtrArray Ptr) :=
  ⟨⟨UInt32.le_refl 0, Nat.le_refl 0⟩, .inl rfl, Nat.zero_le _⟩

/-- One call keeps the invariant. -/
theorem step_inv (enough : Enough fuel) {op : Op Ptr} (h : Inv a) (granted : Granted a op) :
    ((machine fuel).step a op).Ensures Inv := by
  unfold machine
  dsimp only
  by_cases inside : ∀ i ∈ op.index, i < a.num
  · obtain ⟨answer, b, goes, good, _⟩ := call_follows enough h granted inside
    rw [goes]
    exact Outcome.ensures_done.mpr good
  · rw [call_panics h inside]
    exact Outcome.ensures_panic

theorem reachable_inv (enough : Enough fuel) (h : (machine fuel).ReachableBy Granted a) : Inv a := by
  refine Machine.invariant_ensures _ ?_ (fun _ _ good granted => step_inv enough good granted) h
  rintro s rfl
  exact arrayInit_inv

/-- While every size that the array is asked to grow to can be had or is refused, the calls come back,
there is room for `max` pointers, and the array is a list; the first other size breaks it. -/
theorem array_behaves_iff (enough : 32 ≤ fuel) (h : (machine fuel).ReachableBy Granted a) :
    a.Fits ∧ ∀ op, Behaves fuel a op ↔ Granted a op := by
  have good := reachable_inv enough h
  refine ⟨good.fits, fun op => ⟨fun behaves num kmalloc asks => ?_, fun granted => ?_⟩⟩
  · by_contra stray
    have inside : ∀ i ∈ op.index, i < a.num := by
      rw [granted_index asks]
      exact nofun
    obtain ⟨answer, b, done, fits, _⟩ := behaves.1 inside
    exact call_strays enough good asks stray answer b done fits
  · refine ⟨fun inside => ?_, call_panics good⟩
    obtain ⟨answer, b, goes, good, acts⟩ := call_follows enough good granted inside
    exact ⟨answer, b, goes, good.fits, acts⟩

/-- Two pointers, and the first one taken out again. -/
theorem array_behaves_two : ∃ a : PtrArray Nat, (machine 32).ReachableBy Granted a ∧
    a.contents = [7, 8] ∧ Behaves 32 a (.remove 0) := by
  have granted : ∀ (a : PtrArray Nat) val kmalloc, a.num.toNat < 2 → Granted a (.add val kmalloc) := by
    intro a val kmalloc few num kmalloc' asks
    cases asks
    refine .inl ?_
    rw [UInt32.toNat_add]
    simp only [UInt32.reduceToNat]
    omega
  have first := Machine.ReachableBy.step (.add 7 (some fun _ => 0))
    (.initial (show (machine 32).initial (arrayInit : PtrArray Nat) from rfl))
    (granted _ _ _ (by decide)) rfl
  have second := Machine.ReachableBy.step (.add 8 none) first (granted _ _ _ (by decide)) rfl
  exact ⟨_, second, rfl, ((array_behaves_iff (Nat.le_refl 32) second).2 (.remove 0)).mpr
    fun num kmalloc asks => nomatch asks⟩

/-- A size beyond 2^31 is never found, and a size beyond 2^29 is found but has no room. -/
theorem array_sizes_wrap :
    (∀ fuel, call fuel (arrayInit : PtrArray Nat) (.setsize 0x80000001 (some fun _ => 0)) = .blocked) ∧
      call 32 (arrayInit : PtrArray Nat) (.preallocate 0x40000000 (some fun _ => 0)) =
        .done (.ok, ⟨some ⟨0, fun _ => 0⟩, 0, 0x40000000⟩) ∧
      call 32 (⟨some ⟨0, fun _ => 0⟩, 0, 0x40000000⟩ : PtrArray Nat) (.add 7 none) = .fault := by
  refine ⟨fun fuel => ?_, rfl, rfl⟩
  have never : grow 0x80000001 fuel 0 = .blocked := grow_never (by decide) (.inl rfl)
  unfold call arraySetsize arrayPreallocate arrayInit
  dsimp only
  rw [if_pos (by decide), never]
  rfl

end Runs

end PtrArray

end Os161
