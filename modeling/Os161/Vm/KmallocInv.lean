import Os161.Vm.Kmalloc
import Mathlib.Data.List.Perm.Subperm

/-!
# What holds of the kernel heap

Behind the variables of the heap there are the list of the pages, the list of the pages of each
size, and the list of the free blocks of each page. Every block of a page is on its free list or a
client has it.
-/

namespace Os161.Kmalloc

open Chain

/-! ### Addresses -/

theorem frame_bit (i : Nat) : Nat.testBit 0xfffff000 i = decide (12 ≤ i ∧ i < 32) := by
  have shift : 0xfffff000 = (2 ^ 20 - 1) <<< 12 := by decide
  rw [shift, Nat.testBit_shiftLeft, Nat.testBit_two_pow_sub_one]
  by_cases low : 12 ≤ i
  · simp only [low, decide_true, Bool.true_and, true_and, decide_eq_decide]
    omega
  · simp [low]

theorem page_bit {pa : Nat} (aligned : pa % pageSize = 0) (bound : pa < 2 ^ 32) (i : Nat)
    (set : pa.testBit i = true) : 12 ≤ i ∧ i < 32 := by
  constructor
  · by_contra low
    have zero : pa % 2 ^ 12 = 0 := aligned
    have bit := Nat.testBit_mod_two_pow pa 12 i
    rw [zero] at bit
    simp [set, show i < 12 by omega] at bit
  · by_contra high
    have clear : pa.testBit i = false := by
      apply Nat.testBit_lt_two_pow
      exact lt_of_lt_of_le bound (Nat.pow_le_pow_right (by decide) (Nat.le_of_not_lt high))
    simp [clear] at set

theorem mkpab_page {pa blk : Nat} (aligned : pa % pageSize = 0) (bound : pa < 2 ^ 32) :
    mkpab pa blk &&& 0xfffff000 = pa := by
  apply Nat.eq_of_testBit_eq
  intro i
  have bits := page_bit aligned bound i
  have low : Nat.testBit 0xfff i = decide (i < 12) := Nat.testBit_two_pow_sub_one 12 i
  simp only [mkpab, Nat.testBit_and, Nat.testBit_or, frame_bit, low]
  cases set : pa.testBit i with
  | true =>
    obtain ⟨from12, to32⟩ := bits set
    simp [from12, to32]
  | false =>
    by_cases small : i < 12
    · simp [small, show ¬ 12 ≤ i by omega]
    · simp [small]

theorem mkpab_blk {pa blk : Nat} (small : blk < nsizes) : mkpab pa blk &&& 0xfff = blk := by
  apply Nat.eq_of_testBit_eq
  intro i
  have low : Nat.testBit 0xfff i = decide (i < 12) := Nat.testBit_two_pow_sub_one 12 i
  simp only [mkpab, Nat.testBit_and, Nat.testBit_or, frame_bit, low]
  by_cases below : i < 12
  · simp [below, show ¬ 12 ≤ i by omega]
  · have high : blk.testBit i = false := by
      apply Nat.testBit_lt_two_pow
      apply lt_of_lt_of_le small
      exact Nat.le_trans (by decide : nsizes ≤ 2 ^ 12)
        (Nat.pow_le_pow_right (by decide) (by omega))
    simp [below, high]

/-- A page of kernel memory. -/
def Kpage (va : Nat) : Prop := va % pageSize = 0 ∧ mipsKseg0 ≤ va ∧ va + pageSize ≤ mipsKseg1

theorem sizes_divide : ∀ k < nsizes,
    16 ≤ sizes k ∧ pageSize / sizes k * sizes k = pageSize ∧ sizes k % 8 = 0 ∧
      2 ≤ pageSize / sizes k := by
  decide

theorem blocktype_fits {sz k : Nat} (h : blocktype sz = .done k) : k < nsizes ∧ sz ≤ sizes k := by
  unfold blocktype at h
  split at h
  · rename_i i found
    obtain rfl := Outcome.done.inj h
    exact ⟨List.mem_range.mp (List.mem_of_find?_eq_some found), by
      simpa using List.find?_some found⟩
  · cases h

theorem blocktype_goes {sz : Nat} (small : sz < largestSubpageSize) :
    ∃ k, blocktype sz = .done k := by
  unfold blocktype
  split
  · exact ⟨_, rfl⟩
  · rename_i none
    have last := List.find?_eq_none.mp none 7 (by decide)
    have : sz < 2048 := small
    have big : sizes 7 = 2048 := rfl
    simp only [big, decide_eq_true_eq] at last
    omega

/-- The blocks of the page at `page`, if it has blocks of the type `k`. -/
def slots (page k : Nat) : List Nat :=
  (List.range (pageSize / sizes k)).map fun i => page + i * sizes k

section Slots

variable {page page' k k' a b : Nat}

theorem mem_slots : a ∈ slots page k ↔ ∃ i < pageSize / sizes k, page + i * sizes k = a := by
  simp [slots]

theorem slots_length : (slots page k).length = pageSize / sizes k := by simp [slots]

theorem slots_nodup (type : k < nsizes) : (slots page k).Nodup := by
  have positive := (sizes_divide k type).1
  apply List.Nodup.map _ List.nodup_range
  intro i j same
  have : i * sizes k = j * sizes k := by simpa using same
  exact Nat.eq_of_mul_eq_mul_right (by omega) this

/-- A block is inside its page. -/
theorem slots_inside (type : k < nsizes) (mem : a ∈ slots page k) :
    page ≤ a ∧ a + sizes k ≤ page + pageSize ∧ (a - page) % sizes k = 0 := by
  obtain ⟨i, bound, rfl⟩ := mem_slots.mp mem
  have whole := (sizes_divide k type).2.1
  have upto : (i + 1) * sizes k ≤ pageSize / sizes k * sizes k := Nat.mul_le_mul_right _ bound
  rw [whole, Nat.add_mul, Nat.one_mul] at upto
  refine ⟨Nat.le_add_right .., by omega, ?_⟩
  rw [Nat.add_sub_cancel_left, Nat.mul_mod_left]

theorem slots_aligned (type : k < nsizes) (kpage : Kpage page) (mem : a ∈ slots page k) :
    a % 8 = 0 := by
  obtain ⟨i, -, rfl⟩ := mem_slots.mp mem
  have eight := (sizes_divide k type).2.2.1
  have start : page % 8 = 0 := by
    have aligned : page % 4096 = 0 := kpage.1
    omega
  simp [Nat.add_mod, start, Nat.mul_mod, eight]

/-- Two blocks of pages that are the same or apart do not overlap. -/
theorem slots_apart (type : k < nsizes) (type' : k' < nsizes) (kpage : Kpage page)
    (kpage' : Kpage page') (same : page = page' → k = k') (mem : a ∈ slots page k)
    (mem' : b ∈ slots page' k') (other : a ≠ b) : b + sizes k' ≤ a ∨ a + sizes k ≤ b := by
  by_cases equal : page = page'
  · obtain rfl := same equal
    subst equal
    obtain ⟨i, -, rfl⟩ := mem_slots.mp mem
    obtain ⟨j, -, rfl⟩ := mem_slots.mp mem'
    rcases Nat.lt_trichotomy i j with less | rfl | more
    · have := Nat.mul_le_mul_right (sizes k) less
      rw [Nat.succ_mul] at this
      omega
    · exact (other rfl).elim
    · have := Nat.mul_le_mul_right (sizes k) more
      rw [Nat.succ_mul] at this
      omega
  · have inside := slots_inside type mem
    have inside' := slots_inside type' mem'
    have aligned : page % 4096 = 0 := kpage.1
    have aligned' : page' % 4096 = 0 := kpage'.1
    simp only [pageSize] at inside inside'
    omega

end Slots

namespace Heap

def slots (s : Heap) (r : Ref) : List Nat := Kmalloc.slots (s.prPageaddr r) (s.prBlocktype r)

/-- The first free block of a page. -/
def freelist (s : Heap) (r : Ref) : Option Nat :=
  if s.freelistOffset r = invalidOffset then none
  else some (s.prPageaddr r + s.freelistOffset r)

/-- The `pageref` is marked in a root that has its page. -/
def InUse (s : Heap) (r : Ref) : Prop :=
  (s.kheaproots r.1).page ≠ 0 ∧ (s.kheaproots r.1).pagerefsInuse r.2 = true

end Heap

/-- The lists of pages. -/
structure ListsSound (s : Heap) (all : List Ref) (bySize : Nat → List Ref) : Prop where
  allLinked : Linked s.nextAll s.allbase all
  allNodup : all.Nodup
  sizeLinked : ∀ k < nsizes, Linked s.nextSamesize (s.sizebases k) (bySize k)
  sizeNodup : ∀ k < nsizes, (bySize k).Nodup
  sizeMem : ∀ k < nsizes, ∀ r, r ∈ bySize k ↔ r ∈ all ∧ s.prBlocktype r = k

/-- A page whose free list is `l`, when clients have the blocks at `ptrs`. -/
structure PageSound (s : Heap) (ptrs : List Nat) (r : Ref) (l : List Nat) : Prop where
  blktype : s.prBlocktype r < nsizes
  kpage : Kpage (s.prPageaddr r)
  linked : Linked (freeNext s.mem) (s.freelist r) l
  nfree : s.nfree r = l.length
  nodup : l.Nodup
  placed : ∀ a ∈ l, a ∈ s.slots r
  covered : ∀ a ∈ s.slots r, a ∈ l ↔ a ∉ ptrs

/-- `numinuse` counts the marks of a root. -/
def KheapRoot.Counted (root : KheapRoot) : Prop :=
  root.numinuse = (Finset.univ.filter fun j => root.pagerefsInuse j = true).card

/-- The whole heap. -/
structure Sound (s : Heap) (live : List Block) (all : List Ref) (bySize : Nat → List Ref)
    (frees : Ref → List Nat) : Prop where
  lists : ListsSound s all bySize
  inuse : ∀ r ∈ all, s.InUse r
  counted : ∀ w, (s.kheaproots w).Counted
  page : ∀ r ∈ all, PageSound s (live.map Block.ptr) r (frees r)
  held : ∀ r ∈ all, (s.prPageaddr r, 1) ∈ s.kpages
  apart : ∀ r ∈ all, ∀ q ∈ all, s.prPageaddr r = s.prPageaddr q → r = q
  blocks : ∀ b ∈ live, ∃ r ∈ all, b.ptr ∈ s.slots r ∧ blocktype b.size = .done (s.prBlocktype r)
  liveNodup : (live.map Block.ptr).Nodup

/-- Some block of the page is not free. -/
def Busy (s : Heap) (frees : Ref → List Nat) (r : Ref) : Prop :=
  (frees r).length < pageSize / sizes (s.prBlocktype r)

variable {s t : Heap} {live : List Block} {all : List Ref} {bySize : Nat → List Ref}
variable {frees : Ref → List Nat} {ptrs ptrs' : List Nat} {r : Ref} {l : List Nat} {a : Nat}

/-! ### One page -/

/-- Another page is sound as long as its fields, the words of its blocks and the clients of its
blocks are the same. -/
theorem PageSound.frame (h : PageSound s ptrs r l)
    (pab : t.pageaddrAndBlocktype r = s.pageaddrAndBlocktype r)
    (offset : t.freelistOffset r = s.freelistOffset r) (nfree : t.nfree r = s.nfree r)
    (mem : ∀ a ∈ l, t.mem a = s.mem a)
    (clients : ∀ a ∈ s.slots r, a ∈ ptrs' ↔ a ∈ ptrs) : PageSound t ptrs' r l := by
  have page : t.prPageaddr r = s.prPageaddr r := by simp [Heap.prPageaddr, pab]
  have type : t.prBlocktype r = s.prBlocktype r := by simp [Heap.prBlocktype, pab]
  have slots : t.slots r = s.slots r := by simp [Heap.slots, page, type]
  constructor
  · rw [type]
    exact h.blktype
  · rw [page]
    exact h.kpage
  · have first : t.freelist r = s.freelist r := by simp [Heap.freelist, page, offset]
    rw [first]
    apply h.linked.congr
    intro a member
    simp [freeNext, mem a member]
  · rw [nfree]
    exact h.nfree
  · exact h.nodup
  · rw [slots]
    exact h.placed
  · rw [slots]
    intro a member
    rw [h.covered a member, clients a member]

theorem PageSound.short (h : PageSound s ptrs r l) :
    l.length ≤ pageSize / sizes (s.prBlocktype r) := by
  have sub : l.Subperm (s.slots r) := h.nodup.subperm h.placed
  simpa [Heap.slots, slots_length] using sub.length_le

/-- When as many blocks are free as there are, all of them are. -/
theorem PageSound.full (h : PageSound s ptrs r l)
    (length : l.length = pageSize / sizes (s.prBlocktype r)) : ∀ a ∈ s.slots r, a ∉ ptrs := by
  have sub : l.Subperm (s.slots r) := h.nodup.subperm h.placed
  have perm : l.Perm (s.slots r) :=
    sub.perm_of_length_le (by simp [Heap.slots, slots_length, length])
  intro a member
  exact (h.covered a member).mp (perm.mem_iff.mpr member)

/-- When fewer are free, a client has one. -/
theorem PageSound.busy (h : PageSound s ptrs r l)
    (length : l.length < pageSize / sizes (s.prBlocktype r)) : ∃ a ∈ s.slots r, a ∈ ptrs := by
  by_contra none
  have sub : (s.slots r).Subperm l := by
    apply (slots_nodup h.blktype).subperm
    intro a member
    exact (h.covered a member).mpr fun client => none ⟨a, member, client⟩
  have := sub.length_le
  rw [Heap.slots, slots_length] at this
  omega

/-- The first free block of a page, where the list of the free blocks starts with it. -/
theorem PageSound.first (h : PageSound s ptrs r (a :: l)) :
    s.freelistOffset r < pageSize ∧ s.prPageaddr r + s.freelistOffset r = a ∧
      Linked (freeNext s.mem) (freeNext s.mem a) l := by
  obtain ⟨head, rest⟩ := h.linked
  unfold Heap.freelist at head
  split at head
  · cases head
  · have is : s.prPageaddr r + s.freelistOffset r = a := Option.some.inj head
    have inside := slots_inside h.blktype (h.placed a (List.mem_cons_self ..))
    have positive := (sizes_divide _ h.blktype).1
    exact ⟨by omega, is, rest⟩

/-! ### Taking a block -/

theorem Sound.own (h : Sound s live all bySize frees) {q : Ref} (mem : r ∈ all) (mem' : q ∈ all)
    (slot : a ∈ s.slots r) (slot' : a ∈ s.slots q) : r = q := by
  apply h.apart r mem q mem'
  have page := h.page r mem
  have page' := h.page q mem'
  have inside := slots_inside page.blktype slot
  have inside' := slots_inside page'.blktype slot'
  have positive := (sizes_divide _ page.blktype).1
  have positive' := (sizes_divide _ page'.blktype).1
  have aligned : s.prPageaddr r % 4096 = 0 := page.kpage.1
  have aligned' : s.prPageaddr q % 4096 = 0 := page'.kpage.1
  simp only [pageSize] at inside inside'
  omega

theorem vsub_inside {page : Nat} (kpage : Kpage page) (low : page ≤ a) (high : a < page + pageSize) :
    vsub a page = a - page := by
  obtain ⟨-, -, top⟩ := kpage
  simp only [vsub, pageSize, mipsKseg1] at *
  omega

/-- What `doalloc` does with a page whose first free block is `a`. -/
theorem PageSound.doalloc (h : PageSound s ptrs r (a :: l)) :
    ∃ offset, s.doalloc r = .done (a, { s with
        nfree := Function.update s.nfree r l.length
        freelistOffset := Function.update s.freelistOffset r offset }) ∧
      PageSound { s with
        nfree := Function.update s.nfree r l.length
        freelistOffset := Function.update s.freelistOffset r offset } (a :: ptrs) r l := by
  obtain ⟨inPage, is, rest⟩ := h.first
  have length : s.nfree r = l.length + 1 := h.nfree
  have absent : a ∉ l := (List.nodup_cons.mp h.nodup).1
  have covered : ∀ x ∈ s.slots r, x ∈ l ↔ x ∉ a :: ptrs := by
    intro x slot
    have here := h.covered x slot
    by_cases same : x = a
    · simp [same, absent]
    · simpa [same] using here
  have sound (offset : Nat) (head : (if offset = invalidOffset then none
      else some (s.prPageaddr r + offset)) = freeNext s.mem a) : PageSound { s with
        nfree := Function.update s.nfree r l.length
        freelistOffset := Function.update s.freelistOffset r offset } (a :: ptrs) r l := by
    refine ⟨h.blktype, h.kpage, ?_, ?_, (List.nodup_cons.mp h.nodup).2,
      fun x mem => h.placed x (List.mem_cons_of_mem _ mem), covered⟩
    · show Linked _ (if Function.update s.freelistOffset r offset r = invalidOffset then none
        else some (s.prPageaddr r + Function.update s.freelistOffset r offset r)) l
      rw [Function.update_self, head]
      exact rest
    · show Function.update s.nfree r l.length r = l.length
      rw [Function.update_self]
  unfold Heap.doalloc
  cases l with
  | nil =>
    have last : s.mem a = 0 := by
      have none : freeNext s.mem a = none := rest
      unfold freeNext at none
      split at none
      · assumption
      · cases none
    refine ⟨invalidOffset, ?_, sound _ ?_⟩
    · simp [Outcome.kassert, inPage, is, last, length, Outcome.pure_def]
    · simp [freeNext, last]
  | cons b l =>
    obtain ⟨link, nonzero⟩ : s.mem a = b ∧ b ≠ 0 := by
      have head : freeNext s.mem a = some b := rest.1
      unfold freeNext at head
      split at head
      · cases head
      · rename_i nonzero
        have same : s.mem a = b := Option.some.inj head
        exact ⟨same, same ▸ nonzero⟩
    have slot := h.placed b (by simp)
    obtain ⟨low, high, -⟩ := slots_inside h.blktype slot
    have positive := (sizes_divide _ h.blktype).1
    have difference := vsub_inside h.kpage low (by omega)
    refine ⟨b - s.prPageaddr r, ?_, sound _ ?_⟩
    · have less : b - s.prPageaddr r < pageSize := by omega
      simp [Outcome.kassert, inPage, is, link, nonzero, length, difference, less,
        Outcome.pure_def]
    · have valid : b - s.prPageaddr r ≠ invalidOffset := by
        simp only [invalidOffset, pageSize] at *
        omega
      have back : s.prPageaddr r + (b - s.prPageaddr r) = b := by omega
      simp [valid, back, freeNext, link, nonzero]

/-- A free block of a sound heap goes to a client. -/
theorem Sound.doalloc (h : Sound s live all bySize frees) (mem : r ∈ all) (first : frees r = a :: l)
    {sz : Nat} (fits : blocktype sz = .done (s.prBlocktype r)) :
    ∃ t, s.doalloc r = .done (a, t) ∧ t.pageaddrAndBlocktype = s.pageaddrAndBlocktype ∧
      a ∈ s.slots r ∧ Sound t (⟨a, sz⟩ :: live) all bySize (Function.update frees r l) := by
  have page := h.page r mem
  rw [first] at page
  obtain ⟨offset, done, after⟩ := page.doalloc
  have slot := page.placed a (List.mem_cons_self ..)
  have new : a ∉ live.map Block.ptr :=
    (page.covered a slot).mp (List.mem_cons_self ..)
  refine ⟨_, done, rfl, slot, ⟨h.lists.1, h.lists.2, h.lists.3, h.lists.4, h.lists.5⟩, h.inuse,
    h.counted, ?_, h.held, h.apart, ?_, List.nodup_cons.mpr ⟨new, h.liveNodup⟩⟩
  · intro q mem'
    by_cases same : q = r
    · subst same
      rw [Function.update_self]
      exact after
    · rw [Function.update_of_ne same]
      refine (h.page q mem').frame rfl (Function.update_of_ne same ..)
        (Function.update_of_ne same ..) (fun _ _ => rfl) ?_
      intro x slot'
      have other : x ≠ a := by
        rintro rfl
        exact same (h.own mem' mem slot' slot)
      simp [other]
  · intro b client
    rcases List.mem_cons.mp client with rfl | old
    · exact ⟨r, mem, slot, fits⟩
    · exact h.blocks b old

/-! ### Putting a block back -/

theorem fillWords_other {mem : Nat → Nat} {ptr i x : Nat} (out : x < ptr ∨ ptr + 4 * i ≤ x) :
    fillWords mem ptr i x = mem x := by
  induction i with
  | zero => rfl
  | succ i ih =>
    rw [fillWords, Function.update_of_ne (by omega)]
    exact ih (by omega)

theorem fillDeadbeef_other {mem : Nat → Nat} {ptr len x : Nat} (out : x < ptr ∨ ptr + len ≤ x) :
    fillDeadbeef mem ptr len x = mem x :=
  fillWords_other (by omega)

/-- The heap after the block `a` of the page of `r` is put back. -/
def Heap.withBlock (s : Heap) (r : Ref) (a : Nat) : Heap :=
  { s with
    mem := Function.update (fillDeadbeef s.mem a (sizes (s.prBlocktype r))) a
      ((s.freelist r).getD 0)
    freelistOffset := Function.update s.freelistOffset r (a - s.prPageaddr r)
    nfree := Function.update s.nfree r (s.nfree r + 1) }

theorem Heap.withBlock_mem {x : Nat} (out : x < a ∨ a + sizes (s.prBlocktype r) ≤ x)
    (other : x ≠ a) : (s.withBlock r a).mem x = s.mem x := by
  show Function.update _ a _ x = _
  rw [Function.update_of_ne other]
  exact fillDeadbeef_other out

/-- What `putBlock` does with a block of the page that is not free. -/
theorem PageSound.putBlock (h : PageSound s ptrs r l) (slot : a ∈ s.slots r) (client : a ∈ ptrs) :
    s.putBlock r (a - s.prPageaddr r) = .done (s.withBlock r a) := by
  obtain ⟨low, -, -⟩ := slots_inside h.blktype slot
  have back : s.prPageaddr r + (a - s.prPageaddr r) = a := by omega
  have next : (if s.freelistOffset r = invalidOffset then 0
      else s.prPageaddr r + s.freelistOffset r) = (s.freelist r).getD 0 := by
    unfold Heap.freelist
    split <;> rfl
  have apart : s.freelistOffset r = invalidOffset ∨ a ≠ (s.freelist r).getD 0 := by
    by_cases invalid : s.freelistOffset r = invalidOffset
    · exact .inl invalid
    · right
      have head : s.freelist r = some (s.prPageaddr r + s.freelistOffset r) := if_neg invalid
      have linked := h.linked
      rw [head] at linked ⊢
      cases l with
      | nil => cases linked
      | cons b l =>
        obtain rfl : s.prPageaddr r + s.freelistOffset r = b := Option.some.inj linked.1
        have bound : s.prPageaddr r + s.freelistOffset r ∈ s.slots r :=
          h.placed _ (List.mem_cons_self ..)
        rintro rfl
        exact (h.covered _ slot).mp (List.mem_cons_self ..) client
  unfold Heap.putBlock
  simp only [back, next]
  rw [Outcome.kassert, if_pos apart, Outcome.done_bind]
  rfl

theorem PageSound.withBlock (h : PageSound s ptrs r l) (slot : a ∈ s.slots r) (client : a ∈ ptrs)
    (rest : ∀ x, x ∈ ptrs' ↔ x ∈ ptrs ∧ x ≠ a) : PageSound (s.withBlock r a) ptrs' r (a :: l) := by
  obtain ⟨low, high, -⟩ := slots_inside h.blktype slot
  have positive := (sizes_divide _ h.blktype).1
  have absent : a ∉ l := fun free => (h.covered a slot).mp free client
  refine ⟨h.blktype, h.kpage, ⟨?_, ?_⟩, ?_, List.nodup_cons.mpr ⟨absent, h.nodup⟩, ?_, ?_⟩
  · have valid : a - s.prPageaddr r ≠ invalidOffset := by
      simp only [invalidOffset, pageSize] at *
      omega
    show (if Function.update s.freelistOffset r _ r = _ then none
      else some (s.prPageaddr r + Function.update s.freelistOffset r _ r)) = _
    rw [Function.update_self, if_neg valid]
    congr 1
    omega
  · have link : freeNext (s.withBlock r a).mem a = s.freelist r := by
      show (if Function.update _ a _ a = 0 then none else some (Function.update _ a _ a)) = _
      simp only [Function.update_self]
      cases head : s.freelist r with
      | none => rfl
      | some b =>
        have nonzero : b ≠ 0 := by
          unfold Heap.freelist at head
          split at head
          · cases head
          · have is : s.prPageaddr r + s.freelistOffset r = b := Option.some.inj head
            have kernel : mipsKseg0 ≤ s.prPageaddr r := h.kpage.2.1
            simp only [mipsKseg0] at kernel
            omega
        simp [nonzero]
    rw [link]
    apply h.linked.congr
    intro x free
    have other : x ≠ a := fun same => absent (same ▸ free)
    have out := slots_apart h.blktype h.blktype h.kpage h.kpage (fun _ => rfl) slot
      (h.placed x free) (Ne.symm other)
    simp [freeNext, Heap.withBlock_mem (s := s) (r := r) (x := x) (by omega) other]
  · show Function.update s.nfree r _ r = _
    rw [Function.update_self, h.nfree]
    rfl
  · intro x mem
    rcases List.mem_cons.mp mem with rfl | free
    · exact slot
    · exact h.placed x free
  · intro x here
    have before := h.covered x here
    rw [List.mem_cons, rest]
    by_cases same : x = a
    · simp [same]
    · simpa [same] using before

/-- A live block goes back to its page. -/
theorem Sound.withBlock (h : Sound s live all bySize frees) (mem : r ∈ all) (slot : a ∈ s.slots r)
    (client : a ∈ live.map Block.ptr) : Sound (s.withBlock r a)
      (live.filter fun b => b.ptr ≠ a) all bySize (Function.update frees r (a :: frees r)) := by
  have rest (x : Nat) : x ∈ (live.filter fun b => b.ptr ≠ a).map Block.ptr ↔
      x ∈ live.map Block.ptr ∧ x ≠ a := by
    simp only [List.mem_map, List.mem_filter]
    constructor
    · rintro ⟨b, ⟨inside, other⟩, rfl⟩
      exact ⟨⟨b, inside, rfl⟩, by simpa using other⟩
    · rintro ⟨⟨b, inside, rfl⟩, other⟩
      exact ⟨b, ⟨inside, by simpa using other⟩, rfl⟩
  have page := h.page r mem
  refine ⟨⟨h.lists.1, h.lists.2, h.lists.3, h.lists.4, h.lists.5⟩, h.inuse, h.counted, ?_, h.held,
    h.apart, ?_, (h.liveNodup.sublist (List.filter_sublist.map _))⟩
  · intro q mem'
    by_cases same : q = r
    · subst same
      rw [Function.update_self]
      exact page.withBlock slot client rest
    · rw [Function.update_of_ne same]
      have page' := h.page q mem'
      refine page'.frame rfl (Function.update_of_ne same ..) (Function.update_of_ne same ..) ?_ ?_
      · intro x free
        have slot' := page'.placed x free
        have other : x ≠ a := by
          rintro rfl
          exact same (h.own mem' mem slot' slot)
        have out := slots_apart page.blktype page'.blktype page.kpage page'.kpage
          (fun equal => (same (h.apart q mem' r mem equal.symm)).elim) slot slot' (Ne.symm other)
        have positive := (sizes_divide _ page'.blktype).1
        exact Heap.withBlock_mem (by omega) other
      · intro x slot'
        rw [rest]
        have other : x ≠ a := by
          rintro rfl
          exact same (h.own mem' mem slot' slot)
        simp [other]
  · intro b client
    exact h.blocks b (List.mem_filter.mp client).1

/-! ### Releasing a page -/

theorem refs_short (nodup : all.Nodup) : all.length ≤ totalPagerefs := by
  have := nodup.length_le_card
  simpa [Ref, totalPagerefs] using this

/-- The heap with other lists of pages. -/
def Heap.relinked (s : Heap) (samesize : Ref → Option Ref) (bases : Nat → Option Ref)
    (next : Ref → Option Ref) (base : Option Ref) : Heap :=
  { s with nextSamesize := samesize, sizebases := bases, nextAll := next, allbase := base }

/-- `removeLists` takes a page off both lists, and off no other. -/
theorem ListsSound.removeLists (h : ListsSound s all bySize) (type : s.prBlocktype r < nsizes) :
    ∃ samesize bases next base,
      s.removeLists r (s.prBlocktype r) = .done (s.relinked samesize bases next base) ∧
        ListsSound (s.relinked samesize bases next base) (without r all)
          fun k => without r (bySize k) := by
  set k := s.prBlocktype r
  obtain ⟨base, samesize, done, linked, others⟩ := unlink_linked (x := r) (h.sizeLinked k type)
    (h.sizeNodup k type) (refs_short (h.sizeNodup k type))
  obtain ⟨base', next, done', linked', -⟩ := unlink_linked (x := r) h.allLinked h.allNodup
    (refs_short h.allNodup)
  refine ⟨samesize, Function.update s.sizebases k base, next, base', ?_, linked',
    without_nodup h.allNodup, ?_, fun j small => without_nodup (h.sizeNodup j small), ?_⟩
  · simp [Heap.removeLists, Outcome.kassert, type, done, done', Outcome.pure_def, Heap.relinked]
  · intro j small
    by_cases same : j = k
    · subst same
      show Linked samesize (Function.update s.sizebases k base k) _
      rw [Function.update_self]
      exact linked
    · have absent : r ∉ bySize j := fun there => same ((h.sizeMem j small r).mp there).2.symm
      have start : Function.update s.sizebases k base j = s.sizebases j :=
        Function.update_of_ne same ..
      show Linked samesize (Function.update s.sizebases k base j) _
      rw [start, without_absent absent]
      apply (h.sizeLinked j small).congr
      intro q there
      apply others
      intro here
      exact same (((h.sizeMem j small q).mp there).2.symm.trans ((h.sizeMem k type q).mp here).2)
  · intro j small q
    show q ∈ without r (bySize j) ↔ q ∈ without r all ∧ s.prBlocktype q = j
    rw [mem_without, mem_without, h.sizeMem j small q]
    tauto

/-- The heap without the mark of a `pageref`. -/
def Heap.unmark (s : Heap) (p : Ref) : Heap :=
  s.setRoot p.1 { s.kheaproots p.1 with
    pagerefsInuse := Function.update (s.kheaproots p.1).pagerefsInuse p.2 false
    numinuse := (s.kheaproots p.1).numinuse - 1 }

/-- No root without a page has marks: this is so as long as every page for a root was there when it
was asked for. -/
def Heap.Settled (s : Heap) : Prop :=
  ∀ w, (s.kheaproots w).page = 0 → (s.kheaproots w).numinuse = 0

theorem Counted.positive {root : KheapRoot} (h : root.Counted) {j : Fin npagerefsPerPage}
    (mark : root.pagerefsInuse j = true) : 0 < root.numinuse := by
  rw [h]
  exact Finset.card_pos.mpr ⟨j, by simpa using mark⟩

theorem Counted.unmark {root : KheapRoot} (h : root.Counted) {j : Fin npagerefsPerPage}
    (mark : root.pagerefsInuse j = true) : KheapRoot.Counted { root with
      pagerefsInuse := Function.update root.pagerefsInuse j false
      numinuse := root.numinuse - 1 } := by
  have rest : (Finset.univ.filter fun i => Function.update root.pagerefsInuse j false i = true) =
      (Finset.univ.filter fun i => root.pagerefsInuse i = true).erase j := by
    ext i
    by_cases same : i = j <;> simp [same, Function.update_apply]
  unfold KheapRoot.Counted at *
  rw [rest, Finset.card_erase_of_mem (by simpa using mark), h]

theorem Counted.mark {root : KheapRoot} (h : root.Counted) {j : Fin npagerefsPerPage}
    (clear : root.pagerefsInuse j = false) : KheapRoot.Counted { root with
      pagerefsInuse := Function.update root.pagerefsInuse j true
      numinuse := root.numinuse + 1 } := by
  have rest : (Finset.univ.filter fun i => Function.update root.pagerefsInuse j true i = true) =
      insert j (Finset.univ.filter fun i => root.pagerefsInuse i = true) := by
    ext i
    by_cases same : i = j <;> simp [same, Function.update_apply]
  unfold KheapRoot.Counted at *
  rw [rest, Finset.card_insert_of_notMem (by simpa using clear), h]

theorem freeFrom_ensures {p : Ref} (ws : List (Fin numPagerefpages)) :
    (Heap.freeFrom p ws s).Ensures (· = s.unmark p) := by
  induction ws with
  | nil => simp [Heap.freeFrom]
  | cons w ws ih =>
    unfold Heap.freeFrom
    dsimp only
    split
    · rw [Outcome.ensures_bind, Outcome.ensures_kassert]
      exact fun _ => ih
    · split
      · rename_i here
        subst here
        simp [Heap.unmark]
      · exact ih

theorem freeFrom_goes {p : Ref} (ws : List (Fin numPagerefpages)) (mem : p.1 ∈ ws)
    (settled : s.Settled) (inuse : s.InUse p) (counted : (s.kheaproots p.1).Counted) :
    Heap.freeFrom p ws s = .done (s.unmark p) := by
  induction ws with
  | nil => cases mem
  | cons w ws ih =>
    unfold Heap.freeFrom
    by_cases here : p.1 = w
    · subst here
      have positive := Counted.positive counted inuse.2
      simp [inuse.1, inuse.2, positive, Outcome.kassert, Heap.unmark, Outcome.pure_def]
    · have rest := ih (by simpa [here] using mem)
      by_cases page : (s.kheaproots w).page = 0
      · simp [page, settled w page, Outcome.kassert, rest]
      · simp [page, here, rest]

/-- What the calls keep. -/
def Good (s : Heap) (live : List Block) : Prop :=
  ∃ all bySize frees, Sound s live all bySize frees ∧ ∀ r ∈ all, Busy s frees r

/-- A page that no client has a block of goes away. -/
theorem Sound.remove (h : Sound s live all bySize frees) (mem : r ∈ all)
    (unused : ∀ a ∈ s.slots r, a ∉ live.map Block.ptr) {samesize next : Ref → Option Ref}
    {bases : Nat → Option Ref} {base : Option Ref}
    (lists : ListsSound (s.relinked samesize bases next base) (without r all)
      fun k => without r (bySize k)) :
    Sound (((s.relinked samesize bases next base).unmark r).freeKpages (s.prPageaddr r)) live
      (without r all) (fun k => without r (bySize k)) frees := by
  refine ⟨⟨lists.1, lists.2, lists.3, lists.4, lists.5⟩, ?_, ?_, ?_, ?_, ?_, ?_, h.liveNodup⟩
  · intro q rest
    obtain ⟨mem', other⟩ := mem_without.mp rest
    obtain ⟨page, mark⟩ := h.inuse q mem'
    unfold Heap.InUse
    show (Function.update s.kheaproots r.1 _ q.1).page ≠ 0 ∧
      (Function.update s.kheaproots r.1 _ q.1).pagerefsInuse q.2 = true
    by_cases root : q.1 = r.1
    · have place : q.2 ≠ r.2 := fun same => other (Prod.ext root same)
      rw [root] at page mark
      rw [root, Function.update_self]
      refine ⟨page, ?_⟩
      show Function.update (s.kheaproots r.1).pagerefsInuse r.2 false q.2 = true
      rw [Function.update_of_ne place]
      exact mark
    · rw [Function.update_of_ne root]
      exact ⟨page, mark⟩
  · intro w
    show (Function.update s.kheaproots r.1 _ w).Counted
    by_cases root : w = r.1
    · rw [root, Function.update_self]
      exact Counted.unmark (h.counted r.1) (h.inuse r mem).2
    · rw [Function.update_of_ne root]
      exact h.counted w
  · intro q rest
    exact (h.page q (mem_without.mp rest).1).frame rfl rfl rfl (fun _ _ => rfl) fun _ _ => Iff.rfl
  · intro q rest
    obtain ⟨mem', other⟩ := mem_without.mp rest
    apply List.mem_filter.mpr
    refine ⟨h.held q mem', ?_⟩
    have away : s.prPageaddr q ≠ s.prPageaddr r := fun same => other (h.apart q mem' r mem same)
    exact decide_eq_true away
  · intro q rest q' rest' same
    exact h.apart q (mem_without.mp rest).1 q' (mem_without.mp rest').1 same
  · intro b client
    obtain ⟨q, mem', slot, fits⟩ := h.blocks b client
    refine ⟨q, mem_without.mpr ⟨mem', ?_⟩, slot, fits⟩
    rintro rfl
    exact unused _ slot (List.mem_map.mpr ⟨b, client, rfl⟩)

theorem releasePage_sound (h : Sound s live all bySize frees) (mem : r ∈ all)
    (busy : ∀ q ∈ all, q ≠ r → Busy s frees q) : (s.releasePage r).Ensures (Good · live) ∧
      (s.Settled → ∃ t, s.releasePage r = .done t) := by
  have page := h.page r mem
  have short : s.nfree r ≤ pageSize / sizes (s.prBlocktype r) := by
    rw [page.nfree]
    exact page.short
  unfold Heap.releasePage
  simp only [Outcome.kassert, short, if_true, Outcome.done_bind]
  split
  · rename_i full
    rw [page.nfree] at full
    obtain ⟨samesize, bases, next, base, done, lists⟩ := h.lists.removeLists page.blktype
    rw [done, Outcome.done_bind]
    have after := h.remove mem (page.full full) lists
    constructor
    · have freed : ((s.relinked samesize bases next base).freepageref r).Ensures
          (· = (s.relinked samesize bases next base).unmark r) := freeFrom_ensures _
      refine freed.then fun t is => ?_
      subst is
      rw [Outcome.ensures_pure]
      refine ⟨_, _, _, after, ?_⟩
      intro q rest
      obtain ⟨mem', other⟩ := mem_without.mp rest
      exact busy q mem' other
    · intro settled
      have goes := freeFrom_goes (s := s.relinked samesize bases next base) _
        (List.mem_finRange r.1) settled (h.inuse r mem) (h.counted r.1)
      rw [Heap.freepageref, goes]
      exact ⟨_, rfl⟩
  · rename_i some
    rw [Outcome.ensures_pure]
    refine ⟨⟨_, _, _, h, ?_⟩, fun _ => ⟨s, rfl⟩⟩
    intro q mem'
    by_cases same : q = r
    · subst same
      rw [page.nfree] at some
      exact lt_of_le_of_ne page.short some
    · exact busy q mem' same

/-- The walk over all pages finds the page of a live block. -/
theorem Sound.findPage (h : Sound s live all bySize frees) (mem : r ∈ all) (slot : a ∈ s.slots r) :
    all.find? (fun q => decide (s.prPageaddr q ≤ a ∧ a < (s.prPageaddr q + pageSize) % 2 ^ 32)) =
      some r := by
  have whole (q : Ref) (mem : q ∈ all) :
      (s.prPageaddr q + pageSize) % 2 ^ 32 = s.prPageaddr q + pageSize := by
    obtain ⟨-, -, top⟩ := (h.page q mem).kpage
    apply Nat.mod_eq_of_lt
    exact lt_of_le_of_lt top (by decide)
  have inside := slots_inside (h.page r mem).blktype slot
  have positive := (sizes_divide _ (h.page r mem).blktype).1
  cases found : all.find? _ with
  | none =>
    have missed := List.find?_eq_none.mp found r mem
    rw [whole r mem] at missed
    exact (missed (by simpa using ⟨inside.1, by omega⟩)).elim
  | some q =>
    have mem' := List.mem_of_find?_eq_some found
    have hit := List.find?_some found
    rw [whole q mem'] at hit
    simp only [decide_eq_true_eq] at hit
    congr 1
    apply h.apart q mem' r mem
    have aligned : s.prPageaddr r % 4096 = 0 := (h.page r mem).kpage.1
    have aligned' : s.prPageaddr q % 4096 = 0 := (h.page q mem').kpage.1
    simp only [pageSize] at inside hit
    omega

theorem contains_done (type : s.prBlocktype r < nsizes) : s.contains a r =
    .done (decide (s.prPageaddr r ≤ a ∧ a < (s.prPageaddr r + pageSize) % 2 ^ 32)) := by
  rw [Heap.contains, Outcome.kassert, if_pos type, Outcome.done_bind, Outcome.pure_def]

theorem Sound.search_page (h : Sound s live all bySize frees) (mem : r ∈ all)
    (slot : a ∈ s.slots r) :
    search s.nextAll (s.contains a) totalPagerefs s.allbase = .done (some r) := by
  rw [← h.findPage mem slot]
  apply search_linked h.lists.allLinked (refs_short h.lists.allNodup)
  intro q mem'
  exact contains_done (h.page q mem').blktype

theorem subpageKfree_found
    (found : search s.nextAll (s.contains a) totalPagerefs s.allbase = .done (some r))
    (valid : ¬ (pageSize ≤ vsub a (s.prPageaddr r) ∨
      vsub a (s.prPageaddr r) % sizes (s.prBlocktype r) ≠ 0)) :
    s.subpageKfree a = (do
      let s ← s.putBlock r (vsub a (s.prPageaddr r))
      let s ← s.releasePage r
      return (true, s)) := by
  rw [Heap.subpageKfree, found, Outcome.done_bind]
  dsimp only
  rw [if_neg valid]
/-- Freeing a live block keeps the heap sound, and it goes through on a settled heap. -/
theorem kfree_sound (h : Sound s live all bySize frees) (busy : ∀ q ∈ all, Busy s frees q)
    (client : a ∈ live.map Block.ptr) :
    (s.kfree a).Ensures (Good · (live.filter fun b => b.ptr ≠ a)) ∧
      (s.Settled → ∃ t, s.kfree a = .done t) := by
  obtain ⟨b, here, is⟩ := List.mem_map.mp client
  obtain ⟨r, mem, slot, -⟩ := h.blocks b here
  rw [is] at slot
  have page := h.page r mem
  obtain ⟨low, high, placed⟩ := slots_inside page.blktype slot
  have positive := (sizes_divide _ page.blktype).1
  have nonzero : a ≠ 0 := by
    have kernel : mipsKseg0 ≤ s.prPageaddr r := page.kpage.2.1
    simp only [mipsKseg0] at kernel
    omega
  have offset := vsub_inside page.kpage low (by omega)
  have valid : ¬ (pageSize ≤ vsub a (s.prPageaddr r) ∨
      vsub a (s.prPageaddr r) % sizes (s.prBlocktype r) ≠ 0) := by
    rw [offset]
    rintro (far | odd)
    · omega
    · exact odd placed
  have back := releasePage_sound (h.withBlock mem slot client) mem (fun q mem' other => by
    unfold Busy
    rw [Function.update_of_ne other]
    exact busy q mem')
  rw [Heap.kfree, if_neg nonzero, subpageKfree_found (h.search_page mem slot) valid, offset,
    page.putBlock slot client, Outcome.done_bind]
  constructor
  · simp only [Outcome.ensures_bind]
    exact back.1.mono fun t good => by simpa using good
  · intro settled
    obtain ⟨t, done⟩ := back.2 settled
    exact ⟨t, by simp [done, Outcome.pure_def]⟩

/-! ### A fresh page -/

/-- The loop leaves all blocks up to the last on the free list, the last one first. -/
theorem threadBlocks_linked {page size : Nat} (mem : Nat → Nat) (nonzero : page ≠ 0)
    (positive : 0 < size) (i : Nat) : ∃ m, threadBlocks page size mem i = .done m ∧
      Linked (freeNext m) (some (page + i * size))
        ((List.range (i + 1)).map fun j => page + j * size).reverse ∧
      ∀ x, (∀ j ≤ i, x ≠ page + j * size) → m x = mem x := by
  induction i with
  | zero =>
    refine ⟨_, rfl, by simp [freeNext], ?_⟩
    intro x other
    exact Function.update_of_ne (by simpa using other 0 (Nat.le_refl _)) ..
  | succ i ih =>
    obtain ⟨m, done, linked, same⟩ := ih
    have apart (j : Nat) (before : j ≤ i) : page + j * size ≠ page + (i + 1) * size := by
      have := Nat.mul_le_mul_right size before
      rw [Nat.add_mul]
      omega
    have loop : page + (i + 1) * size ≠ page + i * size := (apart i (Nat.le_refl _)).symm
    refine ⟨Function.update m (page + (i + 1) * size) (page + i * size), ?_, ?_, ?_⟩
    · rw [threadBlocks, done]
      simp only [Outcome.done_bind, Function.update_self]
      rw [Outcome.kassert, if_pos loop]
      rfl
    · rw [List.range_succ, List.map_append, List.reverse_append]
      refine ⟨rfl, ?_⟩
      have link : freeNext (Function.update m (page + (i + 1) * size) (page + i * size))
          (page + (i + 1) * size) = some (page + i * size) := by
        have target : page + i * size ≠ 0 := by omega
        rw [freeNext, Function.update_self, if_neg target]
      rw [link]
      apply linked.congr
      intro x mem
      obtain ⟨j, before, rfl⟩ := List.mem_map.mp (List.mem_reverse.mp mem)
      have less : j < i + 1 := List.mem_range.mp before
      rw [freeNext, freeNext, Function.update_of_ne (apart j (by omega))]
    · intro x other
      rw [Function.update_of_ne (other (i + 1) (Nat.le_refl _))]
      exact same x fun j before => other j (by omega)

/-- The heap with the page of `r` set up. -/
def Heap.withPage (s : Heap) (r : Ref) (page k : Nat) (mem : Nat → Nat) : Heap :=
  { s with
    mem := mem
    pageaddrAndBlocktype := Function.update s.pageaddrAndBlocktype r (mkpab page k)
    nfree := Function.update s.nfree r (pageSize / sizes k)
    freelistOffset := Function.update s.freelistOffset r ((pageSize / sizes k - 1) * sizes k)
    nextSamesize := Function.update s.nextSamesize r (s.sizebases k)
    sizebases := Function.update s.sizebases k (some r)
    nextAll := Function.update s.nextAll r s.allbase
    allbase := some r }

section Fresh

variable {page k : Nat} {mem : Nat → Nat}

theorem Heap.withPage_page (kpage : Kpage page) : (s.withPage r page k mem).prPageaddr r = page := by
  have bound : page < 2 ^ 32 := by
    obtain ⟨-, -, top⟩ := kpage
    simp only [pageSize, mipsKseg1] at top
    omega
  show Function.update s.pageaddrAndBlocktype r _ r &&& _ = _
  rw [Function.update_self]
  exact mkpab_page kpage.1 bound

theorem Heap.withPage_blk (type : k < nsizes) : (s.withPage r page k mem).prBlocktype r = k := by
  show Function.update s.pageaddrAndBlocktype r _ r &&& _ = _
  rw [Function.update_self]
  exact mkpab_blk type

theorem Heap.withPage_other {q : Ref} (other : q ≠ r) :
    (s.withPage r page k mem).pageaddrAndBlocktype q = s.pageaddrAndBlocktype q :=
  Function.update_of_ne other ..

/-- The fresh page is sound: all its blocks are free. -/
theorem withPage_fresh (kpage : Kpage page) (type : k < nsizes)
    (linked : Linked (freeNext mem) (some (page + (pageSize / sizes k - 1) * sizes k))
      (slots page k).reverse) (unused : ∀ a ∈ slots page k, a ∉ ptrs) :
    PageSound (s.withPage r page k mem) ptrs r (slots page k).reverse := by
  have addr : (s.withPage r page k mem).prPageaddr r = page := Heap.withPage_page kpage
  have blk : (s.withPage r page k mem).prBlocktype r = k := Heap.withPage_blk type
  have here : (s.withPage r page k mem).slots r = slots page k := by
    rw [Heap.slots, addr, blk]
  refine ⟨?_, ?_, ?_, ?_, List.nodup_reverse.mpr (slots_nodup type), ?_, ?_⟩
  · rw [blk]
    exact type
  · rw [addr]
    exact kpage
  · have offset : (s.withPage r page k mem).freelistOffset r =
        (pageSize / sizes k - 1) * sizes k := Function.update_self ..
    have valid : (pageSize / sizes k - 1) * sizes k ≠ invalidOffset := by
      have divide := sizes_divide k type
      have less : (pageSize / sizes k - 1) * sizes k ≤ pageSize / sizes k * sizes k :=
        Nat.mul_le_mul_right _ (by omega)
      rw [divide.2.1] at less
      simp only [pageSize, invalidOffset] at *
      omega
    rw [Heap.freelist, offset, if_neg valid, addr]
    exact linked
  · show Function.update s.nfree r _ r = _
    rw [Function.update_self, List.length_reverse, slots_length]
  · rw [here]
    exact fun a free => List.mem_reverse.mp free
  · rw [here]
    intro a slot
    simp [slot, unused a slot]

/-- A page that nobody has comes to the heap. -/
theorem Sound.setupPage (h : Sound s live all bySize frees) (new : r ∉ all) (mark : s.InUse r)
    (kpage : Kpage page) (held : (page, 1) ∈ s.kpages) (type : k < nsizes)
    (apart : ∀ q ∈ all, s.prPageaddr q ≠ page) :
    ∃ t, s.setupPage r page k = .done t ∧ t.prBlocktype r = k ∧
      (∀ q ∈ all, t.prBlocktype q = s.prBlocktype q) ∧
      Sound t live (r :: all) (Function.update bySize k (r :: bySize k))
        (Function.update frees r (slots page k).reverse) := by
  have divide := sizes_divide k type
  have nonzero : page ≠ 0 := by
    have kernel : mipsKseg0 ≤ page := kpage.2.1
    simp only [mipsKseg0] at kernel
    omega
  obtain ⟨m, done, linked, same⟩ := threadBlocks_linked s.mem nonzero
    (show 0 < sizes k by omega) (pageSize / sizes k - 1)
  have whole : pageSize / sizes k - 1 + 1 = pageSize / sizes k := by omega
  have last : page + (pageSize / sizes k - 1) * sizes k ∈ slots page k :=
    mem_slots.mpr ⟨_, by omega, rfl⟩
  have inside := slots_inside type last
  have offset : vsub (page + (pageSize / sizes k - 1) * sizes k) page =
      (pageSize / sizes k - 1) * sizes k := by
    rw [vsub_inside kpage inside.1 (by omega), Nat.add_sub_cancel_left]
  have goes : s.setupPage r page k = .done (s.withPage r page k m) := by
    simp only [Heap.setupPage, done, Outcome.done_bind, offset, Outcome.kassert, if_true,
      Outcome.pure_def]
    rfl
  have outside : ∀ q ∈ all, ∀ a ∈ s.slots q, a ∉ slots page k := by
    intro q mem a slot slot'
    have old := h.page q mem
    have inside := slots_inside old.blktype slot
    have inside' := slots_inside type slot'
    have aligned : s.prPageaddr q % 4096 = 0 := old.kpage.1
    have aligned' : page % 4096 = 0 := kpage.1
    have positive := (sizes_divide _ old.blktype).1
    have away := apart q mem
    simp only [pageSize] at inside inside'
    omega
  have unused : ∀ a ∈ slots page k, a ∉ live.map Block.ptr := by
    intro a slot client
    obtain ⟨b, mem, rfl⟩ := List.mem_map.mp client
    obtain ⟨q, mem', slot', -⟩ := h.blocks b mem
    exact outside q mem' _ slot' slot
  have others : ∀ q ∈ all, q ≠ r := fun q mem same => new (same ▸ mem)
  have addr : (s.withPage r page k m).prPageaddr r = page := Heap.withPage_page kpage
  have blk : (s.withPage r page k m).prBlocktype r = k := Heap.withPage_blk type
  have addrs : ∀ q ∈ all, (s.withPage r page k m).prPageaddr q = s.prPageaddr q := by
    intro q mem
    rw [Heap.prPageaddr, Heap.withPage_other (others q mem), Heap.prPageaddr]
  have blks : ∀ q ∈ all, (s.withPage r page k m).prBlocktype q = s.prBlocktype q := by
    intro q mem
    rw [Heap.prBlocktype, Heap.withPage_other (others q mem), Heap.prBlocktype]
  have absent (j : Nat) (small : j < nsizes) : r ∉ bySize j := fun there =>
    new ((h.lists.sizeMem j small r).mp there).1
  refine ⟨_, goes, blk, blks, ⟨?_, ?_, ?_, ?_, ?_⟩, ?_, h.counted, ?_, ?_, ?_, ?_, h.liveNodup⟩
  · exact h.lists.allLinked.push new
  · exact List.nodup_cons.mpr ⟨new, h.lists.allNodup⟩
  · intro j small
    show Linked _ (Function.update s.sizebases k (some r) j) _
    by_cases is : j = k
    · subst is
      rw [Function.update_self, Function.update_self]
      exact (h.lists.sizeLinked j small).push (absent j small)
    · rw [Function.update_of_ne is, Function.update_of_ne is]
      exact (h.lists.sizeLinked j small).update (absent j small) _
  · intro j small
    by_cases is : j = k
    · subst is
      rw [Function.update_self]
      exact List.nodup_cons.mpr ⟨absent j small, h.lists.sizeNodup j small⟩
    · rw [Function.update_of_ne is]
      exact h.lists.sizeNodup j small
  · intro j small q
    by_cases own : q = r
    · subst own
      rw [blk]
      by_cases is : j = k
      · subst is
        simp
      · simp [is, absent j small, Ne.symm is]
    · have old := h.lists.sizeMem j small q
      have type' : (s.withPage r page k m).prBlocktype q = s.prBlocktype q := by
        rw [Heap.prBlocktype, Heap.withPage_other own, Heap.prBlocktype]
      rw [type', List.mem_cons]
      by_cases is : j = k
      · subst is
        rw [Function.update_self, List.mem_cons, old]
        simp [own]
      · rw [Function.update_of_ne is, old]
        simp [own]
  · intro q mem
    rcases List.mem_cons.mp mem with rfl | old
    · exact mark
    · exact h.inuse q old
  · intro q mem
    rcases List.mem_cons.mp mem with rfl | old
    · rw [Function.update_self]
      apply withPage_fresh kpage type _ unused
      rw [whole] at linked
      exact linked
    · have other := others q old
      rw [Function.update_of_ne other]
      refine (h.page q old).frame (Heap.withPage_other other) (Function.update_of_ne other ..)
        (Function.update_of_ne other ..) ?_ fun _ _ => Iff.rfl
      intro a free
      apply same
      rintro j bound rfl
      exact outside q old _ ((h.page q old).placed _ free) (mem_slots.mpr ⟨j, by omega, rfl⟩)
  · intro q mem
    rcases List.mem_cons.mp mem with rfl | old
    · rw [addr]
      exact held
    · rw [addrs q old]
      exact h.held q old
  · intro q mem q' mem' equal
    rcases List.mem_cons.mp mem with rfl | old <;> rcases List.mem_cons.mp mem' with rfl | old'
    · rfl
    · rw [addr, addrs q' old'] at equal
      exact (apart q' old' equal.symm).elim
    · rw [addr, addrs q old] at equal
      exact (apart q old equal).elim
    · rw [addrs q old, addrs q' old'] at equal
      exact h.apart q old q' old' equal
  · intro b client
    obtain ⟨q, mem, slot, fits⟩ := h.blocks b client
    refine ⟨q, List.mem_cons_of_mem _ mem, ?_, ?_⟩
    · rw [Heap.slots, addrs q mem, blks q mem]
      exact slot
    · rw [blks q mem]
      exact fits

end Fresh

/-! ### Allocating -/

/-- Roots and pages have come to the heap, and no mark has gone. -/
structure Grown (s t : Heap) : Prop where
  same : t = { s with kheaproots := t.kheaproots, kpages := t.kpages }
  held : ∀ page ∈ s.kpages, page ∈ t.kpages
  inuse : ∀ q, s.InUse q → t.InUse q
  counted : ∀ w, (t.kheaproots w).Counted

theorem Grown.refl (counted : ∀ w, (s.kheaproots w).Counted) : Grown s s :=
  ⟨rfl, fun _ => id, fun _ => id, counted⟩

theorem Sound.grown (h : Sound s live all bySize frees) (grown : Grown s t) :
    Sound t live all bySize frees := by
  obtain ⟨same, held, inuse, counted⟩ := grown
  rw [same]
  exact ⟨⟨h.lists.1, h.lists.2, h.lists.3, h.lists.4, h.lists.5⟩,
    fun q mem => same ▸ inuse q (h.inuse q mem), counted,
    fun q mem => (h.page q mem).frame rfl rfl rfl (fun _ _ => rfl) fun _ _ => Iff.rfl,
    fun q mem => held _ (h.held q mem), h.apart, h.blocks, h.liveNodup⟩

/-- A root gets a mark, and maybe the page that it did not have. -/
theorem Grown.mark (counted : ∀ w, (s.kheaproots w).Counted) {w : Fin numPagerefpages}
    {j : Fin npagerefsPerPage} (clear : (s.kheaproots w).pagerefsInuse j = false) {v : Nat}
    {kpages : List (Nat × Nat)} (held : ∀ page ∈ s.kpages, page ∈ kpages)
    (kept : (s.kheaproots w).page ≠ 0 → v ≠ 0) :
    Grown s { s with
      kheaproots := Function.update s.kheaproots w ⟨v,
        Function.update (s.kheaproots w).pagerefsInuse j true, (s.kheaproots w).numinuse + 1⟩
      kpages := kpages } := by
  refine ⟨rfl, held, ?_, ?_⟩
  · rintro q ⟨had, mark⟩
    unfold Heap.InUse
    by_cases root : q.1 = w
    · rw [root] at had mark ⊢
      dsimp only
      rw [Function.update_self]
      refine ⟨kept had, ?_⟩
      show Function.update (s.kheaproots w).pagerefsInuse j true q.2 = true
      rw [Function.update_apply]
      split
      · rfl
      · exact mark
    · dsimp only
      rw [Function.update_of_ne root]
      exact ⟨had, mark⟩
  · intro v
    dsimp only
    by_cases root : v = w
    · rw [root, Function.update_self]
      exact Counted.mark (counted w) clear
    · rw [Function.update_of_ne root]
      exact counted v

theorem allocKpages_meets {npages va : Nat} {P : Nat × Heap → Prop} (none : P (0, s))
    (some : va ≠ 0 → Fresh s.kpages va npages →
      P (va, { s with kpages := (va, npages) :: s.kpages })) :
    (s.allocKpages npages va).Meets P := by
  unfold Heap.allocKpages
  split
  · exact none
  · rename_i nonzero
    simpa using some nonzero

/-- A new `pageref` is one that was not marked. -/
theorem allocFrom_meets {answer : Nat} (counted : ∀ w, (s.kheaproots w).Counted)
    (ws : List (Fin numPagerefpages)) : (Heap.allocFrom answer ws s).Meets fun x =>
      Grown s x.2 ∧ ∀ r, x.1 = some r → ¬ s.InUse r ∧ x.2.InUse r := by
  induction ws with
  | nil => exact ⟨.refl counted, by simp⟩
  | cons w ws ih =>
    unfold Heap.allocFrom
    dsimp only
    split
    · exact ih
    · split
      · exact ih
      · rename_i j found
        have clear : (s.kheaproots w).pagerefsInuse j = false := by
          simpa using List.find?_some found
        have new : ¬ s.InUse (w, j) := by
          rintro ⟨-, mark⟩
          simp [clear] at mark
        by_cases page : (s.kheaproots w).page = 0
        · simp only [page, if_true, Heap.allocpagerefpage, Heap.setRoot, Function.update_self,
            Outcome.meets_bind, Outcome.meets_kassert, true_and]
          apply allocKpages_meets
          · have grown := Grown.mark (s := s) (v := 0) counted clear (fun _ => id)
              fun had => (had page).elim
            simpa using grown
          · intro nonzero fresh
            have grown := Grown.mark (s := s) (v := answer) counted clear
              (fun _ => List.mem_cons_of_mem (answer, 1)) fun _ => nonzero
            have aligned : answer % pageSize = 0 := fresh.1
            have mark : Heap.InUse { s with
                kheaproots := Function.update s.kheaproots w ⟨answer,
                  Function.update (s.kheaproots w).pagerefsInuse j true,
                  (s.kheaproots w).numinuse + 1⟩
                kpages := (answer, 1) :: s.kpages } (w, j) := by
              simp [Heap.InUse, nonzero]
            simp only [nonzero, if_false, Outcome.meets_bind, Outcome.meets_kassert, aligned,
              true_and, Outcome.meets_pure, Function.update_self, Function.update_idem]
            refine ⟨grown, ?_⟩
            rintro r ⟨⟩
            exact ⟨new, mark⟩
        · have grown := Grown.mark (s := s) counted clear (fun _ => id) fun had => had
          have mark : Heap.InUse { s with
              kheaproots := Function.update s.kheaproots w ⟨(s.kheaproots w).page,
                Function.update (s.kheaproots w).pagerefsInuse j true,
                (s.kheaproots w).numinuse + 1⟩ } (w, j) := by
            simp [Heap.InUse, page]
          simp only [page, if_false, Outcome.pure_def, Outcome.done_bind, Heap.setRoot,
            Function.update_self, Outcome.meets_done]
          refine ⟨grown, ?_⟩
          rintro r ⟨⟩
          exact ⟨new, mark⟩

theorem Good.counted (h : Good s live) (w : Fin numPagerefpages) : (s.kheaproots w).Counted := by
  obtain ⟨_, _, _, sound, -⟩ := h
  exact sound.counted w

/-- Taking the first free block leaves the page with a block that is not free. -/
theorem doalloc_good (h : Sound s live all bySize frees) (mem : r ∈ all) (first : frees r = a :: l)
    (busy : ∀ q ∈ all, q ≠ r → Busy s frees q) {sz : Nat}
    (fits : blocktype sz = .done (s.prBlocktype r)) : (s.doalloc r).Meets fun x =>
      x.1 ≠ 0 ∧ Good x.2 (⟨x.1, sz⟩ :: live) := by
  obtain ⟨t, done, pab, slot, sound⟩ := h.doalloc mem first fits
  have page := h.page r mem
  have type (q : Ref) : t.prBlocktype q = s.prBlocktype q := by
    rw [Heap.prBlocktype, pab, Heap.prBlocktype]
  rw [done]
  refine ⟨?_, all, bySize, _, sound, ?_⟩
  · have low := (slots_inside page.blktype slot).1
    have kernel : mipsKseg0 ≤ s.prPageaddr r := page.kpage.2.1
    simp only [mipsKseg0] at kernel
    dsimp only
    omega
  · intro q mem'
    unfold Busy
    rw [type]
    by_cases same : q = r
    · subst same
      have short := page.short
      rw [first, List.length_cons] at short
      rw [Function.update_self]
      omega
    · rw [Function.update_of_ne same]
      exact busy q mem' same

/-- A request below the threshold: either there is no memory, or a block is handed out. -/
theorem kmalloc_good (h : Good s live) {sz page refpage : Nat} (small : sz < largestSubpageSize) :
    (s.kmalloc sz page refpage).Meets fun x =>
      x.1 = 0 ∧ Good x.2 live ∨ x.1 ≠ 0 ∧ Good x.2 (⟨x.1, sz⟩ :: live) := by
  have counted := h.counted
  obtain ⟨all, bySize, frees, sound, busy⟩ := h
  obtain ⟨k, fits⟩ := blocktype_goes small
  have type := (blocktype_fits fits).1
  have found : search s.nextSamesize (s.hasFree k) totalPagerefs (s.sizebases k) =
      .done ((bySize k).find? fun q => decide (0 < s.nfree q)) := by
    apply search_linked (sound.lists.sizeLinked k type) (refs_short (sound.lists.sizeNodup k type))
    intro q mem
    rw [Heap.hasFree, Outcome.kassert, if_pos ((sound.lists.sizeMem k type q).mp mem).2,
      Outcome.done_bind, Outcome.pure_def]
  rw [Heap.kmalloc, if_neg (Nat.not_le_of_lt small), Heap.subpageKmalloc, fits, Outcome.done_bind,
    found, Outcome.done_bind]
  cases some : (bySize k).find? fun q => decide (0 < s.nfree q) with
  | some r =>
    obtain ⟨mem, own⟩ := (sound.lists.sizeMem k type r).mp (List.mem_of_find?_eq_some some)
    have free : 0 < s.nfree r := by simpa using List.find?_some some
    rw [(sound.page r mem).nfree] at free
    obtain ⟨a, l, first⟩ := List.exists_cons_of_length_pos free
    exact (doalloc_good sound mem first (fun q mem' _ => busy q mem') (own ▸ fits)).mono
      fun x good => .inr good
  | none =>
    dsimp only
    rw [Outcome.meets_bind]
    apply allocKpages_meets
    · simpa using ⟨all, bySize, frees, sound, busy⟩
    · intro nonzero fresh
      have kpage : Kpage page := ⟨fresh.1, fresh.2.1, by simpa using fresh.2.2.1⟩
      have apart : ∀ q ∈ all, s.prPageaddr q ≠ page := by
        intro q mem same
        have away := fresh.2.2.2 _ (sound.held q mem)
        dsimp only at away
        rw [same] at away
        simp only [pageSize] at away
        omega
      simp only [nonzero, if_false, Outcome.meets_bind, Outcome.meets_kassert, fresh.1, true_and]
      apply (allocFrom_meets (s := { s with kpages := (page, 1) :: s.kpages }) counted _).mono
      rintro ⟨pr, t⟩ ⟨grown, new⟩
      have same := grown.same
      dsimp only at same
      have held : (page, 1) ∈ t.kpages := grown.held _ (List.mem_cons_self ..)
      have given : Grown s t := ⟨same, fun q mem => grown.held q (List.mem_cons_of_mem _ mem),
        grown.inuse, grown.counted⟩
      have after := sound.grown given
      have addrs (q : Ref) : t.prPageaddr q = s.prPageaddr q := by rw [same]; rfl
      have types (q : Ref) : t.prBlocktype q = s.prBlocktype q := by rw [same]; rfl
      have busy' : ∀ q ∈ all, Busy t frees q := by
        intro q mem
        unfold Busy
        rw [types]
        exact busy q mem
      cases pr with
      | none =>
        refine .inl ⟨rfl, all, bySize, frees, ?_, busy'⟩
        refine ⟨⟨after.lists.1, after.lists.2, after.lists.3, after.lists.4, after.lists.5⟩,
          after.inuse, after.counted,
          fun q mem => (after.page q mem).frame rfl rfl rfl (fun _ _ => rfl) fun _ _ => Iff.rfl, ?_,
          after.apart, after.blocks, after.liveNodup⟩
        intro q mem
        apply List.mem_filter.mpr
        refine ⟨after.held q mem, decide_eq_true ?_⟩
        show t.prPageaddr q ≠ page
        rw [addrs]
        exact apart q mem
      | some r =>
        obtain ⟨unmarked, mark⟩ := new r rfl
        have absent : r ∉ all := fun mem => unmarked (sound.inuse r mem)
        obtain ⟨u, done, own, others, ready⟩ := after.setupPage absent mark kpage held type
          fun q mem => (addrs q).symm ▸ apart q mem
        dsimp only
        rw [done]
        have some : 0 < (slots page k).reverse.length := by
          rw [List.length_reverse, slots_length]
          have := (sizes_divide k type).2.2.2
          omega
        obtain ⟨a, l, first⟩ := List.exists_cons_of_length_pos some
        refine (doalloc_good ready (List.mem_cons_self ..) (a := a) (l := l) ?_ ?_
          (own.symm ▸ fits)).mono fun x good => .inr good
        · rw [Function.update_self, first]
        · intro q mem other
          have old := List.mem_of_ne_of_mem other mem
          unfold Busy
          rw [Function.update_of_ne other, others q old]
          exact busy' q old

end Os161.Kmalloc
