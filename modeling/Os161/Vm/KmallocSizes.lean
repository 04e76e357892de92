import Os161.Vm.KmallocPages

/-!
# Requests of any size

Which requests `kmalloc` serves with a block of their own: those whose size does not wrap around when
it is rounded up to pages, nor the end of the pages when `ram_stealmem` adds them up.
-/

set_option linter.unusedSectionVars false

namespace Os161.Kmalloc

open Dumbvm (Word)

/-! ### Blocks of both kinds -/

/-- The bytes that a block has: its slot, or its pages. -/
def Block.taken (b : Block) : Nat :=
  if b.size < largestSubpageSize then b.room else (b.size + pageSize - 1) / pageSize * pageSize

/-- The heap is sound, and the whole pages are apart from it and from each other. -/
structure Memory.Sound (s : Memory) : Prop where
  sane : Sane s.ram
  good : Good s.heap s.live
  above : Above s.heap.kpages s.ram
  small : ∀ b ∈ s.live, b.size < largestSubpageSize
  large : ∀ b ∈ s.whole, largestSubpageSize ≤ b.size
  given : ∀ b ∈ s.whole, b.ptr % pageSize = 0 ∧ mipsKseg0 ≤ b.ptr ∧
    b.ptr + b.taken ≤ mipsKseg0 + s.ram.firstpaddr.toNat
  apart : ∀ b ∈ s.whole, ∀ held ∈ s.heap.kpages, Disjoint b.ptr b.taken held.1 (held.2 * pageSize)
  wholes : s.whole.Pairwise fun b c => Disjoint b.ptr b.taken c.ptr c.taken

/-- The call returns NULL and touches nothing, or returns a block of its own. -/
structure Memory.Served (s : Memory) (sz : Word) (ptr : Nat) (t : Memory) : Prop where
  kept : ∀ b ∈ s.live ++ s.whole, ∀ a, b.ptr ≤ a → a < b.ptr + b.taken → t.heap.mem a = s.heap.mem a
  null : ptr = 0 → t.live = s.live ∧ t.whole = s.whole
  live : ptr ≠ 0 → (t.live ++ t.whole).Perm (⟨ptr, sz.toNat⟩ :: (s.live ++ s.whole))
  /-- It is memory. -/
  inside : ptr ≠ 0 → sz.toNat ≤ Block.taken ⟨ptr, sz.toNat⟩ ∧
    ptr + Block.taken ⟨ptr, sz.toNat⟩ ≤ mipsKseg0 + t.ram.lastpaddr.toNat
  disjoint : ptr ≠ 0 → ∀ b ∈ s.live ++ s.whole,
    Disjoint ptr (Block.taken ⟨ptr, sz.toNat⟩) b.ptr b.taken

def Memory.Serves (s : Memory) (sz : Word) : Prop :=
  ∃ ptr t, s.kmalloc sz = .done (ptr, t) ∧ s.Served sz ptr t

/-- Below the threshold, or neither the rounding of the size nor the end of the pages wraps around. -/
def Fitting (ram : Ram) (sz : Word) : Prop :=
  sz.toNat < largestSubpageSize ∨ sz.toNat + (pageSize - 1) < 2 ^ 32 ∧
    ¬ Ram.Wraps ram ((sz + Dumbvm.pageSize - 1) / Dumbvm.pageSize)

section Blocks

variable {s t : Memory} {b : Block}

theorem taken_small {b : Block} (small : b.size < largestSubpageSize) : b.taken = b.room := if_pos small

theorem taken_large {b : Block} (large : largestSubpageSize ≤ b.size) :
    b.taken = (b.size + pageSize - 1) / pageSize * pageSize := if_neg (Nat.not_lt.mpr large)

theorem size_le_taken_of_large {b : Block} (large : largestSubpageSize ≤ b.size) :
    b.size ≤ b.taken ∧ 0 < b.taken := by
  rw [taken_large large]
  simp only [pageSize, largestSubpageSize] at *
  omega

/-- A block of the heap is on one of its pages. -/
theorem Memory.Sound.page (h : s.Sound) (client : b ∈ s.live) : ∃ page, (page, 1) ∈ s.heap.kpages ∧
    page ≤ b.ptr ∧ b.ptr + b.taken ≤ page + pageSize ∧ b.size ≤ b.taken ∧ 0 < b.taken := by
  obtain ⟨all, _, frees, sound, _⟩ := h.good
  obtain ⟨enough, _, r, mem, fits, low, high⟩ := sound.inside client
  have positive := (sizes_divide _ (sound.page r mem).blktype).1
  rw [taken_small (h.small b client)]
  refine ⟨_, sound.held r mem, low, high, enough, ?_⟩
  rw [room_done fits]
  omega

/-- Every block is below what is left. -/
theorem Memory.Sound.below (h : s.Sound) (client : b ∈ s.live ++ s.whole) :
    b.ptr + b.taken ≤ mipsKseg0 + s.ram.firstpaddr.toNat := by
  obtain live | whole := List.mem_append.mp client
  · obtain ⟨page, held, _, _, high, _⟩ := h.page live
    have above := h.above _ held
    omega
  · exact (h.given b whole).2.2

/-! ### Calls -/

/-- Blocks and new pages of the heap are apart from whole pages. -/
theorem Memory.Sound.gets (h : s.Sound) {heap : Heap} {page refpage : Nat}
    (gets : Gets page refpage s.heap heap)
    (first : page ≠ 0 → mipsKseg0 + s.ram.firstpaddr.toNat ≤ page)
    (second : refpage ≠ 0 → mipsKseg0 + s.ram.firstpaddr.toNat ≤ refpage) :
    ∀ b ∈ s.whole, ∀ held ∈ heap.kpages, Disjoint b.ptr b.taken held.1 (held.2 * pageSize) := by
  intro b whole held member
  have below := (h.given b whole).2.2
  obtain old | ⟨rfl, some⟩ | ⟨rfl, some⟩ := gets held member
  · exact h.apart b whole held old
  · exact .inl (Nat.le_trans below (first some))
  · exact .inl (Nat.le_trans below (second some))

/-- A block of the heap that is new. -/
theorem Memory.Sound.small_served (h : s.Sound) {sz : Word} (small : sz.toNat < largestSubpageSize) :
    ∃ ptr t, s.kmalloc sz = .done (ptr, t) ∧ s.Served sz ptr t ∧ t.Sound := by
  obtain ⟨page, refpage, first, second, ram, later, goes, above⟩ :=
    subpageKmalloc_refines h.sane h.above sz.toNat
  have meets : (s.heap.kmalloc sz.toNat page refpage).Meets _ := kmalloc_good h.good small
  rw [Heap.kmalloc, if_neg (Nat.not_le_of_lt small)] at meets
  have ready : s.heap.subpageKmalloc sz.toNat page refpage ≠ .blocked := by
    intro waits
    rw [waits] at goes
    exact subpageKmalloc_ne_blocked s sz.toNat goes
  obtain ⟨⟨ptr, heap⟩, done⟩ := meets.goes ready
  have good := meets.of_done done
  have above : Above heap.kpages ram := above _ done
  obtain ⟨gets, mem⟩ := subpageKmalloc_frame s.heap sz.toNat page refpage _ done
  have apart := h.gets gets first second
  rw [done] at goes
  have call : s.kmalloc sz = .done (ptr, if ptr = 0 then { s with heap := heap, ram := ram }
      else { s with heap := heap, ram := ram, live := ⟨ptr, sz.toNat⟩ :: s.live }) := by
    rw [Memory.kmalloc, if_neg (Nat.not_le_of_lt small), goes]
    rfl
  -- what is written is on a new page
  have kept : ∀ b ∈ s.live ++ s.whole, ∀ a, b.ptr ≤ a → a < b.ptr + b.taken →
      heap.mem a = s.heap.mem a := by
    intro b client a _ high
    apply mem
    have below := h.below client
    by_cases none : page = 0
    · exact .inl none
    · have low := first none
      exact .inr (.inl (by omega))
  have whole : ∀ b ∈ s.whole, b.ptr % pageSize = 0 ∧ mipsKseg0 ≤ b.ptr ∧
      b.ptr + b.taken ≤ mipsKseg0 + ram.firstpaddr.toNat := by
    intro b client
    obtain ⟨aligned, low, high⟩ := h.given b client
    have grows := later.grows
    exact ⟨aligned, low, by omega⟩
  refine ⟨ptr, _, call, ?_⟩
  obtain ⟨rfl, good⟩ | ⟨nonzero, good⟩ := good
  · rw [if_pos rfl]
    exact ⟨⟨kept, fun _ => ⟨rfl, rfl⟩, fun some => absurd rfl some, fun some => absurd rfl some,
      fun some => absurd rfl some⟩,
      ⟨later.sane, good, above, h.small, h.large, whole, apart, h.wholes⟩⟩
  · rw [if_neg nonzero]
    have sound : Memory.Sound { s with
        heap := heap, ram := ram, live := ⟨ptr, sz.toNat⟩ :: s.live } := by
      refine ⟨later.sane, good, above, ?_, h.large, whole, apart, h.wholes⟩
      intro b client
      obtain rfl | client := List.mem_cons.mp client
      · exact small
      · exact h.small b client
    obtain ⟨page, held, low, high, enough, _⟩ := sound.page List.mem_cons_self
    refine ⟨⟨kept, fun null => absurd null nonzero, fun _ => .refl _, fun _ => ⟨enough, ?_⟩,
      fun _ b client => ?_⟩, sound⟩
    · have below := sound.above _ held
      have limit := later.sane.booted.below
      dsimp only at below limit high ⊢
      omega
    · obtain live | client := List.mem_append.mp client
      · obtain ⟨all, _, frees, heapSound, _⟩ := good
        have disjoint := (List.pairwise_cons.mp heapSound.disjoint).1 b live
        rw [taken_small (h.small b live), taken_small (b := ⟨ptr, sz.toNat⟩) small]
        exact disjoint
      · have apart := apart b client _ held
        unfold Disjoint at apart ⊢
        dsimp only at apart low high ⊢
        omega

/-- The number of pages, without a wrap. -/
theorem npages_toNat {sz : Word} (fits : sz.toNat + (pageSize - 1) < 2 ^ 32) :
    ((sz + Dumbvm.pageSize - 1) / Dumbvm.pageSize).toNat = (sz.toNat + pageSize - 1) / pageSize := by
  have page : Dumbvm.pageSize.toNat = 4096 := rfl
  have one : (1 : Word).toNat = 1 := rfl
  rw [BitVec.toNat_udiv, BitVec.toNat_sub, BitVec.toNat_add, page, one]
  simp only [pageSize] at fits ⊢
  omega

theorem Memory.Sound.kernel_page (h : s.Sound) :
    (mipsKseg0 + s.ram.firstpaddr.toNat) % pageSize = 0 ∧ Ram.paddrToKvaddr s.ram.firstpaddr ≠ 0 := by
  have start := h.sane.kvaddr
  have aligned := h.sane.booted.aligned
  constructor
  · simp only [pageSize, mipsKseg0]
    omega
  · intro zero
    rw [zero] at start
    have low : (0 : Word).toNat = 0 := rfl
    simp only [mipsKseg0] at start
    omega

/-- The next pages are given, whatever their number is. -/
theorem Memory.Sound.kmalloc_given (h : s.Sound) {sz : Word} (large : largestSubpageSize ≤ sz.toNat)
    {ram : Ram} (given : s.ram.allocKpages ((sz + Dumbvm.pageSize - 1) / Dumbvm.pageSize) =
      (Ram.paddrToKvaddr s.ram.firstpaddr, ram)) :
    s.kmalloc sz = .done (mipsKseg0 + s.ram.firstpaddr.toNat, { s with
      ram := ram
      whole := ⟨mipsKseg0 + s.ram.firstpaddr.toNat, sz.toNat⟩ :: s.whole }) := by
  obtain ⟨kernel, nonzero⟩ := h.kernel_page
  rw [Memory.kmalloc, if_pos large]
  simp only [given, if_neg nonzero, h.sane.kvaddr]
  rw [Outcome.kassert_bind kernel]
  rfl

/-- Whole pages that are new, or none. -/
theorem Memory.Sound.large_served (h : s.Sound) {sz : Word} (large : largestSubpageSize ≤ sz.toNat)
    (fits : sz.toNat + (pageSize - 1) < 2 ^ 32)
    (sound : ¬ Ram.Wraps s.ram ((sz + Dumbvm.pageSize - 1) / Dumbvm.pageSize)) :
    ∃ ptr t, s.kmalloc sz = .done (ptr, t) ∧ s.Served sz ptr t ∧ t.Sound := by
  have pages := npages_toNat fits
  set npages := (sz + Dumbvm.pageSize - 1) / Dumbvm.pageSize with is
  have taken : Block.taken ⟨mipsKseg0 + s.ram.firstpaddr.toNat, sz.toNat⟩ = npages.toNat * pageSize := by
    rw [taken_large large, pages]
  obtain ⟨_, refused⟩ | ⟨_, ram, given, sane, next, last⟩ := allocKpages_cases h.sane sound
  · refine ⟨0, s, ?_, ?_, h⟩
    · rw [Memory.kmalloc, if_pos large]
      simp only [← is, refused, if_true]
      rfl
    · exact ⟨fun _ _ _ _ _ => rfl, fun _ => ⟨rfl, rfl⟩, fun some => absurd rfl some,
        fun some => absurd rfl some, fun some => absurd rfl some⟩
  · have kernel := h.kernel_page.1
    have limit := sane.booted.below
    refine ⟨_, _, h.kmalloc_given large given, ?_, ?_⟩
    · constructor
      · exact fun _ _ _ _ _ => rfl
      · intro null
        simp only [mipsKseg0] at null
        omega
      · exact fun _ => List.perm_middle
      · intro _
        have enough := (size_le_taken_of_large (b := ⟨mipsKseg0 + s.ram.firstpaddr.toNat, sz.toNat⟩) large).1
        refine ⟨enough, ?_⟩
        rw [taken]
        dsimp only
        omega
      · intro _ b client
        exact .inr (h.below client)
    · have grows : s.ram.firstpaddr.toNat ≤ ram.firstpaddr.toNat := by omega
      constructor
      · exact sane
      · exact h.good
      · intro held member
        have old := h.above held member
        dsimp only
        omega
      · exact h.small
      · intro b client
        obtain rfl | client := List.mem_cons.mp client
        · exact large
        · exact h.large b client
      · intro b client
        obtain rfl | client := List.mem_cons.mp client
        · rw [taken]
          refine ⟨kernel, Nat.le_add_right _ _, ?_⟩
          dsimp only
          omega
        · obtain ⟨even, low, high⟩ := h.given b client
          refine ⟨even, low, ?_⟩
          dsimp only
          omega
      · intro b client held member
        obtain rfl | client := List.mem_cons.mp client
        · exact .inr (h.above held member)
        · exact h.apart b client held member
      · refine List.pairwise_cons.mpr ⟨fun b client => ?_, h.wholes⟩
        exact .inr (h.given b client).2.2

theorem kmalloc_served (h : s.Sound) {sz : Word} (fitting : Fitting s.ram sz) :
    ∃ ptr t, s.kmalloc sz = .done (ptr, t) ∧ s.Served sz ptr t ∧ t.Sound := by
  by_cases small : sz.toNat < largestSubpageSize
  · exact h.small_served small
  · obtain ⟨fits, sound⟩ := fitting.resolve_left small
    exact h.large_served (Nat.not_lt.mp small) fits sound

/-- The pages that are given do not reach to the end of the block, or are none. -/
theorem not_served (h : s.Sound) {sz : Word} (unfit : ¬ Fitting s.ram sz) : ¬ s.Serves sz := by
  obtain ⟨large, wraps⟩ := not_or.mp unfit
  have large : largestSubpageSize ≤ sz.toNat := Nat.not_lt.mp large
  have small := h.sane.small
  have below := h.sane.booted.below
  have word : sz.toNat < 2 ^ 32 := sz.isLt
  have enough := size_le_taken_of_large (b := ⟨mipsKseg0 + s.ram.firstpaddr.toNat, sz.toNat⟩) large
  have taken := taken_large (b := ⟨mipsKseg0 + s.ram.firstpaddr.toNat, sz.toNat⟩) large
  dsimp only at enough taken
  -- whichever pages are given, the block would end behind the end of memory
  have given : ∃ ram, s.ram.allocKpages ((sz + Dumbvm.pageSize - 1) / Dumbvm.pageSize) =
      (Ram.paddrToKvaddr s.ram.firstpaddr, ram) ∧ ram.lastpaddr = s.ram.lastpaddr ∧
        s.ram.lastpaddr.toNat < s.ram.firstpaddr.toNat +
          Block.taken ⟨mipsKseg0 + s.ram.firstpaddr.toNat, sz.toNat⟩ := by
    by_cases fits : sz.toNat + (pageSize - 1) < 2 ^ 32
    · have wraps : Ram.Wraps s.ram ((sz + Dumbvm.pageSize - 1) / Dumbvm.pageSize) :=
        not_not.mp fun sound => wraps ⟨fits, sound⟩
      have pages := npages_toNat fits
      have passes : ¬ s.ram.firstpaddr + (sz + Dumbvm.pageSize - 1) / Dumbvm.pageSize * Dumbvm.pageSize >
          s.ram.lastpaddr := by
        intro past
        exact (Ram.ramStealmem_refuses_iff wraps.1 h.sane.booted).mp (if_pos past) wraps
      have nonzero : s.ram.firstpaddr ≠ 0 := by
        intro zero
        have positive := h.sane.booted.nonzero
        rw [zero] at positive
        cases positive
      refine ⟨{ s.ram with firstpaddr := s.ram.firstpaddr +
        (sz + Dumbvm.pageSize - 1) / Dumbvm.pageSize * Dumbvm.pageSize }, ?_, rfl, ?_⟩
      · simp only [Ram.allocKpages, Ram.getppages, Ram.ramStealmem, if_neg passes, if_neg nonzero]
      · have past := wraps.1
        unfold Ram.Fits at past
        rw [taken, ← pages]
        exact Nat.not_le.mp past
    · have none : (sz + Dumbvm.pageSize - 1) / Dumbvm.pageSize = 0 := by
        apply BitVec.eq_of_toNat_eq
        have page : Dumbvm.pageSize.toNat = 4096 := rfl
        have one : (1 : Word).toNat = 1 := rfl
        rw [BitVec.toNat_udiv, BitVec.toNat_sub, BitVec.toNat_add, page, one]
        simp only [pageSize] at fits
        show _ = 0
        omega
      rw [none]
      have fits' : Ram.Fits s.ram 0 := by
        unfold Ram.Fits
        rw [show (0 : Word).toNat = 0 from rfl]
        omega
      obtain ⟨full, _⟩ | ⟨_, ram, given, _, _, last⟩ := allocKpages_cases h.sane fun wraps => wraps.1 fits'
      · exact absurd fits' full
      · refine ⟨ram, given, last, ?_⟩
        simp only [pageSize] at fits
        omega
  obtain ⟨ram, given, last, past⟩ := given
  rintro ⟨ptr, t, call, served⟩
  rw [h.kmalloc_given large given] at call
  cases call
  have inside := (served.inside (by simp only [mipsKseg0]; omega)).2
  dsimp only at inside
  rw [last] at inside
  omega

/-! ### Runs -/

theorem getppages_sound (h : s.Sound) {npages : Word} (sound : ¬ Ram.Wraps s.ram npages) :
    Memory.Sound { s with ram := (s.ram.getppages npages).2 } := by
  have same : (s.ram.getppages npages).2 = (s.ram.allocKpages npages).2 := by
    unfold Ram.allocKpages
    dsimp only
    split <;> rfl
  rw [same]
  obtain ⟨_, refused⟩ | ⟨_, ram, given, sane, next, last⟩ := allocKpages_cases h.sane sound
  · rw [refused]
    exact h
  · rw [given]
    refine ⟨sane, h.good, fun held member => ?_, h.small, h.large, fun b client => ?_, h.apart, h.wholes⟩
    · have old := h.above held member
      dsimp only
      omega
    · obtain ⟨aligned, low, high⟩ := h.given b client
      refine ⟨aligned, low, ?_⟩
      dsimp only
      omega

/-- A heap loses a page that it does not use. -/
theorem Good.freeKpages {heap : Heap} {live : List Block} (h : Good heap live) {ptr : Nat}
    (other : (ptr, 1) ∉ heap.kpages) : Good (heap.freeKpages ptr) live := by
  obtain ⟨all, bySize, frees, sound, busy⟩ := h
  refine ⟨all, bySize, frees, ⟨⟨sound.lists.1, sound.lists.2, sound.lists.3, sound.lists.4,
    sound.lists.5⟩, sound.inuse, sound.counted,
    fun q mem => (sound.page q mem).frame rfl rfl rfl (fun _ _ => rfl) fun _ _ => Iff.rfl,
    fun q mem => List.mem_filter.mpr ⟨sound.held q mem, decide_eq_true ?_⟩, sound.apart, sound.blocks,
    sound.liveNodup⟩, busy⟩
  intro same
  exact other (same ▸ sound.held q mem)

/-- Whole pages are on no page of the heap. -/
theorem kfree_whole (h : s.Sound) (client : b ∈ s.whole) :
    s.heap.kfree b.ptr = .done (s.heap.freeKpages b.ptr) := by
  obtain ⟨all, bySize, frees, sound, _⟩ := h.good
  obtain ⟨aligned, low, _⟩ := h.given b client
  have some := (size_le_taken_of_large (h.large b client)).2
  have missed : all.find? (fun q => decide (s.heap.prPageaddr q ≤ b.ptr ∧
      b.ptr < (s.heap.prPageaddr q + pageSize) % 2 ^ 32)) = none := by
    apply List.find?_eq_none.mpr
    intro q mem
    have top := (sound.page q mem).kpage.2.2
    have apart := h.apart b client _ (sound.held q mem)
    unfold Disjoint at apart
    dsimp only at apart
    rw [Nat.mod_eq_of_lt (lt_of_le_of_lt top (by decide)), decide_eq_true_eq]
    omega
  have search : Chain.search s.heap.nextAll (s.heap.contains b.ptr) totalPagerefs s.heap.allbase =
      .done none := by
    rw [← missed]
    exact Chain.search_linked sound.lists.allLinked (refs_short sound.lists.allNodup) fun q mem =>
      contains_done (sound.page q mem).blktype
  have nonzero : b.ptr ≠ 0 := by
    simp only [mipsKseg0] at low
    omega
  rw [Heap.kfree, if_neg nonzero, Heap.subpageKfree, search]
  simp only [Outcome.done_bind, Outcome.pure_def, Bool.false_eq_true, if_false]
  rw [Outcome.kassert_bind aligned]

theorem kfree_safe (h : s.Sound) (ptr : Nat) : (s.kfree ptr).Ensures Memory.Sound := by
  simp only [Memory.kfree, Outcome.ensures_bind, Outcome.ensures_await, Outcome.ensures_pure]
  intro client heap freed
  have fewer := kfree_kpages s.heap ptr heap freed
  have good : Good heap (s.live.filter fun b => b.ptr ≠ ptr) := by
    obtain live | member := client
    · obtain ⟨all, bySize, frees, sound, busy⟩ := h.good
      exact (kfree_sound sound busy live).1 heap freed
    · obtain ⟨b, whole, rfl⟩ := List.mem_map.mp member
      have some := (size_le_taken_of_large (h.large b whole)).2
      rw [kfree_whole h whole] at freed
      obtain rfl := Outcome.done.inj freed
      have alone : (s.live.filter fun c => c.ptr ≠ b.ptr) = s.live := by
        apply List.filter_eq_self.mpr
        intro c live
        rw [decide_eq_true_eq]
        intro same
        obtain ⟨page, held, low, high, _, positive⟩ := h.page live
        have apart := h.apart b whole _ held
        unfold Disjoint at apart
        dsimp only at apart
        omega
      rw [alone]
      apply h.good.freeKpages
      intro held
      have apart := h.apart b whole _ held
      unfold Disjoint at apart
      simp only [pageSize] at apart
      omega
  refine ⟨h.sane, good, fun held member => h.above held (fewer held member),
    fun b client => h.small b (List.mem_of_mem_filter client),
    fun b client => h.large b (List.mem_of_mem_filter client),
    fun b client => h.given b (List.mem_of_mem_filter client),
    fun b client held member => h.apart b (List.mem_of_mem_filter client) held (fewer held member),
    h.wholes.filter _⟩

/-- The guard of the runs: sizes and counts of pages that do not wrap around. -/
def Memory.Reasonable (s : Memory) : Memory.Action → Prop
  | .kmalloc sz => Fitting s.ram sz
  | .kfree _ => True
  | .getppages npages => ¬ Ram.Wraps s.ram npages

theorem step_sound (h : s.Sound) (a : Memory.Action) (guard : s.Reasonable a) :
    (s.step a).Ensures Memory.Sound := by
  cases a with
  | kmalloc sz =>
    obtain ⟨ptr, t, call, _, sound⟩ := kmalloc_served h guard
    rw [Memory.step, call]
    exact Outcome.ensures_done.mpr sound
  | kfree ptr => exact kfree_safe h ptr
  | getppages npages => exact Outcome.ensures_pure.mpr (getppages_sound h guard)

theorem initial_sound (start : Memory.machine.initial s) : s.Sound := by
  obtain ⟨allbase, sizebases, roots, kpages, ⟨live, whole⟩, ⟨ramsize, firstfree, ram⟩, booted⟩ := start
  have good : Good s.heap s.live :=
    initial_good (s := ⟨s.heap, s.live⟩) ⟨allbase, sizebases, roots, live⟩
  exact ⟨⟨booted, ram ▸ ramBootstrap_small ramsize firstfree⟩, good, by simp [Above, kpages],
    by simp [live], by simp [whole], by simp [whole], by simp [whole], by simp [whole]⟩

theorem reached_sound (h : Memory.machine.ReachableBy Memory.Reasonable s) : s.Sound :=
  Memory.machine.invariant_ensures (fun _ => initial_sound) (fun _ a sound guard => step_sound sound a guard) h

/-- After any calls with sizes that fit, a call is served exactly when its size fits. -/
theorem kmalloc_serves_iff (h : Memory.machine.ReachableBy Memory.Reasonable s) (sz : Word) :
    s.Serves sz ↔ Fitting s.ram sz := by
  have sound := reached_sound h
  constructor
  · intro serves
    by_contra unfit
    exact not_served sound unfit serves
  · intro fitting
    obtain ⟨ptr, t, call, served, _⟩ := kmalloc_served sound fitting
    exact ⟨ptr, t, call, served⟩

end Blocks

/-- A megabyte of memory after the boot. -/
def Memory.booted : Memory := ⟨Kmalloc.booted.heap, Ram.megabyte, [], []⟩

theorem Memory.booted_initial : Memory.machine.initial Memory.booted :=
  ⟨rfl, fun _ => rfl, fun _ => rfl, rfl, ⟨rfl, rfl⟩, ⟨_, _, rfl⟩, Ram.megabyte_booted⟩

/-- Two pages and a small block, and what the next call does. -/
theorem kmalloc_serves_megabyte : ∃ s : Memory, Memory.machine.ReachableBy Memory.Reasonable s ∧
    s.whole = [⟨0x80040000, 5000⟩] ∧ s.live = [⟨0x80042fe0, 20⟩] ∧ s.Serves 3000 ∧
      ¬ s.Serves 0xffffffff := by
  let check : Memory → Memory.Action → Bool := fun s a =>
    match a with
    | .kmalloc sz => decide (sz.toNat < largestSubpageSize ∨ sz.toNat + (pageSize - 1) < 2 ^ 32 ∧
        ¬ Ram.Wraps s.ram ((sz + Dumbvm.pageSize - 1) / Dumbvm.pageSize))
    | .kfree _ => true
    | .getppages npages => decide (¬ Ram.Wraps s.ram npages)
  have sound : ∀ (s : Memory) (a : Memory.Action), check s a = true → s.Reasonable a := by
    intro s a passes
    cases a with
    | kmalloc sz =>
      simp only [check, decide_eq_true_eq] at passes
      exact passes
    | kfree ptr => trivial
    | getppages npages =>
      simp only [check, decide_eq_true_eq] at passes
      exact passes
  have passes : (Memory.machine.runIf check Memory.booted [.kmalloc 5000, .kmalloc 20, .kmalloc 20,
      .kfree 0x80042fc0]).passes (fun s => decide (s.whole = [⟨0x80040000, 5000⟩] ∧
        s.live = [⟨0x80042fe0, 20⟩] ∧ s.ram = ⟨0x44000, 0x100000⟩)) = true := by
    decide +kernel
  obtain ⟨s, run, done⟩ := Outcome.passes_done passes
  obtain ⟨whole, live, ram⟩ := of_decide_eq_true done
  have reached : Memory.machine.ReachableBy Memory.Reasonable s :=
    .runIf check _ (.initial Memory.booted_initial) sound run
  refine ⟨s, reached, whole, live, (kmalloc_serves_iff reached 3000).mpr ?_, fun serves => ?_⟩
  · rw [ram]
    exact .inr (by decide)
  · have fitting := (kmalloc_serves_iff reached 0xffffffff).mp serves
    rw [ram] at fitting
    obtain small | ⟨fits, _⟩ := fitting
    · exact absurd small (by decide)
    · exact absurd fits (by decide)

/-- The size of the first call rounds up to no page at all, and the next call gets the same
address. -/
theorem kmalloc_of_no_page : Memory.machine.initial Memory.booted ∧
    (∃ t u, Memory.booted.kmalloc 0xffffffff = .done (0x80040000, t) ∧
      t.kmalloc 5000 = .done (0x80040000, u)) ∧ ¬ Memory.booted.Serves 0xffffffff := by
  have first : Memory.booted.kmalloc 0xffffffff =
      .done (0x80040000, { Memory.booted with whole := [⟨0x80040000, 0xffffffff⟩] }) := rfl
  refine ⟨Memory.booted_initial, ⟨_, _, first, rfl⟩, ?_⟩
  rintro ⟨ptr, t, call, served⟩
  rw [first] at call
  cases call
  have inside := (served.inside (by decide)).2
  revert inside
  decide

end Os161.Kmalloc
