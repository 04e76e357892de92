import Os161.Vm.KmallocInv

/-!
# Blocks and pages over the runs of the heap
-/

namespace Os161.Kmalloc

open Chain

variable {s : State}

/-- The room of a block: the size of its class. -/
def Block.room (b : Block) : Nat :=
  match blocktype b.size with
  | .done k => sizes k
  | _ => 0

/-- The blocks at `a` and `b` with this much room have no byte in common. -/
def Disjoint (a room b room' : Nat) : Prop := a + room ≤ b ∨ b + room' ≤ a

/-- What the lists of the heap say: `all` are the pages on `allbase`, `bySize k` those on the list
of the size `k`, and `frees r` the free blocks of the page of `r`. -/
structure Consistent (s : State) (all : List Ref) (bySize : Nat → List Ref)
    (frees : Ref → List Nat) : Prop where
  allbase : Linked s.heap.nextAll s.heap.allbase all
  sizebases : ∀ k < nsizes, Linked s.heap.nextSamesize (s.heap.sizebases k) (bySize k)
  freelists : ∀ r ∈ all, Linked (freeNext s.heap.mem) (s.heap.freelist r) (frees r)
  /-- Live blocks are pairwise disjoint. -/
  disjoint : s.live.Pairwise fun b c => Disjoint b.ptr b.room c.ptr c.room
  /-- They are large enough, aligned, and inside a page of their class. -/
  blocks : ∀ b ∈ s.live, b.size ≤ b.room ∧ b.ptr % 8 = 0 ∧
    ∃ r ∈ all, blocktype b.size = .done (s.heap.prBlocktype r) ∧
      s.heap.prPageaddr r ≤ b.ptr ∧ b.ptr + b.room ≤ s.heap.prPageaddr r + pageSize
  nfree : ∀ r ∈ all, s.heap.nfree r = (frees r).length
  freeNodup : ∀ r ∈ all, (frees r).Nodup
  freePlaced : ∀ r ∈ all, ∀ a ∈ frees r, s.heap.prPageaddr r ≤ a ∧
    a + sizes (s.heap.prBlocktype r) ≤ s.heap.prPageaddr r + pageSize ∧
    (a - s.heap.prPageaddr r) % sizes (s.heap.prBlocktype r) = 0
  freeNotLive : ∀ r ∈ all, ∀ a ∈ frees r, ∀ b ∈ s.live,
    Disjoint a (sizes (s.heap.prBlocktype r)) b.ptr b.room
  /-- A page is on the list of all pages and on the list of its size once each. -/
  once : (all.map s.heap.prPageaddr).Nodup
  sizeOnce : ∀ k < nsizes, (bySize k).Nodup
  onSize : ∀ k < nsizes, ∀ r, r ∈ bySize k ↔ r ∈ all ∧ s.heap.prBlocktype r = k
  sizeOf : ∀ r ∈ all, s.heap.prBlocktype r < nsizes
  /-- It is there exactly while one of its blocks is live. -/
  used : ∀ page, page % pageSize = 0 → ((∃ r ∈ all, s.heap.prPageaddr r = page) ↔
    ∃ b ∈ s.live, page ≤ b.ptr ∧ b.ptr < page + pageSize)

theorem room_done {b : Block} {k : Nat} (fits : blocktype b.size = .done k) : b.room = sizes k := by
  simp [Block.room, fits]

section Blocks

variable {s : Heap} {live : List Block} {all : List Ref} {bySize : Nat → List Ref}
  {frees : Ref → List Nat}

/-- Live blocks are pairwise disjoint. -/
theorem Sound.disjoint (h : Sound s live all bySize frees) :
    live.Pairwise fun b c => Disjoint b.ptr b.room c.ptr c.room := by
  have ptrs : live.Pairwise fun b c => b.ptr ≠ c.ptr := List.pairwise_map.mp h.liveNodup
  apply ptrs.imp_of_mem
  intro b c client client' other
  obtain ⟨r, mem, slot, fits⟩ := h.blocks b client
  obtain ⟨q, mem', slot', fits'⟩ := h.blocks c client'
  have page := h.page r mem
  have page' := h.page q mem'
  rw [room_done fits, room_done fits']
  exact (slots_apart page.blktype page'.blktype page.kpage page'.kpage
    (fun same => congrArg s.prBlocktype (h.apart r mem q mem' same)) slot slot' other).symm

/-- A live block is large enough, aligned, and inside a page of its class. -/
theorem Sound.inside (h : Sound s live all bySize frees) {b : Block} (client : b ∈ live) :
    b.size ≤ b.room ∧ b.ptr % 8 = 0 ∧ ∃ r ∈ all, blocktype b.size = .done (s.prBlocktype r) ∧
      s.prPageaddr r ≤ b.ptr ∧ b.ptr + b.room ≤ s.prPageaddr r + pageSize := by
  obtain ⟨r, mem, slot, fits⟩ := h.blocks b client
  have page := h.page r mem
  obtain ⟨low, high, -⟩ := slots_inside page.blktype slot
  rw [room_done fits]
  exact ⟨(blocktype_fits fits).2, slots_aligned page.blktype page.kpage slot, r, mem, fits, low, high⟩

end Blocks

/-! ### Steps -/

/-- Words that do not belong to the heap may be written. -/
theorem store_good (h : Good s.heap s.live) {addr : Nat} (foreign : s.Foreign addr)
    (value : Nat) : Good { s.heap with mem := Function.update s.heap.mem addr value } s.live := by
  obtain ⟨all, bySize, frees, sound, busy⟩ := h
  have away : ∀ r ∈ all, ∀ a ∈ frees r, a ≠ addr := by
    intro r mem a free
    have page := sound.page r mem
    have slot := page.placed a free
    have inside := slots_inside page.blktype slot
    have positive := (sizes_divide _ page.blktype).1
    rcases foreign with ⟨b, client, low, high⟩ | outside
    · obtain ⟨q, mem', slot', fits⟩ := sound.blocks b client
      have page' := sound.page q mem'
      have other : b.ptr ≠ a := by
        rintro rfl
        exact (page.covered _ slot).mp free (List.mem_map.mpr ⟨b, client, rfl⟩)
      have out := slots_apart page'.blktype page.blktype page'.kpage page.kpage
        (fun same => congrArg s.heap.prBlocktype (sound.apart q mem' r mem same)) slot' slot other
      have fit := (blocktype_fits fits).2
      omega
    · have held := outside _ (sound.held r mem)
      dsimp only at held
      omega
  refine ⟨all, bySize, frees, ⟨⟨sound.lists.1, sound.lists.2, sound.lists.3, sound.lists.4,
    sound.lists.5⟩, sound.inuse, sound.counted, fun r mem => ?_, sound.held, sound.apart,
    sound.blocks, sound.liveNodup⟩, busy⟩
  refine (sound.page r mem).frame rfl rfl rfl ?_ fun _ _ => Iff.rfl
  intro a free
  exact Function.update_of_ne (away r mem a free) ..

theorem step_good (h : Good s.heap s.live) (a : Action) :
    (s.step a).Ensures fun t => Good t.heap t.live := by
  cases a with
  | kmalloc sz page refpage =>
    simp only [State.step, Outcome.ensures_bind, Outcome.ensures_await]
    intro small x done
    rcases (kmalloc_good h small).of_done done with ⟨none, good⟩ | ⟨some, good⟩
    · simpa [none] using good
    · simpa [some] using good
  | kfree ptr =>
    simp only [State.step, Outcome.ensures_bind, Outcome.ensures_await]
    intro client t done
    obtain ⟨all, bySize, frees, sound, busy⟩ := h
    simpa using (kfree_sound sound busy client).1 t done
  | store addr value =>
    simp only [State.step, Outcome.ensures_bind, Outcome.ensures_await]
    intro foreign
    simpa using store_good h foreign value

theorem initial_good (h : kheap.initial s) : Good s.heap s.live := by
  obtain ⟨allbase, sizebases, roots, live⟩ := h
  refine ⟨[], fun _ => [], fun _ => [], ⟨⟨allbase, List.nodup_nil, fun k _ => sizebases k,
    fun _ _ => List.nodup_nil, by simp⟩, by simp, fun w => ?_, by simp, by simp, by simp, ?_, ?_⟩,
    by simp⟩
  · rw [roots]
    simp [KheapRoot.Counted]
  · simp [live]
  · simp [live]

theorem reached_good (h : kheap.Reachable s) : Good s.heap s.live :=
  kheap.invariant_ensures (fun _ => initial_good) (fun _ a good _ => step_good good a) h

/-- No call fails, but for `kfree` on a heap where a page for a root was asked for in vain. -/
theorem calls_go (h : kheap.Reachable s) :
    (∀ sz page refpage, sz < largestSubpageSize →
      s.heap.kmalloc sz page refpage ≠ .panic ∧ s.heap.kmalloc sz page refpage ≠ .fault) ∧
    (s.heap.Settled → ∀ b ∈ s.live, ∃ t, s.heap.kfree b.ptr = .done t) := by
  have good := reached_good h
  constructor
  · intro sz page refpage small
    have meets : (s.heap.kmalloc sz page refpage).Meets _ := kmalloc_good good small
    exact ⟨meets.not_panic, meets.not_fault⟩
  · obtain ⟨all, bySize, frees, sound, busy⟩ := good
    intro settled b client
    exact (kfree_sound sound busy (List.mem_map.mpr ⟨b, client, rfl⟩)).2 settled

/-! ### Runs -/

/-- In every reachable state the lists, the free blocks and the live blocks agree. -/
theorem heap_consistent {s : State} (h : kheap.Reachable s) :
    ∃ all bySize frees, Consistent s all bySize frees := by
  obtain ⟨all, bySize, frees, sound, busy⟩ := reached_good h
  refine ⟨all, bySize, frees, sound.lists.allLinked, sound.lists.sizeLinked,
    fun r mem => (sound.page r mem).linked, ?_, ?_, fun r mem => (sound.page r mem).nfree,
    fun r mem => (sound.page r mem).nodup, ?_, ?_, ?_, sound.lists.sizeNodup, sound.lists.sizeMem,
    fun r mem => (sound.page r mem).blktype, ?_⟩
  · exact sound.disjoint
  · exact fun b client => sound.inside client
  · intro r mem a free
    have page := sound.page r mem
    exact slots_inside page.blktype (page.placed a free)
  · intro r mem a free b client
    obtain ⟨q, mem', slot', fits⟩ := sound.blocks b client
    have page := sound.page r mem
    have page' := sound.page q mem'
    have slot := page.placed a free
    have other : a ≠ b.ptr := by
      rintro rfl
      exact (page.covered _ slot).mp free (List.mem_map.mpr ⟨b, client, rfl⟩)
    rw [room_done fits]
    exact (slots_apart page.blktype page'.blktype page.kpage page'.kpage
      (fun same => congrArg s.heap.prBlocktype (sound.apart r mem q mem' same)) slot slot'
      other).symm
  · apply List.Nodup.map_on _ sound.lists.allNodup
    exact fun r mem q mem' same => sound.apart r mem q mem' same
  · intro addr aligned
    constructor
    · rintro ⟨r, mem, rfl⟩
      have page := sound.page r mem
      obtain ⟨a, slot, client⟩ := page.busy (busy r mem)
      obtain ⟨b, here, rfl⟩ := List.mem_map.mp client
      have inside := slots_inside page.blktype slot
      have positive := (sizes_divide _ page.blktype).1
      exact ⟨b, here, inside.1, by omega⟩
    · rintro ⟨b, client, low, high⟩
      obtain ⟨r, mem, slot, -⟩ := sound.blocks b client
      have page := sound.page r mem
      have inside := slots_inside page.blktype slot
      have positive := (sizes_divide _ page.blktype).1
      have start : s.heap.prPageaddr r % 4096 = 0 := page.kpage.1
      refine ⟨r, mem, ?_⟩
      simp only [pageSize] at aligned inside high
      omega

/-- The heap before the first call. -/
def booted : State where
  heap :=
    { mem := fun _ => 0
      nextSamesize := fun _ => none
      nextAll := fun _ => none
      pageaddrAndBlocktype := fun _ => 0
      freelistOffset := fun _ => 0
      nfree := fun _ => 0
      kheaproots := fun _ => ⟨0, fun _ => false, 0⟩
      sizebases := fun _ => none
      allbase := none
      kpages := [] }
  live := []

/-- Three blocks on two pages, and the first page goes when its only block is freed. -/
theorem heap_consistent_run : ∃ s, kheap.Reachable s ∧
    s.live = [⟨0x80003400, 900⟩, ⟨0x80003800, 1000⟩] ∧
    ∃ all bySize frees, Consistent s all bySize frees := by
  have passes : (kheap.run booted [.kmalloc 1500 0x80001000 0x80002000,
      .kmalloc 600 0x80003000 0, .kmalloc 1000 0 0, .store 0x80003804 7, .kfree 0x80001800,
      .kfree 0x80003c00, .kmalloc 900 0 0, .kfree 0x80003c00, .kmalloc 900 0 0, .kmalloc 900 0 0,
      .kfree 0x80003c00]).passes
      (fun s => decide (s.live = [⟨0x80003400, 900⟩, ⟨0x80003800, 1000⟩])) = true := by
    decide +kernel
  obtain ⟨s, run, done⟩ := Outcome.passes_done passes
  have start : kheap.initial booted := ⟨rfl, fun _ => rfl, fun _ => rfl, rfl⟩
  have reached : kheap.Reachable s := .run _ (.initial start) run
  exact ⟨s, reached, of_decide_eq_true done, heap_consistent reached⟩

end Os161.Kmalloc
