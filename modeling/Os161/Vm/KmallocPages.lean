import Os161.Vm.HeapBlocks
import Os161.Vm.Pagerefs
import Os161.Vm.Ram

/-!
# Blocks of any size

`kmalloc` and `kfree` with the page allocator under them: blocks below the threshold are cut from
pages of the heap, others are whole pages, and both kinds of page come from `ram_stealmem`.
`free_kpages` leaks what it is given.
-/

set_option linter.unusedSectionVars false

namespace Os161.Kmalloc

open Dumbvm (Word)

/-- The heap, the memory that is left, and the blocks that clients have: those on pages of the heap
and those of whole pages. -/
structure Memory where
  heap : Heap
  ram : Ram
  live : List Block
  whole : List Block

namespace Memory

/-- A page for the heap, from `alloc_kpages(1)`. -/
def allocPage (s : Memory) : Nat × Memory :=
  let (va, ram) := s.ram.allocKpages 1
  let kpages := if va = 0 then s.heap.kpages else (va.toNat, 1) :: s.heap.kpages
  (va.toNat, { s with ram := ram, heap := { s.heap with kpages := kpages } })

def allocpagerefpage (s : Memory) (w : Fin numPagerefpages) : Outcome Memory := do
  Outcome.kassert ((s.heap.kheaproots w).page = 0)
  let (va, s) := s.allocPage
  if va = 0 then return s
  else do
    Outcome.kassert (va % pageSize = 0)
    return { s with heap := s.heap.setRoot w { s.heap.kheaproots w with page := va } }

/-- The loop of `allocpageref` over the roots that are left. -/
def allocFrom : List (Fin numPagerefpages) → Memory → Outcome (Option Ref × Memory)
  | [], s => .done (none, s)
  | w :: rest, s =>
    let root := s.heap.kheaproots w
    if npagerefsPerPage ≤ root.numinuse then allocFrom rest s
    else
      match (List.finRange npagerefsPerPage).find? fun j => !root.pagerefsInuse j with
      | none => allocFrom rest s
      | some j => do
        let s := { s with heap := s.heap.setRoot w { root with
          pagerefsInuse := Function.update root.pagerefsInuse j true
          numinuse := root.numinuse + 1 } }
        let s ← if root.page = 0 then s.allocpagerefpage w else pure s
        if (s.heap.kheaproots w).page = 0 then return (none, s) else return (some (w, j), s)

def allocpageref (s : Memory) : Outcome (Option Ref × Memory) :=
  allocFrom (List.finRange numPagerefpages) s

def subpageKmalloc (s : Memory) (sz : Nat) : Outcome (Nat × Memory) := do
  let blktype ← blocktype sz
  match ← Chain.search s.heap.nextSamesize (s.heap.hasFree blktype) totalPagerefs
      (s.heap.sizebases blktype) with
  | some pr => do
    let (ptr, heap) ← s.heap.doalloc pr
    return (ptr, { s with heap := heap })
  | none => do
    let (prpage, s) := s.allocPage
    if prpage = 0 then return (0, s)
    else do
      Outcome.kassert (prpage % pageSize = 0)
      let (pr, s) ← s.allocpageref
      match pr with
      | none => return (0, { s with heap := s.heap.freeKpages prpage })
      | some pr => do
        let heap ← s.heap.setupPage pr prpage blktype
        let (ptr, heap) ← heap.doalloc pr
        return (ptr, { s with heap := heap })

def kmalloc (s : Memory) (sz : Word) : Outcome (Nat × Memory) :=
  if largestSubpageSize ≤ sz.toNat then do
    -- rounds up to a whole number of pages
    let npages := (sz + Dumbvm.pageSize - 1) / Dumbvm.pageSize
    let (address, ram) := s.ram.allocKpages npages
    let s := { s with ram := ram }
    if address = 0 then return (0, s)
    else do
      Outcome.kassert (address.toNat % pageSize = 0)
      return (address.toNat, { s with whole := ⟨address.toNat, sz.toNat⟩ :: s.whole })
  else do
    let (ptr, s) ← s.subpageKmalloc sz.toNat
    return (ptr, if ptr = 0 then s else { s with live := ⟨ptr, sz.toNat⟩ :: s.live })

/-- Clients free what they have. -/
def kfree (s : Memory) (ptr : Nat) : Outcome Memory := do
  Outcome.await (ptr ∈ s.live.map Block.ptr ∨ ptr ∈ s.whole.map Block.ptr)
  let heap ← s.heap.kfree ptr
  return { s with
    heap := heap
    live := s.live.filter fun b => b.ptr ≠ ptr
    whole := s.whole.filter fun b => b.ptr ≠ ptr }

inductive Action where
  | kmalloc (sz : Word)
  | kfree (ptr : Nat)
  /-- A page for an address space, or another call of `getppages`. -/
  | getppages (npages : Word)

def step (s : Memory) : Action → Outcome Memory
  | .kmalloc sz => do
    let (_, s) ← s.kmalloc sz
    return s
  | .kfree ptr => s.kfree ptr
  | .getppages npages => return { s with ram := (s.ram.getppages npages).2 }

/-- At boot. -/
structure Initial (s : Memory) : Prop where
  allbase : s.heap.allbase = none
  sizebases : ∀ k, s.heap.sizebases k = none
  roots : ∀ w, s.heap.kheaproots w = ⟨0, fun _ => false, 0⟩
  kpages : s.heap.kpages = []
  blocks : s.live = [] ∧ s.whole = []
  ram : ∃ mainbusRamsize firstfree, s.ram = Ram.ramBootstrap mainbusRamsize firstfree
  booted : s.ram.Booted

def machine : Machine Memory Action where
  initial := Initial
  step := step

end Memory

/-! ### What the heap leaves alone -/

section Frame

variable {s t : Heap}

theorem doalloc_frame (s : Heap) (pr : Ref) : (s.doalloc pr).Ensures fun x =>
    x.2.kpages = s.kpages ∧ x.2.mem = s.mem := by
  unfold Heap.doalloc
  simp only [Outcome.ensures_bind, Outcome.ensures_kassert]
  intro _
  split
  · simp
  · simp

theorem threadBlocks_frame {page size i : Nat} {mem : Nat → Nat} : (threadBlocks page size mem i).Ensures
    fun m => ∀ x, x < page ∨ page + (i + 1) * size ≤ x → 0 < size → m x = mem x := by
  induction i with
  | zero =>
    rw [threadBlocks, Outcome.ensures_done]
    intro x out positive
    exact Function.update_of_ne (by omega) ..
  | succ i ih =>
    simp only [threadBlocks, Outcome.ensures_bind, Outcome.ensures_kassert, Outcome.ensures_pure]
    refine ih.mono fun m same _ x out positive => ?_
    have split : (i + 1 + 1) * size = (i + 1) * size + size := Nat.succ_mul ..
    have next : (i + 1) * size = i * size + size := Nat.succ_mul ..
    rw [Function.update_of_ne (by omega)]
    exact same x (by omega) positive

theorem setupPage_frame (s : Heap) (pr : Ref) (page : Nat) {blktype : Nat} (type : blktype < nsizes) :
    (s.setupPage pr page blktype).Ensures fun t =>
      t.kpages = s.kpages ∧ ∀ x, x < page ∨ page + pageSize ≤ x → t.mem x = s.mem x := by
  simp only [Heap.setupPage, Outcome.ensures_bind, Outcome.ensures_kassert, Outcome.ensures_pure]
  refine threadBlocks_frame.mono fun m same _ => ⟨trivial, fun x out => same x ?_ ?_⟩
  · obtain ⟨_, divides, _, two⟩ := sizes_divide blktype type
    rwa [Nat.sub_add_cancel (by omega), divides]
  · have least := (sizes_divide blktype type).1
    omega

/-- The pages that the heap may have got from the allocator of pages: these answers. -/
def Gets (page refpage : Nat) (s t : Heap) : Prop :=
  ∀ held ∈ t.kpages, held ∈ s.kpages ∨ held = (page, 1) ∧ page ≠ 0 ∨ held = (refpage, 1) ∧ refpage ≠ 0

theorem allocKpages_frame (s : Heap) (va : Nat) : (s.allocKpages 1 va).Ensures fun x =>
    x.2.mem = s.mem ∧ ∀ held ∈ x.2.kpages, held ∈ s.kpages ∨ held = (va, 1) ∧ va ≠ 0 := by
  unfold Heap.allocKpages
  split
  · rw [Outcome.ensures_done]
    exact ⟨rfl, fun _ => .inl⟩
  · rename_i nonzero
    simp only [Outcome.ensures_bind, Outcome.ensures_await, Outcome.ensures_pure]
    refine fun _ => ⟨trivial, fun held member => ?_⟩
    obtain rfl | member := List.mem_cons.mp member
    · exact .inr ⟨rfl, nonzero⟩
    · exact .inl member

theorem allocFrom_frame (answer : Nat) (ws : List (Fin numPagerefpages)) (s : Heap) :
    (Heap.allocFrom answer ws s).Ensures fun x => x.2.mem = s.mem ∧
      ∀ held ∈ x.2.kpages, held ∈ s.kpages ∨ held = (answer, 1) ∧ answer ≠ 0 := by
  induction ws with
  | nil =>
    rw [Heap.allocFrom, Outcome.ensures_done]
    exact ⟨rfl, fun _ => .inl⟩
  | cons w ws ih =>
    unfold Heap.allocFrom
    dsimp only
    split
    · exact ih
    · split
      · exact ih
      · rename_i j _
        have ends : ∀ t : Heap, t.mem = s.mem ∧
            (∀ held ∈ t.kpages, held ∈ s.kpages ∨ held = (answer, 1) ∧ answer ≠ 0) →
            (if (t.kheaproots w).page = 0 then (return (none, t) : Outcome (Option Ref × Heap))
              else return (some (w, j), t)).Ensures fun x => x.2.mem = s.mem ∧
                ∀ held ∈ x.2.kpages, held ∈ s.kpages ∨ held = (answer, 1) ∧ answer ≠ 0 := by
          intro t frame
          split <;> exact Outcome.ensures_pure.mpr frame
        split
        · simp only [Heap.allocpagerefpage, Outcome.ensures_bind, Outcome.ensures_kassert]
          intro _
          refine (allocKpages_frame _ answer).mono fun x frame => ?_
          split
          · exact Outcome.ensures_pure.mpr (ends _ frame)
          · simp only [Outcome.ensures_bind, Outcome.ensures_kassert, Outcome.ensures_pure]
            exact fun _ => ends _ frame
        · exact ends _ ⟨rfl, fun _ => .inl⟩

/-- A block of the heap comes from its pages; only a new page is written. -/
theorem subpageKmalloc_frame (s : Heap) (sz page refpage : Nat) :
    (s.subpageKmalloc sz page refpage).Ensures fun x => Gets page refpage s x.2 ∧
      ∀ a, (page = 0 ∨ a < page ∨ page + pageSize ≤ a) → x.2.mem a = s.mem a := by
  unfold Heap.subpageKmalloc
  rw [Outcome.ensures_bind]
  intro k fits
  rw [Outcome.ensures_bind]
  intro found _
  cases found with
  | some pr =>
    refine (doalloc_frame s pr).mono ?_
    rintro x ⟨kpages, mem⟩
    refine ⟨?_, fun a _ => by rw [mem]⟩
    intro held member
    exact .inl (kpages ▸ member)
  | none =>
    dsimp only
    rw [Outcome.ensures_bind]
    unfold Heap.allocKpages
    split
    · rename_i zero
      simp only [Outcome.ensures_done, if_true, Outcome.ensures_pure]
      exact ⟨fun _ => .inl, fun _ _ => trivial⟩
    · rename_i nonzero
      simp only [Outcome.ensures_bind, Outcome.ensures_await, Outcome.ensures_pure, nonzero, if_false,
        Outcome.ensures_kassert, false_or]
      intro _ _
      refine (allocFrom_frame refpage _ _).mono ?_
      rintro ⟨pr, t⟩ ⟨mem, kpages⟩
      have gets : Gets page refpage s t := by
        intro held member
        obtain old | new := kpages held member
        · obtain rfl | old := List.mem_cons.mp old
          · exact .inr (.inl ⟨rfl, nonzero⟩)
          · exact .inl old
        · exact .inr (.inr new)
      cases pr with
      | none =>
        rw [Outcome.ensures_pure]
        exact ⟨fun held member => gets held (List.mem_of_mem_filter member), fun a _ => congrFun mem a⟩
      | some pr =>
        rw [Outcome.ensures_bind]
        refine (setupPage_frame t pr page (blocktype_fits fits).1).mono ?_
        rintro u ⟨same, other⟩
        refine (doalloc_frame u pr).mono ?_
        rintro x ⟨same', mem'⟩
        refine ⟨?_, fun a out => ?_⟩
        · intro held member
          rw [same', same] at member
          exact gets held member
        · rw [mem', other a out]
          exact congrFun mem a

theorem freeFrom_kpages (p : Ref) (ws : List (Fin numPagerefpages)) (s : Heap) :
    (Heap.freeFrom p ws s).Ensures fun t => t.kpages = s.kpages :=
  (freeFrom_ensures ws).mono fun t is => by rw [is]; rfl

theorem putBlock_kpages (s : Heap) (pr : Ref) (offset : Nat) :
    (s.putBlock pr offset).Ensures fun t => t.kpages = s.kpages := by
  simp only [Heap.putBlock, Outcome.ensures_bind, Outcome.ensures_kassert, Outcome.ensures_pure]
  exact fun _ => trivial

theorem removeLists_kpages (s : Heap) (pr : Ref) (blktype : Nat) :
    (s.removeLists pr blktype).Ensures fun t => t.kpages = s.kpages := by
  simp only [Heap.removeLists, Outcome.ensures_bind, Outcome.ensures_kassert, Outcome.ensures_pure]
  exact fun _ _ _ _ _ => trivial

theorem releasePage_kpages (s : Heap) (pr : Ref) : (s.releasePage pr).Ensures fun t =>
    ∀ held ∈ t.kpages, held ∈ s.kpages := by
  simp only [Heap.releasePage, Outcome.ensures_bind, Outcome.ensures_kassert]
  intro _
  split
  · rw [Outcome.ensures_bind]
    refine (removeLists_kpages s pr _).mono fun t same => ?_
    rw [Outcome.ensures_bind]
    refine (freeFrom_kpages pr _ t).mono fun u same' => ?_
    rw [Outcome.ensures_pure]
    intro held member
    have old := List.mem_of_mem_filter member
    rwa [same', same] at old
  · exact Outcome.ensures_pure.mpr fun _ => id

/-- `kfree` gives no page to the heap. -/
theorem kfree_kpages (s : Heap) (ptr : Nat) : (s.kfree ptr).Ensures fun t =>
    ∀ held ∈ t.kpages, held ∈ s.kpages := by
  unfold Heap.kfree
  split
  · exact Outcome.ensures_done.mpr fun _ => id
  · simp only [Heap.subpageKfree, Outcome.ensures_bind]
    intro found _
    cases found with
    | none =>
      simp only [Outcome.ensures_pure, Bool.false_eq_true, if_false, Outcome.ensures_bind,
        Outcome.ensures_kassert]
      exact fun _ held member => List.mem_of_mem_filter member
    | some pr =>
      dsimp only
      split
      · exact Outcome.ensures_panic
      · rw [Outcome.ensures_bind]
        refine (putBlock_kpages s pr _).mono fun t same => ?_
        rw [Outcome.ensures_bind]
        refine (releasePage_kpages t pr).mono fun u fewer => ?_
        simp only [Outcome.ensures_pure, if_true]
        exact fun held member => same ▸ fewer held member

end Frame

/-! ### The allocator of pages -/

section Pages

variable {s : Ram} {npages : Word}

/-- Memory as the boot leaves it: below the bus devices. -/
structure Sane (s : Ram) : Prop where
  booted : s.Booted
  small : s.lastpaddr.toNat ≤ 508 * 1024 * 1024

theorem ramBootstrap_small (mainbusRamsize firstfree : Word) :
    (Ram.ramBootstrap mainbusRamsize firstfree).lastpaddr.toNat ≤ 508 * 1024 * 1024 := by
  unfold Ram.ramBootstrap
  split
  · show (508 * 1024 * 1024 : Word).toNat ≤ 508 * 1024 * 1024
    decide
  · rename_i small
    simpa [BitVec.lt_def] using small

theorem Sane.kvaddr (h : Sane s) : (Ram.paddrToKvaddr s.firstpaddr).toNat =
    mipsKseg0 + s.firstpaddr.toNat := by
  have below := h.booted.below
  have small := h.small
  unfold Ram.paddrToKvaddr
  rw [BitVec.toNat_add, show Ram.mipsKseg0.toNat = 0x80000000 from rfl]
  unfold mipsKseg0
  omega

/-- One call gives the pages after the last, or refuses. -/
theorem allocKpages_cases (h : Sane s) (sound : ¬ Ram.Wraps s npages) :
    ¬ Ram.Fits s npages ∧ s.allocKpages npages = (0, s) ∨
    Ram.Fits s npages ∧ ∃ t, s.allocKpages npages = (Ram.paddrToKvaddr s.firstpaddr, t) ∧ Sane t ∧
      t.firstpaddr.toNat = s.firstpaddr.toNat + npages.toNat * pageSize ∧ t.lastpaddr = s.lastpaddr := by
  by_cases fits : Ram.Fits s npages
  · refine .inr ⟨fits, { s with firstpaddr := s.firstpaddr + npages * Dumbvm.pageSize }, ?_, ?_, ?_, rfl⟩
    · have nonzero : s.firstpaddr ≠ 0 := by
        intro zero
        have positive := h.booted.nonzero
        rw [zero] at positive
        cases positive
      simp only [Ram.allocKpages, Ram.getppages, Ram.ramStealmem_fits fits, if_neg nonzero]
    · have booted := h.booted.ramStealmem sound
      rw [Ram.ramStealmem_fits fits] at booted
      exact ⟨booted, h.small⟩
    · exact Ram.end_of_fits fits
  · refine .inl ⟨fits, ?_⟩
    have refused := (Ram.ramStealmem_refuses_iff fits h.booted).mpr sound
    simp only [Ram.allocKpages, Ram.getppages, refused, if_true]

/-- A single page does not wrap around. -/
theorem Sane.page (h : Sane s) : ¬ Ram.Wraps s 1 := by
  have below := h.booted.below
  have small := h.small
  unfold Ram.Wraps Ram.Fits
  rw [show (1 : Word).toNat = 1 from rfl]
  omega

end Pages

/-! ### A heap over that allocator -/

section Refines

variable {s : Memory}

/-- The pages that come are new to the heap. -/
def Above (kpages : List (Nat × Nat)) (ram : Ram) : Prop :=
  ∀ held ∈ kpages, held.1 + held.2 * pageSize ≤ mipsKseg0 + ram.firstpaddr.toNat

/-- `alloc_kpages(1)` is the heap's with its answer. -/
theorem allocPage_cases (s : Memory) (h : Sane s.ram) (above : Above s.heap.kpages s.ram) :
    s.allocPage = (0, s) ∧ (s.ram.allocKpages 1).1.toNat = 0 ∨
    ∃ va ram, va = mipsKseg0 + s.ram.firstpaddr.toNat ∧ (s.ram.allocKpages 1).1.toNat = va ∧
      Fresh s.heap.kpages va 1 ∧ Sane ram ∧ ram.lastpaddr = s.ram.lastpaddr ∧
      ram.firstpaddr.toNat = s.ram.firstpaddr.toNat + pageSize ∧
      s.allocPage =
        (va, { s with ram := ram, heap := { s.heap with kpages := (va, 1) :: s.heap.kpages } }) ∧
      Above ((va, 1) :: s.heap.kpages) ram := by
  obtain ⟨_, refused⟩ | ⟨fits, ram, given, sane, next, last⟩ := allocKpages_cases h h.page
  · refine .inl ⟨?_, congrArg (fun r => r.1.toNat) refused⟩
    simp only [Memory.allocPage, refused, if_true]
    rfl
  · have start := h.kvaddr
    have next : ram.firstpaddr.toNat = s.ram.firstpaddr.toNat + pageSize := by
      rw [next, show (1 : Word).toNat = 1 from rfl, Nat.one_mul]
    have nonzero : Ram.paddrToKvaddr s.ram.firstpaddr ≠ 0 := by
      intro zero
      rw [zero] at start
      have low : (0 : Word).toNat = 0 := rfl
      simp only [mipsKseg0] at start
      omega
    have aligned := h.booted.aligned
    have small := sane.small
    have below := sane.booted.below
    refine .inr ⟨_, ram, rfl, ?_, ⟨?_, Nat.le_add_right _ _, ?_, fun held member => ?_⟩, sane, last, next,
      ?_, ?_⟩
    · rw [given]
      exact start
    · simp only [pageSize, mipsKseg0] at *
      omega
    · simp only [pageSize, mipsKseg0, mipsKseg1] at *
      omega
    · exact .inr (above held member)
    · simp only [Memory.allocPage, given, if_neg nonzero, start]
    · intro held member
      obtain rfl | member := List.mem_cons.mp member
      · dsimp only
        rw [next]
        omega
      · have old := above held member
        rw [next]
        omega

/-- What more calls leave of memory. -/
structure Later (ram ram' : Ram) : Prop where
  sane : Sane ram'
  last : ram'.lastpaddr = ram.lastpaddr
  grows : ram.firstpaddr.toNat ≤ ram'.firstpaddr.toNat

/-- A step of the heap, with memory beside it. -/
def Refines {α : Type} (s : Memory) (x : Outcome (α × Memory)) (y : Outcome (α × Heap)) : Prop :=
  ∃ ram, Later s.ram ram ∧ x = y.bind (fun r => .done (r.1, { s with heap := r.2, ram := ram })) ∧
    y.Ensures fun r => Above r.2.kpages ram

theorem allocpagerefpage_refines (h : Sane s.ram) (above : Above s.heap.kpages s.ram)
    (w : Fin numPagerefpages) : ∃ ram, Later s.ram ram ∧ s.allocpagerefpage w =
      (s.heap.allocpagerefpage w (s.ram.allocKpages 1).1.toNat).bind
        (fun heap => .done { s with heap := heap, ram := ram }) ∧
      (s.heap.allocpagerefpage w (s.ram.allocKpages 1).1.toNat).Ensures fun heap =>
        Above heap.kpages ram := by
  by_cases page : (s.heap.kheaproots w).page = 0
  · obtain ⟨refused, zero⟩ | ⟨va, ram, is, answer, fresh, sane, last, next, given, above'⟩ :=
      allocPage_cases s h above
    · rw [zero]
      refine ⟨s.ram, ⟨h, rfl, Nat.le_refl _⟩, ?_, ?_⟩
      · simp [Memory.allocpagerefpage, Heap.allocpagerefpage, refused, Heap.allocKpages, page,
          Outcome.kassert, Outcome.pure_def, Outcome.bind]
      · simpa [Heap.allocpagerefpage, Heap.allocKpages, page] using above
    · have nonzero : va ≠ 0 := by
        rw [is]
        exact Nat.ne_of_gt (Nat.lt_of_lt_of_le (by decide) (Nat.le_add_right _ _))
      rw [answer]
      refine ⟨ram, ⟨sane, last, by omega⟩, ?_, ?_⟩
      · simp [Memory.allocpagerefpage, Heap.allocpagerefpage, given, Heap.allocKpages, page,
          Outcome.kassert, Outcome.await, Outcome.pure_def, Outcome.bind, nonzero, fresh, fresh.1]
      · simpa [Heap.allocpagerefpage, Heap.allocKpages, page, nonzero, fresh, fresh.1,
          Heap.setRoot] using above'
  · refine ⟨s.ram, ⟨h, rfl, Nat.le_refl _⟩, ?_, ?_⟩
    · simp [Memory.allocpagerefpage, Heap.allocpagerefpage, page, Outcome.kassert, Outcome.bind]
    · simp [Heap.allocpagerefpage, page]

theorem allocFrom_refines (h : Sane s.ram) (above : Above s.heap.kpages s.ram)
    (ws : List (Fin numPagerefpages)) :
    Refines s (Memory.allocFrom ws s) (Heap.allocFrom (s.ram.allocKpages 1).1.toNat ws s.heap) := by
  have same : Later s.ram s.ram := ⟨h, rfl, Nat.le_refl _⟩
  induction ws with
  | nil => exact ⟨s.ram, same, rfl, Outcome.ensures_done.mpr above⟩
  | cons w ws ih =>
    unfold Memory.allocFrom Heap.allocFrom
    dsimp only
    split
    · exact ih
    · cases free : (List.finRange npagerefsPerPage).find? fun j =>
          !(s.heap.kheaproots w).pagerefsInuse j with
      | none => exact ih
      | some j =>
        dsimp only
        by_cases page : (s.heap.kheaproots w).page = 0
        · rw [if_pos page, if_pos page]
          -- the bit is marked before the page is asked for
          obtain ⟨ram, later, goes, above'⟩ := allocpagerefpage_refines
            (s := { s with heap := s.heap.setRoot w { s.heap.kheaproots w with
              pagerefsInuse := Function.update (s.heap.kheaproots w).pagerefsInuse j true
              numinuse := (s.heap.kheaproots w).numinuse + 1 } }) h above w
          refine ⟨ram, later, ?_, ?_⟩
          · rw [goes]
            cases s.heap.setRoot w _ |>.allocpagerefpage w _ with
            | done heap =>
              by_cases none : (heap.kheaproots w).page = 0 <;>
                simp [Outcome.bind, none, Outcome.pure_def]
            | _ => rfl
          · rw [Outcome.ensures_bind]
            refine above'.mono fun heap above' => ?_
            split <;> exact Outcome.ensures_pure.mpr above'
        · rw [if_neg page, if_neg page]
          refine ⟨s.ram, same, ?_, ?_⟩
          · simp [Heap.setRoot, page, Outcome.pure_def, Outcome.bind]
          · simpa [Heap.setRoot, page] using above

/-- The answer of the next call, if it is not NULL, is above what was given before. -/
theorem answer_above (h : Sane s.ram) (above : Above s.heap.kpages s.ram) :
    (s.ram.allocKpages 1).1.toNat ≠ 0 →
      mipsKseg0 + s.ram.firstpaddr.toNat ≤ (s.ram.allocKpages 1).1.toNat := by
  intro nonzero
  obtain ⟨_, zero⟩ | ⟨va, _, is, answer, _⟩ := allocPage_cases s h above
  · exact absurd zero nonzero
  · omega

/-- `subpage_kmalloc` is the heap's with the pages that come from memory. -/
theorem subpageKmalloc_refines (h : Sane s.ram) (above : Above s.heap.kpages s.ram) (sz : Nat) :
    ∃ page refpage, (page ≠ 0 → mipsKseg0 + s.ram.firstpaddr.toNat ≤ page) ∧
      (refpage ≠ 0 → mipsKseg0 + s.ram.firstpaddr.toNat ≤ refpage) ∧
      Refines s (s.subpageKmalloc sz) (s.heap.subpageKmalloc sz page refpage) := by
  have same : Later s.ram s.ram := ⟨h, rfl, Nat.le_refl _⟩
  cases fits : blocktype sz with
  | done blktype =>
    cases found : Chain.search s.heap.nextSamesize (s.heap.hasFree blktype) totalPagerefs
        (s.heap.sizebases blktype) with
    | done pr =>
      cases pr with
      | some pr =>
        refine ⟨0, 0, by simp, by simp, s.ram, same, ?_, ?_⟩
        · cases done : s.heap.doalloc pr <;>
            simp [Memory.subpageKmalloc, Heap.subpageKmalloc, fits, found, done, Outcome.bind,
              Outcome.pure_def]
        · simp only [Heap.subpageKmalloc, fits, found, Outcome.done_bind]
          refine (doalloc_frame s.heap pr).mono ?_
          rintro x ⟨kpages, _⟩
          exact kpages ▸ above
      | none =>
        obtain ⟨refused, zero⟩ | ⟨va, ram, is, answer, fresh, sane, last, next, given, above'⟩ :=
          allocPage_cases s h above
        · refine ⟨0, 0, by simp, by simp, s.ram, same, ?_, ?_⟩
          · simp [Memory.subpageKmalloc, Heap.subpageKmalloc, fits, found, refused, Heap.allocKpages,
              Outcome.bind, Outcome.pure_def]
          · simpa [Heap.subpageKmalloc, fits, found, Heap.allocKpages] using above
        · have nonzero : va ≠ 0 := by
            rw [is]
            exact Nat.ne_of_gt (Nat.lt_of_lt_of_le (by decide) (Nat.le_add_right _ _))
          obtain ⟨ram', later, goes, frame⟩ := allocFrom_refines
            (s := { s with ram := ram, heap := { s.heap with kpages := (va, 1) :: s.heap.kpages } })
            sane above' (List.finRange numPagerefpages)
          have refpage := answer_above
            (s := { s with ram := ram, heap := { s.heap with kpages := (va, 1) :: s.heap.kpages } })
            sane above'
          have grows := later.grows
          dsimp only at refpage goes frame grows
          refine ⟨va, (ram.allocKpages 1).1.toNat, fun _ => by omega, fun some => ?_, ram',
            ⟨later.sane, later.last.trans last, by omega⟩, ?_, ?_⟩
          · have low := refpage some
            omega
          · simp only [Memory.subpageKmalloc, Heap.subpageKmalloc, fits, found, Outcome.done_bind, given,
              if_neg nonzero, Outcome.kassert, fresh.1, if_true, Memory.allocpageref, goes,
              Heap.allocKpages, Outcome.await, fresh, Heap.allocpageref, Outcome.pure_def]
            generalize Heap.allocFrom _ _ _ = y
            cases y with
            | done x =>
              obtain ⟨pr, heap⟩ := x
              cases pr with
              | none => simp [Outcome.bind]
              | some pr =>
                cases setup : heap.setupPage pr va blktype with
                | done heap' => cases done : heap'.doalloc pr <;> simp [Outcome.bind, setup, done]
                | _ => simp [Outcome.bind, setup]
            | _ => simp [Outcome.bind]
          · simp only [Heap.subpageKmalloc, fits, found, Outcome.done_bind, if_neg nonzero,
              Outcome.kassert, fresh.1, if_true, Heap.allocKpages, Outcome.await, fresh,
              Heap.allocpageref, Outcome.pure_def, Outcome.ensures_bind]
            refine frame.mono ?_
            rintro ⟨pr, heap⟩ above
            cases pr with
            | none =>
              rw [Outcome.ensures_done]
              exact fun held member => above held (List.mem_of_mem_filter member)
            | some pr =>
              dsimp only
              rw [Outcome.ensures_bind]
              refine (setupPage_frame heap pr va (blocktype_fits fits).1).mono ?_
              rintro t ⟨kpages, _⟩
              refine (doalloc_frame t pr).mono ?_
              rintro x ⟨kpages', _⟩
              rw [kpages', kpages]
              exact above
    | _ =>
      refine ⟨0, 0, by simp, by simp, s.ram, same, ?_, ?_⟩ <;>
        simp [Memory.subpageKmalloc, Heap.subpageKmalloc, fits, found, Outcome.bind]
  | _ =>
    refine ⟨0, 0, by simp, by simp, s.ram, same, ?_, ?_⟩ <;>
      simp [Memory.subpageKmalloc, Heap.subpageKmalloc, fits, Outcome.bind]

theorem threadBlocks_ne_blocked (fla size : Nat) (mem : Nat → Nat) (i : Nat) :
    threadBlocks fla size mem i ≠ .blocked := by
  induction i with
  | zero => exact nofun
  | succ i ih =>
    apply Outcome.bind_ne_blocked ih
    exact fun _ => Outcome.bind_ne_blocked Outcome.kassert_ne_blocked fun _ => nofun

theorem doalloc_ne_blocked (s : Heap) (pr : Ref) : s.doalloc pr ≠ .blocked := by
  apply Outcome.bind_ne_blocked Outcome.kassert_ne_blocked
  intro _
  dsimp only
  split
  · exact Outcome.bind_ne_blocked Outcome.kassert_ne_blocked fun _ =>
      Outcome.bind_ne_blocked Outcome.kassert_ne_blocked fun _ => by simp
  · exact Outcome.bind_ne_blocked Outcome.kassert_ne_blocked fun _ => by simp

theorem setupPage_ne_blocked (s : Heap) (pr : Ref) (page blktype : Nat) :
    s.setupPage pr page blktype ≠ .blocked := by
  apply Outcome.bind_ne_blocked (threadBlocks_ne_blocked _ _ _ _)
  exact fun _ => Outcome.bind_ne_blocked Outcome.kassert_ne_blocked fun _ => nofun

theorem allocpagerefpage_ne_blocked (s : Memory) (w : Fin numPagerefpages) :
    s.allocpagerefpage w ≠ .blocked := by
  apply Outcome.bind_ne_blocked Outcome.kassert_ne_blocked
  intro _
  dsimp only
  split
  · rintro ⟨⟩
  · exact Outcome.bind_ne_blocked Outcome.kassert_ne_blocked fun _ => by simp

theorem allocFrom_ne_blocked (ws : List (Fin numPagerefpages)) (s : Memory) :
    Memory.allocFrom ws s ≠ .blocked := by
  induction ws with
  | nil => exact nofun
  | cons w ws ih =>
    unfold Memory.allocFrom
    dsimp only
    split
    · exact ih
    · split
      · exact ih
      · split
        · apply Outcome.bind_ne_blocked (allocpagerefpage_ne_blocked _ _)
          intro _
          split <;> exact nofun
        · rw [Outcome.pure_def, Outcome.done_bind]
          split <;> exact nofun

theorem blocktype_ne_blocked (sz : Nat) : blocktype sz ≠ .blocked := by
  unfold blocktype
  split <;> exact nofun

theorem subpageKmalloc_ne_blocked (s : Memory) (sz : Nat) : s.subpageKmalloc sz ≠ .blocked := by
  apply Outcome.bind_ne_blocked (blocktype_ne_blocked sz)
  intro blktype
  apply Outcome.bind_ne_blocked
  · apply Chain.search_ne_blocked
    intro pr
    exact Outcome.bind_ne_blocked Outcome.kassert_ne_blocked fun _ => by simp
  · intro found
    cases found with
    | some pr => exact Outcome.bind_ne_blocked (doalloc_ne_blocked _ _) fun _ => by simp
    | none =>
      dsimp only
      split
      · rintro ⟨⟩
      · apply Outcome.bind_ne_blocked Outcome.kassert_ne_blocked
        intro _
        apply Outcome.bind_ne_blocked (allocFrom_ne_blocked _ _)
        intro x
        split
        · rintro ⟨⟩
        · apply Outcome.bind_ne_blocked (setupPage_ne_blocked _ _ _ _)
          exact fun _ => Outcome.bind_ne_blocked (doalloc_ne_blocked _ _) fun _ => by simp

end Refines

end Os161.Kmalloc
