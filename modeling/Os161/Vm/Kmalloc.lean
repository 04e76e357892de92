import Os161.Base.Chain
import Os161.Base.Machine
import Mathlib.Data.Fintype.Card
import Mathlib.Data.Fintype.Prod
import Mathlib.Data.Fintype.BigOperators

/-!
# The kernel heap

`kmalloc.c`, without the debugging modes, which the source leaves off. Pages are cut into blocks of
one size each, and the free blocks of a page are linked through their own first words. Every page
has a `pageref`, which is on the list of the pages of its size and on the list of all pages.

Calls come one after another. Addresses are numbers below `2^32`, and 0 is the null pointer.
-/

namespace Os161.Kmalloc

open Chain

def pageSize : Nat := 4096

def mipsKseg0 : Nat := 0x80000000

def mipsKseg1 : Nat := 0xa0000000

def nsizes : Nat := 8

def sizes (blktype : Nat) : Nat := [16, 32, 64, 128, 256, 512, 1024, 2048].getD blktype 0

def largestSubpageSize : Nat := 2048

def invalidOffset : Nat := 0xffff

def npagerefsPerPage : Nat := 256

def numPagerefpages : Nat := 16

def totalPagerefs : Nat := numPagerefpages * npagerefsPerPage

/-- A pointer to a `struct pageref`: the root of its page, and its place in that page. -/
abbrev Ref := Fin numPagerefpages × Fin npagerefsPerPage

structure KheapRoot where
  page : Nat
  pagerefsInuse : Fin npagerefsPerPage → Bool
  numinuse : Nat

/-- The variables of `kmalloc.c`. The fields of all `struct pageref` are functions of its address,
and `mem` is the word at an address. `kpages` are the addresses and lengths that `alloc_kpages`
has given out. -/
structure Heap where
  mem : Nat → Nat
  nextSamesize : Ref → Option Ref
  nextAll : Ref → Option Ref
  pageaddrAndBlocktype : Ref → Nat
  freelistOffset : Ref → Nat
  nfree : Ref → Nat
  kheaproots : Fin numPagerefpages → KheapRoot
  sizebases : Nat → Option Ref
  allbase : Option Ref
  kpages : List (Nat × Nat)

/-- `MKPAB`. -/
def mkpab (pa blk : Nat) : Nat := (pa &&& 0xfffff000) ||| (blk &&& 0xfff)

/-- The difference of two addresses, which wraps around. -/
def vsub (a b : Nat) : Nat := (a + 2 ^ 32 - b) % 2 ^ 32

/-- Fills the `i` words from `ptr` on. -/
def fillWords (mem : Nat → Nat) (ptr : Nat) : Nat → Nat → Nat
  | 0 => mem
  | i + 1 => Function.update (fillWords mem ptr i) (ptr + 4 * i) 0xdeadbeef

def fillDeadbeef (mem : Nat → Nat) (ptr len : Nat) : Nat → Nat := fillWords mem ptr (len / 4)

def blocktype (clientsz : Nat) : Outcome Nat :=
  match (List.range nsizes).find? fun i => clientsz ≤ sizes i with
  | some i => .done i
  | none => .panic

/-- The pages that the allocator of pages may hand out: kernel pages that nobody has. -/
def Fresh (kpages : List (Nat × Nat)) (va npages : Nat) : Prop :=
  va % pageSize = 0 ∧ mipsKseg0 ≤ va ∧ va + npages * pageSize ≤ mipsKseg1 ∧
    ∀ held ∈ kpages, va + npages * pageSize ≤ held.1 ∨ held.1 + held.2 * pageSize ≤ va

instance (kpages : List (Nat × Nat)) (va npages : Nat) : Decidable (Fresh kpages va npages) :=
  inferInstanceAs (Decidable (_ ∧ _ ∧ _ ∧ _))

/-- The links of the free lists. -/
def freeNext (mem : Nat → Nat) (fl : Nat) : Option Nat := if mem fl = 0 then none else some (mem fl)

/-- The loop that puts the blocks of a fresh page on its free list, after `i` rounds. -/
def threadBlocks (fla size : Nat) (mem : Nat → Nat) : Nat → Outcome (Nat → Nat)
  | 0 => .done (Function.update mem fla 0)
  | i + 1 => do
    let mem ← threadBlocks fla size mem i
    let mem := Function.update mem (fla + (i + 1) * size) (fla + i * size)
    Outcome.kassert (fla + (i + 1) * size ≠ mem (fla + (i + 1) * size))
    return mem

namespace Heap

/-- `PR_PAGEADDR`. -/
def prPageaddr (s : Heap) (pr : Ref) : Nat := s.pageaddrAndBlocktype pr &&& 0xfffff000

/-- `PR_BLOCKTYPE`. -/
def prBlocktype (s : Heap) (pr : Ref) : Nat := s.pageaddrAndBlocktype pr &&& 0xfff

/-- `alloc_kpages`, which answers `va`. -/
def allocKpages (s : Heap) (npages va : Nat) : Outcome (Nat × Heap) :=
  if va = 0 then .done (0, s)
  else do
    Outcome.await (Fresh s.kpages va npages)
    return (va, { s with kpages := (va, npages) :: s.kpages })

def freeKpages (s : Heap) (addr : Nat) : Heap :=
  { s with kpages := s.kpages.filter fun held => held.1 ≠ addr }

def setRoot (s : Heap) (w : Fin numPagerefpages) (root : KheapRoot) : Heap :=
  { s with kheaproots := Function.update s.kheaproots w root }

/-- No other call comes between, so nobody else can have set the page meanwhile. -/
def allocpagerefpage (s : Heap) (w : Fin numPagerefpages) (answer : Nat) : Outcome Heap := do
  Outcome.kassert ((s.kheaproots w).page = 0)
  let (va, s) ← s.allocKpages 1 answer
  if va = 0 then return s
  else do
    Outcome.kassert (va % pageSize = 0)
    return s.setRoot w { s.kheaproots w with page := va }

/-- The loop of `allocpageref` over the roots that are left. -/
def allocFrom (answer : Nat) :
    List (Fin numPagerefpages) → Heap → Outcome (Option Ref × Heap)
  | [], s => .done (none, s)
  | w :: rest, s =>
    let root := s.kheaproots w
    if npagerefsPerPage ≤ root.numinuse then allocFrom answer rest s
    else
      match (List.finRange npagerefsPerPage).find? fun j => !root.pagerefsInuse j with
      | none => allocFrom answer rest s
      | some j => do
        let s := s.setRoot w { root with
          pagerefsInuse := Function.update root.pagerefsInuse j true
          numinuse := root.numinuse + 1 }
        let s ← if root.page = 0 then s.allocpagerefpage w answer else pure s
        if (s.kheaproots w).page = 0 then return (none, s) else return (some (w, j), s)

def allocpageref (s : Heap) (answer : Nat) : Outcome (Option Ref × Heap) :=
  allocFrom answer (List.finRange numPagerefpages) s

/-- The loop of `freepageref` over the roots that are left. -/
def freeFrom (p : Ref) : List (Fin numPagerefpages) → Heap → Outcome Heap
  | [], _ => .panic
  | w :: rest, s =>
    let root := s.kheaproots w
    if root.page = 0 then do
      Outcome.kassert (root.numinuse = 0)
      freeFrom p rest s
    else if p.1 = w then do
      Outcome.kassert (root.pagerefsInuse p.2 = true)
      Outcome.kassert (0 < root.numinuse)
      return s.setRoot w { root with
        pagerefsInuse := Function.update root.pagerefsInuse p.2 false
        numinuse := root.numinuse - 1 }
    else freeFrom p rest s

def freepageref (s : Heap) (p : Ref) : Outcome Heap :=
  freeFrom p (List.finRange numPagerefpages) s

def removeLists (s : Heap) (pr : Ref) (blktype : Nat) : Outcome Heap := do
  Outcome.kassert (blktype < nsizes)
  let (base, next) ← unlink s.nextSamesize pr totalPagerefs (s.sizebases blktype)
  let s := { s with
    nextSamesize := next
    sizebases := Function.update s.sizebases blktype base }
  let (base, next) ← unlink s.nextAll pr totalPagerefs s.allbase
  return { s with nextAll := next, allbase := base }

/-- The code at `doalloc`: takes the first free block of a page. -/
def doalloc (s : Heap) (pr : Ref) : Outcome (Nat × Heap) := do
  Outcome.kassert (s.freelistOffset pr < pageSize)
  let prpage := s.prPageaddr pr
  let retptr := prpage + s.freelistOffset pr
  let fl := s.mem retptr
  let s := { s with nfree := Function.update s.nfree pr (s.nfree pr - 1) }
  if fl ≠ 0 then do
    Outcome.kassert (0 < s.nfree pr)
    Outcome.kassert (vsub fl prpage < pageSize)
    return (retptr, { s with
      freelistOffset := Function.update s.freelistOffset pr (vsub fl prpage) })
  else do
    Outcome.kassert (s.nfree pr = 0)
    return (retptr, { s with
      freelistOffset := Function.update s.freelistOffset pr invalidOffset })

/-- Sets up the `pageref` of a fresh page and puts it on both lists. -/
def setupPage (s : Heap) (pr : Ref) (prpage blktype : Nat) : Outcome Heap := do
  let nfree := pageSize / sizes blktype
  let mem ← threadBlocks prpage (sizes blktype) s.mem (nfree - 1)
  let fla := prpage + (nfree - 1) * sizes blktype
  Outcome.kassert (vsub fla prpage = (nfree - 1) * sizes blktype)
  return { s with
    mem := mem
    pageaddrAndBlocktype := Function.update s.pageaddrAndBlocktype pr (mkpab prpage blktype)
    nfree := Function.update s.nfree pr nfree
    freelistOffset := Function.update s.freelistOffset pr (vsub fla prpage)
    nextSamesize := Function.update s.nextSamesize pr (s.sizebases blktype)
    sizebases := Function.update s.sizebases blktype (some pr)
    nextAll := Function.update s.nextAll pr s.allbase
    allbase := some pr }

/-- The body of the loop over the pages of a size. -/
def hasFree (s : Heap) (blktype : Nat) (pr : Ref) : Outcome Bool := do
  Outcome.kassert (s.prBlocktype pr = blktype)
  return decide (0 < s.nfree pr)

/-- `page` and `refpage` are the answers of the calls of `alloc_kpages` for the page and for its
`pageref`. -/
def subpageKmalloc (s : Heap) (sz page refpage : Nat) : Outcome (Nat × Heap) := do
  let blktype ← blocktype sz
  match ← search s.nextSamesize (s.hasFree blktype) totalPagerefs (s.sizebases blktype) with
  | some pr => s.doalloc pr
  | none => do
    let (prpage, s) ← s.allocKpages 1 page
    if prpage = 0 then return (0, s)
    else do
      Outcome.kassert (prpage % pageSize = 0)
      let (pr, s) ← s.allocpageref refpage
      match pr with
      | none => return (0, s.freeKpages prpage)
      | some pr => do
        let s ← s.setupPage pr prpage blktype
        s.doalloc pr

/-- Puts a block on the free list of its page. -/
def putBlock (s : Heap) (pr : Ref) (offset : Nat) : Outcome Heap := do
  let fl := s.prPageaddr pr + offset
  let mem := fillDeadbeef s.mem fl (sizes (s.prBlocktype pr))
  let next := if s.freelistOffset pr = invalidOffset then 0
    else s.prPageaddr pr + s.freelistOffset pr
  Outcome.kassert (s.freelistOffset pr = invalidOffset ∨ fl ≠ next)
  return { s with
    mem := Function.update mem fl next
    freelistOffset := Function.update s.freelistOffset pr offset
    nfree := Function.update s.nfree pr (s.nfree pr + 1) }

/-- Releases the page if all its blocks are free. -/
def releasePage (s : Heap) (pr : Ref) : Outcome Heap := do
  let blktype := s.prBlocktype pr
  let prpage := s.prPageaddr pr
  Outcome.kassert (s.nfree pr ≤ pageSize / sizes blktype)
  if s.nfree pr = pageSize / sizes blktype then do
    let s ← s.removeLists pr blktype
    let s ← s.freepageref pr
    return s.freeKpages prpage
  else return s

/-- The body of the loop over all pages. -/
def contains (s : Heap) (ptraddr : Nat) (pr : Ref) : Outcome Bool := do
  Outcome.kassert (s.prBlocktype pr < nsizes)
  return decide (s.prPageaddr pr ≤ ptraddr ∧ ptraddr < (s.prPageaddr pr + pageSize) % 2 ^ 32)

/-- The answer is false if the pointer is on no heap page. -/
def subpageKfree (s : Heap) (ptr : Nat) : Outcome (Bool × Heap) := do
  match ← search s.nextAll (s.contains ptr) totalPagerefs s.allbase with
  | none => return (false, s)
  | some pr => do
    let offset := vsub ptr (s.prPageaddr pr)
    if pageSize ≤ offset ∨ offset % sizes (s.prBlocktype pr) ≠ 0 then .panic
    else do
      let s ← s.putBlock pr offset
      let s ← s.releasePage pr
      return (true, s)

def kmalloc (s : Heap) (sz page refpage : Nat) : Outcome (Nat × Heap) :=
  if largestSubpageSize ≤ sz then do
    let npages := (sz + pageSize - 1) % 2 ^ 32 / pageSize
    let (address, s) ← s.allocKpages npages page
    if address = 0 then return (0, s)
    else do
      Outcome.kassert (address % pageSize = 0)
      return (address, s)
  else s.subpageKmalloc sz page refpage

def kfree (s : Heap) (ptr : Nat) : Outcome Heap :=
  if ptr = 0 then .done s
  else do
    let (ours, s) ← s.subpageKfree ptr
    if ours then return s
    else do
      Outcome.kassert (ptr % pageSize = 0)
      return s.freeKpages ptr

end Heap

/-! ### Runs -/

/-- A block that a client has: its address and the size that was asked for. -/
structure Block where
  ptr : Nat
  size : Nat
  deriving DecidableEq, Repr

structure State where
  heap : Heap
  live : List Block

inductive Action where
  | kmalloc (sz page refpage : Nat)
  | kfree (ptr : Nat)
  /-- A word is written by whoever it belongs to. -/
  | store (addr value : Nat)
  deriving DecidableEq, Repr

/-- A word that is not the heap's: a client has it, or the page is nobody's heap page. -/
def State.Foreign (s : State) (addr : Nat) : Prop :=
  (∃ b ∈ s.live, b.ptr ≤ addr ∧ addr < b.ptr + b.size) ∨
    ∀ held ∈ s.heap.kpages, addr < held.1 ∨ held.1 + held.2 * pageSize ≤ addr

instance (s : State) (addr : Nat) : Decidable (s.Foreign addr) :=
  inferInstanceAs (Decidable (_ ∨ _))

/-- Requests are below the threshold for whole pages, and only live blocks are freed. -/
def State.step (s : State) : Action → Outcome State
  | .kmalloc sz page refpage => do
    Outcome.await (sz < largestSubpageSize)
    let (ptr, heap) ← s.heap.kmalloc sz page refpage
    return ⟨heap, if ptr = 0 then s.live else ⟨ptr, sz⟩ :: s.live⟩
  | .kfree ptr => do
    Outcome.await (ptr ∈ s.live.map Block.ptr)
    let heap ← s.heap.kfree ptr
    return ⟨heap, s.live.filter fun b => b.ptr ≠ ptr⟩
  | .store addr value => do
    Outcome.await (s.Foreign addr)
    return { s with heap := { s.heap with mem := Function.update s.heap.mem addr value } }

/-- The variables before the first call. -/
structure State.Initial (s : State) : Prop where
  allbase : s.heap.allbase = none
  sizebases : ∀ k, s.heap.sizebases k = none
  roots : ∀ w, s.heap.kheaproots w = ⟨0, fun _ => false, 0⟩
  live : s.live = []

def kheap : Machine State Action where
  initial := State.Initial
  step := State.step

end Os161.Kmalloc
