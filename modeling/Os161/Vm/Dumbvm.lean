import Os161.Base.Outcome
import Os161.Errno
import Mathlib.Logic.Function.Basic

/-!
# Address spaces and the TLB

`dumbvm.c`. An address space has two regions and a stack, each one range of frames. `ram_stealmem`
is outside: what it answers comes with the call, and what it has handed out is kept in a list.
-/

namespace Os161.Dumbvm

/-- `vaddr_t` and `paddr_t`. -/
abbrev Word := BitVec 32

def pageSize : Word := 4096
def pageFrame : Word := 0xfffff000
def userspacetop : Word := 0x80000000
def userstack : Word := userspacetop
def dumbvmStackpages : Word := 12

/-! ### The TLB -/

def tlbhiVpage : Word := 0xfffff000
def tlbloPpage : Word := 0xfffff000
def tlbloDirty : Word := 0x400
def tlbloValid : Word := 0x200

structure TlbEntry where
  ehi : Word
  elo : Word
  deriving DecidableEq

abbrev Tlb := Fin 64 → TlbEntry

namespace TlbEntry

def valid (e : TlbEntry) : Bool := e.elo &&& tlbloValid != 0
def dirty (e : TlbEntry) : Bool := e.elo &&& tlbloDirty != 0
def page (e : TlbEntry) : Word := e.ehi &&& tlbhiVpage
def frame (e : TlbEntry) : Word := e.elo &&& tlbloPpage

end TlbEntry

/-- The entry that the processor finds for an address. -/
def Tlb.lookup (tlb : Tlb) (vaddr : Word) : Option TlbEntry :=
  (List.ofFn tlb).find? fun e => e.valid && e.page == vaddr &&& pageFrame

/-- `as_activate` writes an invalid entry everywhere, whatever address space it is given. -/
def asActivate : Tlb := fun i => ⟨(0x80000 + BitVec.ofNat 32 i) <<< 12, 0⟩

/-! ### Address spaces -/

structure Addrspace where
  asVbase1 : Word
  asPbase1 : Word
  asNpages1 : Word
  asVbase2 : Word
  asPbase2 : Word
  asNpages2 : Word
  asStackpbase : Word
  deriving DecidableEq

/-- What `as_create` makes. -/
def asCreate : Addrspace := ⟨0, 0, 0, 0, 0, 0, 0⟩

/-- `as_define_region` without the permissions, which it does not use. -/
def asDefineRegion (as : Addrspace) (vaddr sz : Word) : Int × Addrspace :=
  let sz := sz + (vaddr &&& ~~~ pageFrame)
  let vaddr := vaddr &&& pageFrame
  let sz := (sz + pageSize - 1) &&& pageFrame
  let npages := sz / pageSize
  if as.asVbase1 = 0 then (0, { as with asVbase1 := vaddr, asNpages1 := npages })
  else if as.asVbase2 = 0 then (0, { as with asVbase2 := vaddr, asNpages2 := npages })
  else (2, as)

/-- Ranges of pages that `ram_stealmem` has handed out: first address and number of pages. -/
abbrev Stolen := List (Word × Word)

/-- The addresses of a range. -/
def inRange (r : Word × Word) (x : Nat) : Prop :=
  r.1.toNat ≤ x ∧ x < r.1.toNat + r.2.toNat * 4096

/-- What is taken of `ram_stealmem`: the pages it hands out are there, and were not handed out
before. -/
def Fresh (stolen : Stolen) (r : Word × Word) : Prop :=
  r.1.toNat + r.2.toNat * 4096 ≤ 2 ^ 32 ∧ ∀ r' ∈ stolen, ∀ x, inRange r x → ¬ inRange r' x

/-- Ranges with pages in both do not meet. -/
def freshCheck (stolen : Stolen) (r : Word × Word) : Bool :=
  decide (r.1.toNat + r.2.toNat * 4096 ≤ 2 ^ 32) && stolen.all fun r' =>
    decide (r.2.toNat = 0 ∨ r'.2.toNat = 0 ∨ r.1.toNat + r.2.toNat * 4096 ≤ r'.1.toNat ∨
      r'.1.toNat + r'.2.toNat * 4096 ≤ r.1.toNat)

theorem freshCheck_iff {stolen : Stolen} {r : Word × Word} :
    freshCheck stolen r = true ↔ Fresh stolen r := by
  simp only [freshCheck, Bool.and_eq_true, decide_eq_true_eq, List.all_eq_true, Fresh, inRange]
  constructor
  · intro ⟨fits, apart⟩
    refine ⟨fits, fun r' member x inside inside' => ?_⟩
    have := apart r' member
    omega
  · intro ⟨fits, apart⟩
    refine ⟨fits, fun r' member => ?_⟩
    have first := apart r' member r.1.toNat
    have second := apart r' member r'.1.toNat
    omega

instance (stolen : Stolen) (r : Word × Word) : Decidable (Fresh stolen r) :=
  decidable_of_iff _ freshCheck_iff

/-- `getppages`; an answer of 0 says that there is no memory. -/
def getppages (stolen : Stolen) (npages answer : Word) : Outcome (Word × Stolen) :=
  if answer = 0 then return (0, stolen)
  else do
    Outcome.await (Fresh stolen (answer, npages))
    return (answer, (answer, npages) :: stolen)

/-- What `ram_stealmem` answers to one `as_prepare_load`. -/
structure Answers where
  first : Word
  second : Word
  stack : Word

/-- `as_prepare_load`, but for the zeros that it writes. -/
def asPrepareLoad (as : Addrspace) (stolen : Stolen) (answers : Answers) :
    Outcome (Option Errno × Addrspace × Stolen) := do
  Outcome.kassert (as.asPbase1 = 0)
  Outcome.kassert (as.asPbase2 = 0)
  Outcome.kassert (as.asStackpbase = 0)
  let (pbase1, stolen) ← getppages stolen as.asNpages1 answers.first
  let as := { as with asPbase1 := pbase1 }
  if pbase1 = 0 then return (some .enomem, as, stolen)
  else do
    let (pbase2, stolen) ← getppages stolen as.asNpages2 answers.second
    let as := { as with asPbase2 := pbase2 }
    if pbase2 = 0 then return (some .enomem, as, stolen)
    else do
      let (stackpbase, stolen) ← getppages stolen dumbvmStackpages answers.stack
      let as := { as with asStackpbase := stackpbase }
      if stackpbase = 0 then return (some .enomem, as, stolen)
      else return (none, as, stolen)

/-- The address space that `as_copy` makes, before it has memory of its own. -/
def copied (old : Addrspace) : Addrspace :=
  { asCreate with
    asVbase1 := old.asVbase1, asNpages1 := old.asNpages1
    asVbase2 := old.asVbase2, asNpages2 := old.asNpages2 }

/-! ### Faults -/

inductive FaultType where
  | readonly
  | read
  | write
  deriving DecidableEq

/-- The address space has been set up properly. -/
def Addrspace.complete (as : Addrspace) : Prop :=
  as.asVbase1 ≠ 0 ∧ as.asPbase1 ≠ 0 ∧ as.asNpages1 ≠ 0 ∧
    as.asVbase2 ≠ 0 ∧ as.asPbase2 ≠ 0 ∧ as.asNpages2 ≠ 0 ∧ as.asStackpbase ≠ 0 ∧
    as.asVbase1 &&& pageFrame = as.asVbase1 ∧ as.asPbase1 &&& pageFrame = as.asPbase1 ∧
    as.asVbase2 &&& pageFrame = as.asVbase2 ∧ as.asPbase2 &&& pageFrame = as.asPbase2 ∧
    as.asStackpbase &&& pageFrame = as.asStackpbase

instance (as : Addrspace) : Decidable as.complete :=
  inferInstanceAs (Decidable (_ ∧ _))

def stackbase : Word := userstack - dumbvmStackpages * pageSize

/-- The choice of a region in `vm_fault`. -/
def paddrOf (as : Addrspace) (faultaddress : Word) : Option Word :=
  let vbase1 := as.asVbase1
  let vtop1 := vbase1 + as.asNpages1 * pageSize
  let vbase2 := as.asVbase2
  let vtop2 := vbase2 + as.asNpages2 * pageSize
  let stacktop := userstack
  if vbase1 ≤ faultaddress ∧ faultaddress < vtop1 then
    some (faultaddress - vbase1 + as.asPbase1)
  else if vbase2 ≤ faultaddress ∧ faultaddress < vtop2 then
    some (faultaddress - vbase2 + as.asPbase2)
  else if stackbase ≤ faultaddress ∧ faultaddress < stacktop then
    some (faultaddress - stackbase + as.asStackpbase)
  else none

/-- `vm_fault` up to the TLB: the page and its frame. The interrupts may be on. -/
def vmFaultPage (faulttype : FaultType) (as : Option Addrspace) (faultaddress : Word) :
    Outcome (Except Errno (Word × Word)) :=
  let faultaddress := faultaddress &&& pageFrame
  if faulttype = .readonly then .panic
  else
    match as with
    | none => return .error .efault
    | some as => do
      Outcome.kassert as.complete
      match paddrOf as faultaddress with
      | none => return .error .efault
      | some paddr => do
        Outcome.kassert (paddr &&& pageFrame = paddr)
        return .ok (faultaddress, paddr)

/-- The rest of `vm_fault`, with the interrupts off. -/
def vmFaultTlb (tlb : Tlb) (faultaddress paddr : Word) : Option Errno × Tlb :=
  match (List.finRange 64).find? fun i => !(tlb i).valid with
  | some i =>
    (none, Function.update tlb i ⟨faultaddress, paddr ||| tlbloDirty ||| tlbloValid⟩)
  | none => (some .efault, tlb)

end Os161.Dumbvm
