import Os161.Base.Memory
import Os161.Vm.Isolation

/-!
# The bytes of an address space

A program reaches physical memory through `vm_fault`, the kernel reaches all of it through kseg0. So
memory is indexed with physical addresses here.
-/

namespace Os161.Dumbvm

/-! ### Pages -/

theorem page_toNat (vaddr : Word) : (vaddr &&& pageFrame).toNat = vaddr.toNat / 4096 * 4096 := by
  have frame : ∀ i < 32, pageFrame.getLsbD i = !decide (i < 12) := by decide
  have bits : vaddr &&& pageFrame = (vaddr >>> 12) <<< 12 := by
    ext i bound
    rw [BitVec.getElem_and, BitVec.getElem_shiftLeft, ← BitVec.getLsbD_eq_getElem bound,
      ← BitVec.getLsbD_eq_getElem bound, frame i bound, BitVec.getElem_ushiftRight]
    by_cases low : i < 12
    · simp [low]
    · simp [low, show 12 + (i - 12) = i by omega]
  rw [bits, BitVec.toNat_shiftLeft, BitVec.toNat_ushiftRight, Nat.shiftLeft_eq,
    Nat.shiftRight_eq_div_pow]
  have small := vaddr.isLt
  omega

/-- A word is a page address. -/
theorem aligned_iff {addr : Word} : addr &&& pageFrame = addr ↔ addr.toNat % 4096 = 0 := by
  rw [← BitVec.toNat_inj, page_toNat]
  omega

/-! ### Reading and writing -/

namespace Addrspace

/-- The physical address that `vm_fault` gives a user address. -/
def translate (as : Addrspace) (faulttype : FaultType) (vaddr : Word) : Outcome (Except Errno Nat) := do
  match ← vmFaultPage faulttype (some as) vaddr with
  | .error err => return .error err
  | .ok (_, frame) => return .ok (frame.toNat + vaddr.toNat % 4096)

/-- Where a user address is in memory, if it is mapped. -/
def paddr (as : Addrspace) (faulttype : FaultType) (vaddr : Word) : Option Nat :=
  match as.translate faulttype vaddr with
  | .done (.ok paddr) => some paddr
  | _ => none

/-- The byte that a program reads, if the address is mapped. -/
def load (as : Addrspace) (memory : Bytes) (vaddr : Word) : Option UInt8 :=
  (as.paddr .read vaddr).map memory

/-- A program writes a byte. A write that is not served changes nothing. -/
def store (as : Addrspace) (memory : Bytes) (vaddr : Word) (byte : UInt8) : Bytes :=
  match as.paddr .write vaddr with
  | some paddr => Function.update memory paddr byte
  | none => memory

def storeAll (as : Addrspace) (memory : Bytes) (writes : List (Word × UInt8)) : Bytes :=
  writes.foldl (fun memory (vaddr, byte) => as.store memory vaddr byte) memory

/-- Every region has memory. -/
def loaded (as : Addrspace) : Prop := ∀ i, (as.region i).pbase ≠ 0

/-- Regions have their memory in whole pages. -/
def Whole (as : Addrspace) : Prop := ∀ i, (as.region i).pbase.toNat % 4096 = 0

end Addrspace

/-- The place of an address in the memory of a region. -/
def Region.place (r : Region) (vaddr : Word) : Nat := r.pbase.toNat + (vaddr.toNat - r.vbase.toNat)

/-- However the sums wrap, the byte is at its place in the range of the region. -/
theorem Region.place_inRange {r : Region} {vaddr : Word} (inside : r.contains (vaddr &&& pageFrame))
    (fits : r.Fits) (virtual : r.vbase.toNat % 4096 = 0) :
    (r.frame (vaddr &&& pageFrame)).toNat + vaddr.toNat % 4096 = r.place vaddr ∧
      vaddr.toNat - r.vbase.toNat < r.npages.toNat * 4096 := by
  obtain ⟨low, high⟩ := inside
  unfold Fits at fits
  have page := page_toNat vaddr
  have small := vaddr.isLt
  have size : pageSize.toNat = 4096 := rfl
  simp only [BitVec.le_def, BitVec.lt_def, BitVec.toNat_add, BitVec.toNat_mul, size] at low high
  rw [Region.frame, BitVec.toNat_add, BitVec.toNat_sub_of_le (BitVec.le_def.mpr low), Region.place]
  have exact : (vaddr &&& pageFrame).toNat - r.vbase.toNat + r.pbase.toNat < 2 ^ 32 := by omega
  rw [Nat.mod_eq_of_lt exact]
  omega

theorem Region.frame_aligned {r : Region} {page : Word} (aligned : page.toNat % 4096 = 0)
    (virtual : r.vbase.toNat % 4096 = 0) (physical : r.pbase.toNat % 4096 = 0) :
    r.frame page &&& pageFrame = r.frame page := by
  rw [aligned_iff, Region.frame, BitVec.toNat_add, BitVec.toNat_sub]
  have small := r.vbase.isLt
  omega

theorem Addrspace.complete.aligned {as : Addrspace} (h : as.complete) (i : Fin 3) :
    (as.region i).vbase.toNat % 4096 = 0 ∧ (as.region i).pbase.toNat % 4096 = 0 := by
  obtain ⟨_, _, _, _, _, _, _, v1, p1, v2, p2, p3⟩ := h
  rw [aligned_iff] at v1 p1 v2 p2 p3
  match i with
  | 0 => exact ⟨v1, p1⟩
  | 1 => exact ⟨v2, p2⟩
  | 2 => exact ⟨(by decide : stackbase.toNat % 4096 = 0), p3⟩

theorem Addrspace.loaded_iff {as : Addrspace} :
    as.loaded ↔ as.asPbase1 ≠ 0 ∧ as.asPbase2 ≠ 0 ∧ as.asStackpbase ≠ 0 := by
  constructor
  · exact fun loaded => ⟨loaded 0, loaded 1, loaded 2⟩
  · intro ⟨first, second, third⟩ i
    match i with
    | 0 => exact first
    | 1 => exact second
    | 2 => exact third

theorem Addrspace.complete.loaded {as : Addrspace} (h : as.complete) : as.loaded := by
  obtain ⟨_, p1, _, _, p2, _, p3, _⟩ := h
  exact loaded_iff.mpr ⟨p1, p2, p3⟩

section Translate

variable {as : Addrspace} {faulttype : FaultType}

/-- What `vm_fault` does once its assertions hold. -/
theorem translate_complete (complete : as.complete) (reads : faulttype ≠ .readonly)
    (fits : ∀ i, (as.region i).pbase ≠ 0 → (as.region i).Fits) (vaddr : Word) :
    as.translate faulttype vaddr = .done
      (match as.regionOf (vaddr &&& pageFrame) with
      | some i => .ok ((as.region i).place vaddr)
      | none => .error .efault) := by
  unfold Addrspace.translate vmFaultPage
  rw [if_neg reads]
  dsimp only
  rw [Outcome.kassert_bind complete, paddrOf_eq]
  cases found : as.regionOf (vaddr &&& pageFrame) with
  | none => rfl
  | some i =>
    have inside : (as.region i).contains (vaddr &&& pageFrame) := by simpa using List.find?_some found
    obtain ⟨virtual, physical⟩ := complete.aligned i
    have page : (vaddr &&& pageFrame).toNat % 4096 = 0 := by
      rw [page_toNat]
      omega
    have there := (Region.place_inRange inside (fits i (complete.loaded i)) virtual).1
    dsimp only [Option.map_some]
    rw [Outcome.kassert_bind (Region.frame_aligned page virtual physical), ← there]
    rfl

theorem translate_incomplete (incomplete : ¬ as.complete) (reads : faulttype ≠ .readonly)
    (vaddr : Word) : as.translate faulttype vaddr = .panic := by
  unfold Addrspace.translate vmFaultPage
  rw [if_neg reads]
  dsimp only
  rw [Outcome.kassert_fails incomplete]
  rfl

theorem paddr_eq (reads : faulttype ≠ .readonly)
    (fits : ∀ i, (as.region i).pbase ≠ 0 → (as.region i).Fits) (vaddr : Word) :
    as.paddr faulttype vaddr =
      if as.complete then
        (as.regionOf (vaddr &&& pageFrame)).map fun i => (as.region i).place vaddr
      else none := by
  unfold Addrspace.paddr
  by_cases complete : as.complete
  · rw [translate_complete complete reads fits, if_pos complete]
    cases as.regionOf (vaddr &&& pageFrame) <;> rfl
  · rw [translate_incomplete complete reads, if_neg complete]

/-- A mapped address has its byte in the range of a region. -/
theorem paddr_inRange (reads : faulttype ≠ .readonly)
    (fits : ∀ i, (as.region i).pbase ≠ 0 → (as.region i).Fits) {vaddr : Word} {paddr : Nat}
    (mapped : as.paddr faulttype vaddr = some paddr) :
    ∃ i, (as.region i).pbase ≠ 0 ∧ inRange (as.region i).range paddr := by
  rw [paddr_eq reads fits] at mapped
  split at mapped
  · rename_i complete
    obtain ⟨i, found, rfl⟩ := Option.map_eq_some_iff.mp mapped
    have inside : (as.region i).contains (vaddr &&& pageFrame) := by simpa using List.find?_some found
    have there := (Region.place_inRange inside (fits i (complete.loaded i)) (complete.aligned i).1).2
    apply Exists.intro i
    constructor
    · exact complete.loaded i
    · simp only [inRange, Region.range, Region.place]
      omega
  · cases mapped

end Translate

/-! ### Memory for an address space -/

/-- The address spaces, the bytes of memory, and what `ram_stealmem` has handed out. -/
structure Store (A : Type) where
  spaces : A → Option Addrspace
  memory : Bytes
  stolen : Stolen

/-- `ram_stealmem` hands out whole pages. -/
def Answers.Whole (answers : Answers) : Prop :=
  answers.first.toNat % 4096 = 0 ∧ answers.second.toNat % 4096 = 0 ∧ answers.stack.toNat % 4096 = 0

instance (answers : Answers) : Decidable answers.Whole :=
  inferInstanceAs (Decidable (_ ∧ _))

/-- `as_zero_region`. -/
def asZeroRegion (memory : Bytes) (paddr npages : Word) : Bytes :=
  memory.bzero paddr.toNat (npages * pageSize).toNat

namespace Store

variable {A : Type} [DecidableEq A]

def setSpace (s : Store A) (a : A) (o : Option Addrspace) : Store A :=
  { s with spaces := Function.update s.spaces a o }

/-- `as_prepare_load` with its zeros. -/
def asPrepareLoad (s : Store A) (a : A) (answers : Answers) : Outcome (Option Errno × Store A) := do
  let as ← Outcome.deref (s.spaces a)
  Outcome.await answers.Whole
  let (result, as, stolen) ← Dumbvm.asPrepareLoad as s.stolen answers
  let s : Store A := { (s.setSpace a (some as)) with stolen := stolen }
  match result with
  | some err => return (some err, s)
  | none =>
    let memory := asZeroRegion s.memory as.asPbase1 as.asNpages1
    let memory := asZeroRegion memory as.asPbase2 as.asNpages2
    let memory := asZeroRegion memory as.asStackpbase dumbvmStackpages
    return (none, { s with memory := memory })

end Store

/-- The same regions, with memory of whole pages or none. -/
structure Reshaped (as as' : Addrspace) : Prop where
  vbase : ∀ i, (as'.region i).vbase = (as.region i).vbase
  npages : ∀ i, (as'.region i).npages = (as.region i).npages
  whole : as'.Whole

theorem Reshaped.setPbase {as as' : Addrspace} (h : Reshaped as as') (i : Fin 3) {paddr : Word}
    (whole : paddr.toNat % 4096 = 0) : Reshaped as (as'.setPbase i paddr) := by
  constructor
  · intro j
    rw [region_setPbase]
    split
    · rename_i here
      exact here ▸ h.vbase i
    · exact h.vbase j
  · intro j
    rw [region_setPbase]
    split
    · rename_i here
      exact here ▸ h.npages i
    · exact h.npages j
  · intro j
    rw [region_setPbase]
    split
    · exact whole
    · exact h.whole j

theorem getppages_whole (stolen : Stolen) (npages : Word) {answer : Word}
    (whole : answer.toNat % 4096 = 0) :
    (getppages stolen npages answer).Meets fun (paddr, _) => paddr.toNat % 4096 = 0 := by
  unfold getppages
  split
  · exact (by decide : (0 : Word).toNat % 4096 = 0)
  · rw [Outcome.meets_bind, Outcome.meets_await]
    exact fun _ => whole

/-- What `as_prepare_load` does to an address space without memory. -/
theorem asPrepareLoad_reshapes {as : Addrspace} (bare : as.bare) (stolen : Stolen) {answers : Answers}
    (whole : answers.Whole) :
    (asPrepareLoad as stolen answers).Meets fun (result, as', _) =>
      Reshaped as as' ∧ (result = none → as'.loaded) := by
  obtain ⟨first, second, stack⟩ := whole
  have start : Reshaped as as := ⟨fun _ => rfl, fun _ => rfl, fun i => by rw [bare i]; rfl⟩
  have none1 : as.asPbase1 = 0 := bare 0
  have none2 : as.asPbase2 = 0 := bare 1
  have none3 : as.asStackpbase = 0 := bare 2
  unfold asPrepareLoad
  rw [Outcome.kassert_bind none1, Outcome.kassert_bind none2, Outcome.kassert_bind none3]
  rw [Outcome.meets_bind]
  apply (getppages_whole stolen as.asNpages1 first).mono
  intro (pbase1, stolen) first
  have shape := start.setPbase 0 first
  dsimp only
  split
  · exact ⟨shape, nofun⟩
  rename_i given1
  rw [Outcome.meets_bind]
  apply (getppages_whole stolen as.asNpages2 second).mono
  intro (pbase2, stolen) second
  have shape := shape.setPbase 1 second
  dsimp only
  split
  · exact ⟨shape, nofun⟩
  rename_i given2
  rw [Outcome.meets_bind]
  apply (getppages_whole stolen dumbvmStackpages stack).mono
  intro (stackpbase, stolen) stack
  have shape := shape.setPbase 2 stack
  dsimp only
  split
  · exact ⟨shape, nofun⟩
  rename_i given3
  exact ⟨shape, fun _ => Addrspace.loaded_iff.mpr ⟨given1, given2, given3⟩⟩

theorem asPrepareLoad_bare {as : Addrspace} {stolen : Stolen} {answers : Answers}
    {out : Option Errno × Addrspace × Stolen} (h : asPrepareLoad as stolen answers = .done out) :
    as.bare := by
  simp only [asPrepareLoad, Outcome.bind_done, Outcome.kassert_done] at h
  obtain ⟨_, first, _, second, _, third, _⟩ := h
  exact fun i => match i with | 0 => first | 1 => second | 2 => third

theorem asZeroRegion_outside {memory : Bytes} {paddr npages : Word} {p : Nat}
    (outside : ¬ inRange (paddr, npages) p) : asZeroRegion memory paddr npages p = memory p := by
  apply Bytes.bzero_outside
  have size : (npages * pageSize).toNat ≤ npages.toNat * 4096 := by
    rw [BitVec.toNat_mul]
    exact Nat.mod_le _ _
  simp only [inRange] at outside
  omega

namespace Store

variable {A : Type} [DecidableEq A] {s t : Store A} {a : A} {as as' : Addrspace}

/-- What `as_prepare_load` does: no byte outside of the new memory changes. -/
structure Prepares (s t : Store A) (a : A) (as as' : Addrspace) (result : Option Errno) : Prop where
  spaces : t.spaces = Function.update s.spaces a (some as')
  prepared : Prepared s.stolen t.stolen as'
  shape : Reshaped as as'
  loaded : result = none → as'.loaded
  kept : ∀ p, (∀ i, (as'.region i).pbase ≠ 0 → ¬ inRange (as'.region i).range p) →
    t.memory p = s.memory p
  failed : result ≠ none → t.memory = s.memory

theorem asPrepareLoad_meets (there : s.spaces a = some as) (bare : as.bare) (answers : Answers) :
    (s.asPrepareLoad a answers).Meets fun (result, t) => ∃ as', Prepares s t a as as' result := by
  unfold asPrepareLoad
  rw [Outcome.deref_bind there, Outcome.meets_bind, Outcome.meets_await]
  intro whole
  rw [Outcome.meets_bind]
  have reshapes := asPrepareLoad_reshapes bare s.stolen whole
  apply (reshapes.and_ensures (asPrepareLoad_spec as s.stolen answers)).mono
  intro (result, as', stolen) ⟨⟨shape, loaded⟩, prepared⟩
  cases result with
  | some err => exact ⟨as', rfl, prepared, shape, loaded, fun _ _ => rfl, fun _ => rfl⟩
  | none =>
    apply Exists.intro as'
    constructor
    · rfl
    · exact prepared
    · exact shape
    · exact loaded
    · intro p outside
      have given := loaded rfl
      have zeros : ∀ (memory : Bytes) (i : Fin 3),
          asZeroRegion memory (as'.region i).pbase (as'.region i).npages p = memory p :=
        fun memory i => asZeroRegion_outside (outside i (given i))
      exact ((zeros _ 2).trans (zeros _ 1)).trans (zeros _ 0)
    · exact fun fails => (fails rfl).elim

theorem asPrepareLoad_ensures (s : Store A) (a : A) (answers : Answers) :
    (s.asPrepareLoad a answers).Ensures fun (result, t) =>
      ∃ as as', s.spaces a = some as ∧ as.bare ∧ Prepares s t a as as' result := by
  intro (result, t) goes
  have found := goes
  simp only [asPrepareLoad, Outcome.bind_done, Outcome.deref_done] at found
  obtain ⟨as, there, _, _, out, prepares, _⟩ := found
  have bare := asPrepareLoad_bare prepares
  obtain ⟨as', done⟩ := (asPrepareLoad_meets there bare answers).of_done goes
  exact ⟨as, as', there, bare, done⟩

end Store

end Os161.Dumbvm
