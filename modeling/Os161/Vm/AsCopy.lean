import Os161.Syscall.LoadElf

/-!
# Copying an address space

`as_copy`, over the bytes of memory. A copy has the regions of the old address space and new memory
for each of them.
-/

set_option linter.unusedSectionVars false

namespace Os161.Dumbvm

/-- `memmove` of the pages of a region. -/
def copyPages (memory : Bytes) (dst src npages : Word) : Bytes :=
  memory.memmove dst.toNat memory src.toNat (npages * pageSize).toNat

namespace Store

variable {A : Type} [DecidableEq A]

/-- `as_create`, with what `kmalloc` answers. -/
def asCreate (s : Store A) (a : Option A) : Outcome (Option A × Store A) :=
  match a with
  | none => return (none, s)
  | some a => do
    Outcome.await (s.spaces a = none)
    return (some a, s.setSpace a (some Dumbvm.asCreate))

def asDestroy (s : Store A) (a : A) : Outcome (Store A) := do
  let _ ← Outcome.deref (s.spaces a)
  return s.setSpace a none

def asCopy (s : Store A) (old : A) (answer : Option A) (answers : Answers) :
    Outcome (Except Errno A × Store A) := do
  let (created, s₁) ← s.asCreate answer
  match created with
  | none => return (.error .enomem, s₁)
  | some new => do
    let asOld ← Outcome.deref (s.spaces old)
    let (failed, s₂) ← (s₁.setSpace new (some (copied asOld))).asPrepareLoad new answers
    if failed ≠ none then do
      let s₃ ← s₂.asDestroy new
      return (.error .enomem, s₃)
    else do
      let asNew ← Outcome.deref (s₂.spaces new)
      Outcome.kassert (asNew.asPbase1 ≠ 0)
      Outcome.kassert (asNew.asPbase2 ≠ 0)
      Outcome.kassert (asNew.asStackpbase ≠ 0)
      let memory := copyPages s₂.memory asNew.asPbase1 asOld.asPbase1 asOld.asNpages1
      let memory := copyPages memory asNew.asPbase2 asOld.asPbase2 asOld.asNpages2
      let memory := copyPages memory asNew.asStackpbase asOld.asStackpbase dumbvmStackpages
      return (.ok new, { s₂ with memory := memory })

end Store

/-! ### Runs -/

inductive StoreAction (A : Type) where
  | create (answer : Option A)
  /-- `load_elf` into what `as_create` has made. -/
  | load (a : A) (v : Executable) (answers : Answers)
  | copy (old : A) (answer : Option A) (answers : Answers)
  | destroy (a : A)
  | allocKpages (npages answer : Word)
  /-- Programs and the kernel write to memory. -/
  | write (memory : Bytes)

variable {A : Type} [DecidableEq A]

def Store.step (s : Store A) : StoreAction A → Outcome (Store A)
  | .create answer => return (← s.asCreate answer).2
  | .load a v answers => do
    Outcome.await (s.spaces a = some Dumbvm.asCreate)
    return (← s.loadElf a v answers).2
  | .copy old answer answers => return (← s.asCopy old answer answers).2
  | .destroy a => s.asDestroy a
  | .allocKpages npages answer => do
    let (_, stolen) ← getppages s.stolen npages answer
    return { s with stolen := stolen }
  | .write memory => return { s with memory := memory }

def storeMachine : Machine (Store A) (StoreAction A) where
  initial s := s.spaces = (fun _ => none) ∧ s.stolen = []
  step := Store.step

/-- `load_elf` has built the address space, or `as_copy` has made it from such a one. -/
inductive Built : Store A → A → Prop where
  | loaded {s t : Store A} {a : A} {v : Executable} {answers : Answers} {entry : Word} :
      storeMachine.Reachable s → s.spaces a = some Dumbvm.asCreate →
      s.loadElf a v answers = .done (.ok entry, t) → Built t a
  | copied {s t : Store A} {old new : A} {answer : Option A} {answers : Answers} :
      Built s old → s.asCopy old answer answers = .done (.ok new, t) → Built t new
  /-- Whatever happens next, as long as it leaves the regions of this address space. -/
  | later {s t : Store A} {a : A} (action : StoreAction A) :
      Built s a → s.step action = .done t → t.spaces a = s.spaces a → Built t a

/-- What the address spaces have was handed out for them, in whole pages. -/
structure Store.Sound (s : Store A) : Prop where
  ranges : Ranges s.spaces s.stolen
  whole : ∀ a as, s.spaces a = some as → as.Whole

namespace Store.Sound

variable {s t : Store A} {a : A} {as as' : Addrspace} {result : Option Errno} {answers : Answers}

theorem put (h : s.Sound) {stolen : Stolen} (ranges : Ranges (Function.update s.spaces a (some as)) stolen)
    (whole : as.Whole) (spaces : t.spaces = Function.update s.spaces a (some as))
    (given : t.stolen = stolen) : t.Sound := by
  constructor
  · rw [spaces, given]
    exact ranges
  · intro b bs found
    rw [spaces] at found
    by_cases here : b = a
    · subst here
      rw [Function.update_self] at found
      obtain rfl := Option.some.inj found
      exact whole
    · rw [Function.update_of_ne here] at found
      exact h.whole b bs found

theorem bare_whole (bare : as.bare) : as.Whole := by
  intro i
  rw [bare i]
  rfl

theorem setBare (h : s.Sound) (a : A) (bare : as.bare) : (s.setSpace a (some as)).Sound :=
  h.put (h.ranges.bare a bare) (bare_whole bare) rfl rfl

theorem drop (h : s.Sound) (a : A) : (s.setSpace a none).Sound := by
  refine ⟨h.ranges.drop a, fun b bs found => ?_⟩
  change Function.update s.spaces a none b = some bs at found
  by_cases here : b = a
  · subst here
    rw [Function.update_self] at found
    cases found
  · rw [Function.update_of_ne here] at found
    exact h.whole b bs found

theorem prepares (h : s.Sound) (prepares : s.Prepares t a as as' result) : t.Sound :=
  h.put (h.ranges.prepare a prepares.prepared) prepares.shape.whole prepares.spaces rfl

theorem memory (h : s.Sound) (memory : Bytes) : Store.Sound { s with memory := memory } :=
  ⟨h.ranges, h.whole⟩

end Store.Sound

theorem copied_region (as : Addrspace) (i : Fin 3) :
    ((copied as).region i).vbase = (as.region i).vbase ∧
      ((copied as).region i).npages = (as.region i).npages ∧ ((copied as).region i).pbase = 0 :=
  match i with
  | 0 | 1 | 2 => ⟨rfl, rfl, rfl⟩

/-! ### The moves -/

/-- These regions of `as` have been moved to the memory that `bs` has for them. -/
structure Moved (as bs : Addrspace) (before after : Bytes) (regions : List (Fin 3)) : Prop where
  there : ∀ i ∈ regions, ∀ o < (as.region i).npages.toNat * 4096,
    after ((bs.region i).pbase.toNat + o) = before ((as.region i).pbase.toNat + o)
  kept : ∀ p, (∀ i ∈ regions, ¬ inRange (bs.region i).range p) → after p = before p

/-- The memory of `bs` is apart from that of `as`, and one region from the other. -/
structure Separate (as bs : Addrspace) : Prop where
  npages : ∀ i, (bs.region i).npages = (as.region i).npages
  apart : ∀ i j, Apart (bs.region i).range (as.region j).range
  own : ∀ i j, i ≠ j → Apart (bs.region i).range (bs.region j).range

section Moves

variable {as bs : Addrspace} {before after : Bytes} {regions : List (Fin 3)}

theorem Moved.start (as bs : Addrspace) (before : Bytes) : Moved as bs before before [] :=
  ⟨fun _ member => (List.not_mem_nil member).elim, fun _ _ => rfl⟩

theorem size_exact {r : Region} (fits : r.Fits) (given : r.pbase ≠ 0) :
    (r.npages * pageSize).toNat = r.npages.toNat * 4096 := by
  have positive : 0 < r.pbase.toNat := by
    apply Nat.pos_of_ne_zero
    intro zero
    exact given (BitVec.eq_of_toNat_eq zero)
  have size : pageSize.toNat = 4096 := rfl
  unfold Region.Fits at fits
  rw [BitVec.toNat_mul, size]
  omega

theorem Moved.next (h : Moved as bs before after regions) (separate : Separate as bs) {i : Fin 3}
    (new : i ∉ regions) (fits : (as.region i).Fits) (given : (as.region i).pbase ≠ 0) :
    Moved as bs before
      (copyPages after (bs.region i).pbase (as.region i).pbase (as.region i).npages)
      (i :: regions) := by
  have size := size_exact fits given
  have npages := separate.npages i
  have outside : ∀ p, ¬ inRange (bs.region i).range p →
      copyPages after (bs.region i).pbase (as.region i).pbase (as.region i).npages p = after p := by
    intro p out
    apply Bytes.memmove_outside
    rw [size]
    simp only [inRange, Region.range, npages] at out
    omega
  constructor
  · intro j member o inside
    obtain rfl | old := List.mem_cons.mp member
    · have source : inRange (as.region j).range ((as.region j).pbase.toNat + o) := by
        simp only [inRange, Region.range]
        omega
      rw [copyPages, size, Bytes.memmove_inside inside]
      exact h.kept _ fun k _ taken => separate.apart k j _ taken source
    · have differ : j ≠ i := fun same => new (same ▸ old)
      have target : inRange (bs.region j).range ((bs.region j).pbase.toNat + o) := by
        simp only [inRange, Region.range, separate.npages j]
        omega
      rw [outside _ (separate.own j i differ _ target)]
      exact h.there j old o inside
  · intro p out
    rw [outside p (out i List.mem_cons_self)]
    exact h.kept p fun j member => out j (List.mem_cons_of_mem _ member)

end Moves

/-! ### The copy -/

/-- What the new address space is of the old one. -/
structure Equal (t : Store A) (memory : Bytes) (old new : A) : Prop where
  differ : new ≠ old
  same : ∃ as bs, t.spaces old = some as ∧ t.spaces new = some bs ∧
    (∀ vaddr, bs.load t.memory vaddr = as.load memory vaddr) ∧
    ∀ memory writes vaddr, as.load (bs.storeAll memory writes) vaddr = as.load memory vaddr ∧
      bs.load (as.storeAll memory writes) vaddr = bs.load memory vaddr

/-- What `as_copy` promises. -/
structure CopyOf (s t : Store A) (old : A) (result : Except Errno A) : Prop where
  kept : t.spaces old = s.spaces old
  bytes : ∀ as, s.spaces old = some as → ∀ vaddr, as.load t.memory vaddr = as.load s.memory vaddr
  copied : ∀ new, result = .ok new → Equal t s.memory old new

section Copy

variable {s t : Store A} {old new : A} {as bs : Addrspace} {answers : Answers}

/-- The regions decide what is mapped. -/
theorem regionOf_congr (vbase : ∀ i, (bs.region i).vbase = (as.region i).vbase)
    (npages : ∀ i, (bs.region i).npages = (as.region i).npages) (page : Word) :
    bs.regionOf page = as.regionOf page := by
  unfold Addrspace.regionOf
  congr 1
  funext i
  rw [decide_eq_decide]
  simp only [Region.contains, vbase i, npages i]

/-- Two loaded address spaces of the same regions, in different memory. -/
structure Twin (as bs : Addrspace) : Prop extends Separate as bs where
  vbase : ∀ i, (bs.region i).vbase = (as.region i).vbase
  loaded : as.loaded ∧ bs.loaded
  whole : as.Whole ∧ bs.Whole
  fits : ∀ i, (as.region i).Fits ∧ (bs.region i).Fits

theorem complete_congr (vbase : ∀ i, (bs.region i).vbase = (as.region i).vbase)
    (npages : ∀ i, (bs.region i).npages = (as.region i).npages) (loaded : bs.loaded)
    (whole : bs.Whole) (complete : as.complete) : bs.complete := by
  have vbase1 : bs.asVbase1 = as.asVbase1 := vbase 0
  have vbase2 : bs.asVbase2 = as.asVbase2 := vbase 1
  have npages1 : bs.asNpages1 = as.asNpages1 := npages 0
  have npages2 : bs.asNpages2 = as.asNpages2 := npages 1
  have whole1 := aligned_iff.mpr (whole 0)
  have whole2 := aligned_iff.mpr (whole 1)
  have whole3 := aligned_iff.mpr (whole 2)
  obtain ⟨base1, _, some1, base2, _, some2, _, virtual1, _, virtual2, _⟩ := complete
  unfold Addrspace.complete
  rw [vbase1, vbase2, npages1, npages2]
  exact ⟨base1, loaded 0, some1, base2, loaded 1, some2, loaded 2, virtual1, whole1, virtual2, whole2,
    whole3⟩

theorem Twin.complete_iff (h : Twin as bs) : bs.complete ↔ as.complete :=
  ⟨complete_congr (fun i => (h.vbase i).symm) (fun i => (h.npages i).symm) h.loaded.1 h.whole.1,
    complete_congr h.vbase h.npages h.loaded.2 h.whole.2⟩

/-- After the moves the two read the same everywhere. -/
theorem Twin.load_eq (h : Twin as bs) {before after : Bytes} (moved : Moved as bs before after [2, 1, 0])
    (vaddr : Word) : bs.load after vaddr = as.load before vaddr := by
  have reads : FaultType.read ≠ .readonly := nofun
  have all : ∀ i : Fin 3, i ∈ [(2 : Fin 3), 1, 0] := by decide
  unfold Addrspace.load
  rw [paddr_eq reads fun i _ => (h.fits i).2, paddr_eq reads fun i _ => (h.fits i).1,
    regionOf_congr h.vbase h.npages]
  by_cases complete : as.complete
  · rw [if_pos complete, if_pos (h.complete_iff.mpr complete)]
    cases found : as.regionOf (vaddr &&& pageFrame) with
    | none => rfl
    | some i =>
      have inside : (as.region i).contains (vaddr &&& pageFrame) := by
        simpa using List.find?_some found
      have place := (Region.place_inRange inside (h.fits i).1 (complete.aligned i).1).2
      have byte := moved.there i (all i) _ place
      simp only [Option.map_some, Region.place, h.vbase i, byte]
  · rw [if_neg complete, if_neg (mt h.complete_iff.mp complete)]
    rfl

theorem store_load {memory : Bytes} {vaddr : Word} {p : Nat}
    (apart : ∀ q, bs.paddr .write vaddr = some q → p ≠ q) (byte : UInt8) :
    bs.store memory vaddr byte p = memory p := by
  unfold Addrspace.store
  cases mapped : bs.paddr .write vaddr with
  | none => rfl
  | some q => exact Function.update_of_ne (apart q mapped) ..

theorem storeAll_load {memory : Bytes} {vaddr : Word}
    (apart : ∀ p q w, as.paddr .read vaddr = some p → bs.paddr .write w = some q → p ≠ q)
    (writes : List (Word × UInt8)) : as.load (bs.storeAll memory writes) vaddr = as.load memory vaddr := by
  induction writes generalizing memory with
  | nil => rfl
  | cons write rest ih =>
    have one : as.load (bs.store memory write.1 write.2) vaddr = as.load memory vaddr := by
      unfold Addrspace.load
      cases mapped : as.paddr .read vaddr with
      | none => rfl
      | some p => exact congrArg some (store_load (fun q => apart p q write.1 mapped) write.2)
    exact ih.trans one

/-- A byte of one of them is not a byte of the other. -/
theorem Twin.apart_bytes (h : Twin as bs) {faulttype faulttype' : FaultType} {v w : Word} {p q : Nat}
    (reads : faulttype ≠ .readonly) (reads' : faulttype' ≠ .readonly)
    (mapped : as.paddr faulttype v = some p) (mapped' : bs.paddr faulttype' w = some q) : p ≠ q := by
  obtain ⟨i, _, inside⟩ := paddr_inRange reads (fun i _ => (h.fits i).1) mapped
  obtain ⟨j, _, inside'⟩ := paddr_inRange reads' (fun i _ => (h.fits i).2) mapped'
  rintro rfl
  exact h.apart j i p inside' inside

theorem Twin.storeAll (h : Twin as bs) (memory : Bytes) (writes : List (Word × UInt8)) (vaddr : Word) :
    as.load (bs.storeAll memory writes) vaddr = as.load memory vaddr ∧
      bs.load (as.storeAll memory writes) vaddr = bs.load memory vaddr := by
  have reads : FaultType.read ≠ .readonly := nofun
  have writes' : FaultType.write ≠ .readonly := nofun
  constructor
  · exact storeAll_load (fun p q w here there => h.apart_bytes reads writes' here there) writes
  · apply storeAll_load
    intro p q w here there
    exact (h.apart_bytes writes' reads there here).symm

/-- The memory after the three moves. -/
def copyRegions (memory : Bytes) (as bs : Addrspace) : Bytes :=
  [0, 1, 2].foldl (fun memory i =>
    copyPages memory (bs.region i).pbase (as.region i).pbase (as.region i).npages) memory

/-- What `as_copy` can come to. -/
inductive CopyEnd (s : Store A) (as : Addrspace) : Except Errno A → Store A → Prop where
  | noSpace : CopyEnd s as (.error .enomem) s
  | noMemory {new : A} {s₂ : Store A} {bs : Addrspace} {err : Errno} : s.spaces new = none →
      s.Prepares s₂ new (copied as) bs (some err) →
      CopyEnd s as (.error .enomem) (s₂.setSpace new none)
  | made {new : A} {s₂ : Store A} {bs : Addrspace} : s.spaces new = none →
      s.Prepares s₂ new (copied as) bs none →
      CopyEnd s as (.ok new) { s₂ with memory := copyRegions s₂.memory as bs }

theorem asCopy_meets (there : s.spaces old = some as) (answer : Option A) (answers : Answers) :
    (s.asCopy old answer answers).Meets fun (result, t) => CopyEnd s as result t := by
  cases answer with
  | none => exact CopyEnd.noSpace
  | some new =>
    unfold Store.asCopy Store.asCreate
    dsimp only
    rw [Outcome.meets_bind, Outcome.meets_bind, Outcome.meets_await]
    intro fresh
    rw [Outcome.meets_pure]
    dsimp only
    rw [Outcome.deref_bind there, Outcome.meets_bind]
    let s₁ := (s.setSpace new (some asCreate)).setSpace new (some (copied as))
    have bare : (copied as).bare := fun i => (copied_region as i).2.2
    have found : s₁.spaces new = some (copied as) := Function.update_self ..
    apply (Store.asPrepareLoad_meets found bare answers).mono
    intro (failed, s₂) ⟨bs, prepares⟩
    have twice : s₁.spaces = Function.update s.spaces new (some (copied as)) := Function.update_idem ..
    have spaces : s₂.spaces = Function.update s.spaces new (some bs) := by
      rw [prepares.spaces, twice, Function.update_idem]
    have direct : s.Prepares s₂ new (copied as) bs failed :=
      ⟨spaces, prepares.prepared, prepares.shape, prepares.loaded, prepares.kept, prepares.failed⟩
    have found : s₂.spaces new = some bs := by
      rw [spaces]
      exact Function.update_self ..
    dsimp only
    cases failed with
    | some err =>
      rw [if_pos (by nofun), Store.asDestroy, Outcome.deref_bind found]
      exact CopyEnd.noMemory fresh direct
    | none =>
      obtain ⟨pbase1, pbase2, pbase3⟩ := Addrspace.loaded_iff.mp (prepares.loaded rfl)
      rw [if_neg (fun no => no rfl), Outcome.deref_bind found, Outcome.kassert_bind pbase1,
        Outcome.kassert_bind pbase2, Outcome.kassert_bind pbase3]
      exact CopyEnd.made fresh direct

/-- The new memory of a copy is apart from everything that was handed out before. -/
theorem Store.Prepares.twin {bs : Addrspace} {new : A} (sound : s.Sound) (there : s.spaces old = some as)
    (loaded : as.loaded) (prepares : s.Prepares t new (copied as) bs none) : Twin as bs where
  npages i := (prepares.shape.npages i).trans (copied_region as i).2.1
  apart i j := prepares.prepared.new i (prepares.loaded rfl i) _
    (sound.ranges.given old as j there (loaded j)).stolen
  own i j differ := prepares.prepared.apart i j differ (prepares.loaded rfl i) (prepares.loaded rfl j)
  vbase i := (prepares.shape.vbase i).trans (copied_region as i).1
  loaded := ⟨loaded, prepares.loaded rfl⟩
  whole := ⟨sound.whole old as there, prepares.shape.whole⟩
  fits i := ⟨(sound.ranges.given old as i there (loaded i)).fits,
    (prepares.prepared.given i (prepares.loaded rfl i)).fits⟩

theorem Twin.moved (h : Twin as bs) (memory : Bytes) :
    Moved as bs memory (copyRegions memory as bs) [2, 1, 0] := by
  have first := (Moved.start as bs memory).next h.toSeparate (i := 0) (by simp) (h.fits 0).1 (h.loaded.1 0)
  have second := first.next h.toSeparate (i := 1) (by simp) (h.fits 1).1 (h.loaded.1 1)
  exact second.next h.toSeparate (i := 2) (by simp) (h.fits 2).1 (h.loaded.1 2)

/-- Bytes that are not in new memory are as they were, so what is mapped to them is. -/
theorem load_kept {before after : Bytes}
    (fits : ∀ i, (as.region i).pbase ≠ 0 → (as.region i).Fits)
    (kept : ∀ i p, (as.region i).pbase ≠ 0 → inRange (as.region i).range p → after p = before p)
    (vaddr : Word) : as.load after vaddr = as.load before vaddr := by
  unfold Addrspace.load
  cases mapped : as.paddr .read vaddr with
  | none => rfl
  | some p =>
    have reads : FaultType.read ≠ .readonly := nofun
    obtain ⟨i, given, inside⟩ := paddr_inRange reads fits mapped
    exact congrArg some (kept i p given inside)

theorem CopyEnd.copyOf (sound : s.Sound) (there : s.spaces old = some as) (loaded : as.loaded)
    {result : Except Errno A} (h : CopyEnd s as result t) : CopyOf s t old result := by
  have other : ∀ {new : A}, s.spaces new = none → old ≠ new := by
    intro new fresh same
    rw [same, fresh] at there
    cases there
  cases h with
  | noSpace => exact ⟨rfl, fun _ _ _ => rfl, nofun⟩
  | @noMemory new s₂ bs err fresh prepares =>
    constructor
    · have gone : (s₂.setSpace new none).spaces old = s₂.spaces old :=
        Function.update_of_ne (other fresh) ..
      rw [gone, prepares.spaces, Function.update_of_ne (other fresh)]
    · intro as' _ vaddr
      have same : s₂.memory = s.memory := prepares.failed nofun
      exact congrArg (fun memory => as'.load memory vaddr) same
    · exact nofun
  | @made new s₂ bs fresh prepares =>
    have twin := prepares.twin sound there loaded
    have moved := twin.moved s₂.memory
    have old' : s₂.spaces old = some as := by
      rw [prepares.spaces, Function.update_of_ne (other fresh), there]
    have found : s₂.spaces new = some bs := by
      rw [prepares.spaces]
      exact Function.update_self ..
    have outside : ∀ i p, inRange (as.region i).range p → s₂.memory p = s.memory p :=
      fun i p inside => prepares.kept p fun j _ taken => twin.apart j i p taken inside
    have bytes : ∀ vaddr, as.load s₂.memory vaddr = as.load s.memory vaddr :=
      load_kept (fun i _ => (twin.fits i).1) fun i p _ inside => outside i p inside
    constructor
    · exact old'.trans there.symm
    · intro as' there' vaddr
      obtain rfl := Option.some.inj (there.symm.trans there')
      apply load_kept (fun i _ => (twin.fits i).1)
      intro i p _ inside
      exact (moved.kept p fun j _ taken => twin.apart j i p taken inside).trans (outside i p inside)
    · intro new' made
      obtain rfl := Except.ok.inj made
      refine ⟨(other fresh).symm, as, bs, old', found, fun vaddr => ?_, twin.storeAll⟩
      exact (twin.load_eq moved vaddr).trans (bytes vaddr)

theorem CopyEnd.sound (sound : s.Sound) {result : Except Errno A} (h : CopyEnd s as result t) :
    t.Sound := by
  cases h with
  | noSpace => exact sound
  | noMemory _ prepares => exact (sound.prepares prepares).drop _
  | made _ prepares => exact (sound.prepares prepares).memory _

theorem CopyEnd.made_loaded {new : A} (h : CopyEnd s as (.ok new) t) :
    ∃ bs, t.spaces new = some bs ∧ bs.loaded := by
  cases h with
  | made _ prepares =>
    refine ⟨_, ?_, prepares.loaded rfl⟩
    dsimp only
    rw [prepares.spaces]
    exact Function.update_self ..

theorem asCopy_ensures (s : Store A) (old : A) (answer : Option A) (answers : Answers) :
    (s.asCopy old answer answers).Ensures fun (result, t) =>
      result = .error .enomem ∧ t = s ∨ ∃ as, s.spaces old = some as ∧ CopyEnd s as result t := by
  intro (result, t) goes
  cases answer with
  | none =>
    cases goes
    exact .inl ⟨rfl, rfl⟩
  | some new =>
    have found := goes
    simp only [Store.asCopy, Outcome.bind_done] at found
    obtain ⟨⟨created, s₁⟩, made, found⟩ := found
    simp only [Store.asCreate, Outcome.bind_done, Outcome.await_done, Outcome.pure_done] at made
    obtain ⟨_, _, made⟩ := made
    cases made
    simp only [Outcome.bind_done, Outcome.deref_done] at found
    obtain ⟨as, there, _⟩ := found
    exact .inr ⟨as, there, (asCopy_meets there (some new) answers).of_done goes⟩

end Copy

/-! ### Along a run -/

section Run

variable {s t : Store A} {a : A} {v : Executable} {answers : Answers}

theorem loadElf_sound (sound : s.Sound) (created : s.spaces a = some asCreate) (v : Executable)
    (answers : Answers) : (s.loadElf a v answers).Ensures fun (_, t) => t.Sound := by
  unfold Store.loadElf
  split
  · exact Outcome.ensures_pure.mpr sound
  · dsimp only
    split
    · exact Outcome.ensures_pure.mpr sound
    · rw [Outcome.deref_bind created]
      have defined : ∀ eh indices,
          (s.setSpace a (some (defineRegions v eh indices asCreate).2)).Sound :=
        fun eh indices => sound.setBare a (defineRegions_bare indices asCreate_bare)
      split
      · exact Outcome.ensures_pure.mpr (defined _ _)
      · rw [Outcome.ensures_bind]
        refine (Store.asPrepareLoad_ensures _ a answers).mono
          fun (failed, s₁) ⟨_, _, _, _, prepares⟩ => ?_
        have prepared := (defined _ _).prepares prepares
        dsimp only
        cases failed with
        | some err => exact Outcome.ensures_pure.mpr prepared
        | none =>
          dsimp only
          rw [Outcome.ensures_bind, Outcome.ensures_deref]
          intro as _
          rw [Outcome.ensures_bind]
          intro (result, memory) _
          dsimp only
          split
          · exact Outcome.ensures_pure.mpr (prepared.memory memory)
          · exact Outcome.ensures_pure.mpr (prepared.memory memory)

theorem asCreate_sound (sound : s.Sound) (answer : Option A) :
    (s.asCreate answer).Ensures fun (_, t) => t.Sound := by
  cases answer with
  | none => exact Outcome.ensures_pure.mpr sound
  | some a =>
    unfold Store.asCreate
    dsimp only
    rw [Outcome.ensures_bind, Outcome.ensures_await]
    exact fun _ => Outcome.ensures_pure.mpr (sound.setBare a asCreate_bare)

theorem step_sound (sound : s.Sound) (action : StoreAction A) : (s.step action).Ensures Store.Sound := by
  cases action with
  | create answer => exact (asCreate_sound sound answer).then fun _ kept => Outcome.ensures_pure.mpr kept
  | load a v answers =>
    unfold Store.step
    dsimp only
    rw [Outcome.ensures_bind, Outcome.ensures_await]
    intro created
    exact (loadElf_sound sound created v answers).then fun _ kept => Outcome.ensures_pure.mpr kept
  | copy old answer answers =>
    unfold Store.step
    dsimp only
    rw [Outcome.ensures_bind]
    refine (asCopy_ensures s old answer answers).mono fun (result, t) ends => ?_
    rw [Outcome.ensures_pure]
    rcases ends with ⟨_, rfl⟩ | ⟨as, _, ends⟩
    · exact sound
    · exact ends.sound sound
  | destroy a =>
    unfold Store.step Store.asDestroy
    dsimp only
    rw [Outcome.ensures_bind, Outcome.ensures_deref]
    exact fun _ _ => Outcome.ensures_pure.mpr (sound.drop a)
  | allocKpages npages answer =>
    unfold Store.step
    dsimp only
    rw [Outcome.ensures_bind]
    refine (getppages_spec s.stolen npages answer).mono fun (paddr, stolen) taken => ?_
    rw [Outcome.ensures_pure]
    rcases taken with ⟨_, rfl⟩ | ⟨_, rfl⟩
    · exact sound
    · exact ⟨sound.ranges.grow fun _ member => List.mem_cons_of_mem _ member, sound.whole⟩
  | write memory => exact Outcome.ensures_pure.mpr (sound.memory memory)

theorem reachable_sound (h : storeMachine.Reachable s) : s.Sound := by
  refine storeMachine.invariant_ensures ?_ (fun s action sound _ => step_sound sound action) h
  intro s ⟨empty, nothing⟩
  constructor
  · constructor
    · intro a as i found
      rw [empty] at found
      cases found
    · intro a b as bs i j found
      rw [empty] at found
      cases found
  · intro a as found
    rw [empty] at found
    cases found

/-- An address space that `load_elf` has built is part of a run, and it has its memory. -/
theorem Built.loaded_space (h : Built s a) :
    s.Sound ∧ ∃ as, s.spaces a = some as ∧ as.loaded := by
  induction h with
  | loaded reached created accepted =>
    have sound := loadElf_sound (reachable_sound reached) created _ _ _ accepted
    obtain ⟨_, as, _, there, _, loaded⟩ := loadElf_fills created accepted
    exact ⟨sound, as, there, loaded⟩
  | @copied s t old new answer answers _ goes ih =>
    obtain ⟨sound, as, there, loaded⟩ := ih
    have ends := (asCopy_meets there answer answers).of_done goes
    exact ⟨ends.sound sound, ends.made_loaded⟩
  | later action _ goes same ih =>
    obtain ⟨sound, as, there, loaded⟩ := ih
    exact ⟨step_sound sound action _ goes, as, same.trans there, loaded⟩

/-- `as_copy` makes an equal address space in memory of its own, or leaves everything as it is. -/
theorem asCopy_copies {old : A} (built : Built s old) (answer : Option A) (answers : Answers) :
    (s.asCopy old answer answers).Meets fun (result, t) => CopyOf s t old result := by
  obtain ⟨sound, as, there, loaded⟩ := built.loaded_space
  exact (asCopy_meets there answer answers).mono fun _ ends => ends.copyOf sound there loaded

def noSpaces : Store (Fin 2) := ⟨fun _ => none, fun _ => 0, []⟩

/-- A program is loaded and copied. -/
def loadAndCopy : Outcome (Except Int Word × Store (Fin 2) × Except Errno (Fin 2) × Store (Fin 2)) := do
  let (loaded, s) ← (noSpaces.setSpace 0 (some asCreate)).loadElf 0 program oneSpaceAnswers
  let (result, t) ← s.asCopy 0 (some 1) ⟨0x200000, 0x201000, 0x202000⟩
  return (loaded, s, result, t)

theorem asCopy_copies_program : ∃ s t : Store (Fin 2), Built s 0 ∧
    s.asCopy 0 (some 1) ⟨0x200000, 0x201000, 0x202000⟩ = .done (.ok 1, t) ∧ CopyOf s t 0 (.ok 1) := by
  have runs : (loadAndCopy.passes fun ends =>
      ends.1.isOk && ends.2.2.1.toOption == some 1) = true := by decide +kernel
  obtain ⟨ends, goes, fine⟩ := Outcome.passes_done runs
  simp only [loadAndCopy, Outcome.bind_done, Outcome.pure_done] at goes
  obtain ⟨⟨loaded, s⟩, loads, ⟨result, t⟩, copies, same⟩ := goes
  cases same
  obtain ⟨fine, copied⟩ := Bool.and_eq_true_iff.mp fine
  cases loaded with
  | error code => cases fine
  | ok entry =>
    cases result with
    | error err => cases copied
    | ok new =>
      obtain rfl := Option.some.inj (eq_of_beq copied)
      have start : storeMachine.Reachable noSpaces := .initial ⟨rfl, rfl⟩
      have created := start.step (.create (some 0)) trivial rfl
      have built : Built s 0 := .loaded created rfl loads
      exact ⟨s, t, built, copies, (asCopy_copies built _ _).of_done copies⟩

end Run

end Os161.Dumbvm
