import Mathlib.Data.List.Nodup
import Os161.Vm.Spaces

/-!
# Isolation of address spaces

Every range of frames that an address space has was handed out for one of its regions. Every address
space is named by one thread, and by one variable of it. The TLB of a processor holds translations
of the address space of the thread that runs there, from the time that the thread has activated it
to the time that it puts another one into `t_addrspace`.
-/

set_option linter.unusedSectionVars false

namespace Os161.Dumbvm

/-! ### Regions -/

structure Region where
  vbase : Word
  npages : Word
  pbase : Word

namespace Region

def contains (r : Region) (page : Word) : Prop :=
  r.vbase ≤ page ∧ page < r.vbase + r.npages * pageSize

instance (r : Region) (page : Word) : Decidable (r.contains page) :=
  inferInstanceAs (Decidable (_ ∧ _))

def frame (r : Region) (page : Word) : Word := page - r.vbase + r.pbase

def range (r : Region) : Word × Word := (r.pbase, r.npages)

/-- The memory of the region is there. -/
def Fits (r : Region) : Prop := r.pbase.toNat + r.npages.toNat * 4096 ≤ 2 ^ 32

/-- However the sums wrap, a page in the region has its frame in the range. -/
theorem frame_inRange {r : Region} {page : Word} (inside : r.contains page) (fits : r.Fits) :
    inRange r.range (r.frame page).toNat := by
  obtain ⟨low, high⟩ := inside
  unfold Fits at fits
  simp only [inRange, range, frame]
  simp only [BitVec.le_def, BitVec.lt_def, BitVec.toNat_add, BitVec.toNat_mul, pageSize] at low high
  rw [BitVec.toNat_add, BitVec.toNat_sub_of_le low]
  have size : (4096 : Word).toNat = 4096 := rfl
  rw [size] at high
  omega

end Region

def Addrspace.region (as : Addrspace) : Fin 3 → Region
  | 0 => ⟨as.asVbase1, as.asNpages1, as.asPbase1⟩
  | 1 => ⟨as.asVbase2, as.asNpages2, as.asPbase2⟩
  | 2 => ⟨stackbase, dumbvmStackpages, as.asStackpbase⟩

/-- The first region that has a page. -/
def Addrspace.regionOf (as : Addrspace) (page : Word) : Option (Fin 3) :=
  (List.finRange 3).find? fun i => (as.region i).contains page

/-- `vm_fault` picks the first region that has the page. -/
theorem paddrOf_eq (as : Addrspace) (page : Word) :
    paddrOf as page = (as.regionOf page).map fun i => (as.region i).frame page := by
  have top : stackbase + dumbvmStackpages * pageSize = userstack := by decide
  have list : List.finRange 3 = [0, 1, 2] := by decide
  unfold paddrOf Addrspace.regionOf
  rw [list]
  simp only [List.find?_cons, List.find?_nil, Addrspace.region, Region.contains, Region.frame, top]
  by_cases first : as.asVbase1 ≤ page ∧ page < as.asVbase1 + as.asNpages1 * pageSize
  · simp [first]
  · by_cases second : as.asVbase2 ≤ page ∧ page < as.asVbase2 + as.asNpages2 * pageSize
    · simp [first, second]
    · by_cases third : stackbase ≤ page ∧ page < userstack <;> simp [first, second, third]

/-- A frame that `vm_fault` gives for a page of a region. -/
def Addrspace.Reaches (as : Addrspace) (i : Fin 3) (frame : Word) : Prop :=
  ∃ faulttype vaddr page, vmFaultPage faulttype (some as) vaddr = .done (.ok (page, frame)) ∧
    as.regionOf page = some i

/-- The page is a user page, and this is its frame. -/
structure Addrspace.Serves (as : Addrspace) (page frame : Word) : Prop where
  user : page < userspacetop
  pageAligned : page &&& pageFrame = page
  frameAligned : frame &&& pageFrame = frame
  paddr : paddrOf as page = some frame

theorem vmFaultPage_serves {faulttype : FaultType} {o : Option Addrspace} {vaddr page frame : Word}
    (h : vmFaultPage faulttype o vaddr = .done (.ok (page, frame))) (user : vaddr < userspacetop) :
    ∃ as, o = some as ∧ as.Serves page frame := by
  unfold vmFaultPage at h
  split at h
  · cases h
  · split at h
    · simp [Outcome.pure_done] at h
    · rename_i as
      simp only [Outcome.bind_done, Outcome.kassert_done] at h
      obtain ⟨_, complete, h⟩ := h
      split at h
      · simp [Outcome.pure_done] at h
      · rename_i paddr found
        simp only [Outcome.bind_done, Outcome.kassert_done, Outcome.pure_done, Except.ok.injEq,
          Prod.mk.injEq] at h
        obtain ⟨_, aligned, rfl, rfl⟩ := h
        refine ⟨as, rfl, ?_, ?_, aligned, found⟩
        · have below : (vaddr &&& pageFrame).toNat ≤ vaddr.toNat := by
            rw [BitVec.toNat_and]
            exact Nat.and_le_left
          rw [BitVec.lt_def] at user ⊢
          omega
        · rw [BitVec.and_assoc, BitVec.and_self]

theorem Addrspace.Reaches.inRange {as : Addrspace} {i : Fin 3} {frame : Word} (h : as.Reaches i frame)
    (fits : (as.region i).Fits) : Dumbvm.inRange (as.region i).range frame.toNat := by
  obtain ⟨faulttype, vaddr, page, h, first⟩ := h
  have inside : (as.region i).contains page := by simpa using List.find?_some first
  have found : paddrOf as page = some ((as.region i).frame page) := by rw [paddrOf_eq, first]; rfl
  unfold vmFaultPage at h
  split at h
  · cases h
  · simp only [Outcome.bind_done, Outcome.kassert_done] at h
    obtain ⟨_, complete, h⟩ := h
    split at h
    · simp [Outcome.pure_done] at h
    · rename_i paddr found'
      simp only [Outcome.bind_done, Outcome.kassert_done, Outcome.pure_done, Except.ok.injEq,
        Prod.mk.injEq] at h
      obtain ⟨_, _, rfl, rfl⟩ := h
      obtain rfl := Option.some.inj (found'.symm.trans found)
      exact Region.frame_inRange inside fits

/-! ### Ranges -/

/-- Two ranges have no address in common. -/
def Apart (r r' : Word × Word) : Prop := ∀ x, inRange r x → ¬ inRange r' x

theorem Apart.symm {r r' : Word × Word} (h : Apart r r') : Apart r' r :=
  fun x inside inside' => h x inside' inside

theorem getppages_spec (stolen : Stolen) (npages answer : Word) :
    (getppages stolen npages answer).Ensures fun (paddr, after) =>
      (paddr = 0 ∧ after = stolen) ∨
        (Fresh stolen (paddr, npages) ∧ after = (paddr, npages) :: stolen) := by
  unfold getppages
  split
  · exact Outcome.ensures_pure.mpr (.inl ⟨rfl, rfl⟩)
  · rw [Outcome.ensures_bind, Outcome.ensures_await]
    exact fun fresh => Outcome.ensures_pure.mpr (.inr ⟨fresh, rfl⟩)

/-- The region has its own range, if it has any. -/
structure Given (stolen : Stolen) (r : Region) : Prop where
  stolen : r.range ∈ stolen
  fits : r.Fits

/-- The regions of `as` that have memory have new ranges of their own. -/
structure Prepared (before after : Stolen) (as : Addrspace) : Prop where
  grows : ∀ r ∈ before, r ∈ after
  given : ∀ i, (as.region i).pbase ≠ 0 → Given after (as.region i)
  new : ∀ i, (as.region i).pbase ≠ 0 → ∀ r ∈ before, Apart (as.region i).range r
  apart : ∀ i j, i ≠ j → (as.region i).pbase ≠ 0 → (as.region j).pbase ≠ 0 →
    Apart (as.region i).range (as.region j).range

/-- No region has memory. -/
def Addrspace.bare (as : Addrspace) : Prop := ∀ i, (as.region i).pbase = 0

theorem Addrspace.bare.prepared {as : Addrspace} (h : as.bare) (stolen : Stolen) :
    Prepared stolen stolen as where
  grows _ member := member
  given i some' := absurd (h i) some'
  new i some' := absurd (h i) some'
  apart i _ _ some' := absurd (h i) some'

/-- One more region gets memory. -/
theorem Prepared.take {before after : Stolen} {as as' : Addrspace} (h : Prepared before after as)
    {i : Fin 3} (bare : (as.region i).pbase = 0)
    (others : ∀ j, j ≠ i → as'.region j = as.region j) (fresh : Fresh after (as'.region i).range) :
    Prepared before ((as'.region i).range :: after) as' where
  grows r member := List.mem_cons_of_mem _ (h.grows r member)
  given j some' := by
    by_cases same : j = i
    · subst same
      exact ⟨List.mem_cons_self, fresh.1⟩
    · rw [others j same] at some' ⊢
      exact ⟨List.mem_cons_of_mem _ (h.given j some').stolen, (h.given j some').fits⟩
  new j some' r member := by
    by_cases same : j = i
    · subst same
      exact fresh.2 r (h.grows r member)
    · rw [others j same] at some' ⊢
      exact h.new j some' r member
  apart j k differ someJ someK := by
    by_cases first : j = i
    · subst first
      rw [others k (Ne.symm differ)] at someK ⊢
      exact fresh.2 _ (h.given k someK).stolen
    · rw [others j first] at someJ ⊢
      by_cases second : k = i
      · subst second
        exact Apart.symm (fresh.2 _ (h.given j someJ).stolen)
      · rw [others k second] at someK ⊢
        exact h.apart j k differ someJ someK

def Addrspace.setPbase (as : Addrspace) (i : Fin 3) (paddr : Word) : Addrspace :=
  match i with
  | 0 => { as with asPbase1 := paddr }
  | 1 => { as with asPbase2 := paddr }
  | 2 => { as with asStackpbase := paddr }

theorem region_setPbase {as : Addrspace} {i j : Fin 3} {paddr : Word} :
    (as.setPbase i paddr).region j =
      if j = i then { as.region i with pbase := paddr } else as.region j := by
  match i, j with
  | 0, 0 | 0, 1 | 0, 2 | 1, 0 | 1, 1 | 1, 2 | 2, 0 | 2, 1 | 2, 2 => rfl

theorem getppages_prepared {before after : Stolen} {as : Addrspace} (h : Prepared before after as)
    (i : Fin 3) (bare : (as.region i).pbase = 0) (answer : Word) :
    (getppages after (as.region i).npages answer).Ensures fun (paddr, after') =>
      Prepared before after' (as.setPbase i paddr) := by
  refine (getppages_spec after _ answer).mono fun (paddr, after') taken => ?_
  have here : (as.setPbase i paddr).region i = { as.region i with pbase := paddr } := by
    rw [region_setPbase, if_pos rfl]
  rcases taken with ⟨rfl, rfl⟩ | ⟨fresh, rfl⟩
  · have same : ∀ j, (as.setPbase i 0).region j = as.region j := by
      intro j
      rw [region_setPbase]
      split
      · rename_i eq
        rw [eq, ← bare]
      · rfl
    refine ⟨h.grows, ?_, ?_, ?_⟩
    · intro j
      rw [same]
      exact h.given j
    · intro j
      rw [same]
      exact h.new j
    · intro j k
      rw [same, same]
      exact h.apart j k
  · have range : (paddr, (as.region i).npages) = ((as.setPbase i paddr).region i).range := by
      rw [here]
      rfl
    rw [range] at fresh ⊢
    exact h.take bare (fun j differ => by rw [region_setPbase, if_neg differ]) fresh

theorem asPrepareLoad_spec (as : Addrspace) (stolen : Stolen) (answers : Answers) :
    (asPrepareLoad as stolen answers).Ensures fun (_, as', after) => Prepared stolen after as' := by
  unfold asPrepareLoad
  rw [Outcome.ensures_bind, Outcome.ensures_kassert]
  intro first
  rw [Outcome.ensures_bind, Outcome.ensures_kassert]
  intro second
  rw [Outcome.ensures_bind, Outcome.ensures_kassert]
  intro stack
  have bare : as.bare := by
    intro i
    match i with
    | 0 => exact first
    | 1 => exact second
    | 2 => exact stack
  refine (getppages_prepared (bare.prepared stolen) 0 first answers.first).then
    fun (pbase1, after) prepared => ?_
  dsimp only
  split
  · exact Outcome.ensures_pure.mpr prepared
  refine (getppages_prepared prepared 1 second answers.second).then fun (pbase2, after) prepared => ?_
  dsimp only
  split
  · exact Outcome.ensures_pure.mpr prepared
  refine (getppages_prepared prepared 2 stack answers.stack).then fun (pbase, after) prepared => ?_
  dsimp only
  split
  · exact Outcome.ensures_pure.mpr prepared
  · exact Outcome.ensures_pure.mpr prepared

theorem asDefineRegion_bare {as : Addrspace} (h : as.bare) (vaddr sz : Word) :
    (asDefineRegion as vaddr sz).2.bare := by
  intro i
  have before := h i
  unfold asDefineRegion
  dsimp only
  split
  · match i with
    | 0 | 1 | 2 => exact before
  · split
    · match i with
      | 0 | 1 | 2 => exact before
    · exact before

theorem asCreate_bare : asCreate.bare := by
  intro i
  match i with
  | 0 | 1 | 2 => rfl

/-- Every region of an address space has a range of its own among those handed out. -/
structure Ranges {A : Type} (spaces : A → Option Addrspace) (stolen : Stolen) : Prop where
  given : ∀ a as i, spaces a = some as → (as.region i).pbase ≠ 0 → Given stolen (as.region i)
  apart : ∀ a b as bs i j, spaces a = some as → spaces b = some bs → (as.region i).pbase ≠ 0 →
    (bs.region j).pbase ≠ 0 → a ≠ b ∨ i ≠ j → Apart (as.region i).range (bs.region j).range

section Ranges

variable {A : Type} [DecidableEq A] {spaces : A → Option Addrspace} {stolen after : Stolen} {a : A}
variable {as : Addrspace}

theorem Ranges.drop (h : Ranges spaces stolen) (a : A) :
    Ranges (Function.update spaces a none) stolen := by
  have before : ∀ b bs, Function.update spaces a none b = some bs → spaces b = some bs := by
    intro b bs there
    by_cases here : b = a
    · subst here
      rw [Function.update_self] at there
      cases there
    · rwa [Function.update_of_ne here] at there
  exact ⟨fun b bs i there => h.given b bs i (before b bs there),
    fun b c bs cs i j there there' =>
      h.apart b c bs cs i j (before b bs there) (before c cs there')⟩

/-- An address space gets new memory, or none. -/
theorem Ranges.prepare (h : Ranges spaces stolen) (a : A) (prepared : Prepared stolen after as) :
    Ranges (Function.update spaces a (some as)) after := by
  have cases' : ∀ b bs, Function.update spaces a (some as) b = some bs →
      b = a ∧ bs = as ∨ b ≠ a ∧ spaces b = some bs := by
    intro b bs there
    by_cases here : b = a
    · subst here
      rw [Function.update_self] at there
      exact .inl ⟨rfl, (Option.some.inj there).symm⟩
    · rw [Function.update_of_ne here] at there
      exact .inr ⟨here, there⟩
  refine ⟨fun b bs i there some' => ?_, fun b c bs cs i j there there' some' some'' differ => ?_⟩
  · rcases cases' b bs there with ⟨rfl, rfl⟩ | ⟨_, before⟩
    · exact prepared.given i some'
    · have given := h.given b bs i before some'
      exact ⟨prepared.grows _ given.stolen, given.fits⟩
  · rcases cases' b bs there with ⟨rfl, rfl⟩ | ⟨other, before⟩ <;>
      rcases cases' c cs there' with ⟨rfl, rfl⟩ | ⟨other', before'⟩
    · exact prepared.apart i j (differ.resolve_left fun no => no rfl) some' some''
    · exact prepared.new i some' _ (h.given c cs j before' some'').stolen
    · exact Apart.symm (prepared.new j some'' _ (h.given b bs i before some').stolen)
    · exact h.apart b c bs cs i j before before' some' some'' differ

theorem Ranges.bare (h : Ranges spaces stolen) (a : A) (bare : as.bare) :
    Ranges (Function.update spaces a (some as)) stolen :=
  h.prepare a (bare.prepared stolen)

theorem Ranges.grow (h : Ranges spaces stolen) (grows : ∀ r ∈ stolen, r ∈ after) :
    Ranges spaces after :=
  ⟨fun a as i there some' => ⟨grows _ (h.given a as i there some').stolen,
    (h.given a as i there some').fits⟩, h.apart⟩

end Ranges

/-! ### The TLB -/

@[simp] theorem asActivate_valid (k : Fin 64) : (asActivate k).valid = false := by
  simp [asActivate, TlbEntry.valid]

/-- The word that `vm_fault` writes. -/
theorem entry_frame {page paddr : Word} (aligned : paddr &&& pageFrame = paddr) :
    (TlbEntry.mk page (paddr ||| tlbloDirty ||| tlbloValid)).frame = paddr := by
  show (paddr ||| tlbloDirty ||| tlbloValid) &&& pageFrame = paddr
  have dirty : tlbloDirty &&& pageFrame = 0 := by decide
  have valid : tlbloValid &&& pageFrame = 0 := by decide
  rw [BitVec.and_or_distrib_right, BitVec.and_or_distrib_right, dirty, valid, aligned]
  simp

theorem vmFaultTlb_entry (tlb : Tlb) (page paddr : Word) (k : Fin 64) :
    (vmFaultTlb tlb page paddr).2 k = tlb k ∨
      (vmFaultTlb tlb page paddr).2 k = ⟨page, paddr ||| tlbloDirty ||| tlbloValid⟩ := by
  unfold vmFaultTlb
  split
  · rename_i i _
    by_cases here : k = i
    · subst here
      exact .inr (Function.update_self ..)
    · exact .inl (Function.update_of_ne here ..)
  · exact .inl rfl

/-! ### What holds of a thread -/

/-- The address spaces that the local variables of a path name. -/
def Phase.owned {A : Type} : Phase A → List A
  | .load asOld _ => asOld.toList
  | .execCreated a | .execActivated a | .restoring a | .restored a | .loaded a => [a]
  | .forking a | .newborn a | .exiting a | .leaving a => [a]
  | _ => []

/-- `t_addrspace` is set. -/
def Phase.placed {A : Type} : Phase A → Bool
  | .kernel | .newborn _ | .exiting _ | .leaving _ | .gone => false
  | _ => true

/-- The TLB holds nothing for the thread yet. -/
def Phase.clean {A : Type} : Phase A → Bool
  | .load _ .defining | .load _ .failed | .execActivated _ => true
  | _ => false

/-- The TLB serves the thread. -/
def Phase.served {A : Type} : Phase A → Bool
  | .user | .load _ .prepared | .execCreated _ | .restored _ | .loaded _ | .forking _ => true
  | _ => false

namespace Thread

variable {A : Type}

def owned (th : Thread A) : List A := th.tAddrspace.toList ++ th.phase.owned

/-- The address space that is being set up. -/
def raw (th : Thread A) : List A :=
  match th.phase with
  | .created | .load _ .defining => th.tAddrspace.toList
  | .execCreated a | .execActivated a => [a]
  | _ => []

/-- The own address space of the thread has the page there. -/
def Served (spaces : A → Option Addrspace) (th : Thread A) (page frame : Word) : Prop :=
  ∃ a as, th.tAddrspace = some a ∧ spaces a = some as ∧ as.Serves page frame

structure Fine (spaces : A → Option Addrspace) (th : Thread A) : Prop where
  once : th.owned.Nodup
  there : ∀ a ∈ th.owned, spaces a ≠ none
  placed : th.phase.placed = true → th.tAddrspace ≠ none
  raw : ∀ a ∈ th.raw, ∀ as, spaces a = some as → as.bare
  fault : ∀ page frame, th.fault = some (page, frame) →
    th.phase.touches = true ∧ Served spaces th page frame

/-- The TLB of the processor on which the thread runs. -/
structure Synced (spaces : A → Option Addrspace) (tlb : Tlb) (th : Thread A) : Prop where
  clean : th.phase.clean = true → ∀ k, (tlb k).valid = false
  served : th.phase.served = true → ∀ k, (tlb k).valid = true →
    Served spaces th (tlb k).page (tlb k).frame

variable {spaces spaces' : A → Option Addrspace} {th : Thread A} {tlb : Tlb} {page frame : Word}

theorem raw_owned {a : A} (h : a ∈ th.raw) : a ∈ th.owned := by
  unfold raw at h
  unfold owned
  split at h
  · exact List.mem_append_left _ h
  · exact List.mem_append_left _ h
  · rename_i phase
    rw [phase]
    exact List.mem_append_right _ h
  · rename_i phase
    rw [phase]
    exact List.mem_append_right _ h
  · cases h

theorem Served.congr (h : Served spaces th page frame)
    (same : ∀ a ∈ th.owned, spaces' a = spaces a) : Served spaces' th page frame := by
  obtain ⟨a, as, mine, there, serves⟩ := h
  have owned : a ∈ th.owned := List.mem_append_left _ (by simp [mine])
  exact ⟨a, as, mine, (same a owned).trans there, serves⟩

theorem Fine.congr (h : Fine spaces th) (same : ∀ a ∈ th.owned, spaces' a = spaces a) :
    Fine spaces' th where
  once := h.once
  there a owned := by
    rw [same a owned]
    exact h.there a owned
  placed := h.placed
  raw a member as there := h.raw a member as ((same a (raw_owned member)).symm.trans there)
  fault page frame found :=
    ⟨(h.fault page frame found).1, (h.fault page frame found).2.congr same⟩

theorem Synced.congr (h : Synced spaces tlb th) (same : ∀ a ∈ th.owned, spaces' a = spaces a) :
    Synced spaces' tlb th :=
  ⟨h.clean, fun served k valid => (h.served served k valid).congr same⟩

/-- After a flush the TLB is right for every thread. -/
theorem Synced.flushed (spaces : A → Option Addrspace) (th : Thread A) :
    Synced spaces asActivate th :=
  ⟨fun _ k => asActivate_valid k, fun _ k valid => by rw [asActivate_valid] at valid; cases valid⟩

/-- The thread goes on with its address space. -/
theorem Synced.onward {th' : Thread A} (h : Synced spaces tlb th)
    (same : th'.tAddrspace = th.tAddrspace)
    (clean : th'.phase.clean = true → th.phase.clean = true)
    (served : th'.phase.served = true → th.phase.served = true ∨ th.phase.clean = true) :
    Synced spaces tlb th' := by
  refine ⟨fun is => h.clean (clean is), fun is k valid => ?_⟩
  rcases served is with before | before
  · obtain ⟨a, as, mine, found, serves⟩ := h.served before k valid
    exact ⟨a, as, same.trans mine, found, serves⟩
  · rw [h.clean before k] at valid
    cases valid

/-- The TLB does not matter in this phase. -/
theorem Synced.idle (clean : th.phase.clean = false) (served : th.phase.served = false) :
    Synced spaces tlb th := by
  refine ⟨fun is => ?_, fun is => ?_⟩
  · rw [clean] at is
    cases is
  · rw [served] at is
    cases is

end Thread

/-! ### The invariant -/

variable {n : Nat} {T A : Type} [DecidableEq T] [DecidableEq A] {s t : State n T A}
variable {c : Fin n} {x : T} {th th' : Thread A} {a : A}

structure Inv (s : State n T A) : Prop where
  fine : ∀ x th, s.threads x = some th → th.Fine s.spaces
  apart : ∀ x y th th', x ≠ y → s.threads x = some th → s.threads y = some th' →
    th.owned.Disjoint th'.owned
  once : ∀ c d x, s.running c = some x → s.running d = some x → c = d
  synced : ∀ c x th, s.running c = some x → s.threads x = some th → th.Synced s.spaces (s.tlb c)
  ranges : Ranges s.spaces s.stolen

/-- A step of one thread on its processor: it owns what it did or what is new, and the address
spaces of the other threads are as they were. -/
theorem Inv.advance (h : Inv s) (runs : s.running c = some x) (there : s.threads x = some th)
    (threads : t.threads = Function.update s.threads x (some th'))
    (running : t.running = s.running) (tlb : ∀ d, d ≠ c → t.tlb d = s.tlb d)
    (owned : ∀ a ∈ th'.owned, a ∈ th.owned ∨ s.spaces a = none)
    (spaces : ∀ a, a ∉ th.owned → s.spaces a ≠ none → t.spaces a = s.spaces a)
    (fine : th'.Fine t.spaces) (synced : th'.Synced t.spaces (t.tlb c))
    (ranges : Ranges t.spaces t.stolen) : Inv t := by
  have other : ∀ y thy, y ≠ x → t.threads y = some thy → s.threads y = some thy := by
    intro y thy differ is
    rwa [threads, Function.update_of_ne differ] at is
  have self : ∀ thy, t.threads x = some thy → thy = th' := by
    intro thy is
    rw [threads, Function.update_self] at is
    exact (Option.some.inj is).symm
  have same : ∀ y thy, y ≠ x → s.threads y = some thy → ∀ a ∈ thy.owned, t.spaces a = s.spaces a := by
    intro y thy differ is a mine
    exact spaces a (fun also => h.apart y x thy th differ is there mine also)
      ((h.fine y thy is).there a mine)
  have fresh : ∀ y thy, y ≠ x → s.threads y = some thy → th'.owned.Disjoint thy.owned := by
    intro y thy differ is a mine theirs
    rcases owned a mine with before | new
    · exact h.apart x y th thy (Ne.symm differ) there is before theirs
    · exact (h.fine y thy is).there a theirs new
  refine ⟨fun y thy is => ?_, fun y z thy thz differ is is' => ?_, fun d e y => ?_,
    fun d y thy runs' is => ?_, ranges⟩
  · by_cases here : y = x
    · subst here
      exact self thy is ▸ fine
    · have before := other y thy here is
      exact (h.fine y thy before).congr (same y thy here before)
  · by_cases first : y = x
    · subst first
      rw [self thy is]
      exact fresh z thz (Ne.symm differ) (other z thz (Ne.symm differ) is')
    · by_cases second : z = x
      · subst second
        rw [self thz is']
        exact fun a mine theirs => fresh y thy first (other y thy first is) theirs mine
      · exact h.apart y z thy thz differ (other y thy first is) (other z thz second is')
  · rw [running]
    exact h.once d e y
  · rw [running] at runs'
    by_cases here : y = x
    · subst here
      obtain rfl := h.once c d y runs runs'
      exact self thy is ▸ synced
    · have before := other y thy here is
      have elsewhere : d ≠ c := by
        rintro rfl
        exact here (Option.some.inj (runs'.symm.trans runs))
      rw [tlb d elsewhere]
      exact (h.synced d y thy runs' before).congr (same y thy here before)

/-! ### Steps -/

theorem current_ensures (s : State n T A) (c : Fin n) :
    (s.current c).Ensures fun (x, th) =>
      s.running c = some x ∧ s.threads x = some th ∧ th.fault = none := by
  unfold State.current
  split
  · exact Outcome.ensures_blocked
  · rename_i x runs
    split
    · exact Outcome.ensures_blocked
    · rename_i th there
      split
      · rename_i clear
        exact Outcome.ensures_done.mpr ⟨runs, there, clear⟩
      · exact Outcome.ensures_blocked

theorem here_ensures {P : State n T A → Prop} {k : T → Thread A → Outcome (State n T A)}
    (each : ∀ x th, s.running c = some x → s.threads x = some th → th.fault = none →
      (k x th).Ensures P) : (s.here c k).Ensures P := by
  unfold State.here
  refine (current_ensures s c).then fun (x, th) ⟨runs, there, clear⟩ => ?_
  exact each x th runs there clear

/-- A step of one thread that leaves the address spaces as they are. -/
theorem Inv.along (h : Inv s) (runs : s.running c = some x) (there : s.threads x = some th)
    (threads : t.threads = Function.update s.threads x (some th'))
    (running : t.running = s.running) (tlb : ∀ d, d ≠ c → t.tlb d = s.tlb d)
    (spaces : t.spaces = s.spaces) (stolen : t.stolen = s.stolen)
    (once : th.owned.Nodup → th'.owned.Nodup) (owned : ∀ a ∈ th'.owned, a ∈ th.owned)
    (placed : th'.phase.placed = true → th'.tAddrspace ≠ none)
    (raw : ∀ a ∈ th'.raw, a ∈ th.raw) (fault : th'.fault = none)
    (synced : th.Synced s.spaces (s.tlb c) → th'.Synced s.spaces (t.tlb c)) : Inv t := by
  have before := h.fine x th there
  have fine : th'.Fine s.spaces := by
    refine ⟨once before.once, fun a mine => before.there a (owned a mine), placed,
      fun a mine => before.raw a (raw a mine), fun page frame found => ?_⟩
    rw [fault] at found
    cases found
  apply h.advance runs there threads running tlb
  · exact fun a mine => .inl (owned a mine)
  · exact fun a _ _ => by rw [spaces]
  · exact spaces ▸ fine
  · exact spaces ▸ synced (h.synced c x th runs there)
  · rw [spaces, stolen]
    exact h.ranges

theorem Inv.activate (h : Inv s) (c : Fin n) : (s.activate c).Ensures Inv := by
  apply here_ensures
  intro x th runs there clear
  have owned : Thread.owned { th with phase := th.phase.activated } = th.owned := by
    unfold Thread.owned
    cases th.phase <;> rfl
  have raw : Thread.raw { th with phase := th.phase.activated } = th.raw := by
    unfold Thread.raw
    cases th.phase <;> rfl
  have placed : th.phase.activated.placed = th.phase.placed := by cases th.phase <;> rfl
  refine Outcome.ensures_pure.mpr (h.along runs there rfl rfl ?_ rfl rfl ?_ ?_ ?_ ?_ clear ?_)
  · exact fun d other => Function.update_of_ne other ..
  · rw [owned]
    exact id
  · rw [owned]
    exact fun _ => id
  · intro is
    exact (h.fine x th there).placed (placed ▸ is)
  · rw [raw]
    exact fun _ => id
  · intro _
    have tlb : (State.goOn (s.setTlb c asActivate) x th th.phase.activated).tlb c = asActivate :=
      Function.update_self ..
    rw [tlb]
    exact Thread.Synced.flushed _ _

theorem Inv.fail (h : Inv s) (c : Fin n) : (s.fail c).Ensures Inv := by
  apply here_ensures
  rintro x ⟨tAddrspace, phase, fault⟩ runs there clear
  dsimp only
  split
  · rename_i asOld stage asNew
    refine Outcome.ensures_pure.mpr
      (h.along runs there rfl rfl (fun _ _ => rfl) rfl rfl ?_ ?_ ?_ ?_ clear ?_)
    · exact fun once => List.nodup_reverse.mpr once
    · exact fun a mine => List.mem_reverse.mpr mine
    · exact fun _ none => nomatch none
    · exact fun a mine => nomatch mine
    · exact fun _ => Thread.Synced.idle rfl rfl
  · exact Outcome.ensures_blocked

theorem Inv.finish (h : Inv s) (c : Fin n) : (s.finish c).Ensures Inv := by
  apply here_ensures
  rintro x ⟨tAddrspace, phase, fault⟩ runs there clear
  have placed := (h.fine x _ there).placed
  dsimp only
  split
  · refine Outcome.ensures_pure.mpr
      (h.along runs there rfl rfl (fun _ _ => rfl) rfl rfl id (fun _ => id) placed ?_ clear ?_)
    · exact fun a mine => nomatch mine
    · exact fun synced => synced.onward rfl (fun is => nomatch is) fun _ => .inl rfl
  · refine Outcome.ensures_pure.mpr
      (h.along runs there rfl rfl (fun _ _ => rfl) rfl rfl id (fun _ => id) placed ?_ clear ?_)
    · exact fun a mine => nomatch mine
    · exact fun synced => synced.onward rfl (fun is => nomatch is) fun _ => .inl rfl
  · exact Outcome.ensures_blocked

theorem Inv.execAssign (h : Inv s) (c : Fin n) : (s.execAssign c).Ensures Inv := by
  apply here_ensures
  rintro x ⟨tAddrspace, phase, fault⟩ runs there clear
  dsimp only
  split
  · rename_i asNew asOld
    refine Outcome.ensures_pure.mpr
      (h.along runs there rfl rfl (fun _ _ => rfl) rfl rfl ?_ ?_ ?_ (fun _ => id) clear ?_)
    · exact fun once => List.nodup_reverse.mpr once
    · exact fun a mine => List.mem_reverse.mpr mine
    · exact fun _ none => nomatch none
    · exact fun synced => ⟨fun _ => synced.clean rfl, fun served => nomatch served⟩
  · exact Outcome.ensures_blocked

theorem Inv.adopt (h : Inv s) (c : Fin n) : (s.adopt c).Ensures Inv := by
  apply here_ensures
  rintro x ⟨tAddrspace, phase, fault⟩ runs there clear
  dsimp only
  split
  · rw [Outcome.ensures_bind, Outcome.ensures_kassert]
    rintro rfl
    refine Outcome.ensures_pure.mpr
      (h.along runs there rfl rfl (fun _ _ => rfl) rfl rfl id (fun _ => id) ?_ ?_ clear ?_)
    · exact fun _ none => nomatch none
    · exact fun a mine => nomatch mine
    · exact fun _ => Thread.Synced.idle rfl rfl
  · exact Outcome.ensures_blocked

theorem Inv.exit (h : Inv s) (c : Fin n) : (s.exit c).Ensures Inv := by
  apply here_ensures
  intro x th runs there clear
  have leaves : ∀ a, th.phase.owned = [] → th.tAddrspace = some a →
      Inv (s.setThread x { th with tAddrspace := none, phase := .exiting a }) := by
    intro a none mine
    have owned : th.owned = [a] := by
      rw [Thread.owned, none, mine]
      rfl
    refine h.along runs there rfl rfl (fun _ _ => rfl) rfl rfl ?_ ?_ ?_ ?_ clear ?_
    · exact fun _ => List.nodup_singleton a
    · exact fun b owns => owned ▸ owns
    · rintro ⟨⟩
    · rintro b ⟨⟩
    · exact fun _ => Thread.Synced.idle rfl rfl
  have ends : th.tAddrspace = none → Inv (s.goOn x th .gone) := by
    intro mine
    have nothing : Thread.owned { th with phase := .gone } = [] := by
      rw [Thread.owned, mine]
      rfl
    refine h.along runs there rfl rfl (fun _ _ => rfl) rfl rfl ?_ ?_ ?_ ?_ clear ?_
    · rw [nothing]
      exact fun _ => List.nodup_nil
    · rw [nothing]
      rintro b ⟨⟩
    · rintro ⟨⟩
    · rintro b ⟨⟩
    · exact fun _ => Thread.Synced.idle rfl rfl
  have goes : ∀ a, th.phase.owned = [] → th.tAddrspace = some a →
      Outcome.Ensures (pure (s.setThread x { th with tAddrspace := none, phase := .exiting a })) Inv :=
    fun a none mine => Outcome.ensures_pure.mpr (leaves a none mine)
  split
  · rename_i phase
    split
    · exact goes _ (by rw [phase]; rfl) ‹_›
    · exact Outcome.ensures_pure.mpr (ends ‹_›)
  · rename_i phase
    split
    · exact goes _ (by rw [phase]; rfl) ‹_›
    · exact Outcome.ensures_pure.mpr (ends ‹_›)
  · rename_i phase
    split
    · exact goes _ (by rw [phase]; rfl) ‹_›
    · exact Outcome.ensures_pure.mpr (ends ‹_›)
  · exact Outcome.ensures_blocked

/-! ### Steps that make, fill and destroy address spaces -/

/-- A new address space, which one variable of the thread names. -/
theorem Inv.create (h : Inv s) (runs : s.running c = some x) (there : s.threads x = some th)
    {as : Addrspace} {after : Stolen} (fresh : s.spaces a = none)
    (owned : ∀ b ∈ th'.owned, b = a ∨ b ∈ th.owned)
    (once : a ∉ th.owned → th.owned.Nodup → th'.owned.Nodup)
    (placed : th'.phase.placed = true → th'.tAddrspace ≠ none)
    (raw : ∀ b ∈ th'.raw, b = a ∧ as.bare) (fault : th'.fault = none)
    (synced : th.Synced (Function.update s.spaces a (some as)) (s.tlb c) →
      th'.Synced (Function.update s.spaces a (some as)) (s.tlb c))
    (prepared : Prepared s.stolen after as) :
    Inv ({ s.setSpace a (some as) with stolen := after }.setThread x th') := by
  have before := h.fine x th there
  have new : a ∉ th.owned := fun mine => before.there a mine fresh
  have same : ∀ b, b ≠ a → Function.update s.spaces a (some as) b = s.spaces b :=
    fun b other => Function.update_of_ne other ..
  have made : Function.update s.spaces a (some as) a = some as := Function.update_self ..
  refine h.advance runs there rfl rfl (fun _ _ => rfl) ?_ ?_ ?_ ?_ ?_
  · intro b mine
    rcases owned b mine with rfl | old
    · exact .inr fresh
    · exact .inl old
  · exact fun b _ is => same b (fun eq => is (eq ▸ fresh))
  · refine ⟨once new before.once, fun b mine => ?_, placed, fun b mine bs is => ?_,
      fun page frame found => ?_⟩
    · by_cases eq : b = a
      · subst eq
        exact fun none => nomatch made.symm.trans none
      · have old := (owned b mine).resolve_left eq
        exact fun none => before.there b old ((same b eq).symm.trans none)
    · obtain ⟨rfl, bare⟩ := raw b mine
      obtain rfl := Option.some.inj (made.symm.trans is)
      exact bare
    · exact nomatch fault.symm.trans found
  · exact synced ((h.synced c x th runs there).congr fun b mine => same b (fun eq => new (eq ▸ mine)))
  · exact h.ranges.prepare a prepared

theorem asCreate_ensures (s : State n T A) (a : A) :
    (s.asCreate a).Ensures fun t =>
      s.spaces a = none ∧ t = s.setSpace a (some Dumbvm.asCreate) := by
  unfold State.asCreate
  rw [Outcome.ensures_bind, Outcome.ensures_await]
  exact fun fresh => Outcome.ensures_pure.mpr ⟨fresh, rfl⟩

theorem Inv.runprogram (h : Inv s) (c : Fin n) (o : Option A) : (s.runprogram c o).Ensures Inv := by
  apply here_ensures
  rintro x ⟨tAddrspace, phase, fault⟩ runs there clear
  dsimp only
  split
  · rw [Outcome.ensures_bind, Outcome.ensures_kassert]
    rintro rfl
    split
    · exact Outcome.ensures_pure.mpr h
    · rename_i a
      refine (asCreate_ensures s a).then fun t ⟨fresh, made⟩ => ?_
      subst made
      refine Outcome.ensures_pure.mpr (h.create runs there fresh ?_ ?_ ?_ ?_ clear ?_
        (asCreate_bare.prepared s.stolen))
      · exact fun b mine => .inl (List.mem_singleton.mp mine)
      · exact fun _ _ => List.nodup_singleton a
      · exact fun _ none => nomatch none
      · exact fun b mine => ⟨List.mem_singleton.mp mine, asCreate_bare⟩
      · exact fun _ => Thread.Synced.idle rfl rfl
  · exact Outcome.ensures_blocked

theorem Inv.execCreate (h : Inv s) (c : Fin n) (o : Option A) : (s.execCreate c o).Ensures Inv := by
  apply here_ensures
  rintro x ⟨tAddrspace, phase, fault⟩ runs there clear
  have placed := (h.fine x _ there).placed
  dsimp only
  split
  · exact Outcome.ensures_pure.mpr h
  · rename_i a
    refine (asCreate_ensures s a).then fun t ⟨fresh, made⟩ => ?_
    subst made
    have grown : Thread.owned ⟨tAddrspace, .execCreated a, fault⟩ =
      Thread.owned ⟨tAddrspace, .user, fault⟩ ++ [a] := by simp [Thread.owned, Phase.owned]
    refine Outcome.ensures_pure.mpr (h.create runs there fresh ?_ ?_ placed ?_ clear ?_
      (asCreate_bare.prepared s.stolen))
    · intro b mine
      rw [grown, List.mem_append, List.mem_singleton] at mine
      exact mine.symm
    · intro new once
      rw [grown, ← List.concat_eq_append]
      exact once.concat new
    · exact fun b mine => ⟨List.mem_singleton.mp mine, asCreate_bare⟩
    · exact fun synced => synced.onward rfl (fun is => nomatch is) fun _ => .inl rfl
  · exact Outcome.ensures_blocked

/-- The thread changes its own address space, in a phase in which the TLB holds nothing. -/
theorem Inv.fill (h : Inv s) (runs : s.running c = some x) (there : s.threads x = some th)
    {as : Addrspace} {after : Stolen} {phase : Phase A} (mine : th.tAddrspace = some a)
    (clean : th.phase.clean = true) (clear : th.fault = none)
    (owned : phase.owned = th.phase.owned)
    (raw : ∀ b ∈ Thread.raw { th with phase := phase }, b = a ∧ as.bare)
    (prepared : Prepared s.stolen after as) :
    Inv ({ s.setSpace a (some as) with stolen := after }.goOn x th phase) := by
  have before := h.fine x th there
  have same : ∀ b, b ≠ a → Function.update s.spaces a (some as) b = s.spaces b :=
    fun b other => Function.update_of_ne other ..
  have made : Function.update s.spaces a (some as) a = some as := Function.update_self ..
  have member : a ∈ th.owned := List.mem_append_left _ (by simp [mine])
  have owns : Thread.owned { th with phase := phase } = th.owned := by
    rw [Thread.owned, owned]
    rfl
  refine h.advance runs there rfl rfl (fun _ _ => rfl) ?_ ?_ ?_ ?_ ?_
  · rw [owns]
    exact fun b is => .inl is
  · exact fun b other _ => same b (fun eq => other (eq ▸ member))
  · refine ⟨owns ▸ before.once, fun b is => ?_, fun _ none => ?_, fun b is as' found => ?_,
      fun page frame found => ?_⟩
    · by_cases eq : b = a
      · subst eq
        exact fun none => nomatch made.symm.trans none
      · exact fun none => before.there b (owns ▸ is) ((same b eq).symm.trans none)
    · exact nomatch mine.symm.trans none
    · obtain ⟨rfl, bare⟩ := raw b is
      obtain rfl := Option.some.inj (made.symm.trans found)
      exact bare
    · exact nomatch clear.symm.trans found
  · have empty := (h.synced c x th runs there).clean clean
    refine ⟨fun _ => empty, fun _ k valid => ?_⟩
    exact nomatch (empty k).symm.trans valid
  · exact h.ranges.prepare a prepared

theorem Inv.defineRegion (h : Inv s) (c : Fin n) (vaddr sz : Word) :
    (s.defineRegion c vaddr sz).Ensures Inv := by
  apply here_ensures
  rintro x ⟨tAddrspace, phase, fault⟩ runs there clear
  dsimp only
  split
  · rename_i asOld a
    rw [Outcome.ensures_bind, Outcome.ensures_deref]
    intro as found
    have bare : (asDefineRegion as vaddr sz).2.bare :=
      asDefineRegion_bare ((h.fine x _ there).raw a (List.mem_singleton_self a) as found) vaddr sz
    split
    · refine Outcome.ensures_pure.mpr ?_
      have single : ∀ b ∈ Thread.raw { (⟨some a, .load asOld .defining, fault⟩ : Thread A) with
          phase := .load asOld .defining }, b = a ∧ (asDefineRegion as vaddr sz).2.bare :=
        fun b is => ⟨List.mem_singleton.mp is, bare⟩
      have next := h.fill runs there rfl rfl clear rfl single (bare.prepared s.stolen)
      have same : Function.update s.threads x (some ⟨some a, .load asOld .defining, fault⟩) =
          s.threads := by rw [← there, Function.update_eq_self]
      unfold State.goOn State.setThread at next
      dsimp only [State.setSpace] at next ⊢
      rw [same] at next
      exact next
    · exact Outcome.ensures_pure.mpr (h.fill runs there rfl rfl clear rfl (fun b is => nomatch is)
        (bare.prepared s.stolen))
  · exact Outcome.ensures_blocked

theorem Inv.prepareLoad (h : Inv s) (c : Fin n) (answers : Answers) :
    (s.prepareLoad c answers).Ensures Inv := by
  apply here_ensures
  rintro x ⟨tAddrspace, phase, fault⟩ runs there clear
  dsimp only
  split
  · rename_i asOld a
    rw [Outcome.ensures_bind, Outcome.ensures_deref]
    intro as found
    refine (asPrepareLoad_spec as s.stolen answers).then fun (result, as', after) prepared => ?_
    refine Outcome.ensures_pure.mpr (h.fill runs there rfl rfl clear rfl (fun b is => ?_) prepared)
    split at is
    · cases is
    · cases is
  · exact Outcome.ensures_blocked

/-- `as_destroy` of an address space that one local variable of the thread names. -/
theorem Inv.drop (h : Inv s) (runs : s.running c = some x) (there : s.threads x = some th)
    (owned : th.owned = th'.owned ++ [a])
    (placed : th'.phase.placed = true → th'.tAddrspace ≠ none) (raw : th'.raw = [])
    (fault : th'.fault = none)
    (synced : th.Synced s.spaces (s.tlb c) → th'.Synced s.spaces (s.tlb c)) :
    Inv ((s.setSpace a none).setThread x th') := by
  have before := h.fine x th there
  have once := before.once
  rw [owned, ← List.concat_eq_append, List.nodup_concat] at once
  have member : ∀ b ∈ th'.owned, b ∈ th.owned := by
    rw [owned]
    exact fun b mine => List.mem_append_left _ mine
  have same : ∀ b ∈ th'.owned, Function.update s.spaces a none b = s.spaces b :=
    fun b mine => Function.update_of_ne (fun eq : b = a => once.1 (eq ▸ mine)) ..
  refine h.advance runs there rfl rfl (fun _ _ => rfl) ?_ ?_ ?_ ?_ ?_
  · exact fun b mine => .inl (member b mine)
  · intro b other _
    have differ : b ≠ a := by
      rintro rfl
      rw [owned] at other
      exact other List.mem_concat_self
    exact Function.update_of_ne differ ..
  · refine ⟨once.2, fun b mine => ?_, placed, fun b mine => ?_, fun page frame found => ?_⟩
    · exact fun none => before.there b (member b mine) ((same b mine).symm.trans none)
    · rw [raw] at mine
      cases mine
    · exact nomatch fault.symm.trans found
  · exact (synced (h.synced c x th runs there)).congr same
  · exact h.ranges.drop a

theorem Inv.destroy (h : Inv s) (c : Fin n) : (s.destroy c).Ensures Inv := by
  apply here_ensures
  rintro x ⟨tAddrspace, phase, fault⟩ runs there clear
  have placed := (h.fine x _ there).placed
  have ends : ∀ a, (s.asDestroy a).Ensures fun t => t = s.setSpace a none := by
    intro a
    unfold State.asDestroy
    rw [Outcome.ensures_bind, Outcome.ensures_deref]
    exact fun _ _ => Outcome.ensures_pure.mpr rfl
  dsimp only
  split
  · refine (ends _).then fun t made => ?_
    subst made
    exact Outcome.ensures_pure.mpr (h.drop runs there (by simp [Thread.owned, Phase.owned]) placed
      rfl clear fun synced => synced.onward rfl (fun is => nomatch is) fun _ => .inl rfl)
  · refine (ends _).then fun t made => ?_
    subst made
    exact Outcome.ensures_pure.mpr (h.drop runs there (by simp [Thread.owned, Phase.owned]) placed
      rfl clear fun synced => synced.onward rfl (fun is => nomatch is) fun _ => .inl rfl)
  · refine (ends _).then fun t made => ?_
    subst made
    exact Outcome.ensures_pure.mpr (h.drop runs there (by simp [Thread.owned, Phase.owned]) placed
      rfl clear fun synced => synced.onward rfl (fun is => nomatch is) fun _ => .inl rfl)
  · refine (ends _).then fun t made => ?_
    subst made
    exact Outcome.ensures_pure.mpr (h.drop runs there (by simp [Thread.owned, Phase.owned])
      (fun is => nomatch is) rfl clear fun _ => Thread.Synced.idle rfl rfl)
  · exact Outcome.ensures_blocked

/-- More memory has been handed out. -/
theorem Inv.grow (h : Inv s) {after : Stolen} (grows : ∀ r ∈ s.stolen, r ∈ after) :
    Inv { s with stolen := after } :=
  ⟨h.fine, h.apart, h.once, h.synced, h.ranges.grow grows⟩

theorem Inv.allocKpages (h : Inv s) (npages answer : Word) :
    (s.allocKpages npages answer).Ensures Inv := by
  unfold State.allocKpages
  refine (getppages_spec s.stolen npages answer).then fun (paddr, after) taken => ?_
  refine Outcome.ensures_pure.mpr (h.grow fun r member => ?_)
  rcases taken with ⟨_, rfl⟩ | ⟨_, rfl⟩
  · exact member
  · exact List.mem_cons_of_mem _ member

theorem Inv.asCopy (h : Inv s) (c : Fin n) (o : Option A) (answers : Answers) :
    (s.asCopy c o answers).Ensures Inv := by
  apply here_ensures
  rintro x ⟨tAddrspace, phase, fault⟩ runs there clear
  have placed := (h.fine x _ there).placed
  dsimp only
  split
  · exact Outcome.ensures_pure.mpr h
  · rename_i a b
    rw [Outcome.ensures_bind, Outcome.ensures_deref]
    intro old found
    refine (asCreate_ensures s b).then fun t ⟨fresh, made⟩ => ?_
    subst made
    refine (asPrepareLoad_spec (copied old) s.stolen answers).then
      fun (result, as, after) prepared => ?_
    dsimp only
    split
    · rw [Outcome.ensures_bind, Outcome.ensures_kassert]
      intro _
      rw [Outcome.ensures_bind, Outcome.ensures_kassert]
      intro _
      rw [Outcome.ensures_bind, Outcome.ensures_kassert]
      intro _
      have twice : (s.setSpace b (some Dumbvm.asCreate)).setSpace b (some as) =
          s.setSpace b (some as) := by
        unfold State.setSpace
        rw [Function.update_idem]
      rw [twice]
      have grown : Thread.owned ⟨some a, .forking b, fault⟩ =
        Thread.owned ⟨some a, .user, fault⟩ ++ [b] := rfl
      refine Outcome.ensures_pure.mpr (h.create runs there fresh ?_ ?_ placed ?_ clear ?_ prepared)
      · intro d mine
        rw [grown, List.mem_append, List.mem_singleton] at mine
        exact mine.symm
      · intro new once
        rw [grown, ← List.concat_eq_append]
        exact once.concat new
      · exact fun d mine => nomatch mine
      · exact fun synced => synced.onward rfl (fun is => nomatch is) fun _ => .inl rfl
    · unfold State.asDestroy
      simp only [Outcome.ensures_bind, Outcome.ensures_deref, Outcome.ensures_pure]
      intro _ _
      have back : (s.setSpace b (some Dumbvm.asCreate)).setSpace b none = s := by
        unfold State.setSpace
        rw [Function.update_idem, ← fresh, Function.update_eq_self]
      rw [back]
      exact h.grow prepared.grows
  · exact Outcome.ensures_blocked

/-! ### Threads -/

theorem setThread_self (s : State n T A) (x : T) (th : Thread A) :
    (s.setThread x th).threads x = some th := Function.update_self ..

theorem setThread_other (s : State n T A) {x y : T} (th : Thread A) (differ : y ≠ x) :
    (s.setThread x th).threads y = s.threads y := Function.update_of_ne differ ..

/-- A new thread, which has what no thread names. -/
theorem Inv.add (h : Inv s) {y : T} {thy : Thread A} (new : s.threads y = none)
    (fine : thy.Fine s.spaces)
    (nobody : ∀ x th, s.threads x = some th → th.owned.Disjoint thy.owned)
    (clean : thy.phase.clean = false) (served : thy.phase.served = false) :
    Inv (s.setThread y thy) := by
  have self : ∀ th, (s.setThread y thy).threads y = some th → th = thy := by
    intro th is
    exact (Option.some.inj ((setThread_self s y thy).symm.trans is)).symm
  have other : ∀ x th, x ≠ y → (s.setThread y thy).threads x = some th → s.threads x = some th := by
    intro x th differ is
    exact (setThread_other s thy differ).symm.trans is
  refine ⟨fun x th is => ?_, fun x z th thz differ is is' => ?_, h.once,
    fun d x th runs is => ?_, h.ranges⟩
  · by_cases here : x = y
    · subst here
      exact self th is ▸ fine
    · exact h.fine x th (other x th here is)
  · by_cases first : x = y
    · subst first
      rw [self th is]
      have theirs := nobody z thz (other z thz (Ne.symm differ) is')
      exact fun a mine also => theirs also mine
    · by_cases second : z = y
      · subst second
        rw [self thz is']
        exact nobody x th (other x th first is)
      · exact h.apart x z th thz differ (other x th first is) (other z thz second is')
  · by_cases here : x = y
    · subst here
      rw [self th is]
      exact Thread.Synced.idle clean served
    · exact h.synced d x th runs (other x th here is)

theorem Inv.spawn (h : Inv s) (c : Fin n) (new : T) : (s.spawn c new).Ensures Inv := by
  apply here_ensures
  intro x th runs there clear
  rw [Outcome.ensures_bind, Outcome.ensures_await]
  intro absent
  refine Outcome.ensures_pure.mpr (h.add absent ?_ ?_ rfl rfl)
  · exact ⟨List.nodup_nil, (fun a mine => nomatch mine), (fun is => nomatch is),
      (fun a mine => nomatch mine), fun page frame found => nomatch found⟩
  · exact fun y thy _ a _ mine => nomatch mine

/-- The copy goes over to the new thread. -/
theorem Inv.threadFork (h : Inv s) (c : Fin n) (child : T) : (s.threadFork c child).Ensures Inv := by
  apply here_ensures
  rintro x ⟨tAddrspace, phase, fault⟩ runs there clear
  have before := h.fine x _ there
  dsimp only
  split
  · rename_i asSource
    rw [Outcome.ensures_bind, Outcome.ensures_await]
    intro absent
    rw [Outcome.ensures_pure]
    have owned : Thread.owned ⟨tAddrspace, .forking asSource, fault⟩ =
        Thread.owned ⟨tAddrspace, .user, fault⟩ ++ [asSource] := by simp [Thread.owned, Phase.owned]
    have once := before.once
    rw [owned, ← List.concat_eq_append, List.nodup_concat] at once
    have member : asSource ∈ Thread.owned ⟨tAddrspace, .forking asSource, fault⟩ := by
      rw [owned]
      exact List.mem_concat_self
    have parent : Inv (s.goOn x ⟨tAddrspace, .forking asSource, fault⟩ .user) := by
      refine h.along runs there rfl rfl (fun _ _ => rfl) rfl rfl (fun _ => once.2) ?_ before.placed
        ?_ clear ?_
      · intro a mine
        rw [owned]
        exact List.mem_append_left _ mine
      · exact fun a mine => nomatch mine
      · exact fun synced => synced.onward rfl (fun is => nomatch is) fun _ => .inl rfl
    have differ : child ≠ x := by
      rintro rfl
      exact nomatch absent.symm.trans there
    have swap : (s.setThread child ⟨none, .newborn asSource, none⟩).goOn x
        ⟨tAddrspace, .forking asSource, fault⟩ .user =
      (s.goOn x ⟨tAddrspace, .forking asSource, fault⟩ .user).setThread child
        ⟨none, .newborn asSource, none⟩ := by
      unfold State.goOn State.setThread
      rw [Function.update_comm differ]
    rw [swap]
    have still : (s.goOn x ⟨tAddrspace, .forking asSource, fault⟩ .user).threads child = none :=
      (Function.update_of_ne differ ..).trans absent
    refine parent.add still ?_ ?_ rfl rfl
    · refine ⟨List.nodup_singleton asSource, fun a mine => ?_, (fun is => nomatch is),
        (fun a mine => nomatch mine), fun page frame found => nomatch found⟩
      obtain rfl := List.mem_singleton.mp mine
      exact before.there a member
    · intro y thy is a theirs mine
      obtain rfl := List.mem_singleton.mp mine
      by_cases here : y = x
      · subst here
        obtain rfl := Option.some.inj ((setThread_self s y _).symm.trans is)
        exact once.1 theirs
      · have is' : s.threads y = some thy := (setThread_other s _ here).symm.trans is
        exact h.apart y x thy _ here is' there theirs member
  · exact Outcome.ensures_blocked

/-- `vm_fault` remembers a page and its frame. -/
theorem Inv.found (h : Inv s) (runs : s.running c = some x) (there : s.threads x = some th)
    {page frame : Word} (touches : th.phase.touches = true)
    (serves : th.Served s.spaces page frame) :
    Inv (s.setThread x { th with fault := some (page, frame) }) := by
  have before := h.fine x th there
  refine h.advance runs there rfl rfl (fun _ _ => rfl) ?_ ?_ ?_ ?_ h.ranges
  · exact fun a mine => .inl mine
  · exact fun _ _ _ => rfl
  · refine ⟨before.once, before.there, before.placed, before.raw, fun page' frame' found => ?_⟩
    cases found
    exact ⟨touches, serves⟩
  · exact (h.synced c x th runs there).onward rfl id .inl

theorem Inv.touch (h : Inv s) (c : Fin n) (vaddr : Word) (write : Bool) :
    (s.touch c vaddr write).Ensures Inv := by
  unfold State.touch
  refine (current_ensures s c).then ?_
  rintro ⟨x, th⟩ ⟨runs, there, clear⟩
  rw [Outcome.ensures_bind, Outcome.ensures_await]
  rintro ⟨touches, user⟩
  have fault : ∀ faulttype, (vmFaultPage faulttype (th.tAddrspace.bind s.spaces) vaddr).Ensures
      fun result => ∀ pair, result = .ok pair → Inv (s.setThread x { th with fault := some pair }) := by
    intro faulttype result value pair ok
    subst ok
    obtain ⟨as, found, serves⟩ := vmFaultPage_serves value user
    obtain ⟨a, mine, there'⟩ := Option.bind_eq_some_iff.mp found
    exact h.found runs there touches ⟨a, as, mine, there', serves⟩
  dsimp only
  split
  · split
    · refine (fault .readonly).then fun result found => ?_
      split
      · exact Outcome.ensures_pure.mpr h
      · exact Outcome.ensures_pure.mpr (found _ rfl)
    · exact Outcome.ensures_pure.mpr h
  · refine (fault _).then fun result found => ?_
    split
    · exact Outcome.ensures_pure.mpr h
    · exact Outcome.ensures_pure.mpr (found _ rfl)

/-- The address space of the thread is what it was when `vm_fault` looked at it. -/
theorem Inv.insert (h : Inv s) (c : Fin n) : (s.insert c).Ensures Inv := by
  unfold State.insert
  split
  · exact Outcome.ensures_blocked
  rename_i x runs
  split
  · exact Outcome.ensures_blocked
  rename_i th there
  split
  · exact Outcome.ensures_blocked
  rename_i page paddr found
  have before := h.fine x th there
  obtain ⟨touches, a, as, mine, found', serves⟩ := before.fault page paddr found
  have unclean : th.phase.clean = false := by
    revert touches
    cases th.phase with
    | load asOld stage => cases stage <;> simp [Phase.touches, Phase.clean]
    | _ => simp [Phase.touches, Phase.clean]
  have result : Inv ((s.setTlb c (vmFaultTlb (s.tlb c) page paddr).2).setThread x
      { th with fault := none }) := by
    refine h.advance runs there rfl rfl ?_ (fun a owns => .inl owns) (fun _ _ _ => rfl) ?_ ?_ h.ranges
    · exact fun d other => Function.update_of_ne other ..
    · exact ⟨before.once, before.there, before.placed, before.raw, fun page frame none => nomatch none⟩
    · have synced := h.synced c x th runs there
      show Thread.Synced s.spaces (Function.update s.tlb c (vmFaultTlb (s.tlb c) page paddr).2 c) _
      rw [Function.update_self]
      refine ⟨fun clean => ?_, fun served k valid => ?_⟩
      · exact nomatch unclean.symm.trans clean
      · rcases vmFaultTlb_entry (s.tlb c) page paddr k with old | new
        · rw [old] at valid ⊢
          exact synced.served served k valid
        · rw [new, entry_frame serves.frameAligned]
          have same : TlbEntry.page ⟨page, paddr ||| tlbloDirty ||| tlbloValid⟩ = page :=
            serves.pageAligned
          rw [same]
          exact ⟨a, as, mine, found', serves⟩
  exact Outcome.ensures_pure.mpr result

/-- A thread for which the TLB is not flushed has no address space. -/
theorem Inv.switch (h : Inv s) (c : Fin n) (next : T) : (s.switch c next).Ensures Inv := by
  unfold State.switch
  rw [Outcome.ensures_bind, Outcome.ensures_await]
  intro alone
  split
  · exact Outcome.ensures_blocked
  rename_i th there
  have once : ∀ d e x, Function.update s.running c (some next) d = some x →
      Function.update s.running c (some next) e = some x → d = e := by
    intro d e x runs runs'
    by_cases first : d = c <;> by_cases second : e = c
    · exact first.trans second.symm
    · subst first
      rw [Function.update_self] at runs
      rw [Function.update_of_ne second] at runs'
      exact absurd (runs'.trans runs.symm) (alone e second)
    · subst second
      rw [Function.update_self] at runs'
      rw [Function.update_of_ne first] at runs
      exact absurd (runs.trans runs'.symm) (alone d first)
    · rw [Function.update_of_ne first] at runs
      rw [Function.update_of_ne second] at runs'
      exact h.once d e x runs runs'
  have others : ∀ (tlb : Fin n → Tlb) d x thx, d ≠ c → tlb d = s.tlb d →
      Function.update s.running c (some next) d = some x → s.threads x = some thx →
      thx.Synced s.spaces (tlb d) := by
    intro tlb d x thx elsewhere same runs is
    rw [Function.update_of_ne elsewhere] at runs
    rw [same]
    exact h.synced d x thx runs is
  have here : ∀ x thx, Function.update s.running c (some next) c = some x → s.threads x = some thx →
      thx = th := by
    intro x thx runs is
    rw [Function.update_self] at runs
    obtain rfl := Option.some.inj runs
    exact Option.some.inj (is.symm.trans there)
  dsimp only
  split
  · rename_i none
    refine Outcome.ensures_pure.mpr ⟨h.fine, h.apart, once, fun d x thx runs is => ?_, h.ranges⟩
    by_cases elsewhere : d = c
    · subst elsewhere
      obtain rfl := here x thx runs is
      have unplaced : thx.phase.placed = false := by
        by_contra is
        exact (h.fine next thx there).placed (by simpa using is) none
      apply Thread.Synced.idle
      · revert unplaced
        cases thx.phase <;> simp [Phase.placed, Phase.clean]
      · revert unplaced
        cases thx.phase <;> simp [Phase.placed, Phase.served]
    · exact others s.tlb d x thx elsewhere rfl runs is
  · refine Outcome.ensures_pure.mpr ⟨h.fine, h.apart, once, fun d x thx runs is => ?_, h.ranges⟩
    by_cases elsewhere : d = c
    · subst elsewhere
      show Thread.Synced s.spaces (Function.update s.tlb d asActivate d) thx
      rw [Function.update_self]
      exact Thread.Synced.flushed s.spaces thx
    · exact others _ d x thx elsewhere (Function.update_of_ne elsewhere ..) runs is

/-! ### Runs -/

theorem Inv.step (h : Inv s) (action : Action n T A) : (s.step action).Ensures Inv := by
  cases action with
  | switch c next => exact h.switch c next
  | touch c vaddr write => exact h.touch c vaddr write
  | insert c => exact h.insert c
  | activate c => exact h.activate c
  | runprogram c as => exact h.runprogram c as
  | defineRegion c vaddr sz => exact h.defineRegion c vaddr sz
  | prepareLoad c answers => exact h.prepareLoad c answers
  | fail c => exact h.fail c
  | finish c => exact h.finish c
  | execCreate c asNew => exact h.execCreate c asNew
  | execAssign c => exact h.execAssign c
  | destroy c => exact h.destroy c
  | asCopy c asNew answers => exact h.asCopy c asNew answers
  | threadFork c child => exact h.threadFork c child
  | adopt c => exact h.adopt c
  | exit c => exact h.exit c
  | spawn c new => exact h.spawn c new
  | allocKpages npages answer => exact h.allocKpages npages answer

theorem Inv.start (h : vm.initial s) : Inv s := by
  obtain ⟨kernel, once, empty⟩ := h
  refine ⟨fun x th is => ?_, fun x y th th' _ is _ a mine => ?_, once, fun c x th _ is => ?_, ?_⟩
  · rw [kernel x th is]
    exact ⟨List.nodup_nil, (fun a mine => nomatch mine), (fun is => nomatch is),
      (fun a mine => nomatch mine), fun page frame found => nomatch found⟩
  · rw [kernel x th is] at mine
    cases mine
  · rw [kernel x th is]
    exact Thread.Synced.idle rfl rfl
  · exact ⟨fun a as _ there => (nomatch (empty a).symm.trans there),
      fun a _ as _ _ _ there => nomatch (empty a).symm.trans there⟩

theorem inv_reachable (h : vm.Reachable s) : Inv s :=
  vm.invariant_ensures (fun _ start => Inv.start start) (fun _ action holds _ => holds.step action) h

/-- The entry maps a user page of the address space of the thread to its frame. -/
def Thread.Maps (spaces : A → Option Addrspace) (th : Thread A) (e : TlbEntry) : Prop :=
  ∃ a as i, th.tAddrspace = some a ∧ spaces a = some as ∧ e.page < userspacetop ∧
    as.regionOf e.page = some i ∧
    e.frame = (as.region i).pbase + (e.page - (as.region i).vbase)

/-- What `vm_fault` gives to two address spaces, or to two regions of one, is never the same frame,
and a thread that uses user memory finds only its own in the TLB. -/
structure State.Isolated (s : State n T A) : Prop where
  apart : ∀ a b as bs i j frame, s.spaces a = some as → s.spaces b = some bs →
    as.Reaches i frame → bs.Reaches j frame → a = b ∧ i = j
  mapped : ∀ c x th k, s.running c = some x → s.threads x = some th → th.phase.touches = true →
    (s.tlb c k).valid = true → th.Maps s.spaces (s.tlb c k)

/-- `vm_fault` stops where a region that it looks at has no memory. -/
theorem Addrspace.Reaches.pbase {as : Addrspace} {i : Fin 3} {frame : Word} (h : as.Reaches i frame) :
    (as.region i).pbase ≠ 0 := by
  obtain ⟨faulttype, vaddr, page, h, _⟩ := h
  unfold vmFaultPage at h
  split at h
  · cases h
  · simp only [Outcome.bind_done, Outcome.kassert_done] at h
    obtain ⟨_, complete, _⟩ := h
    have which : ∀ i : Fin 3, i = 0 ∨ i = 1 ∨ i = 2 := by decide
    obtain rfl | rfl | rfl := which i
    · exact complete.2.1
    · exact complete.2.2.2.2.1
    · exact complete.2.2.2.2.2.2.1

theorem Ranges.frames {spaces : A → Option Addrspace} {stolen : Stolen} (h : Ranges spaces stolen)
    {a b : A} {as bs : Addrspace} {i j : Fin 3} {frame : Word} (there : spaces a = some as)
    (there' : spaces b = some bs) (reaches : as.Reaches i frame) (reaches' : bs.Reaches j frame) :
    a = b ∧ i = j := by
  by_contra differ
  have given := h.given a as i there reaches.pbase
  have given' := h.given b bs j there' reaches'.pbase
  have apart := h.apart a b as bs i j there there' reaches.pbase reaches'.pbase
    (not_and_or.mp differ)
  exact apart frame.toNat (reaches.inRange given.fits) (reaches'.inRange given'.fits)

theorem Thread.Served.maps {spaces : A → Option Addrspace} {th : Thread A} {e : TlbEntry}
    (h : Thread.Served spaces th e.page e.frame) : th.Maps spaces e := by
  obtain ⟨a, as, mine, there, serves⟩ := h
  have paddr := serves.paddr
  rw [paddrOf_eq] at paddr
  obtain ⟨i, first, frame⟩ := Option.map_eq_some_iff.mp paddr
  refine ⟨a, as, i, mine, there, serves.user, first, ?_⟩
  rw [← frame, Region.frame, BitVec.add_comm]

theorem spaces_isolated (h : vm.Reachable s) : s.Isolated := by
  have inv := inv_reachable h
  refine ⟨fun a b as bs i j frame there there' reaches reaches' => ?_,
    fun c x th k runs there touches valid => ?_⟩
  · exact inv.ranges.frames there there' reaches reaches'
  · have served : th.phase.served = true := by
      revert touches
      cases th.phase with
      | load asOld stage => cases stage <;> simp [Phase.touches, Phase.served]
      | _ => simp [Phase.touches, Phase.served]
    exact ((inv.synced c x th runs there).served served k valid).maps

/-- Two kernel threads. -/
def boot : State 1 Bool Bool where
  threads _ := some ⟨none, .kernel, none⟩
  running _ := some false
  tlb _ := asActivate
  spaces _ := none
  stolen := []

/-- The running thread loads a small program, and uses the first page of it. -/
def loading (a : Bool) (answers : Answers) : List (Action 1 Bool Bool) :=
  [.runprogram 0 (some a), .activate 0, .defineRegion 0 0x400000 0x1000,
    .defineRegion 0 0x10000000 0x1000, .prepareLoad 0 answers, .touch 0 0x400000 true, .insert 0]

/-- Two threads load programs at the same addresses. -/
theorem spaces_isolated_two : ∃ s : State 1 Bool Bool, vm.Reachable s ∧
    (s.threads true).map (fun th => th.phase.touches) = some true ∧
    (s.tlb 0 0).valid = true ∧ (s.spaces false).isSome ∧ s.Isolated := by
  have passes : (vm.run boot (loading false ⟨0x10000, 0x20000, 0x30000⟩ ++
      .switch 0 true :: loading true ⟨0x40000, 0x50000, 0x60000⟩)).passes (fun s =>
        decide ((s.threads true).map (fun th => th.phase.touches) = some true) &&
        (s.tlb 0 0).valid && (s.spaces false).isSome) = true := by
    decide +kernel
  obtain ⟨s, run, facts⟩ := Outcome.passes_done passes
  simp only [Bool.and_eq_true, decide_eq_true_eq] at facts
  have start : vm.initial boot := by
    refine ⟨fun x th is => (Option.some.inj is).symm, fun c d _ _ _ => ?_, fun _ => rfl⟩
    exact Subsingleton.elim c d
  have reached : vm.Reachable s := .run _ (.initial start) run
  exact ⟨s, reached, facts.1.1, facts.1.2, facts.2, spaces_isolated reached⟩

end Os161.Dumbvm
