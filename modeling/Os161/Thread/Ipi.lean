import Os161.Vm.Dumbvm

/-!
# Interprocessor interrupts

The end of `thread.c`. `c_ipi_lock` is held by a request from its start to its end, and by an
interrupt too, so they follow each other. What the shootdown functions of the VM system do to the
TLB is a parameter; those of `dumbvm.c` are one choice of it.
-/

namespace Os161.Ipi

open Dumbvm (Tlb)

def tlbshootdownMax : Nat := 16
def tlbshootdownAll : BitVec 32 := -1

def ipiPanic : Nat := 0
def ipiOffline : Nat := 1
def ipiUnidle : Nat := 2
def ipiTlbshootdownCode : Nat := 3

/-- The bit of an interrupt in `c_ipi_pending`. -/
def bit (code : Nat) : BitVec 32 := 1 <<< code

structure TlbShootdown where
  tsTlbIx : BitVec 32
  tsCmeIx : BitVec 32
  deriving DecidableEq

/-- What `c_ipi_lock` protects. -/
structure Cpu where
  cIpiPending : BitVec 32
  cShootdown : Vector TlbShootdown 16
  cNumshootdown : BitVec 32
  deriving DecidableEq

structure VmShootdown where
  vmTlbshootdown : TlbShootdown → Tlb → Outcome Tlb
  vmTlbshootdownAll : Tlb → Outcome Tlb

/-- The functions of `dumbvm.c`. -/
def dumbvm : VmShootdown := { vmTlbshootdown := fun _ _ => .panic, vmTlbshootdownAll := fun _ => .panic }

def ipiSend (target : Cpu) (code : Nat) : Outcome Cpu := do
  Outcome.kassert (code < 32)
  return { target with cIpiPending := target.cIpiPending ||| bit code }

/-- The index is unsigned; past the end of the array there is no entry to write. -/
def ipiTlbshootdown (target : Cpu) (mapping : TlbShootdown) : Outcome Cpu := do
  let n := target.cNumshootdown
  let target ←
    if n = BitVec.ofNat 32 tlbshootdownMax then
      pure { target with cNumshootdown := tlbshootdownAll }
    else if inside : n.toNat < 16 then do
      let queue := target.cShootdown.set n.toNat mapping
      pure { target with cShootdown := queue, cNumshootdown := n + 1 }
    else .fault
  return { target with cIpiPending := target.cIpiPending ||| bit ipiTlbshootdownCode }

/-- The loop over `c_shootdown`. -/
def shootEach (vm : VmShootdown) (cpu : Cpu) (tlb : Tlb) : Outcome Tlb :=
  (List.range cpu.cNumshootdown.toInt.toNat).foldlM (fun tlb i => do
    let ts ← Outcome.deref cpu.cShootdown[i]?
    vm.vmTlbshootdown ts tlb) tlb

/-- No result says that the CPU has halted. -/
def interprocessorInterrupt (vm : VmShootdown) (curcpu : Cpu) (tlb : Tlb) :
    Outcome (Option (Cpu × Tlb)) := do
  let bits := curcpu.cIpiPending
  if bits &&& bit ipiPanic ≠ 0 then return none
  if bits &&& bit ipiOffline ≠ 0 then return none
  let (curcpu, tlb) ←
    if bits &&& bit ipiTlbshootdownCode ≠ 0 then do
      let tlb ← if curcpu.cNumshootdown = tlbshootdownAll then vm.vmTlbshootdownAll tlb
        else shootEach vm curcpu tlb
      pure ({ curcpu with cNumshootdown := 0 }, tlb)
    else pure (curcpu, tlb)
  return some ({ curcpu with cIpiPending := 0 }, tlb)

/-- What other CPUs ask of a CPU that goes on running. -/
inductive Request where
  | unidle
  | tlbshootdown (mapping : TlbShootdown)
  deriving DecidableEq

def request (target : Cpu) : Request → Outcome Cpu
  | .unidle => ipiSend target ipiUnidle
  | .tlbshootdown mapping => ipiTlbshootdown target mapping

/-- The requests between two interrupts, in the order in which they get the lock. -/
def receive (target : Cpu) : List Request → Outcome Cpu
  | [] => return target
  | r :: rest => do
    let target ← request target r
    receive target rest

/-- The mappings that the requests name. -/
def mappings : List Request → List TlbShootdown
  | [] => []
  | .unidle :: rest => mappings rest
  | .tlbshootdown mapping :: rest => mapping :: mappings rest

/-- After `cpu_create` and after every interrupt. -/
structure Cpu.Cleared (cpu : Cpu) : Prop where
  pending : cpu.cIpiPending = 0
  empty : cpu.cNumshootdown = 0

/-- The shootdown functions take the mapping, or all mappings, out of the TLB and put none in. -/
structure VmShootdown.Sound (maps : Tlb → TlbShootdown → Prop) (vm : VmShootdown) : Prop where
  one : ∀ m tlb, ∃ tlb', vm.vmTlbshootdown m tlb = .done tlb' ∧ ¬ maps tlb' m ∧
    ∀ m', maps tlb' m' → maps tlb m'
  all : ∀ tlb, ∃ tlb', vm.vmTlbshootdownAll tlb = .done tlb' ∧ ∀ m, ¬ maps tlb' m

/-- The requests stay inside `c_shootdown`, and the interrupt after them takes every mapping they
name out of the TLB and leaves the queue empty. -/
def Handles (maps : Tlb → TlbShootdown → Prop) (vm : VmShootdown) (cpu : Cpu)
    (requests : List Request) : Prop :=
  ∃ asked, receive cpu requests = .done asked ∧ ∀ tlb, ∃ after tlb',
    interprocessorInterrupt vm asked tlb = .done (some (after, tlb')) ∧
    (∀ m ∈ mappings requests, ¬ maps tlb' m) ∧ after.Cleared

/-! ### The queue -/

/-- The queue after these requests: their mappings in order, or the mark that they were too many. -/
structure Queued (cpu : Cpu) (ms : List TlbShootdown) : Prop where
  few : ms.length ≤ 16 → cpu.cNumshootdown = BitVec.ofNat 32 ms.length ∧
    ∀ i < ms.length, cpu.cShootdown[i]? = ms[i]?
  many : 16 < ms.length → ms.length = 17 ∧ cpu.cNumshootdown = tlbshootdownAll
  waiting : ms ≠ [] → cpu.cIpiPending.getLsbD ipiTlbshootdownCode = true
  running : cpu.cIpiPending.getLsbD ipiPanic = false ∧ cpu.cIpiPending.getLsbD ipiOffline = false

theorem Cpu.Cleared.queued {cpu : Cpu} (h : cpu.Cleared) : Queued cpu [] := by
  constructor
  · exact fun _ => ⟨h.empty, fun i small => absurd small (Nat.not_lt_zero i)⟩
  · exact fun long => absurd long (by decide)
  · exact fun nonempty => absurd rfl nonempty
  · rw [h.pending]
    exact ⟨rfl, rfl⟩

theorem Queued.unidle {cpu : Cpu} {ms : List TlbShootdown} (h : Queued cpu ms) :
    ∃ next, request cpu .unidle = .done next ∧ Queued next ms := by
  refine ⟨_, rfl, h.few, h.many, fun nonempty => ?_, ?_⟩
  · have waiting := h.waiting nonempty
    simp only [BitVec.getLsbD_or, waiting, Bool.true_or]
  · have running := h.running
    simp only [BitVec.getLsbD_or, running.1, running.2]
    decide

theorem Queued.tlbshootdown {cpu : Cpu} {ms : List TlbShootdown} (h : Queued cpu ms)
    (m : TlbShootdown) (room : ms.length < 17) :
    ∃ next, request cpu (.tlbshootdown m) = .done next ∧ Queued next (ms ++ [m]) := by
  have running : (cpu.cIpiPending ||| bit ipiTlbshootdownCode).getLsbD ipiPanic = false ∧
      (cpu.cIpiPending ||| bit ipiTlbshootdownCode).getLsbD ipiOffline = false := by
    simp only [BitVec.getLsbD_or, h.running.1, h.running.2]
    decide
  have waiting : (cpu.cIpiPending ||| bit ipiTlbshootdownCode).getLsbD ipiTlbshootdownCode = true := by
    rw [BitVec.getLsbD_or, Bool.or_eq_true]
    exact .inr (by decide)
  obtain ⟨count, entries⟩ := h.few (by omega)
  by_cases full : ms.length = 16
  · have is : cpu.cNumshootdown = BitVec.ofNat 32 tlbshootdownMax := by
      rw [count, full]
      rfl
    refine ⟨{ cpu with
      cNumshootdown := tlbshootdownAll
      cIpiPending := cpu.cIpiPending ||| bit ipiTlbshootdownCode }, ?_, ?_, ?_, fun _ => waiting,
      running⟩
    · simp only [request, ipiTlbshootdown, if_pos is]
      rfl
    · simp [full]
    · simp [full]
  · have small : cpu.cNumshootdown.toNat = ms.length := by
      rw [count, BitVec.toNat_ofNat]
      exact Nat.mod_eq_of_lt (by omega)
    have below : ¬ cpu.cNumshootdown = BitVec.ofNat 32 tlbshootdownMax := by
      intro is
      rw [is] at small
      exact full small.symm
    have inside : cpu.cNumshootdown.toNat < 16 := by omega
    refine ⟨{ cpu with
      cShootdown := cpu.cShootdown.set cpu.cNumshootdown.toNat m
      cNumshootdown := cpu.cNumshootdown + 1
      cIpiPending := cpu.cIpiPending ||| bit ipiTlbshootdownCode }, ?_, ?_, ?_, fun _ => waiting,
      running⟩
    · simp only [request, ipiTlbshootdown, if_neg below, dif_pos inside]
      rfl
    · intro _
      constructor
      · simp only [count, List.length_append, List.length_singleton]
        apply BitVec.eq_of_toNat_eq
        simp
      · intro i before
        simp only [List.length_append, List.length_singleton] at before
        simp only [Vector.getElem?_set, small]
        obtain rfl | earlier := Nat.eq_or_lt_of_le (Nat.le_of_lt_succ before)
        · simp
        · rw [if_neg (by omega), List.getElem?_append_left earlier]
          exact entries i earlier
    · simp only [List.length_append, List.length_singleton]
      omega

theorem Queued.faults {cpu : Cpu} {ms : List TlbShootdown} (h : Queued cpu ms)
    (m : TlbShootdown) (full : ms.length = 17) : request cpu (.tlbshootdown m) = .fault := by
  obtain ⟨_, marked⟩ := h.many (by omega)
  have past : ¬ cpu.cNumshootdown = BitVec.ofNat 32 tlbshootdownMax := by
    rw [marked]
    decide
  have outside : ¬ cpu.cNumshootdown.toNat < 16 := by
    rw [marked]
    decide
  simp only [request, ipiTlbshootdown, if_neg past, dif_neg outside]
  rfl

theorem Queued.receives (requests : List Request) : ∀ {cpu : Cpu} {ms : List TlbShootdown},
    Queued cpu ms → (ms ++ mappings requests).length ≤ 17 →
    ∃ asked, receive cpu requests = .done asked ∧ Queued asked (ms ++ mappings requests) := by
  induction requests with
  | nil =>
    intro cpu ms h _
    rw [mappings, List.append_nil]
    exact ⟨cpu, rfl, h⟩
  | cons r rest ih =>
    intro cpu ms h room
    cases r with
    | unidle =>
      obtain ⟨next, asks, queued⟩ := h.unidle
      simp only [receive, asks, Outcome.done_bind]
      exact ih queued room
    | tlbshootdown m =>
      simp only [mappings, List.length_append, List.length_cons] at room
      obtain ⟨next, asks, queued⟩ := h.tlbshootdown m (by omega)
      simp only [receive, asks, Outcome.done_bind]
      rw [mappings, List.append_cons]
      exact ih queued (by simp only [List.length_append, List.length_singleton]; omega)

/-- One request after the mark, the index is past the end. -/
theorem Queued.overflows (requests : List Request) : ∀ {cpu : Cpu} {ms : List TlbShootdown},
    Queued cpu ms → ms.length ≤ 17 → 17 < (ms ++ mappings requests).length →
    receive cpu requests = .fault := by
  induction requests with
  | nil =>
    intro cpu ms h short long
    rw [mappings, List.append_nil] at long
    omega
  | cons r rest ih =>
    intro cpu ms h short long
    cases r with
    | unidle =>
      obtain ⟨next, asks, queued⟩ := h.unidle
      simp only [receive, asks, Outcome.done_bind]
      exact ih queued short long
    | tlbshootdown m =>
      by_cases full : ms.length = 17
      · simp only [receive, h.faults m full, Outcome.fault_bind]
      · obtain ⟨next, asks, queued⟩ := h.tlbshootdown m (by omega)
        simp only [receive, asks, Outcome.done_bind]
        rw [mappings, List.append_cons] at long
        exact ih queued (by simp only [List.length_append, List.length_singleton]; omega) long

/-! ### The interrupt -/

theorem pending_iff (bits : BitVec 32) {code : Nat} (small : code < 32) :
    bits &&& bit code ≠ 0 ↔ bits.getLsbD code = true := by
  have mask : bit code = BitVec.twoPow 32 code := (BitVec.twoPow_eq 32 code).symm
  rw [mask, BitVec.and_twoPow]
  cases bits.getLsbD code with
  | false => simp
  | true =>
    simp only [if_true, iff_true]
    intro zero
    have clear := congrArg (·.getLsbD code) zero
    simp [small] at clear

section Interrupt

variable {maps : Tlb → TlbShootdown → Prop} {vm : VmShootdown}

/-- Going through entries takes each of them out. -/
theorem VmShootdown.Sound.each (sound : vm.Sound maps) (read : Nat → Option TlbShootdown)
    (positions : List Nat) : ∀ tlb, (∀ i ∈ positions, read i ≠ none) →
    ∃ tlb', positions.foldlM (fun tlb i => do
        let ts ← Outcome.deref (read i)
        vm.vmTlbshootdown ts tlb) tlb = .done tlb' ∧
      (∀ m, maps tlb' m → maps tlb m) ∧ ∀ i ∈ positions, ∀ m, read i = some m → ¬ maps tlb' m := by
  induction positions with
  | nil => exact fun tlb _ => ⟨tlb, rfl, fun _ still => still, fun i member => absurd member List.not_mem_nil⟩
  | cons i rest ih =>
    intro tlb there
    obtain ⟨m, is⟩ := Option.ne_none_iff_exists'.mp (there i List.mem_cons_self)
    obtain ⟨next, done, gone, fewer⟩ := sound.one m tlb
    obtain ⟨last, rest', kept, each⟩ := ih next fun j member => there j (List.mem_cons_of_mem _ member)
    refine ⟨last, ?_, fun m still => fewer m (kept m still), ?_⟩
    · rw [List.foldlM_cons, is]
      simp only [Outcome.deref, Outcome.done_bind, done]
      exact rest'
    · intro j member m' at'
      obtain rfl | later := List.mem_cons.mp member
      · obtain rfl := Option.some.inj (is.symm.trans at')
        exact fun still => gone (kept m still)
      · exact each j later m' at'

theorem Queued.goes_on {cpu : Cpu} {ms : List TlbShootdown} (h : Queued cpu ms) :
    ¬ cpu.cIpiPending &&& bit ipiPanic ≠ 0 ∧ ¬ cpu.cIpiPending &&& bit ipiOffline ≠ 0 := by
  rw [pending_iff _ (by decide), pending_iff _ (by decide), h.running.1, h.running.2]
  exact ⟨Bool.false_ne_true, Bool.false_ne_true⟩

theorem Queued.asked {cpu : Cpu} {ms : List TlbShootdown} (h : Queued cpu ms) (some : ms ≠ []) :
    cpu.cIpiPending &&& bit ipiTlbshootdownCode ≠ 0 :=
  (pending_iff _ (by decide)).mpr (h.waiting some)

theorem Queued.interrupt_none (vm : VmShootdown) {cpu : Cpu} (h : Queued cpu []) (tlb : Tlb) :
    ∃ after, interprocessorInterrupt vm cpu tlb = .done (some (after, tlb)) ∧ after.Cleared := by
  have count : cpu.cNumshootdown = 0 := (h.few (by decide)).1
  have unmarked : ¬ cpu.cNumshootdown = tlbshootdownAll := by
    rw [count]
    decide
  have none : shootEach vm cpu tlb = .done tlb := by
    rw [shootEach, count]
    rfl
  refine ⟨{ cpu with cNumshootdown := 0, cIpiPending := 0 }, ?_, rfl, rfl⟩
  unfold interprocessorInterrupt
  simp only [if_neg h.goes_on.1, if_neg h.goes_on.2, if_neg unmarked, none, Outcome.done_bind,
    Outcome.pure_def]
  split <;> simp only [count]

theorem Queued.rounds {cpu : Cpu} {ms : List TlbShootdown} (h : Queued cpu ms)
    (few : ms.length ≤ 16) : ¬ cpu.cNumshootdown = tlbshootdownAll ∧
      cpu.cNumshootdown.toInt.toNat = ms.length := by
  have small : cpu.cNumshootdown.toNat = ms.length := by
    rw [(h.few few).1, BitVec.toNat_ofNat]
    exact Nat.mod_eq_of_lt (by omega)
  constructor
  · intro marked
    have marks : tlbshootdownAll.toNat = 0xffffffff := rfl
    rw [marked, marks] at small
    omega
  · rw [BitVec.toInt_eq_toNat_of_lt (by omega), small, Int.toNat_natCast]

theorem Queued.interrupt (sound : vm.Sound maps) {cpu : Cpu} {ms : List TlbShootdown}
    (h : Queued cpu ms) (tlb : Tlb) : ∃ after tlb',
    interprocessorInterrupt vm cpu tlb = .done (some (after, tlb')) ∧
    (∀ m ∈ ms, ¬ maps tlb' m) ∧ after.Cleared := by
  by_cases some : ms ≠ []
  · unfold interprocessorInterrupt
    simp only [if_neg h.goes_on.1, if_neg h.goes_on.2, if_pos (h.asked some)]
    by_cases many : 16 < ms.length
    · obtain ⟨tlb', done, gone⟩ := sound.all tlb
      refine ⟨{ cpu with cNumshootdown := 0, cIpiPending := 0 }, tlb', ?_, fun m _ => gone m, rfl, rfl⟩
      simp only [if_pos (h.many many).2, done, Outcome.done_bind, Outcome.pure_def]
    · have entries := (h.few (Nat.le_of_not_lt many)).2
      obtain ⟨unmarked, rounds⟩ := h.rounds (Nat.le_of_not_lt many)
      obtain ⟨tlb', done, _, gone⟩ := sound.each (fun i => cpu.cShootdown[i]?)
        (List.range ms.length) tlb (by
          intro i member
          rw [entries i (List.mem_range.mp member)]
          simp [List.mem_range.mp member])
      refine ⟨{ cpu with cNumshootdown := 0, cIpiPending := 0 }, tlb', ?_, ?_, rfl, rfl⟩
      · simp only [if_neg unmarked, shootEach, rounds, done, Outcome.done_bind,
          Outcome.pure_def]
      · intro m member
        obtain ⟨i, small, is⟩ := List.getElem_of_mem member
        apply gone i (List.mem_range.mpr small)
        rw [entries i small, List.getElem?_eq_getElem small, is]
  · obtain rfl := not_not.mp some
    obtain ⟨after, done, cleared⟩ := h.interrupt_none vm tlb
    exact ⟨after, tlb, done, fun m member => absurd member List.not_mem_nil, cleared⟩

theorem Queued.interrupt_dumbvm {cpu : Cpu} {ms : List TlbShootdown} (h : Queued cpu ms)
    (some : ms ≠ []) (short : ms.length ≤ 17) (tlb : Tlb) :
    interprocessorInterrupt dumbvm cpu tlb = .panic := by
  unfold interprocessorInterrupt
  simp only [if_neg h.goes_on.1, if_neg h.goes_on.2, if_pos (h.asked some)]
  by_cases many : 16 < ms.length
  · rw [if_pos (h.many many).2]
    rfl
  · obtain ⟨unmarked, rounds⟩ := h.rounds (Nat.le_of_not_lt many)
    obtain ⟨m, rest, rfl⟩ := List.exists_cons_of_ne_nil some
    have first : cpu.cShootdown[0]? = .some m := (h.few (Nat.le_of_not_lt many)).2 0 (by simp)
    rw [if_neg unmarked, shootEach, rounds, List.length_cons, List.range_succ_eq_map,
      List.foldlM_cons, first]
    rfl

end Interrupt

/-- The seventeenth mapping sets the mark for all of them, and the one after it is written past the
end. The functions of `dumbvm.c` stop the machine at the first mapping. -/
theorem handles_iff {maps : Tlb → TlbShootdown → Prop} {cpu : Cpu} (h : cpu.Cleared)
    (requests : List Request) :
    (∀ vm : VmShootdown, vm.Sound maps →
      (Handles maps vm cpu requests ↔ (mappings requests).length ≤ 17)) ∧
    (Handles maps dumbvm cpu requests ↔ mappings requests = []) := by
  have short : ∀ {vm}, Handles maps vm cpu requests → (mappings requests).length ≤ 17 := by
    intro vm ⟨asked, done, _⟩
    by_contra long
    have faults := h.queued.overflows requests (by decide) (by simpa using long)
    rw [faults] at done
    cases done
  constructor
  · intro vm sound
    constructor
    · exact short
    · intro few
      obtain ⟨asked, done, queued⟩ := h.queued.receives requests (by simpa using few)
      exact ⟨asked, done, fun tlb => queued.interrupt sound tlb⟩
  · constructor
    · intro handles
      have few := short handles
      obtain ⟨asked, done, interrupt⟩ := handles
      obtain ⟨_, again, queued⟩ := h.queued.receives requests (by simpa using few)
      obtain rfl := Outcome.done.inj (done.symm.trans again)
      by_contra some
      obtain ⟨after, tlb', returns, _⟩ := interrupt Dumbvm.asActivate
      rw [queued.interrupt_dumbvm some few] at returns
      cases returns
    · intro none
      obtain ⟨asked, done, queued⟩ := h.queued.receives requests (by simp [none])
      rw [List.nil_append, none] at queued
      refine ⟨asked, done, fun tlb => ?_⟩
      obtain ⟨after, returns, cleared⟩ := queued.interrupt_none dumbvm tlb
      exact ⟨after, tlb, returns, by simp [none], cleared⟩

/-- What `cpu_create` makes. -/
def created : Cpu := ⟨0, .replicate 16 ⟨0, 0⟩, 0⟩

/-- A mapping is the entry at its TLB index. -/
def mapsAt (tlb : Tlb) (m : TlbShootdown) : Prop :=
  ∃ i : Fin 64, m.tsTlbIx = BitVec.ofNat 32 i ∧ (tlb i).valid = true

/-- Shootdown functions that write invalid entries. -/
def writesInvalid : VmShootdown where
  vmTlbshootdown m tlb := .done fun i =>
    if m.tsTlbIx = BitVec.ofNat 32 i then Dumbvm.asActivate i else tlb i
  vmTlbshootdownAll _ := .done Dumbvm.asActivate

theorem asActivate_invalid (i : Fin 64) : (Dumbvm.asActivate i).valid = false := by
  simp [Dumbvm.asActivate, Dumbvm.TlbEntry.valid]

theorem writesInvalid_sound : writesInvalid.Sound mapsAt := by
  constructor
  · intro m tlb
    refine ⟨_, rfl, ?_, ?_⟩
    · intro ⟨i, at', valid⟩
      simp only [if_pos at', asActivate_invalid] at valid
      cases valid
    · intro m' ⟨i, at', valid⟩
      dsimp only at valid
      split at valid
      · rw [asActivate_invalid] at valid
        cases valid
      · exact ⟨i, at', valid⟩
  · intro tlb
    refine ⟨_, rfl, fun m ⟨i, _, valid⟩ => ?_⟩
    rw [asActivate_invalid] at valid
    cases valid

theorem handles_seventeen :
    Handles mapsAt writesInvalid created (.replicate 17 (.tlbshootdown ⟨3, 0⟩)) :=
  ((handles_iff ⟨rfl, rfl⟩ _).1 _ writesInvalid_sound).mpr (by decide)

theorem index_past_end :
    ¬ Handles mapsAt writesInvalid created (.replicate 18 (.tlbshootdown ⟨3, 0⟩)) := by
  intro ⟨asked, done, _⟩
  have cleared : created.Cleared := ⟨rfl, rfl⟩
  rw [cleared.queued.overflows _ (by decide) (by decide)] at done
  cases done

end Os161.Ipi
