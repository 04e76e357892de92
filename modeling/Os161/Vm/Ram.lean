import Os161.Base.Bump
import Os161.Vm.Dumbvm

/-!
# Taking physical memory

`ram.c` and the page allocator of `dumbvm.c`. The size of a request and the end of what it takes
are both computed modulo `2 ^ 32`. `stealmem_lock` makes one call follow the other, so a run is the
list of the page counts of its calls.
-/

namespace Os161

open Dumbvm (Word pageSize inRange Fresh Stolen)

/-- The addresses from the first free one up to the end of memory. -/
structure Ram where
  firstpaddr : Word
  lastpaddr : Word
  deriving DecidableEq

namespace Ram

def mipsKseg0 : Word := 0x80000000

/-- `firstfree` is what `start.S` saved. -/
def ramBootstrap (mainbusRamsize firstfree : Word) : Ram :=
  let ramsize := if mainbusRamsize > 508 * 1024 * 1024 then 508 * 1024 * 1024 else mainbusRamsize
  { firstpaddr := firstfree - mipsKseg0, lastpaddr := ramsize }

def ramStealmem (s : Ram) (npages : Word) : Word × Ram :=
  let size := npages * pageSize
  if s.firstpaddr + size > s.lastpaddr then (0, s)
  else (s.firstpaddr, { s with firstpaddr := s.firstpaddr + size })

/-- `getppages`; the lock is held from the call to its end. -/
def getppages (s : Ram) (npages : Word) : Word × Ram := ramStealmem s npages

def paddrToKvaddr (paddr : Word) : Word := paddr + mipsKseg0

def allocKpages (s : Ram) (npages : Word) : Word × Ram :=
  let (pa, s) := getppages s npages
  if pa = 0 then (0, s) else (paddrToKvaddr pa, s)

/-- The kernel is below the free memory, which starts with a page: `start.S` rounds up. -/
structure Booted (s : Ram) : Prop where
  nonzero : 0 < s.firstpaddr.toNat
  aligned : s.firstpaddr.toNat % 4096 = 0
  below : s.firstpaddr.toNat ≤ s.lastpaddr.toNat

/-- The pages are there. -/
def Fits (s : Ram) (npages : Word) : Prop :=
  s.firstpaddr.toNat + npages.toNat * 4096 ≤ s.lastpaddr.toNat

/-- The pages are not there, and the end that is computed for them is in memory. -/
def Wraps (s : Ram) (npages : Word) : Prop :=
  ¬ Fits s npages ∧ (s.firstpaddr.toNat + npages.toNat * 4096) % 2 ^ 32 ≤ s.lastpaddr.toNat

instance (s : Ram) (npages : Word) : Decidable (Fits s npages) := by
  unfold Fits
  infer_instance

instance (s : Ram) (npages : Word) : Decidable (Wraps s npages) := by
  unfold Wraps
  infer_instance

/-! ### One call -/

theorem end_toNat (s : Ram) (npages : Word) : (s.firstpaddr + npages * pageSize).toNat =
    (s.firstpaddr.toNat + npages.toNat * 4096) % 2 ^ 32 := by
  have page : pageSize.toNat = 4096 := rfl
  rw [BitVec.toNat_add, BitVec.toNat_mul, page]
  omega

theorem ramStealmem_fits {s : Ram} {npages : Word} (fits : Fits s npages) :
    ramStealmem s npages =
      (s.firstpaddr, { s with firstpaddr := s.firstpaddr + npages * pageSize }) := by
  have small : ¬ s.firstpaddr + npages * pageSize > s.lastpaddr := by
    have room : s.lastpaddr.toNat < 2 ^ 32 := s.lastpaddr.isLt
    unfold Fits at fits
    rw [gt_iff_lt, BitVec.lt_def, end_toNat]
    omega
  exact if_neg small

theorem end_of_fits {s : Ram} {npages : Word} (fits : Fits s npages) :
    (s.firstpaddr + npages * pageSize).toNat = s.firstpaddr.toNat + npages.toNat * 4096 := by
  have room : s.lastpaddr.toNat < 2 ^ 32 := s.lastpaddr.isLt
  unfold Fits at fits
  rw [end_toNat]
  omega

/-- A request that is too large is refused, unless its end wraps around into memory. -/
theorem ramStealmem_refuses_iff {s : Ram} {npages : Word} (large : ¬ Fits s npages) (h : Booted s) :
    ramStealmem s npages = (0, s) ↔ ¬ Wraps s npages := by
  have past : s.firstpaddr + npages * pageSize > s.lastpaddr ↔ ¬ Wraps s npages := by
    rw [gt_iff_lt, BitVec.lt_def, end_toNat]
    simp only [Wraps, large, not_false_eq_true, true_and]
    omega
  rw [← past]
  constructor
  · intro refused
    by_contra passes
    have given : ramStealmem s npages =
        (s.firstpaddr, { s with firstpaddr := s.firstpaddr + npages * pageSize }) := if_neg passes
    have zero : s.firstpaddr = 0 := congrArg Prod.fst (given.symm.trans refused)
    have nonzero := h.nonzero
    rw [zero] at nonzero
    cases nonzero
  · intro passes
    exact if_pos passes

theorem Booted.ramStealmem {s : Ram} (h : Booted s) {npages : Word} (sound : ¬ Wraps s npages) :
    Booted (ramStealmem s npages).2 := by
  by_cases fits : Fits s npages
  · have stop := end_of_fits fits
    have nonzero := h.nonzero
    have aligned := h.aligned
    rw [ramStealmem_fits fits]
    unfold Fits at fits
    constructor <;> simp only [stop] <;> omega
  · rw [(ramStealmem_refuses_iff fits h).mpr sound]
    exact h

/-! ### The memory as space that is given out from the bottom -/

def Booted.bump {s : Ram} (h : Booted s) : Bump := ⟨s.firstpaddr.toNat, s.lastpaddr.toNat, h.below⟩

/-! ### Runs -/

/-- Memory after calls with these page counts. -/
def after (s : Ram) : List Word → Ram
  | [] => s
  | npages :: rest => after (getppages s npages).2 rest

/-- The ranges that the calls give: those of the answers that are not 0. -/
def given (s : Ram) : List Word → Stolen
  | [] => []
  | npages :: rest =>
    let (paddr, left) := getppages s npages
    if paddr = 0 then left.given rest else (paddr, npages) :: left.given rest

/-- At each call of the run. -/
def AtEach (P : Ram → Word → Prop) (s : Ram) (counts : List Word) : Prop :=
  ∀ before npages rest, counts = before ++ npages :: rest → P (s.after before) npages

theorem atEach_nil (P : Ram → Word → Prop) (s : Ram) : AtEach P s [] := by
  intro before npages rest is
  cases before <;> cases is

theorem atEach_cons {P : Ram → Word → Prop} {s : Ram} {npages : Word} {rest : List Word} :
    AtEach P s (npages :: rest) ↔ P s npages ∧ AtEach P (getppages s npages).2 rest := by
  constructor
  · intro each
    exact ⟨each [] npages rest rfl, fun before n more is =>
      each (npages :: before) n more (congrArg (npages :: ·) is)⟩
  · intro ⟨first, later⟩ before n more is
    cases before with
    | nil =>
      obtain ⟨rfl, rfl⟩ := List.cons.inj is
      exact first
    | cons _ before =>
      obtain ⟨rfl, tail⟩ := List.cons.inj is
      exact later before n more tail

/-- What is asked of a run. -/
structure StealsWell (boot : Ram) (counts : List Word) : Prop where
  inside : ∀ r ∈ boot.given counts, boot.firstpaddr.toNat ≤ r.1.toNat ∧ r.1.toNat % 4096 = 0 ∧
    r.1.toNat + r.2.toNat * 4096 ≤ boot.lastpaddr.toNat
  apart : (boot.given counts).Pairwise fun r r' => ∀ x, inRange r x → ¬ inRange r' x
  grows : AtEach (fun s npages => s.firstpaddr ≤ (getppages s npages).2.firstpaddr) boot counts
  refuses : AtEach (fun s npages => ¬ Fits s npages → getppages s npages = (0, s)) boot counts

theorem given_fits {s : Ram} {npages : Word} (fits : Fits s npages) (h : Booted s)
    (rest : List Word) :
    s.given (npages :: rest) = (s.firstpaddr, npages) :: (getppages s npages).2.given rest := by
  have nonzero : s.firstpaddr ≠ 0 := by
    intro zero
    have positive := h.nonzero
    rw [zero] at positive
    cases positive
  simp only [given, getppages, ramStealmem_fits fits, if_neg nonzero]

theorem given_refused {s : Ram} {npages : Word} (refused : getppages s npages = (0, s))
    (rest : List Word) : s.given (npages :: rest) = s.given rest := by
  simp only [given, refused, if_true]

/-- What is given is what space given out from the bottom gives. -/
theorem given_eq {counts : List Word} : ∀ {s : Ram} (h : Booted s),
    AtEach (fun s npages => ¬ Wraps s npages) s counts →
    (s.given counts).map (fun r => (r.1.toNat, r.2.toNat * 4096)) =
      h.bump.given (counts.map fun npages => npages.toNat * 4096) := by
  induction counts with
  | nil => exact fun _ _ => rfl
  | cons npages rest ih =>
    intro s h each
    obtain ⟨sound, later⟩ := atEach_cons.mp each
    have next := ih (h.ramStealmem sound) later
    rw [List.map_cons]
    by_cases fits : Fits s npages
    · have bumped : (h.ramStealmem sound).bump =
          ⟨s.firstpaddr.toNat + npages.toNat * 4096, s.lastpaddr.toNat, fits⟩ := by
        simp only [Booted.bump, ramStealmem_fits fits, end_of_fits fits]
      rw [given_fits fits h, Bump.given_fits (b := h.bump) fits, List.map_cons]
      rw [bumped] at next
      exact congrArg (_ :: ·) next
    · have refused := (ramStealmem_refuses_iff fits h).mpr sound
      rw [given_refused refused, Bump.given_full (b := h.bump) fits]
      exact ih h (by rwa [show (getppages s npages).2 = s from congrArg Prod.snd refused] at later)

theorem given_aligned {counts : List Word} : ∀ {s : Ram}, Booted s →
    AtEach (fun s npages => ¬ Wraps s npages) s counts → ∀ r ∈ s.given counts,
    r.1.toNat % 4096 = 0 := by
  induction counts with
  | nil =>
    intro s h each r member
    cases member
  | cons npages rest ih =>
    intro s h each r member
    obtain ⟨sound, later⟩ := atEach_cons.mp each
    have next := ih (h.ramStealmem sound) later r
    by_cases fits : Fits s npages
    · rw [given_fits fits h] at member
      obtain rfl | member := List.mem_cons.mp member
      · exact h.aligned
      · exact next member
    · have refused := (ramStealmem_refuses_iff fits h).mpr sound
      rw [given_refused refused] at member
      have same : (getppages s npages).2 = s := congrArg Prod.snd refused
      exact next (by rw [← same] at member; exact member)

theorem Booted.after {counts : List Word} : ∀ {s : Ram}, Booted s →
    AtEach (fun s npages => ¬ Wraps s npages) s counts → ∀ {before : List Word} {n : Word}
    {rest : List Word}, counts = before ++ n :: rest → Booted (s.after before) := by
  induction counts with
  | nil =>
    intro s h each before n rest is
    cases before <;> cases is
  | cons npages more ih =>
    intro s h each before n rest is
    cases before with
    | nil => exact h
    | cons _ before =>
      obtain ⟨rfl, tail⟩ := List.cons.inj is
      obtain ⟨sound, later⟩ := atEach_cons.mp each
      exact ih (h.ramStealmem sound) later tail

theorem grows_of_sound {s : Ram} {npages : Word} (h : Booted s) (sound : ¬ Wraps s npages) :
    s.firstpaddr ≤ (getppages s npages).2.firstpaddr := by
  by_cases fits : Fits s npages
  · simp only [getppages, ramStealmem_fits fits, BitVec.le_def, end_of_fits fits]
    exact Nat.le_add_right _ _
  · have refused := (ramStealmem_refuses_iff fits h).mpr sound
    exact BitVec.le_of_eq (congrArg (fun r => r.2.firstpaddr) refused).symm

/-- The calls do what is asked of them exactly when no end wraps around into memory. -/
theorem steals_well_iff {boot : Ram} (h : Booted boot) (counts : List Word) :
    StealsWell boot counts ↔ AtEach (fun s npages => ¬ Wraps s npages) boot counts := by
  constructor
  · intro well
    have refuses := well.refuses
    clear well
    induction counts generalizing boot with
    | nil => exact atEach_nil _ _
    | cons npages rest ih =>
      obtain ⟨first, later⟩ := atEach_cons.mp refuses
      have sound : ¬ Wraps boot npages := fun wraps =>
        (ramStealmem_refuses_iff wraps.1 h).mp (first wraps.1) wraps
      exact atEach_cons.mpr ⟨sound, ih (h.ramStealmem sound) later⟩
  · intro each
    have model := given_eq h each
    constructor
    · intro r member
      have bumped := model ▸ List.mem_map_of_mem member
      obtain ⟨above, below⟩ := Bump.given_inside bumped
      exact ⟨above, given_aligned h each r member, below⟩
    · have apart : (h.bump.given (counts.map fun npages => npages.toNat * 4096)).Pairwise _ :=
        Bump.given_apart h.bump
      rw [← model, List.pairwise_map] at apart
      apply apart.imp
      intro r r' below x inside inside'
      exact absurd (Nat.lt_of_lt_of_le inside.2 (Nat.le_trans below inside'.1)) (Nat.lt_irrefl _)
    · exact fun before n rest is => grows_of_sound (h.after each is) (each before n rest is)
    · intro before n rest is large
      exact (ramStealmem_refuses_iff large (h.after each is)).mpr (each before n rest is)

/-- A megabyte of memory, whose first quarter is the kernel's. -/
def megabyte : Ram := ramBootstrap 0x100000 0x80040000

theorem megabyte_booted : Booted megabyte := ⟨by decide, by decide, by decide⟩

theorem steals_well_megabyte : StealsWell megabyte [1, 2, 0xc0, 3] :=
  (steals_well_iff megabyte_booted _).mpr (atEach_cons.mpr ⟨by decide, atEach_cons.mpr ⟨by decide,
    atEach_cons.mpr ⟨by decide, atEach_cons.mpr ⟨by decide, atEach_nil _ _⟩⟩⟩⟩)

/-- The second call gives all but one of the `2 ^ 20` pages twice over and takes `firstpaddr` one
page back, so the third gives the page of the first. -/
theorem steals_overlap : ¬ StealsWell megabyte [1, 0xffffffff, 1] := by
  intro well
  have apart := well.apart
  have gives : megabyte.given [1, 0xffffffff, 1] =
      [(0x40000, 1), (0x41000, 0xffffffff), (0x40000, 1)] := by decide
  rw [gives] at apart
  have first := (List.pairwise_cons.mp apart).1 (0x40000, 1) (by decide) 0x40000
  exact first ⟨by decide, by decide⟩ ⟨by decide, by decide⟩

/-! ### What the address spaces rely on -/

theorem after_append (before more : List Word) : ∀ s : Ram,
    s.after (before ++ more) = (s.after before).after more := by
  induction before with
  | nil => exact fun _ => rfl
  | cons npages before ih => exact fun s => ih _

theorem given_append (before more : List Word) : ∀ s : Ram,
    s.given (before ++ more) = s.given before ++ (s.after before).given more := by
  induction before with
  | nil => exact fun _ => rfl
  | cons npages before ih =>
    intro s
    simp only [List.cons_append, given, after, ih]
    split <;> rfl

/-- A call that meets the condition is what the address spaces take of `getppages`. -/
theorem getppages_dumbvm {boot : Ram} {counts : List Word} {npages : Word}
    (well : StealsWell boot (counts ++ [npages])) :
    Dumbvm.getppages (boot.given counts).reverse npages (getppages (boot.after counts) npages).1 =
      .done ((getppages (boot.after counts) npages).1,
        (boot.given (counts ++ [npages])).reverse) := by
  have gives := given_append counts [npages] boot
  by_cases zero : (getppages (boot.after counts) npages).1 = 0
  · have none : (boot.after counts).given [npages] = [] := by simp only [given, zero, if_true]
    rw [none, List.append_nil] at gives
    rw [Dumbvm.getppages, if_pos zero, zero, gives]
    rfl
  · have one : (boot.after counts).given [npages] =
        [((getppages (boot.after counts) npages).1, npages)] := by
      simp only [given, if_neg zero]
    rw [one] at gives
    have inside := well.inside
    have apart := well.apart
    rw [gives] at inside apart
    have last := inside ((getppages (boot.after counts) npages).1, npages) (by simp)
    have fresh : Fresh (boot.given counts).reverse
        ((getppages (boot.after counts) npages).1, npages) := by
      constructor
      · exact Nat.le_trans last.2.2 (Nat.le_of_lt boot.lastpaddr.isLt)
      · intro r' member x inNew inOld
        have earlier := List.mem_reverse.mp member
        exact (List.pairwise_append.mp apart).2.2 r' earlier _ (by simp) x inOld inNew
    rw [Dumbvm.getppages, if_neg zero, gives, List.reverse_append]
    simp [Outcome.await, fresh, Outcome.bind, bind, pure]

end Ram

end Os161
