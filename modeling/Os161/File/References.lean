import Mathlib.Algebra.BigOperators.Ring.Finset
import Os161.Base.References
import Os161.File.Descriptors

/-!
# References to vnodes

A `struct file` holds a reference to its vnode for the open and one for each table entry.
`file_copy` and `des_descriptor` keep to that; `sys_dup2`, `sys_close` and the error exits of
`k_open` do not.
-/

set_option linter.unusedSectionVars false

namespace Os161

namespace Files

variable {P F V : Type} [DecidableEq P] [DecidableEq F] [DecidableEq V]

/-- The references that the live files imply, and the counts of the vnodes. -/
def references (s : Files P F V) : References F V where
  holders f := (s.files f).value?.map fun file => (file.fVnode, 1 + file.fRefcount.toNat)
  refs vn := (s.vnodes vn).getD 0

variable {s t : Files P F V} {p q cur : P} {f : F} {file : File V P} {vn : V} {d : V → Int}
variable {spare : Option F} {reclaims : Reclaims V}

theorem holders_live (live : s.files f = .live file) :
    s.references.holders f = some (file.fVnode, 1 + file.fRefcount.toNat) := by
  simp [references, live, Cell.value?]

/-- The references are balanced over `d`, and only `spare` may have no entry in any table. -/
structure Settled (s : Files P F V) (d : V → Int) (spare : Option F) : Prop where
  owes : s.references.Owes d
  spare : s.references.Spare spare

theorem Settled.of_eq (h : s.Settled d spare) (same : t.references = s.references) :
    t.Settled d spare := by
  refine ⟨?_, ?_⟩
  · rw [same]
    exact h.owes
  · rw [same]
    exact h.spare

section Primitives

variable (s)

theorem updateTable_references (p : P) (g : Filedesc F P → Outcome (Filedesc F P)) :
    (s.updateTable p g).Ensures fun t => t.references = s.references := by
  rw [updateTable_ensures]
  intro fdesc table after value
  rfl

theorem updateFile_references (f : F) {g : File V P → Outcome (File V P)}
    (keep : ∀ a, (g a).Ensures fun b => b.fVnode = a.fVnode ∧ b.fRefcount = a.fRefcount) :
    (s.updateFile f g).Ensures fun t => t.references = s.references := by
  rw [updateFile_ensures]
  intro file live
  refine (keep file).mono fun after ⟨vnode, count⟩ => ?_
  simp only [references, References.mk.injEq, withFile_vnodes, and_true]
  funext g
  by_cases here : g = f
  · subst here
    simp [live, Cell.value?, vnode, count]
  · rw [withFile_other here]

theorem fLock_references (f : F) (cur : P) :
    (s.fLock f cur).Ensures fun t => t.references = s.references :=
  s.updateFile_references f fun a => by simp

theorem fUnlock_references (f : F) (cur : P) :
    (s.fUnlock f cur).Ensures fun t => t.references = s.references :=
  s.updateFile_references f fun a => by simp

theorem fLockDestroy_references (f : F) :
    (s.fLockDestroy f).Ensures fun t => t.references = s.references :=
  s.updateFile_references f fun a => by simp

theorem addRefcount_references (f : F) (n : UInt16) :
    (s.addRefcount f n).Ensures fun t => ∀ file, s.files f = .live file →
      t.references = s.references.setHolder f
        (some (file.fVnode, 1 + (file.fRefcount + n).toNat)) := by
  rw [addRefcount_ensures]
  intro file live file' live'
  rw [live, Cell.live.injEq] at live'
  subst live'
  simp only [references, References.setHolder, References.mk.injEq, withFile_vnodes, and_true]
  funext g
  by_cases here : g = f
  · subst here
    simp [Cell.value?]
  · rw [withFile_other here, Function.update_of_ne here]

theorem addRefcount_there (f : F) (n : UInt16) :
    (s.addRefcount f n).Ensures fun _ => ∃ file, s.files f = .live file := by
  rw [addRefcount_ensures]
  exact fun file live => ⟨file, live⟩

/-- Only a file that is there is counted. -/
theorem addRefcount_live {f : F} {n : UInt16} {Q : Files P F V → Prop}
    (rest : ∀ file, s.files f = .live file → (s.addRefcount f n).Ensures Q) :
    (s.addRefcount f n).Ensures Q := by
  intro t value
  obtain ⟨file, live⟩ := s.addRefcount_there f n t value
  exact rest file live t value

theorem vopIncref_references (vn : V) : (s.vopIncref vn).Ensures fun t =>
    t.references = s.references.setRefs vn (s.references.refs vn + 1) := by
  simp only [vopIncref, Outcome.ensures_bind, Outcome.ensures_deref, Outcome.ensures_pure]
  intro count there
  simp only [references, References.setRefs, References.mk.injEq, true_and]
  funext v
  by_cases here : v = vn
  · subst here
    simp [there]
  · simp [here]

theorem vfsOpened_references (vn : V) :
    (s.vfsOpened vn).references = s.references.setRefs vn (s.references.refs vn + 1) := by
  simp only [references, vfsOpened, References.setRefs, References.mk.injEq, true_and]
  funext v
  by_cases here : v = vn
  · subst here
    simp
  · simp [here]

/-- A vnode that has other references loses one; with the last it is let go, or stays. -/
theorem vopDecref_references (reclaims : Reclaims V) (vn : V) :
    (s.vopDecref reclaims vn).Ensures fun t => 0 < s.references.refs vn ∧
      (t.references = s.references.setRefs vn (s.references.refs vn - 1) ∨
        s.references.refs vn = 1 ∧ reclaims vn = false) := by
  simp only [vopDecref, Outcome.ensures_bind, Outcome.ensures_deref, Outcome.ensures_kassert]
  intro count there positive
  have refs : s.references.refs vn = count := by simp [references, there]
  have lower : ∀ after : Option Nat, after.getD 0 = count - 1 →
      ({ s with vnodes := Function.update s.vnodes vn after } : Files P F V).references =
        s.references.setRefs vn (count - 1) := by
    intro after value
    simp only [references, References.setRefs, References.mk.injEq, true_and]
    funext v
    by_cases here : v = vn
    · subst here
      simp [value]
    · simp [here]
  rw [refs]
  split
  · exact Outcome.ensures_pure.mpr ⟨positive, .inl (lower _ rfl)⟩
  · have one : count = 1 := by omega
    split
    · exact Outcome.ensures_pure.mpr ⟨positive, .inl (lower none (by rw [one]; rfl))⟩
    · rename_i stays
      exact Outcome.ensures_pure.mpr ⟨positive, .inr ⟨one, Bool.eq_false_iff.mpr stays⟩⟩

theorem kfreeFile_references (f : F) :
    (s.kfreeFile f).Ensures fun t => t.references = s.references.setHolder f none := by
  simp only [kfreeFile, Outcome.ensures_bind, Heap.free_ensures, Outcome.ensures_pure]
  intro file live
  simp only [references, References.setHolder, References.mk.injEq, and_true]
  funext g
  by_cases here : g = f
  · subst here
    simp [Cell.value?]
  · simp [here]

theorem alloc_references (f : F) (file : File V P) :
    ({ s with files := Function.update s.files f (.live file) } : Files P F V).references =
      s.references.setHolder f (some (file.fVnode, 1 + file.fRefcount.toNat)) := by
  simp only [references, References.setHolder, References.mk.injEq, and_true]
  funext g
  by_cases here : g = f
  · subst here
    simp [Cell.value?]
  · simp [here]

end Primitives

theorem holders_file {n : Nat} (live : s.files f = .live file)
    (holds : s.references.holders f = some (vn, n)) :
    file.fVnode = vn ∧ 1 + file.fRefcount.toNat = n := by
  rw [holders_live live, Option.some.injEq, Prod.mk.injEq] at holds
  exact holds

/-! ### What the primitives do to the balance -/

theorem addRefcount_settled (h : s.Settled d spare) {r n : UInt16} (left : Option F)
    (holds : s.references.holders f = some (vn, 1 + r.toNat))
    (kept : ∀ g, g ≠ f → spare = some g → left = some g) (new : r + n = 0 → left = some f) :
    (s.addRefcount f n).Ensures fun t =>
      t.Settled (d + Pi.single vn ((r.toNat : Int) - (r + n).toNat)) left ∧
        t.references = s.references.setHolder f (some (vn, 1 + (r + n).toNat)) := by
  refine ((s.addRefcount_references f n).and (s.addRefcount_there f n)).mono fun t ⟨moved, file, live⟩ => ?_
  have same := moved file live
  obtain ⟨rfl, count⟩ := holders_file live holds
  obtain rfl : file.fRefcount = r := UInt16.toNat_inj.mp (by omega)
  refine ⟨⟨?_, ?_⟩, same⟩
  · rw [same]
    have moved := h.owes.setHolder f (some (file.fVnode, 1 + (file.fRefcount + n).toNat))
    rw [holds] at moved
    convert moved using 1
    funext v
    by_cases here : v = file.fVnode
    · subst here
      simp only [Pi.add_apply, Pi.sub_apply, References.holding, Pi.single_eq_same]
      omega
    · simp only [Pi.add_apply, Pi.sub_apply, References.holding, Pi.single_eq_of_ne here]
      omega
  · rw [same]
    apply h.spare.setHolder kept
    intro vn m holds few
    have value : 1 + (file.fRefcount + n).toNat = m := (Prod.mk.inj (Option.some.inj holds)).2
    exact new (UInt16.toNat_inj.mp (show _ = 0 by omega))

theorem vopIncref_settled (h : s.Settled d spare) (vn : V) : (s.vopIncref vn).Ensures fun t =>
    t.Settled (d + Pi.single vn 1) spare ∧ t.references.holders = s.references.holders := by
  refine (s.vopIncref_references vn).mono fun t same => ?_
  rw [same]
  refine ⟨⟨?_, ?_⟩, rfl⟩
  · rw [same]
    have moved := h.owes.setRefs vn (s.references.refs vn + 1)
    convert moved using 3
    omega
  · rw [same]
    exact h.spare

/-- A reference is given back while a file holds another, so the vnode only stays with its last
reference if nothing else holds it. -/
theorem vopDecref_settled (h : s.Settled d spare) {n : Nat}
    (holds : s.references.holders f = some (vn, n + 1)) (lets : reclaims vn = false → 0 < d vn) :
    (s.vopDecref reclaims vn).Ensures fun t =>
      t.Settled (d + Pi.single vn (-1)) spare ∧ t.references.holders = s.references.holders := by
  refine (s.vopDecref_references reclaims vn).mono fun t ⟨positive, moves⟩ => ?_
  have counted := h.owes.held holds
  rcases moves with same | ⟨one, stays⟩
  · rw [same]
    refine ⟨⟨?_, ?_⟩, rfl⟩
    · rw [same]
      have moved := h.owes.setRefs vn (s.references.refs vn - 1)
      convert moved using 3
      omega
    · rw [same]
      exact h.spare
  · have others := lets stays
    omega

theorem kfreeFile_settled (h : s.Settled d spare) (only : ∀ g, spare = some g → g = f)
    (holds : s.references.holders f = some (vn, 1)) :
    (s.kfreeFile f).Ensures fun t => t.Settled (d + Pi.single vn 1) none := by
  refine (s.kfreeFile_references f).mono fun t same => ⟨?_, ?_⟩
  · rw [same]
    have moved := h.owes.setHolder f none
    rw [holds] at moved
    convert moved using 1
    simp [References.holding]
  · rw [same]
    exact h.spare.setHolder (fun g differ is => absurd (only g is) differ) (by simp)

/-! ### Functions that keep the balance -/

section Functions

variable (s)

theorem fdDetach_references (i : Fin 8) :
    (s.fdDetach p cur i).Ensures fun t => t.references = s.references := by
  refine (s.updateTable_references p _).then fun s₁ same₁ => ?_
  refine (s₁.updateTable_references p _).then fun s₂ same₂ => ?_
  refine (s₂.updateTable_references p _).then fun s₃ same₃ => ?_
  refine (s₃.updateTable_references p _).mono fun t same => ?_
  rw [same, same₃, same₂, same₁]

theorem getFile_references (fd : Int) :
    (s.getFile p cur fd).Ensures fun out => out.2.references = s.references := by
  unfold getFile
  split
  · exact Outcome.ensures_pure.mpr rfl
  · refine (s.updateTable_references p _).then fun s₁ same₁ => ?_
    rw [Outcome.ensures_bind, Outcome.ensures_deref]
    intro fdesc table
    split
    · refine (s₁.fLock_references _ cur).then fun s₂ same₂ => ?_
      refine (s₂.updateTable_references p _).then fun t same => ?_
      exact Outcome.ensures_pure.mpr (same.trans (same₂.trans same₁))
    · refine (s₁.updateTable_references p _).then fun t same => ?_
      exact Outcome.ensures_pure.mpr (same.trans same₁)

/-- Without a free slot there is no descriptor. -/
theorem fdAttach_references (f : F) : (s.fdAttach p cur f).Ensures fun (result, t) =>
    t.references = s.references ∧
      ((∃ i, s.sharing.slots (p, i) = none) → ∃ i, result = .ok i) := by
  refine ((s.updateTable_references p _).and (s.fdLock_sharing p cur)).then fun s₁ ⟨same₁, slots₁⟩ => ?_
  refine s₁.deref_slot p fun fdesc table => ?_
  rw [← slots₁]
  split
  · rename_i i found
    refine (s₁.updateTable_references p _).then fun s₂ same₂ => ?_
    refine (s₂.updateTable_references p _).then fun s₃ same₃ => ?_
    refine (s₃.updateTable_references p _).then fun t same => ?_
    exact Outcome.ensures_pure.mpr ⟨by rw [same, same₃, same₂, same₁], fun _ => ⟨i, rfl⟩⟩
  · rename_i full
    refine (s₁.updateTable_references p _).then fun t same => ?_
    refine Outcome.ensures_pure.mpr ⟨same.trans same₁, ?_⟩
    rintro ⟨i, empty⟩
    have busy := List.find?_eq_none.mp full i (List.mem_finRange i)
    rw [table] at empty
    simp [empty] at busy

end Functions

theorem desFile_settled (h : s.Settled d spare) (only : ∀ g, spare = some g → g = f)
    (holds : s.references.holders f = some (vn, 1)) (lets : reclaims vn = false → 0 < d vn) :
    (s.desFile reclaims f).Ensures fun t => t.Settled d none := by
  unfold desFile
  rw [get_ensures]
  intro file live
  obtain ⟨rfl, _⟩ := holders_file live holds
  rw [Outcome.ensures_bind, Outcome.ensures_kassert]
  intro _
  refine (vopDecref_settled h holds lets).then fun s₁ ⟨h₁, holders₁⟩ => ?_
  refine (s₁.fLockDestroy_references f).then fun s₂ same₂ => ?_
  have holds₂ : s₂.references.holders f = some (file.fVnode, 1) := by rw [same₂, holders₁, holds]
  refine (kfreeFile_settled (h₁.of_eq same₂) only holds₂).mono fun t settled => ?_
  simpa [add_assoc, ← Pi.single_add] using settled

theorem desDescriptor_settled (h : s.Settled d none) (nonneg : ∀ v, 0 ≤ d v)
    (lets : ∀ v, reclaims v = false → 0 < d v) (i : Fin 8) :
    (s.desDescriptor p cur reclaims i).Ensures fun (_, t) => t.Settled d none := by
  refine (s.getFile_references i).then fun (result, s₁) same₁ => ?_
  cases result with
  | error err => exact Outcome.ensures_pure.mpr (h.of_eq same₁)
  | ok f =>
    rw [get_ensures]
    intro file live
    rw [Outcome.ensures_bind, Outcome.ensures_kassert]
    intro positive
    refine (s₁.fdDetach_references i).then fun s₂ same₂ => ?_
    have holds : s₂.references.holders f = some (file.fVnode, 1 + file.fRefcount.toNat) := by
      rw [same₂, holders_live live]
    have lower : (file.fRefcount.toNat : Int) - (file.fRefcount + -1).toNat = 1 := by
      have range := file.fRefcount.toNat_lt
      have minus : (-1 : UInt16).toNat = 65535 := rfl
      have some' : 0 < file.fRefcount.toNat := UInt16.lt_iff_toNat_lt.mp positive
      rw [UInt16.toNat_add, minus]
      omega
    have h₂ := h.of_eq (same₂.trans same₁)
    refine (addRefcount_settled h₂ (if file.fRefcount + -1 = 0 then some f else none) holds
      nofun fun zero => if_pos zero).then fun s₃ ⟨h₃, same₃⟩ => ?_
    rw [lower] at h₃
    have holds₃ : s₃.references.holders f =
        some (file.fVnode, (file.fRefcount + -1).toNat + 1) := by
      rw [same₃, References.setHolder_self, Nat.add_comm]
    have kept : reclaims file.fVnode = false →
        0 < (d + Pi.single file.fVnode (1 : Int) : V → Int) file.fVnode := by
      intro _
      have := nonneg file.fVnode
      simp only [Pi.add_apply, Pi.single_eq_same]
      omega
    refine (vopDecref_settled h₃ holds₃ kept).then fun s₄ ⟨h₄, holders₄⟩ => ?_
    have balanced : d + Pi.single file.fVnode 1 + Pi.single file.fVnode (-1) = d := by
      rw [add_assoc, ← Pi.single_add]
      simp
    rw [balanced] at h₄
    rw [get_ensures]
    intro file' live'
    have holds₄ := holds₃
    rw [← holders₄] at holds₄
    have count := (holders_file live' holds₄).2
    split
    · rename_i zero
      rw [zero] at count
      have none_left : file.fRefcount + -1 = 0 := UInt16.toNat_inj.mp (by
        have : (0 : UInt16).toNat = 0 := rfl
        omega)
      refine (s₄.fUnlock_references f cur).then fun s₅ same₅ => ?_
      have holds₅ : s₅.references.holders f = some (file.fVnode, 1) := by
        rw [same₅, holds₄, none_left]
        rfl
      have only : ∀ g, (if file.fRefcount + -1 = 0 then some f else none) = some g → g = f := by
        intro g is
        rw [if_pos none_left] at is
        exact (Option.some.inj is).symm
      refine (desFile_settled (h₄.of_eq same₅) only holds₅ (lets _)).then fun t settled => ?_
      exact Outcome.ensures_pure.mpr settled
    · rename_i more
      have some_left : file.fRefcount + -1 ≠ 0 := by
        intro zero
        rw [zero] at count
        have : (0 : UInt16).toNat = 0 := rfl
        exact more (UInt16.toNat_inj.mp (by omega))
      rw [if_neg some_left] at h₄
      refine (s₄.fUnlock_references f cur).then fun t same => ?_
      exact Outcome.ensures_pure.mpr (h₄.of_eq same)

theorem closeSlots_settled (h : s.Settled d none) (nonneg : ∀ v, 0 ≤ d v)
    (lets : ∀ v, reclaims v = false → 0 < d v) (slots : List (Fin 8)) :
    (s.closeSlots p cur reclaims slots).Ensures fun (_, t) => t.Settled d none := by
  induction slots generalizing s with
  | nil =>
    refine (s.updateTable_references p _).then fun t same => ?_
    exact Outcome.ensures_pure.mpr (h.of_eq same)
  | cons i rest ih =>
    rw [closeSlots, Outcome.ensures_bind, Outcome.ensures_deref]
    intro fdesc table
    split
    · exact ih h
    · refine (s.updateTable_references p _).then fun s₁ same₁ => ?_
      refine (desDescriptor_settled (h.of_eq same₁) nonneg lets i).then fun (result, s₂) h₂ => ?_
      cases result with
      | error err => exact Outcome.ensures_pure.mpr h₂
      | ok _ =>
        refine (s₂.updateTable_references p _).then fun s₃ same₃ => ?_
        exact ih (h₂.of_eq same₃)

theorem closeAllF_settled (h : s.Settled d none) (nonneg : ∀ v, 0 ≤ d v)
    (lets : ∀ v, reclaims v = false → 0 < d v) :
    (s.closeAllF p cur reclaims).Ensures fun (_, t) => t.Settled d none := by
  refine (s.updateTable_references p _).then fun s₁ same₁ => ?_
  exact closeSlots_settled (h.of_eq same₁) nonneg lets _

/-- One more in the count of a file; the reference to the vnode is still to come. -/
theorem entry_settled (h : s.Settled d spare) (only : ∀ g, spare = some g → g = f) {r : UInt16}
    (fits : r.toNat < 65535) (holds : s.references.holders f = some (vn, 1 + r.toNat)) :
    (s.addRefcount f 1).Ensures fun t => t.Settled (d + Pi.single vn (-1)) none ∧
      t.references = s.references.setHolder f (some (vn, 2 + r.toNat)) := by
  have higher : (r + 1).toNat = r.toNat + 1 := by
    rw [UInt16.toNat_add]
    exact Nat.mod_eq_of_lt (show r.toNat + 1 < 65536 by omega)
  have positive : r + 1 = 0 → (none : Option F) = some f := by
    intro zero
    rw [zero] at higher
    cases higher
  refine (addRefcount_settled h none holds (fun g differ is => absurd (only g is) differ) positive).mono
    fun t ⟨settled, same⟩ => ?_
  rw [higher] at settled same
  refine ⟨?_, by rw [same, show 1 + (r.toNat + 1) = 2 + r.toNat by omega]⟩
  convert settled using 3
  omega

theorem entered_settled (h : s.Settled (d + Pi.single vn (-1)) none) :
    (s.vopIncref vn).Ensures fun t =>
      t.Settled d none ∧ t.references.holders = s.references.holders := by
  refine (vopIncref_settled h vn).mono fun t ⟨settled, same⟩ => ⟨?_, same⟩
  convert settled using 1
  rw [add_assoc, ← Pi.single_add]
  simp

theorem attach_settled (h : s.Settled d (some f)) {answers : Answers F V}
    (holds : s.references.holders f = some (vn, 1)) (room : ∃ i, s.sharing.slots (p, i) = none) :
    (kOpen.attach p cur answers s vn f).Ensures fun (_, t) => t.Settled d none := by
  refine ((s.fLock_references f cur).and (s.fLock_sharing f cur)).then fun s₁ ⟨same₁, slots₁⟩ => ?_
  refine (s₁.fdAttach_references f).then fun (result, s₂) ⟨same₂, fits⟩ => ?_
  obtain ⟨i, rfl⟩ := fits (slots₁ ▸ room)
  have h₂ := h.of_eq (same₂.trans same₁)
  have holds₂ : s₂.references.holders f = some (vn, 1 + (0 : UInt16).toNat) := by
    rw [same₂, same₁, holds]
    rfl
  refine (entry_settled h₂ (fun g is => (Option.some.inj is).symm) (by decide) holds₂).then
    fun s₃ ⟨h₃, _⟩ => ?_
  refine (entered_settled h₃).then fun s₄ ⟨h₄, _⟩ => ?_
  refine (s₄.fUnlock_references f cur).then fun t same => ?_
  exact Outcome.ensures_pure.mpr (h₄.of_eq same)

/-- The files that the references count have no more entries than `n`. -/
def Few (s : Files P F V) (n : Nat) : Prop :=
  ∀ f vn m, s.references.holders f = some (vn, m) → m ≤ n

/-- A slot is copied with its reference. -/
theorem copySlots_settled (h : s.Settled d none) {n : Nat} (few : s.Few n) (source target : P)
    (slots : List (Fin 8)) (room : n + slots.length < 65536) :
    (s.copySlots source target cur slots).Ensures fun t => t.Settled d none := by
  induction slots generalizing s n with
  | nil => exact Outcome.ensures_done.mpr h
  | cons i rest ih =>
    rw [copySlots, Outcome.ensures_bind, Outcome.ensures_deref]
    intro fdesc table
    split
    · refine ih h few ?_
      simp only [List.length_cons] at room
      omega
    · rename_i f _
      refine (s.fLock_references f cur).then fun s₁ same₁ => ?_
      refine (s₁.updateTable_references target _).then fun s₂ same₂ => ?_
      refine (s₂.updateTable_references target _).then fun s₃ same₃ => ?_
      have same : s₃.references = s.references := same₃.trans (same₂.trans same₁)
      simp only [List.length_cons] at room
      have counted : (s₃.addRefcount f 1).Ensures fun t => ∃ vn m, m ≤ n ∧
          t.Settled (d + Pi.single vn (-1)) none ∧
            t.references = s₃.references.setHolder f (some (vn, m + 1)) := by
        refine s₃.addRefcount_live fun file live => ?_
        have holds := holders_live live
        have bound := few f _ _ (same ▸ holds)
        refine (entry_settled (h.of_eq same) nofun (by omega) holds).mono fun t ⟨settled, moved⟩ => ?_
        refine ⟨file.fVnode, 1 + file.fRefcount.toNat, bound, settled, ?_⟩
        rw [moved, show 1 + file.fRefcount.toNat + 1 = 2 + file.fRefcount.toNat by omega]
      refine counted.then fun s₄ ⟨vn, m, bound, h₄, same₄⟩ => ?_
      rw [get_ensures]
      intro file live
      obtain ⟨rfl, _⟩ := holders_file live (by rw [same₄, References.setHolder_self])
      refine (entered_settled h₄).then fun s₅ ⟨h₅, holders₅⟩ => ?_
      refine (s₅.fUnlock_references f cur).then fun s₆ same₆ => ?_
      refine ih (h₅.of_eq same₆) (n := n + 1) ?_ (by omega)
      intro g vn m' holds
      rw [same₆, holders₅, same₄, same] at holds
      by_cases here : g = f
      · subst here
        rw [References.setHolder_self, Option.some.injEq, Prod.mk.injEq] at holds
        omega
      · rw [References.setHolder_other here] at holds
        have before := few g vn m' holds
        omega

theorem fileCopy_settled (h : s.Settled d none) {n : Nat} (few : s.Few n) (source target : P)
    (room : n + 8 < 65536) : (s.fileCopy source target cur).Ensures fun t => t.Settled d none := by
  refine (s.updateTable_references source _).then fun s₁ same₁ => ?_
  have few₁ : s₁.Few n := by
    unfold Few
    rw [same₁]
    exact few
  refine (copySlots_settled (h.of_eq same₁) few₁ source target (List.finRange 8) (by simpa)).then
    fun s₂ h₂ => ?_
  simp only [Outcome.ensures_bind, Outcome.ensures_deref, Outcome.ensures_kassert]
  intro _ _ _ _ _
  exact (s₂.updateTable_references source _).mono fun t same => h₂.of_eq same

/-- The open fails in `vfs_open`, or everything is there that it needs after that. -/
def Opens (s : Files P F V) (p : P) (flags : UInt32) (answers : Answers F V) : Prop :=
  ∀ vn, answers.vfsOpen = .ok vn → answers.kmalloc ≠ none ∧
    (flags &&& oAppend ≠ 0 → ∃ size, answers.vopStat = .ok size) ∧
      ∃ i, s.sharing.slots (p, i) = none

theorem seek_settled (h : s.Settled d (some f)) {flags : UInt32} {answers : Answers F V}
    (holds : s.references.holders f = some (vn, 1)) (room : ∃ i, s.sharing.slots (p, i) = none)
    (stat : flags &&& oAppend ≠ 0 → ∃ size, answers.vopStat = .ok size) :
    (kOpen.seek p cur flags answers s vn f).Ensures fun (_, t) => t.Settled d none := by
  unfold kOpen.seek
  split
  · rename_i appends
    obtain ⟨size, answer⟩ := stat (by simpa using appends)
    rw [answer]
    refine ((s.updateFile_references f fun file => by simp).and
      (s.updateFile_same f fun file => by simp)).then fun s₁ ⟨same₁, slots₁⟩ => ?_
    exact attach_settled (h.of_eq same₁) (same₁ ▸ holds) (slots₁ ▸ room)
  · exact attach_settled h holds room

/-- A file that has been freed stops the open. -/
theorem seek_freed (gone : s.files f = .freed) {flags : UInt32} {answers : Answers F V}
    {Q : Except Errno (Fin 8) × Files P F V → Prop} :
    (kOpen.seek p cur flags answers s vn f).Ensures Q := by
  have stops : ∀ (g : File V P → Outcome (File V P)) {R : Files P F V → Prop},
      (s.updateFile f g).Ensures R := by
    intro g R
    rw [updateFile_ensures, gone]
    exact nofun
  unfold kOpen.seek
  split
  · split
    · rw [get_ensures, gone]
      exact nofun
    · rw [Outcome.ensures_bind]
      exact stops _
  · rw [kOpen.attach, Outcome.ensures_bind]
    exact stops _

/-- The new file holds the reference that `vfs_open` gives. -/
theorem alloc_settled (h : s.Settled d none) (unused : s.files f = .unused) (vn : V)
    (flags : UInt32) :
    let t : Files P F V := { s.vfsOpened vn with
      files := Function.update s.files f (.live ⟨vn, flags.toUInt16, 0, 0, some none⟩) }
    t.Settled d (some f) ∧ t.references.holders f = some (vn, 1) := by
  intro t
  have same : t.references = (s.references.setRefs vn (s.references.refs vn + 1)).setHolder f
      (some (vn, 1)) := by
    rw [← vfsOpened_references]
    exact (s.vfsOpened vn).alloc_references f _
  have empty : s.references.holders f = none := by simp [references, unused, Cell.value?]
  refine ⟨⟨?_, ?_⟩, by rw [same, References.setHolder_self]⟩
  · rw [same]
    have moved := (h.owes.setRefs vn (s.references.refs vn + 1)).setHolder f (some (vn, 1))
    rw [References.setRefs_holders, empty] at moved
    convert moved using 1
    funext v
    by_cases here : v = vn
    · subst here
      simp [References.holding]
    · simp [References.holding, here]
  · rw [same]
    have others : (s.references.setRefs vn (s.references.refs vn + 1)).Spare none := h.spare
    exact others.setHolder (by simp) fun _ _ _ _ => rfl

theorem kOpen_settled (h : s.Settled d none) {flags : UInt32} {answers : Answers F V}
    (opens : s.Opens p flags answers) :
    (s.kOpen p cur flags answers).Ensures fun (_, t) => t.Settled d none := by
  unfold kOpen
  split
  · exact Outcome.ensures_pure.mpr h
  · rename_i vn answer missing
    exact absurd missing (opens vn answer).1
  · rename_i vn f answer there
    obtain ⟨_, stat, room⟩ := opens vn answer
    rw [Outcome.ensures_bind, Heap.alloc_ensures]
    intro unused
    obtain ⟨settled, holds⟩ := alloc_settled h unused vn flags
    dsimp only
    split
    · exact seek_settled settled holds room stat
    · have freed : ∀ u : Files P F V, (u.kfreeFile f).Ensures fun t => t.files f = .freed := by
        intro u
        simp [kfreeFile]
      exact (freed _).then fun t gone => seek_freed gone

/-! ### One open takes one slot -/

/-- The slots of `p` but one are as they were. -/
def Fills (p : P) (s t : Files P F V) : Prop :=
  ∃ i, ∀ j, j ≠ i → t.sharing.slots (p, j) = s.sharing.slots (p, j)

theorem Fills.of_eq (same : t.sharing.slots = s.sharing.slots) : Fills p s t :=
  ⟨0, fun j _ => by rw [same]⟩

theorem attach_fills (answers : Answers F V) (vn : V) (f : F) :
    (kOpen.attach p cur answers s vn f).Ensures fun (_, t) => Fills p s t := by
  refine (s.fLock_sharing f cur).then fun s₁ same₁ => ?_
  refine (s₁.fdAttach_sharing p cur f).then fun (result, s₂) attached => ?_
  cases result with
  | error err =>
    have same₂ : s₂.sharing = s₁.sharing := attached
    refine (s₂.fUnlock_sharing f cur).then fun s₃ same₃ => ?_
    refine (s₃.vopDecref_sharing answers.reclaims vn).then fun s₄ same₄ => ?_
    refine (s₄.desFile_sharing answers.reclaims f).then fun t ⟨_, freed⟩ => ?_
    refine Outcome.ensures_pure.mpr (.of_eq ?_)
    rw [freed, Sharing.setCount_slots, same₄, same₃, same₂, same₁]
  | ok i =>
    obtain ⟨_, same₂⟩ := attached
    refine (s₂.addRefcount_sharing f 1).then fun s₃ ⟨r, _, same₃⟩ => ?_
    refine (s₃.vopIncref_sharing vn).then fun s₄ same₄ => ?_
    refine (s₄.fUnlock_sharing f cur).then fun t same => ?_
    refine Outcome.ensures_pure.mpr ⟨i, fun j differ => ?_⟩
    rw [same, same₄, same₃, Sharing.setCount_slots, same₂, Sharing.put_other (by simp [differ]),
      same₁]

theorem seek_fills (flags : UInt32) (answers : Answers F V) (vn : V) (f : F) :
    (kOpen.seek p cur flags answers s vn f).Ensures fun (_, t) => Fills p s t := by
  unfold kOpen.seek
  split
  · split
    · rw [get_ensures]
      intro file live
      refine (s.vopDecref_sharing answers.reclaims vn).then fun s₁ same₁ => ?_
      refine (s₁.desFile_sharing answers.reclaims f).then fun t ⟨_, freed⟩ => ?_
      refine Outcome.ensures_pure.mpr (.of_eq ?_)
      rw [freed, Sharing.setCount_slots, same₁]
    · refine (s.updateFile_same f fun file => by simp).then fun s₁ same₁ => ?_
      refine (attach_fills answers vn f).mono fun (_, t) ⟨i, kept⟩ => ⟨i, fun j differ => ?_⟩
      rw [kept j differ, same₁]
  · exact attach_fills answers vn f

theorem kOpen_fills (flags : UInt32) (answers : Answers F V) :
    (s.kOpen p cur flags answers).Ensures fun (_, t) => Fills p s t := by
  unfold kOpen
  split
  · exact Outcome.ensures_pure.mpr (.of_eq rfl)
  · exact Outcome.ensures_pure.mpr (.of_eq rfl)
  · rename_i vn f _ _
    rw [Outcome.ensures_bind, Heap.alloc_ensures]
    intro unused
    dsimp only
    split
    · exact seek_fills flags answers vn f
    · refine (kfreeFile_sharing _ f).then fun u freed => ?_
      refine (seek_fills flags answers vn f).mono fun (_, t) ⟨i, kept⟩ => ⟨i, fun j differ => ?_⟩
      rw [kept j differ, freed]
      rfl

/-- How many slots of `p` are free. -/
def freeSlots (s : Files P F V) (p : P) : Nat :=
  countWhere (· = none) fun i => s.sharing.slots (p, i)

theorem Fills.freeSlots (h : Fills p s t) : s.freeSlots p ≤ t.freeSlots p + 1 := by
  obtain ⟨i, kept⟩ := h
  have same : (fun j => t.sharing.slots (p, j)) =
      Function.update (fun j => s.sharing.slots (p, j)) i (t.sharing.slots (p, i)) := by
    funext j
    by_cases here : j = i
    · rw [here, Function.update_self]
    · rw [Function.update_of_ne here, kept j here]
  have moved := countWhere_update (p := (· = none)) (f := fun j => s.sharing.slots (p, j)) i
    (t.sharing.slots (p, i))
  rw [← same] at moved
  unfold Files.freeSlots
  split at moved <;> split at moved <;> omega

theorem freeSlots_pos (h : 0 < s.freeSlots p) : ∃ i, s.sharing.slots (p, i) = none :=
  countWhere_pos.mp h

/-! ### The other calls -/

theorem undoCount_references {old : Fin 8} {fdesc : Filedesc F P} (table : s.tables p = some fdesc)
    (slot : fdesc.fdOfiles old = some f) (live : s.files f = .live file)
    (left : 0 < file.fRefcount + -1) :
    (sysDup2.undoCount p reclaims s old).Ensures fun t =>
      t.references = s.references.setHolder f
        (some (file.fVnode, 1 + (file.fRefcount + -1).toNat)) := by
  unfold sysDup2.undoCount
  rw [Outcome.ensures_bind, fdLock_ensures]
  intro fdesc₁ table₁ _
  obtain rfl := Option.some.inj (table.symm.trans table₁)
  rw [Outcome.ensures_bind, Outcome.ensures_deref]
  intro fdesc₂ table₂
  rw [withTable_self, Option.some.injEq] at table₂
  subst table₂
  rw [Outcome.ensures_bind, Outcome.ensures_deref]
  intro g slot'
  obtain rfl := Option.some.inj (slot.symm.trans slot')
  refine (addRefcount_references _ f (-1)).then fun s₁ moved => ?_
  have same₁ := moved file live
  rw [get_ensures]
  intro file' live'
  obtain ⟨_, count⟩ := holders_file live' (by rw [same₁, References.setHolder_self])
  have more : 0 < file'.fRefcount := by
    obtain eq : file'.fRefcount = file.fRefcount + -1 := UInt16.toNat_inj.mp (by omega)
    rw [eq]
    exact left
  refine (s₁.updateTable_references p _).then fun t same => ?_
  rw [if_pos more]
  exact Outcome.ensures_pure.mpr (same.trans same₁)

/-- A duplicate onto the same file gives a reference and takes it back. -/
theorem sysDup2_settled (h : s.Settled d none) {oldfd newfd : Int}
    (same : s.descriptor p oldfd = none ∨ oldfd = newfd ∨
      s.descriptor p newfd = s.descriptor p oldfd) :
    (s.sysDup2 p oldfd newfd reclaims).Ensures fun (_, t) => t.Settled d none := by
  unfold sysDup2
  split
  · rw [Outcome.ensures_bind, Outcome.ensures_deref]
    intro fdesc table
    rw [Outcome.ensures_bind, Outcome.ensures_deref]
    intro old inside
    split
    · exact Outcome.ensures_pure.mpr h
    · rename_i f slot
      split
      · exact Outcome.ensures_pure.mpr h
      · rename_i differ
        rw [Outcome.ensures_bind, Outcome.ensures_deref]
        intro new inside'
        have there : fdesc.fdOfiles new = some f := by
          simpa [descriptor, inside, inside', slots_table table, slot, differ] using same
        refine dup2_shared table slot fun file live _ => ?_
        rw [if_pos (by rw [there]; rfl)]
        have back : file.fRefcount + 1 + -1 = file.fRefcount := by
          rw [UInt16.add_assoc]
          exact UInt16.add_zero _
        have positive : 0 < file.fRefcount := by
          by_contra zero
          have few : 1 + file.fRefcount.toNat ≤ 1 := by
            rw [UInt16.lt_iff_toNat_lt] at zero
            have : (0 : UInt16).toNat = 0 := rfl
            omega
          cases h.spare f _ _ (holders_live live) few
        have still : Function.update fdesc.fdOfiles new (some f) old = some f := by
          by_cases here : old = new
          · rw [here, Function.update_self]
          · rw [Function.update_of_ne here]
            exact slot
        have given := (s.withTable p { fdesc with
          fdOfiles := Function.update fdesc.fdOfiles new (some f) }).alloc_references f
            { file with fRefcount := file.fRefcount + 1 }
        have table' : ((s.withTable p { fdesc with
          fdOfiles := Function.update fdesc.fdOfiles new (some f) }).withFile f
            { file with fRefcount := file.fRefcount + 1 }).tables p = some { fdesc with
              fdOfiles := Function.update fdesc.fdOfiles new (some f) } := withTable_self
        have left : 0 < file.fRefcount + 1 + -1 := by
          rw [back]
          exact positive
        refine (undoCount_references table' still withFile_same left).then fun t taken => ?_
        refine Outcome.ensures_pure.mpr (h.of_eq ?_)
        rw [taken, withFile, given, References.setHolder_setHolder]
        apply References.setHolder_same
        rw [back]
        exact holders_live live
  · exact Outcome.ensures_pure.mpr h

theorem sysClose_settled (h : s.Settled d none) {fd : Int} (closed : s.descriptor p fd = none) :
    (s.sysClose p fd reclaims).Ensures fun (_, t) => t.Settled d none := by
  unfold sysClose
  split
  · exact Outcome.ensures_pure.mpr h
  · rw [Outcome.ensures_bind, Outcome.ensures_deref]
    intro fdesc table
    rw [Outcome.ensures_bind, Outcome.ensures_deref]
    intro i inside
    have empty : fdesc.fdOfiles i = none := by
      simpa [descriptor, inside, slots_table table] using closed
    simp only [empty]
    exact Outcome.ensures_pure.mpr h

theorem sysOpen_settled (h : s.Settled d none) {copied : Option Errno} {flags : UInt32}
    {garbage : Int} {answers : Answers F V}
    (opens : validFlags flags = true → copied = none → s.Opens p flags answers) :
    (s.sysOpen p copied flags garbage answers).Ensures fun (_, t) => t.Settled d none := by
  unfold sysOpen
  split
  · rename_i valid
    split
    · exact Outcome.ensures_pure.mpr h
    · refine (kOpen_settled h (opens valid rfl)).then ?_
      rintro ⟨result, t⟩ settled
      cases result <;> exact Outcome.ensures_pure.mpr settled
  · exact Outcome.ensures_pure.mpr h

theorem fdCreate_references {room : Bool × Bool} (created : s.fdCreate p room = .ok t) :
    t.references = s.references := by
  unfold fdCreate at created
  split at created
  · obtain rfl := Except.ok.inj created
    rfl
  · cases created

theorem fdDestroy_references (s : Files P F V) (p : P) :
    (s.fdDestroy p).Ensures fun t => t.references = s.references := by
  unfold fdDestroy
  rw [Outcome.ensures_bind, Outcome.ensures_deref]
  intro fdesc table
  rw [Outcome.ensures_bind, Outcome.ensures_kassert]
  intro _
  refine (s.updateTable_references p _).then fun s₁ same => ?_
  exact Outcome.ensures_pure.mpr same

/-- Three opens without `O_APPEND` find a slot in a new table. -/
theorem openEach_settled (h : s.Settled d none) (nonneg : ∀ v, 0 ≤ d v)
    (lets : ∀ v, reclaims v = false → 0 < d v) (opens : List (UInt32 × Answers F V))
    (room : opens.length ≤ s.freeSlots p) (plain : ∀ o ∈ opens, o.1 &&& oAppend = 0)
    (there : ∀ o ∈ opens, ∀ vn, o.2.vfsOpen = .ok vn → o.2.kmalloc ≠ none) :
    (FileCalls.openStandardFiles.openEach p cur reclaims s opens).Ensures fun (_, t) =>
      t.Settled d none := by
  induction opens generalizing s with
  | nil => exact Outcome.ensures_pure.mpr h
  | cons first rest ih =>
    obtain ⟨flags, answers⟩ := first
    simp only [List.length_cons] at room
    have free : s.Opens p flags answers := by
      intro vn answer
      refine ⟨there _ List.mem_cons_self vn answer, fun appends => ?_, freeSlots_pos (by omega)⟩
      exact absurd (plain _ List.mem_cons_self) appends
    refine ((kOpen_settled h free).and (kOpen_fills flags answers)).then
      fun (result, t) ⟨settled, fills⟩ => ?_
    cases result with
    | ok i =>
      have left := fills.freeSlots
      exact ih settled (by omega) (fun o member => plain o (List.mem_cons_of_mem _ member))
        fun o member => there o (List.mem_cons_of_mem _ member)
    | error err =>
      refine (closeAllF_settled settled nonneg lets).then fun (_, u) closed => ?_
      exact Outcome.ensures_pure.mpr closed

end Files

namespace FileCalls

open Files

variable {P F V : Type} [DecidableEq P] [DecidableEq F] [DecidableEq V]
variable {s : State P F V} {files after : Files P F V} {p cur : P} {reclaims : Reclaims V}

/-- The references to a vnode that a file implies: one for the open and one for each entry. -/
def implied (s : Files P F V) (vn : V) (f : F) : Nat :=
  match s.files f with
  | .live file => if file.fVnode = vn then 1 + file.fRefcount.toNat else 0
  | _ => 0

/-- The vnode references that the open-file layer holds are those that its files imply, besides
`base`, which others hold. -/
structure VnodesBalanced [Fintype P] (base : V → Nat) (s : Files P F V) : Prop where
  counted : s.Counted
  entries : ∀ f file, s.files f = .live file → 0 < file.fRefcount
  references : ∃ live : Finset F, (∀ f, f ∈ live ↔ ∃ file, s.files f = .live file) ∧
    ∀ vn, (s.vnodes vn).getD 0 = base vn + ∑ f ∈ live, implied s vn f

/-- A vnode that nothing else holds is let go with its last reference. -/
def Lets (base : V → Nat) (reclaims : Reclaims V) : Prop :=
  ∀ vn, reclaims vn = false → 0 < base vn

/-- The calls that keep the references balanced. -/
def Balances (base : V → Nat) (s : State P F V) : Action P F V → Prop
  | .start _ _ _ answers _ reclaims =>
    (∀ i vn, (answers i).vfsOpen = .ok vn → (answers i).kmalloc ≠ none) ∧ Lets base reclaims
  | .open cur copied flags _ answers =>
    validFlags flags = true → copied = none → s.files.Opens cur flags answers
  | .dup2 cur oldfd newfd _ =>
    s.files.descriptor cur oldfd = none ∨ oldfd = newfd ∨
      s.files.descriptor cur newfd = s.files.descriptor cur oldfd
  | .close cur fd _ => s.files.descriptor cur fd = none
  | .fork _ _ _ _ reclaims => Lets base reclaims
  | .exit _ reclaims => Lets base reclaims
  | .reap _ => True

/-- What the files owe when the references are balanced. -/
abbrev Even (base : V → Nat) (s : Files P F V) : Prop := s.Settled (fun vn => (base vn : Int)) none

variable {base : V → Nat}

theorem Lets.owed (h : Lets base reclaims) (v : V) (stays : reclaims v = false) :
    0 < (base v : Int) := by
  have := h v stays
  omega

theorem owed_nonneg (v : V) : 0 ≤ (base v : Int) := Int.natCast_nonneg _

section Steps

variable [Fintype P]

theorem procCreate_even (h : Even base s.files) (p : P) (room : Bool × Bool) :
    (s.procCreate p room).Ensures fun result => ∀ files, result = .ok files → Even base files := by
  rw [State.procCreate, Outcome.ensures_bind, Outcome.ensures_await]
  intro _
  split
  · rw [Outcome.ensures_pure]
    intro files created
    exact h.of_eq (fdCreate_references created)
  · exact Outcome.ensures_pure.mpr (by simp)

theorem abandon_even (h : Even base files) (lets : Lets base reclaims) :
    (s.abandon files p cur reclaims).Ensures fun t => Even base t.files := by
  refine (closeAllF_settled h owed_nonneg lets.owed).then fun (_, after) closed => ?_
  refine (after.fdDestroy_references p).then fun t same => ?_
  exact Outcome.ensures_pure.mpr (closed.of_eq same)

theorem start_even (inv : Inv s) (h : Even base s.files) (cur p : P) (room : Bool × Bool)
    (answers : Fin 3 → Answers F V) (threaded : Bool)
    (there : ∀ i vn, (answers i).vfsOpen = .ok vn → (answers i).kmalloc ≠ none)
    (lets : Lets base reclaims) :
    (s.start cur p room answers threaded reclaims).Ensures fun t => Even base t.files := by
  rw [State.start, Outcome.ensures_bind, Outcome.ensures_await]
  intro _
  refine ((procCreate_fresh inv p room).and (procCreate_even h p room)).then ?_
  rintro result ⟨created, evened⟩
  cases result with
  | error err => exact Outcome.ensures_pure.mpr h
  | ok files =>
    have even := evened files rfl
    have empty := (created files rfl).2
    have free : files.freeSlots p = 8 := by
      simp [freeSlots, empty, countWhere]
    refine (openEach_settled even owed_nonneg lets.owed _ (by rw [free]; simp) ?_ ?_).then ?_
    · intro o member
      simp only [List.mem_cons, List.not_mem_nil, or_false] at member
      rcases member with rfl | rfl | rfl
      · show oRdonly &&& oAppend = 0
        decide
      · show oWronly &&& oAppend = 0
        decide
      · show oWronly &&& oAppend = 0
        decide
    · intro o member vn answer
      simp only [List.mem_cons, List.not_mem_nil, or_false] at member
      rcases member with rfl | rfl | rfl <;> exact there _ vn answer
    · rintro ⟨result, after⟩ settled
      cases result with
      | error err =>
        refine (after.fdDestroy_references p).then fun t same => ?_
        exact Outcome.ensures_pure.mpr (settled.of_eq same)
      | ok _ =>
        cases threaded with
        | true => exact Outcome.ensures_pure.mpr settled
        | false => exact abandon_even settled lets

theorem fork_even (inv : Inv s) (h : Even base s.files) (cur p : P) (room : Bool × Bool)
    (threaded : Bool) (lets : Lets base reclaims) :
    (s.fork cur p room threaded reclaims).Ensures fun t => Even base t.files := by
  rw [State.fork, Outcome.ensures_bind, Outcome.ensures_await]
  intro _
  refine ((procCreate_fresh inv p room).and (procCreate_even h p room)).then ?_
  rintro result ⟨created, evened⟩
  cases result with
  | error err => exact Outcome.ensures_fault
  | ok files =>
    have even := evened files rfl
    obtain ⟨fresh, _⟩ := created files rfl
    have few : files.Few 257 := by
      intro f vn m holds
      cases there : files.files f with
      | live file =>
        have count := counts_file (value_live.mpr there)
        have small := fresh.held.small (owners_room fresh.room) count
        have value := (holders_file there holds).2
        omega
      | _ => simp [Files.references, there, Cell.value?] at holds
    refine (fileCopy_settled even few cur p (by omega)).then fun after settled => ?_
    cases threaded with
    | true => exact Outcome.ensures_pure.mpr settled
    | false => exact abandon_even settled lets

theorem step_even (inv : Inv s) (h : Even base s.files) (a : Action P F V) (keeps : Balances base s a) :
    (s.step a).Ensures fun t => Even base t.files := by
  cases a with
  | start cur p room answers threaded reclaims =>
    exact start_even inv h cur p room answers threaded keeps.1 keeps.2
  | «open» cur copied flags garbage answers =>
    rw [State.step, Outcome.ensures_bind, Outcome.ensures_await]
    intro _
    refine (sysOpen_settled h keeps).then ?_
    rintro ⟨_, after⟩ settled
    exact Outcome.ensures_pure.mpr settled
  | dup2 cur oldfd newfd reclaims =>
    rw [State.step, Outcome.ensures_bind, Outcome.ensures_await]
    intro _
    refine (sysDup2_settled h keeps).then ?_
    rintro ⟨_, after⟩ settled
    exact Outcome.ensures_pure.mpr settled
  | close cur fd reclaims =>
    rw [State.step, Outcome.ensures_bind, Outcome.ensures_await]
    intro _
    refine (sysClose_settled h keeps).then ?_
    rintro ⟨_, after⟩ settled
    exact Outcome.ensures_pure.mpr settled
  | fork cur p room threaded reclaims => exact fork_even inv h cur p room threaded keeps
  | exit cur reclaims =>
    rw [State.step, State.exit, Outcome.ensures_bind, Outcome.ensures_await]
    intro _
    refine (closeAllF_settled h owed_nonneg (Lets.owed keeps)).then ?_
    rintro ⟨_, after⟩ settled
    rw [Outcome.ensures_bind, Outcome.ensures_kassert]
    exact fun _ => Outcome.ensures_pure.mpr settled
  | reap p =>
    rw [State.step, State.reap, Outcome.ensures_bind, Outcome.ensures_await]
    intro _
    refine (s.files.fdDestroy_references p).then fun t same => ?_
    exact Outcome.ensures_pure.mpr (h.of_eq same)

/-- A call that keeps the references keeps the counts. -/
theorem Balances.keeps {a : Action P F V} (h : Balances base s a) : Keeps s a := by
  cases a with
  | dup2 cur oldfd newfd reclaims =>
    rcases h with closed | rfl | same
    · exact .inl closed
    · exact .inr (.inr rfl)
    · exact .inr (.inr same)
  | close cur fd reclaims =>
    intro f there
    rw [show s.files.descriptor cur fd = none from h] at there
    cases there
  | _ => trivial

/-- The machine of the calls, from a start at which others hold `base` of every vnode. -/
def machineOver (p0 : P) (base : V → Nat) : Machine (State P F V) (Action P F V) where
  initial s := (machine p0).initial s ∧ ∀ vn, (s.files.vnodes vn).getD 0 = base vn
  step s a := s.step a

theorem initial_even {p0 : P} (start : (machineOver p0 base).initial s) : Even base s.files := by
  obtain ⟨⟨_, files, _⟩, vnodes⟩ := start
  have none_held : ∀ f, s.files.references.holders f = none := by
    intro f
    simp [Files.references, files, Cell.value?]
  refine ⟨⟨∅, fun f there => absurd (none_held f) there, ?_⟩, fun f vn n holds => ?_⟩
  · funext vn
    simp [Files.references, vnodes]
  · rw [none_held] at holds
    cases holds

theorem runs_even {p0 : P} (h : (machineOver p0 base).ReachableBy (Balances base) s) :
    Inv s ∧ Even base s.files :=
  (machineOver p0 base).invariant_ensures (fun _ start => ⟨initial_inv start.1, initial_even start⟩)
    (fun _ a both keeps => (step_inv both.1 a keeps.keeps).and (step_even both.1 both.2 a keeps)) h

theorem even_entries {files : Files P F V} (h : Even base files) {f : F} {file : File V P}
    (live : files.files f = .live file) : 0 < file.fRefcount := by
  by_contra zero
  have few : 1 + file.fRefcount.toNat ≤ 1 := by
    rw [UInt16.lt_iff_toNat_lt] at zero
    have : (0 : UInt16).toNat = 0 := rfl
    omega
  cases h.spare f _ _ (holders_live live) few

theorem holding_implied (files : Files P F V) (f : F) (vn : V) :
    References.holding (files.references.holders f) vn = implied files vn f := by
  unfold implied
  cases there : files.files f with
  | live file =>
    rw [holders_live there]
    by_cases same : file.fVnode = vn
    · subst same
      simp [References.holding]
    · simp [References.holding, same, Ne.symm same]
  | _ => simp [Files.references, there, Cell.value?, References.holding]

theorem holders_ne_none {files : Files P F V} {f : F} :
    files.references.holders f ≠ none ↔ ∃ file, files.files f = .live file := by
  cases there : files.files f with
  | live file => simp [holders_live there]
  | _ => simp [Files.references, there, Cell.value?]

/-- The balance over the files that are there. -/
theorem even_references {files : Files P F V} (h : Even base files) :
    ∃ live : Finset F, (∀ f, f ∈ live ↔ ∃ file, files.files f = .live file) ∧
      ∀ vn, (files.vnodes vn).getD 0 = base vn + ∑ f ∈ live, implied files vn f := by
  obtain ⟨S, all, balance⟩ := h.owes
  refine ⟨S.filter fun f => (files.references.holders f).isSome, fun f => ?_, fun vn => ?_⟩
  · rw [Finset.mem_filter, Option.isSome_iff_ne_none, holders_ne_none]
    exact and_iff_right_of_imp fun there => all f (holders_ne_none.mpr there)
  · have total := congrFun balance vn
    simp only [Pi.add_apply, Finset.sum_apply, holding_implied] at total
    have outside : ∀ f ∈ S, f ∉ S.filter (fun f => (files.references.holders f).isSome) →
        implied files vn f = 0 := by
      intro f member left
      have gone : files.references.holders f = none := by
        by_contra there
        exact left (Finset.mem_filter.mpr ⟨member, Option.isSome_iff_ne_none.mpr there⟩)
      have zero := holding_implied files f vn
      rw [gone] at zero
      exact Int.natCast_eq_zero.mp zero.symm
    rw [Finset.sum_subset (Finset.filter_subset _ S) outside]
    have refs : files.references.refs vn = (files.vnodes vn).getD 0 := rfl
    rw [← refs]
    exact_mod_cast total

/-- In every run whose calls all keep them, the references are balanced, and a vnode that no open
file is on has the references that it had before. -/
theorem vnodes_balanced {p0 : P} (h : (machineOver p0 base).ReachableBy (Balances base) s) :
    VnodesBalanced base s.files ∧
      ∀ vn, (∀ place f file, s.files.sharing.slots place = some f → s.files.files f = .live file →
        file.fVnode ≠ vn) → (s.files.vnodes vn).getD 0 = base vn := by
  obtain ⟨inv, even⟩ := runs_even h
  have counted := counted_iff.mpr inv.held.balanced
  refine ⟨⟨counted, fun f file live => even_entries even live, even_references even⟩, ?_⟩
  intro vn apart
  have unheld : ∀ f n, s.files.references.holders f ≠ some (vn, n) := by
    intro f n holds
    cases there : s.files.files f with
    | live file =>
      have some_entry := counted.refcount f file there
      have entries : 0 < file.fRefcount.toNat := UInt16.lt_iff_toNat_lt.mp (even_entries even there)
      rw [some_entry] at entries
      obtain ⟨place, slot⟩ := countWhere_pos.mp entries
      exact apart place f file slot there (holders_file there holds).1
    | _ => simp [Files.references, there, Cell.value?] at holds
  have total : ((s.files.vnodes vn).getD 0 : Int) = base vn := even.owes.unheld unheld
  exact_mod_cast total

end Steps

section Runs

/-- A program is started, its files are shared by a fork, and closed by two exits. -/
theorem vnodes_balanced_exits : ∃ s : State (Fin 3) Nat Unit,
    (machineOver 0 fun _ => 1).ReachableBy (Balances fun _ => 1) s ∧
      s.files.vnodes () = some 1 ∧ VnodesBalanced (fun _ => 1) s.files := by
  have passes : ((machineOver (0 : Fin 3) (fun _ : Unit => 1)).run boot
      [startOne, .fork 1 2 (true, true) true fun _ => false, .exit 1 fun _ => false,
        .exit 2 fun _ => false]).passes (fun s => decide (s.files.vnodes () = some 1)) = true := by
    decide +kernel
  obtain ⟨s, run, closed⟩ := Outcome.passes_done passes
  have stays : Lets (fun _ : Unit => 1) fun _ => false := fun _ _ => Nat.one_pos
  have reached : (machineOver (0 : Fin 3) (fun _ : Unit => 1)).ReachableBy
      (Balances fun _ => 1) s := by
    refine .runAll _ (.initial ⟨⟨rfl, fun _ => rfl, rfl⟩, fun _ => rfl⟩) (fun a member u => ?_) run
    simp only [List.mem_cons, List.not_mem_nil, or_false] at member
    rcases member with rfl | rfl | rfl | rfl
    · exact ⟨fun _ _ _ => nofun, stays⟩
    · exact stays
    · exact stays
    · exact stays
  exact ⟨s, reached, of_decide_eq_true closed, (vnodes_balanced reached).1⟩

/-- Process `1` duplicates its descriptor `0`, and the console has a reference too few. -/
theorem vnodes_unbalanced : ∃ s : State (Fin 3) Nat Unit,
    (machineOver 0 fun _ => 1).Reachable s ∧ ¬ VnodesBalanced (fun _ => 1) s.files := by
  have passes : ((machineOver (0 : Fin 3) (fun _ : Unit => 1)).run boot
      [startOne, .dup2 1 0 3 fun _ => false]).passes (fun s => decide (s.files.vnodes () = some 7 ∧
        implied s.files () 0 = 3 ∧ implied s.files () 1 = 2 ∧ implied s.files () 2 = 2)) = true := by
    decide +kernel
  obtain ⟨s, run, checked⟩ := Outcome.passes_done passes
  obtain ⟨refs, first, second, third⟩ := of_decide_eq_true checked
  refine ⟨s, .run _ (.initial ⟨⟨rfl, fun _ => rfl, rfl⟩, fun _ => rfl⟩) run, fun balanced => ?_⟩
  obtain ⟨live, isLive, total⟩ := balanced.references
  have there : ∀ f, implied s.files () f ≠ 0 → f ∈ live := by
    intro f some'
    apply (isLive f).mpr
    unfold implied at some'
    split at some'
    · exact ⟨_, by assumption⟩
    · exact absurd rfl some'
  have inside : ({0, 1, 2} : Finset Nat) ⊆ live := by
    intro f member
    apply there f
    simp only [Finset.mem_insert, Finset.mem_singleton] at member
    rcases member with rfl | rfl | rfl <;> omega
  have part := Finset.sum_le_sum_of_subset (f := implied s.files ()) inside
  have three : ∑ f ∈ ({0, 1, 2} : Finset Nat), implied s.files () f = 7 := by
    simp [first, second, third]
  have all := total ()
  rw [refs] at all
  simp only [Option.getD_some] at all
  omega

end Runs

end FileCalls

end Os161
