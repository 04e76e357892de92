import Mathlib.Data.Fintype.Prod
import Os161.Base.Sharing
import Os161.File.Layer

/-!
# Open files as shared objects

The slots of all tables, and the `f_refcount` of each live file: what each function of the layer
does to them, and which of them keep the counts right.
-/

set_option linter.unusedSectionVars false

namespace Os161

namespace Files

variable {P F V : Type}

/-- The slots of all tables and the counts of the live files. -/
def sharing (s : Files P F V) : Sharing (P × Fin 8) F where
  slots place := (s.tables place.1).bind fun fdesc => fdesc.fdOfiles place.2
  counts f := (s.files f).value?.map fun file => file.fRefcount.toNat

theorem slots_table {s : Files P F V} {p : P} {fdesc : Filedesc F P} (table : s.tables p = some fdesc)
    (i : Fin 8) : s.sharing.slots (p, i) = fdesc.fdOfiles i := by
  simp [sharing, table]

theorem counts_file {s : Files P F V} {f : F} {file : File V P}
    (live : (s.files f).value? = some file) :
    s.sharing.counts f = some file.fRefcount.toNat := by
  simp [sharing, live]

variable [DecidableEq P] [DecidableEq F] [DecidableEq V]

section Primitives

variable (s : Files P F V)

theorem updateTable_sharing (p : P) {g : Filedesc F P → Outcome (Filedesc F P)}
    (keep : ∀ a, (g a).Ensures fun b => b.fdOfiles = a.fdOfiles) :
    (s.updateTable p g).Ensures fun t => t.sharing = s.sharing := by
  simp only [updateTable, Outcome.ensures_bind, Outcome.ensures_deref, Outcome.ensures_pure]
  intro fdesc table
  refine (keep fdesc).mono fun after same => ?_
  simp only [sharing, Sharing.mk.injEq, and_true]
  funext ⟨q, i⟩
  by_cases here : q = p
  · subst here
    simp [table, same]
  · simp [here]

theorem updateFile_sharing (f : F) {g : File V P → Outcome (File V P)} {n : UInt16}
    (count : ∀ a, (g a).Ensures fun b => b.fRefcount = a.fRefcount + n) :
    (s.updateFile f g).Ensures fun t => ∃ r : UInt16, s.sharing.counts f = some r.toNat ∧
      t.sharing = s.sharing.setCount f (some (r + n).toNat) := by
  simp only [updateFile, Outcome.ensures_bind, Heap.modify_ensures, Outcome.ensures_pure]
  intro file live
  refine (count file).mono fun after same => ⟨file.fRefcount, counts_file live, ?_⟩
  simp only [sharing, Sharing.setCount, Sharing.mk.injEq, true_and]
  funext g
  by_cases here : g = f
  · subst here
    simp [Cell.value?, same]
  · simp [here]

theorem updateFile_same (f : F) {g : File V P → Outcome (File V P)}
    (keep : ∀ a, (g a).Ensures fun b => b.fRefcount = a.fRefcount) :
    (s.updateFile f g).Ensures fun t => t.sharing = s.sharing := by
  have moved := s.updateFile_sharing f (n := 0) fun a => (keep a).mono fun b same => by simp [same]
  refine moved.mono fun t ⟨r, count, after⟩ => ?_
  rw [after, UInt16.add_zero, ← count]
  simp [Sharing.setCount]

theorem fdLock_sharing (p cur : P) :
    (s.fdLock p cur).Ensures fun t => t.sharing = s.sharing :=
  s.updateTable_sharing p fun a => by simp

theorem fdUnlock_sharing (p cur : P) :
    (s.fdUnlock p cur).Ensures fun t => t.sharing = s.sharing :=
  s.updateTable_sharing p fun a => by simp

theorem fdLockDestroy_sharing (p : P) :
    (s.fdLockDestroy p).Ensures fun t => t.sharing = s.sharing :=
  s.updateTable_sharing p fun a => by simp

theorem addNfiles_sharing (p : P) (n : UInt16) :
    (s.addNfiles p n).Ensures fun t => t.sharing = s.sharing :=
  s.updateTable_sharing p fun a => by simp

theorem fLock_sharing (f : F) (cur : P) :
    (s.fLock f cur).Ensures fun t => t.sharing = s.sharing :=
  s.updateFile_same f fun a => by simp

theorem fUnlock_sharing (f : F) (cur : P) :
    (s.fUnlock f cur).Ensures fun t => t.sharing = s.sharing :=
  s.updateFile_same f fun a => by simp

theorem fLockDestroy_sharing (f : F) :
    (s.fLockDestroy f).Ensures fun t => t.sharing = s.sharing :=
  s.updateFile_same f fun a => by simp

theorem addRefcount_sharing (f : F) (n : UInt16) :
    (s.addRefcount f n).Ensures fun t => ∃ r : UInt16, s.sharing.counts f = some r.toNat ∧
      t.sharing = s.sharing.setCount f (some (r + n).toNat) :=
  s.updateFile_sharing f fun a => by simp

theorem vopIncref_sharing (vn : V) :
    (s.vopIncref vn).Ensures fun t => t.sharing = s.sharing := by
  simp [vopIncref, sharing]

theorem vopDecref_sharing (reclaims : Reclaims V) (vn : V) :
    (s.vopDecref reclaims vn).Ensures fun t => t.sharing = s.sharing := by
  simp only [vopDecref, Outcome.ensures_bind, Outcome.ensures_deref, Outcome.ensures_kassert]
  intro count _ _
  split
  · simp [sharing]
  · split <;> simp [sharing]

theorem setSlot_sharing (p : P) (i : Fin 8) (o : Option F) :
    (s.setSlot p i o).Ensures fun t => t.sharing = s.sharing.put (p, i) o := by
  simp only [setSlot, updateTable, Outcome.ensures_bind, Outcome.ensures_deref,
    Outcome.ensures_pure]
  intro fdesc table
  simp only [sharing, Sharing.put, Sharing.mk.injEq, and_true]
  funext slot
  obtain ⟨q, j⟩ := slot
  by_cases here : q = p
  · subst here
    by_cases there : j = i
    · subst there
      simp
    · simp [there, table]
  · simp [here]

/-- A new file has no references yet. -/
theorem alloc_sharing (f : F) (vn : V) (file : File V P) (zero : file.fRefcount = 0) :
    ({ s.vfsOpened vn with files := Function.update s.files f (.live file) } :
      Files P F V).sharing = s.sharing.setCount f (some 0) := by
  simp only [sharing, vfsOpened, Sharing.setCount, Sharing.mk.injEq, true_and]
  funext g
  by_cases here : g = f
  · subst here
    simp [Cell.value?, zero]
  · simp [here]

theorem kfreeFile_sharing (f : F) :
    (s.kfreeFile f).Ensures fun t => t.sharing = s.sharing.setCount f none := by
  simp only [kfreeFile, Outcome.ensures_bind, Heap.free_ensures, Outcome.ensures_pure]
  intro file live
  simp only [sharing, Sharing.setCount, Sharing.mk.injEq, true_and]
  funext g
  by_cases here : g = f
  · subst here
    simp [Cell.value?]
  · simp [here]

end Primitives

section Functions

variable (s : Files P F V)

theorem deref_slot {α : Type} (p : P) {g : Filedesc F P → Outcome α} {Q : α → Prop}
    (rest : ∀ fdesc, (∀ i, s.sharing.slots (p, i) = fdesc.fdOfiles i) → (g fdesc).Ensures Q) :
    (Outcome.deref (s.tables p) >>= g).Ensures Q := by
  simp only [Outcome.ensures_bind, Outcome.ensures_deref]
  exact fun fdesc table => rest fdesc (slots_table table)

theorem get_count {α : Type} (f : F) {g : File V P → Outcome α} {Q : α → Prop}
    (rest : ∀ file, s.sharing.counts f = some file.fRefcount.toNat → (g file).Ensures Q) :
    (s.files.get f >>= g).Ensures Q := by
  simp only [Outcome.ensures_bind, Heap.get_ensures]
  exact fun file live => rest file (counts_file live)

/-- A table without open files can come and go. -/
theorem emptyTable_sharing (p : P) (o : Option (Filedesc F P))
    (empty : ∀ i, s.sharing.slots (p, i) = none) (new : ∀ fdesc ∈ o, ∀ i, fdesc.fdOfiles i = none) :
    ({ s with tables := Function.update s.tables p o } : Files P F V).sharing = s.sharing := by
  simp only [sharing, Sharing.mk.injEq, and_true]
  funext ⟨q, i⟩
  by_cases here : q = p
  · subst here
    have before := empty i
    cases o with
    | none => simpa [sharing] using before.symm
    | some fdesc => simpa [sharing, new fdesc rfl i] using before.symm
  · simp [here]

theorem fdDestroy_sharing (p : P) (empty : ∀ i, s.sharing.slots (p, i) = none) :
    (s.fdDestroy p).Ensures fun t => t.sharing = s.sharing := by
  refine s.deref_slot p fun fdesc _ => ?_
  simp only [Outcome.ensures_bind, Outcome.ensures_kassert]
  intro _
  refine (s.fdLockDestroy_sharing p).mono fun t same => ?_
  rw [← same] at empty
  rw [Outcome.ensures_pure, t.emptyTable_sharing p none empty (by simp), same]

theorem desFile_sharing (reclaims : Reclaims V) (f : F) : (s.desFile reclaims f).Ensures fun t =>
    s.sharing.counts f = some 0 ∧ t.sharing = s.sharing.setCount f none := by
  refine s.get_count f fun file count => ?_
  simp only [Outcome.ensures_bind, Outcome.ensures_kassert]
  intro zero
  refine (s.vopDecref_sharing reclaims file.fVnode).mono fun s₁ same₁ => ?_
  refine (s₁.fLockDestroy_sharing f).mono fun s₂ same₂ => ?_
  refine (s₂.kfreeFile_sharing f).mono fun t freed => ⟨by rw [count, zero]; rfl, ?_⟩
  rw [freed, same₂, same₁]

theorem fdAttach_sharing (p cur : P) (f : F) : (s.fdAttach p cur f).Ensures fun (result, t) =>
    match result with
    | .ok i => s.sharing.slots (p, i) = none ∧ t.sharing = s.sharing.put (p, i) (some f)
    | .error _ => t.sharing = s.sharing := by
  refine (s.fdLock_sharing p cur).then fun s₁ same₁ => s₁.deref_slot p fun fdesc slots => ?_
  split
  · rename_i i found
    have empty : s.sharing.slots (p, i) = none := by
      have isNone := List.find?_some found
      rw [← same₁, slots]
      simpa using isNone
    refine (s₁.setSlot_sharing p i (some f)).then fun s₂ same₂ => ?_
    refine (s₂.addNfiles_sharing p 1).then fun s₃ same₃ => ?_
    refine (s₃.fdUnlock_sharing p cur).then fun t same₄ => ?_
    exact Outcome.ensures_pure.mpr ⟨empty, by rw [same₄, same₃, same₂, same₁]⟩
  · refine (s₁.fdUnlock_sharing p cur).then fun t same₂ => ?_
    exact Outcome.ensures_pure.mpr (same₂.trans same₁)

theorem fdDetach_sharing (p cur : P) (i : Fin 8) : (s.fdDetach p cur i).Ensures fun t =>
    t.sharing = s.sharing.put (p, i) none := by
  refine (s.fdLock_sharing p cur).then fun s₁ same₁ => ?_
  refine (s₁.setSlot_sharing p i none).then fun s₂ same₂ => ?_
  refine (s₂.addNfiles_sharing p (-1)).then fun s₃ same₃ => ?_
  refine (s₃.fdUnlock_sharing p cur).mono fun t same₄ => ?_
  rw [same₄, same₃, same₂, same₁]

theorem getFile_sharing (p cur : P) (i : Fin 8) : (s.getFile p cur i).Ensures fun (result, t) =>
    t.sharing = s.sharing ∧
      match result with
      | .ok f => s.sharing.slots (p, i) = some f
      | .error _ => s.sharing.slots (p, i) = none := by
  have inside : index ((i : Nat) : Int) = some i := by
    unfold index
    split
    · simp
    · omega
  rw [getFile, inside]
  refine (s.fdLock_sharing p cur).then fun s₁ same₁ => s₁.deref_slot p fun fdesc slots => ?_
  rw [same₁] at slots
  split
  · rename_i f slot
    refine (s₁.fLock_sharing f cur).then fun s₂ same₂ => ?_
    refine (s₂.fdUnlock_sharing p cur).then fun t same₃ => Outcome.ensures_pure.mpr ⟨?_, ?_⟩
    · rw [same₃, same₂, same₁]
    · rw [slots, slot]
  · rename_i slot
    refine (s₁.fdUnlock_sharing p cur).then fun t same₂ => Outcome.ensures_pure.mpr ⟨?_, ?_⟩
    · rw [same₂, same₁]
    · rw [slots, slot]

/-- `des_descriptor` empties the slot and takes one reference, and frees the file with the last. -/
theorem desDescriptor_sharing (p cur : P) (reclaims : Reclaims V) (i : Fin 8) :
    (s.desDescriptor p cur reclaims i).Ensures fun (result, t) =>
      match result with
      | .error _ => s.sharing.slots (p, i) = none ∧ t.sharing = s.sharing
      | .ok _ => ∃ f, ∃ r : UInt16, s.sharing.slots (p, i) = some f ∧
          s.sharing.counts f = some r.toNat ∧
          (t.sharing = (s.sharing.put (p, i) none).setCount f (some (r + -1).toNat) ∨
            (r + -1).toNat = 0 ∧ t.sharing = ((s.sharing.put (p, i) none).setCount f
              (some (r + -1).toNat)).setCount f none) := by
  refine (s.getFile_sharing p cur i).then fun (result, s₁) ⟨same₁, slot⟩ => ?_
  cases result with
  | error err => exact Outcome.ensures_pure.mpr ⟨slot, same₁⟩
  | ok f =>
    refine s₁.get_count f fun file count => ?_
    simp only [Outcome.ensures_bind, Outcome.ensures_kassert]
    intro _
    refine (s₁.fdDetach_sharing p cur i).mono fun s₂ same₂ => ?_
    refine (s₂.addRefcount_sharing f (-1)).mono fun s₃ ⟨r, countr, same₃⟩ => ?_
    rw [same₁] at same₂
    rw [same₂] at countr same₃
    refine (s₃.vopDecref_sharing reclaims file.fVnode).mono fun s₄ same₄ => ?_
    refine Outcome.ensures_bind.mp (s₄.get_count f fun file count => ?_)
    split
    · refine (s₄.fUnlock_sharing f cur).then fun s₅ same₅ => ?_
      refine (s₅.desFile_sharing reclaims f).then fun t ⟨zero, same₆⟩ => ?_
      rw [same₅, same₄, same₃] at zero same₆
      rw [Sharing.setCount_self, Option.some.injEq] at zero
      exact Outcome.ensures_pure.mpr ⟨f, r, slot, countr, .inr ⟨zero, same₆⟩⟩
    · refine (s₄.fUnlock_sharing f cur).then fun t same₅ => ?_
      rw [same₄, same₃] at same₅
      exact Outcome.ensures_pure.mpr ⟨f, r, slot, countr, .inl same₅⟩

theorem desDescriptor_slots (p cur : P) (reclaims : Reclaims V) (i : Fin 8) :
    (s.desDescriptor p cur reclaims i).Ensures fun (result, t) =>
      t.sharing.slots = (s.sharing.put (p, i) none).slots ∧
        (s.sharing.slots (p, i) ≠ none → result = .ok ()) := by
  refine (s.desDescriptor_sharing p cur reclaims i).mono fun (result, t) detached => ?_
  cases result with
  | error err =>
    exact ⟨by rw [detached.2, Sharing.put_same detached.1], fun open? => (open? detached.1).elim⟩
  | ok _ =>
    obtain ⟨f, r, slot, count, same | ⟨zero, same⟩⟩ := detached
    · exact ⟨by rw [same]; rfl, fun _ => rfl⟩
    · exact ⟨by rw [same]; rfl, fun _ => rfl⟩

/-- The slots of `p` in a list are closed, the others of `p` are as they were or closed too, and
what every `des_descriptor` keeps is kept. -/
theorem closeSlots_sharing {I : Sharing (P × Fin 8) F → Prop} (p cur : P) (reclaims : Reclaims V)
    (keep : ∀ (u : Files P F V) i, I u.sharing →
      (u.desDescriptor p cur reclaims i).Ensures fun (_, t) => I t.sharing)
    (holds : I s.sharing) (slots : List (Fin 8)) :
    (s.closeSlots p cur reclaims slots).Ensures fun (closed, t) =>
      I t.sharing ∧ closed = true ∧ (∀ i ∈ slots, t.sharing.slots (p, i) = none) ∧
        ∀ i, s.sharing.slots (p, i) = none → t.sharing.slots (p, i) = none := by
  induction slots generalizing s with
  | nil =>
    refine (s.fdUnlock_sharing p cur).then fun t same => ?_
    simp only [Outcome.ensures_pure, same]
    exact ⟨holds, trivial, by simp, fun _ closed => closed⟩
  | cons i rest ih =>
    refine s.deref_slot p fun fdesc table => ?_
    split
    · rename_i empty
      rw [← table] at empty
      refine (ih s holds).mono fun (closed, t) ⟨held, all, gone, kept⟩ => ⟨held, all, ?_, kept⟩
      rintro j (_ | ⟨_, member⟩)
      · exact kept i empty
      · exact gone j member
    · rename_i f open?
      refine (s.fdUnlock_sharing p cur).then fun s₁ same₁ => ?_
      refine ((keep s₁ i (same₁ ▸ holds)).and (s₁.desDescriptor_slots p cur reclaims i)).then
        fun (result, s₂) ⟨held₂, slots₂, ok⟩ => ?_
      have closed : result = .ok () := ok (by simp [same₁, table, open?])
      subst closed
      refine (s₂.fdLock_sharing p cur).then fun s₃ same₃ => ?_
      have here : s₃.sharing.slots (p, i) = none := by rw [same₃, slots₂, Sharing.put_self]
      refine (ih s₃ (same₃ ▸ held₂)).mono fun (closed, t) ⟨held, all, gone, kept⟩ =>
        ⟨held, all, ?_, ?_⟩
      · rintro j (_ | ⟨_, member⟩)
        · exact kept i here
        · exact gone j member
      · intro j empty
        by_cases same : j = i
        · exact kept j (same ▸ here)
        · refine kept j ?_
          rw [same₃, slots₂, Sharing.put_other (by simp [same]), same₁, empty]

theorem closeAllF_sharing {I : Sharing (P × Fin 8) F → Prop} (p cur : P) (reclaims : Reclaims V)
    (keep : ∀ (u : Files P F V) i, I u.sharing →
      (u.desDescriptor p cur reclaims i).Ensures fun (_, t) => I t.sharing)
    (holds : I s.sharing) :
    (s.closeAllF p cur reclaims).Ensures fun (closed, t) =>
      I t.sharing ∧ closed = true ∧ ∀ i, t.sharing.slots (p, i) = none := by
  refine (s.fdLock_sharing p cur).then fun s₁ same₁ => ?_
  refine (s₁.closeSlots_sharing p cur reclaims keep (same₁ ▸ holds) _).mono
    fun (closed, t) ⟨held, all, gone, _⟩ => ?_
  exact ⟨held, all, fun i => gone i (List.mem_finRange i)⟩

end Functions

/-! ### Calls keep the balance -/

/-- The counts are balanced, and only processes that own their table have anything in it. -/
structure Held [Fintype P] (owner : P → Bool) (a : Sharing (P × Fin 8) F) : Prop where
  balanced : a.Balanced
  idle : ∀ p i, owner p = false → a.slots (p, i) = none

namespace Held

variable [Fintype P] {owner : P → Bool} {a : Sharing (P × Fin 8) F} {p : P} {i : Fin 8} {f : F}
variable {r : UInt16}

theorem alloc (h : Held owner a) (new : a.counts f = none) : Held owner (a.setCount f (some 0)) :=
  ⟨h.balanced.alloc new, h.idle⟩

/-- A process without open files may own its table or not. -/
theorem change {owner' : P → Bool} (h : Held owner a) (empty : ∀ i, a.slots (p, i) = none)
    (others : ∀ q, q ≠ p → owner' q = owner q) : Held owner' a := by
  refine ⟨h.balanced, fun q i idle => ?_⟩
  by_cases here : q = p
  · rw [here]
    exact empty i
  · rw [others q here] at idle
    exact h.idle q i idle

theorem free (h : Held owner a) (zero : a.counts f = some 0) : Held owner (a.setCount f none) :=
  ⟨h.balanced.free zero, h.idle⟩

/-- Each owner has eight slots, so a count stays far from its 16 bits. -/
theorem small (h : Held owner a) (room : countWhere (· = true) owner ≤ 32)
    (count : a.counts f = some r.toNat) : r.toNat ≤ 256 := by
  rw [h.balanced.counted f _ count]
  have inside : (Finset.univ.filter fun place => a.slots place = some f) ⊆
      (Finset.univ.filter fun p => owner p = true) ×ˢ (Finset.univ : Finset (Fin 8)) := by
    intro ⟨p, i⟩ member
    have slot : a.slots (p, i) = some f := by simpa using member
    cases own : owner p with
    | true => simp [own]
    | false => simp [h.idle p i own] at slot
  calc countWhere (· = some f) a.slots ≤ _ := Finset.card_le_card inside
    _ = countWhere (· = true) owner * 8 := by
      rw [Finset.card_product, Finset.card_univ, Fintype.card_fin]
      rfl
    _ ≤ 256 := by omega

theorem attach (h : Held owner a) (room : countWhere (· = true) owner ≤ 32)
    (mine : owner p = true) (empty : a.slots (p, i) = none) (count : a.counts f = some r.toNat) :
    Held owner ((a.put (p, i) (some f)).setCount f (some (r + 1).toNat)) := by
  have small := h.small room count
  have next : (r + 1).toNat = r.toNat + 1 := by
    rw [UInt16.toNat_add]
    exact Nat.mod_eq_of_lt (by simp; omega)
  rw [next]
  refine ⟨h.balanced.attach empty count, fun q j idle => ?_⟩
  have other : (q, j) ≠ (p, i) := by
    rintro ⟨⟩
    simp [mine] at idle
  rw [Sharing.setCount_slots, Sharing.put_other other]
  exact h.idle q j idle

theorem detach (h : Held owner a) (slot : a.slots (p, i) = some f)
    (count : a.counts f = some r.toNat) :
    Held owner ((a.put (p, i) none).setCount f (some (r + -1).toNat)) := by
  have positive := h.balanced.count_pos slot count
  have previous : (r + -1).toNat = r.toNat - 1 := by
    have range := r.toNat_lt
    have minus : (-1 : UInt16).toNat = 65535 := rfl
    rw [UInt16.toNat_add, minus]
    omega
  rw [previous]
  refine ⟨h.balanced.detach slot count, fun q j idle => ?_⟩
  by_cases here : (q, j) = (p, i)
  · rw [here, Sharing.setCount_slots, Sharing.put_self]
  · rw [Sharing.setCount_slots, Sharing.put_other here]
    exact h.idle q j idle

end Held

section Calls

variable [Fintype P] {owner : P → Bool} {s : Files P F V} {p : P}

theorem desDescriptor_held (h : Held owner s.sharing) (cur : P) (reclaims : Reclaims V)
    (i : Fin 8) :
    (s.desDescriptor p cur reclaims i).Ensures fun (_, t) => Held owner t.sharing := by
  refine (s.desDescriptor_sharing p cur reclaims i).mono fun (result, t) detached => ?_
  change Held owner t.sharing
  cases result with
  | error err =>
    rw [detached.2]
    exact h
  | ok _ =>
    obtain ⟨f, r, slot, count, same | ⟨zero, same⟩⟩ := detached
    · rw [same]
      exact h.detach slot count
    · rw [same]
      exact (h.detach slot count).free (by rw [Sharing.setCount_self, zero])

theorem closeAllF_held (h : Held owner s.sharing) (cur : P) (reclaims : Reclaims V) :
    (s.closeAllF p cur reclaims).Ensures fun (closed, t) =>
      Held owner t.sharing ∧ closed = true ∧ ∀ i, t.sharing.slots (p, i) = none :=
  s.closeAllF_sharing p cur reclaims (fun _ i held => desDescriptor_held held cur reclaims i) h

/-- What descriptor `fd` of `p` names. -/
def descriptor (s : Files P F V) (p : P) (fd : Int) : Option F :=
  (index fd).bind fun i => s.sharing.slots (p, i)

/-- When `sys_close` takes the last reference: no other slot names the file. -/
def ClosesLast (s : Files P F V) (cur : P) (fd : Int) : Prop :=
  ∀ f ∈ s.descriptor cur fd, s.sharing.counts f = some 1

/-- When `sys_dup2` has nothing to close: `newfd` is not open, or names the file of `oldfd`. -/
def ReplacesNothing (s : Files P F V) (cur : P) (oldfd newfd : Int) : Prop :=
  s.descriptor cur oldfd = none ∨ s.descriptor cur newfd = none ∨
    s.descriptor cur newfd = s.descriptor cur oldfd

theorem sysClose_held (h : Held owner s.sharing) (fd : Int) (reclaims : Reclaims V)
    (last : s.ClosesLast p fd) :
    (s.sysClose p fd reclaims).Ensures fun (_, t) => Held owner t.sharing := by
  unfold sysClose
  split
  · exact Outcome.ensures_pure.mpr h
  · refine s.deref_slot p fun fdesc table => ?_
    rw [Outcome.ensures_bind, Outcome.ensures_deref]
    intro i inside
    split
    · exact Outcome.ensures_pure.mpr h
    · rename_i f open?
      have slot : s.sharing.slots (p, i) = some f := (table i).trans open?
      have one : s.sharing.counts f = some 1 := last f (by simp [descriptor, inside, slot])
      refine (s.fdLock_sharing p p).then fun s₁ same₁ => s₁.get_count f fun file _ => ?_
      rw [Outcome.ensures_bind, Outcome.ensures_kassert]
      intro _
      refine (s₁.addRefcount_sharing f (-1)).then fun s₂ ⟨r, count, same₂⟩ => ?_
      rw [same₁] at count same₂
      obtain rfl : r = 1 := by
        rw [one, Option.some.injEq] at count
        exact UInt16.toNat_inj.mp count.symm
      have held := (h.detach slot count).free (by rw [Sharing.setCount_self]; rfl)
      rw [Sharing.setCount_setCount] at held
      refine s₂.get_count f fun file count₂ => ?_
      rw [same₂, Sharing.setCount_self] at count₂
      have zero : file.fRefcount = 0 := UInt16.toNat_inj.mp (Option.some.inj count₂).symm
      rw [if_pos zero]
      refine (s₂.vopDecref_sharing reclaims file.fVnode).then fun s₃ same₃ => ?_
      refine (s₃.fdUnlock_sharing p p).then fun s₄ same₄ => ?_
      refine (s₄.fdLockDestroy_sharing p).then fun s₅ same₅ => ?_
      refine (s₅.kfreeFile_sharing f).then fun s₆ same₆ => ?_
      refine (s₆.setSlot_sharing p i none).then fun t same => ?_
      rw [same₆, same₅, same₄, same₃, same₂, Sharing.setCount_setCount, Sharing.setCount_put] at same
      simp only [Outcome.ensures_pure, same]
      exact held

theorem undoCount_sharing {i : Fin 8} {f : F} (slot : s.sharing.slots (p, i) = some f) {r : UInt16}
    (positive : 0 < r.toNat) (count : s.sharing.counts f = some (r + 1).toNat)
    (reclaims : Reclaims V) : (sysDup2.undoCount p reclaims s i).Ensures fun t =>
      t.sharing = s.sharing.setCount f (some r.toNat) := by
  refine (s.fdLock_sharing p p).then fun s₁ same₁ => s₁.deref_slot p fun fdesc table => ?_
  rw [Outcome.ensures_bind, Outcome.ensures_deref]
  intro g open?
  obtain rfl : g = f := by
    rw [same₁] at table
    simpa [← table, slot] using open?.symm
  refine (s₁.addRefcount_sharing g (-1)).then fun s₂ ⟨r', count', same₂⟩ => ?_
  rw [same₁, count, Option.some.injEq, UInt16.toNat_inj] at count'
  obtain rfl := count'
  have back : r + 1 + -1 = r := by
    rw [UInt16.add_assoc]
    exact r.add_zero
  rw [same₁, back] at same₂
  refine s₂.get_count g fun file count₂ => ?_
  rw [same₂, Sharing.setCount_self] at count₂
  have left : 0 < file.fRefcount := by
    rw [UInt16.lt_iff_toNat_lt, ← Option.some.inj count₂]
    exact positive
  refine (s₂.fdUnlock_sharing p p).then fun t same => ?_
  rw [if_pos left, Outcome.ensures_pure, same, same₂]

variable (room : countWhere (· = true) owner ≤ 32) (mine : owner p = true)

include room mine

theorem attach_held {f : F} (h : Held owner s.sharing) (cur : P) (answers : Answers F V) (vn : V) :
    (kOpen.attach p cur answers s vn f).Ensures fun (_, t) => Held owner t.sharing := by
  refine (s.fLock_sharing f cur).then fun s₁ same₁ => ?_
  refine (s₁.fdAttach_sharing p cur f).then fun (result, s₂) attached => ?_
  cases result with
  | error err =>
    refine (s₂.fUnlock_sharing f cur).then fun s₃ same₃ => ?_
    refine (s₃.vopDecref_sharing answers.reclaims vn).then fun s₄ same₄ => ?_
    refine (s₄.desFile_sharing answers.reclaims f).then fun t ⟨zero, freed⟩ => ?_
    have same : s₄.sharing = s.sharing := same₄.trans (same₃.trans (Eq.trans attached same₁))
    rw [same] at zero freed
    simp only [Outcome.ensures_pure, freed]
    exact h.free zero
  | ok i =>
    obtain ⟨empty, same₂⟩ := attached
    rw [same₁] at empty same₂
    refine (s₂.addRefcount_sharing f 1).then fun s₃ ⟨r, count, same₃⟩ => ?_
    refine (s₃.vopIncref_sharing vn).then fun s₄ same₄ => ?_
    refine (s₄.fUnlock_sharing f cur).then fun t same₅ => ?_
    rw [same₂] at count same₃
    simp only [Outcome.ensures_pure, same₅, same₄, same₃]
    exact h.attach room mine empty count

theorem seek_held {f : F} (h : Held owner s.sharing) (cur : P) (flags : UInt32)
    (answers : Answers F V) (vn : V) :
    (kOpen.seek p cur flags answers s vn f).Ensures fun (_, t) => Held owner t.sharing := by
  unfold kOpen.seek
  split
  · split
    · refine s.get_count f fun file count => ?_
      refine (s.vopDecref_sharing answers.reclaims vn).then fun s₁ same₁ => ?_
      refine (s₁.desFile_sharing answers.reclaims f).then fun t ⟨zero, freed⟩ => ?_
      rw [same₁] at zero freed
      simp only [Outcome.ensures_pure, freed]
      exact h.free zero
    · refine (s.updateFile_same f fun file => by simp).then fun s₁ same₁ => ?_
      exact attach_held room mine (same₁ ▸ h) cur answers vn
  · exact attach_held room mine h cur answers vn

theorem kOpen_held (h : Held owner s.sharing) (cur : P) (flags : UInt32) (answers : Answers F V) :
    (s.kOpen p cur flags answers).Ensures fun (_, t) => Held owner t.sharing := by
  unfold kOpen
  split
  · exact Outcome.ensures_pure.mpr h
  · exact Outcome.ensures_pure.mpr h
  · rename_i vn f _ _
    rw [Outcome.ensures_bind, Heap.alloc_ensures]
    intro unused
    have new : s.sharing.counts f = none := by simp [sharing, unused, Cell.value?]
    have held : Held owner (s.sharing.setCount f (some 0)) := h.alloc new
    rw [← s.alloc_sharing f vn ⟨vn, flags.toUInt16, 0, 0, some none⟩ rfl] at held
    dsimp only
    split
    · exact seek_held room mine held cur flags answers vn
    · refine (kfreeFile_sharing _ f).then fun t freed => ?_
      refine seek_held room mine ?_ cur flags answers vn
      rw [freed]
      exact held.free (by rw [alloc_sharing _ _ _ _ rfl, Sharing.setCount_self])

theorem sysOpen_held (h : Held owner s.sharing) (copied : Option Errno) (flags : UInt32)
    (garbage : Int) (answers : Answers F V) :
    (s.sysOpen p copied flags garbage answers).Ensures fun (_, t) => Held owner t.sharing := by
  unfold sysOpen
  split
  · split
    · exact Outcome.ensures_pure.mpr h
    · refine (kOpen_held room mine h p flags answers).then fun (result, t) held => ?_
      cases result <;> exact Outcome.ensures_pure.mpr held
  · exact Outcome.ensures_pure.mpr h

theorem copySlots_held (h : Held owner s.sharing) (source cur : P) (slots : List (Fin 8))
    (once : slots.Nodup) (empty : ∀ i ∈ slots, s.sharing.slots (p, i) = none) :
    (s.copySlots source p cur slots).Ensures fun t => Held owner t.sharing := by
  induction slots generalizing s with
  | nil => exact Outcome.ensures_done.mpr h
  | cons i rest ih =>
    have apart := List.nodup_cons.mp once
    refine s.deref_slot source fun fdesc table => ?_
    split
    · exact ih h apart.2 fun j member => empty j (List.mem_cons_of_mem i member)
    · rename_i f _
      refine (s.fLock_sharing f cur).then fun s₁ same₁ => ?_
      refine (s₁.setSlot_sharing p i (some f)).then fun s₂ same₂ => ?_
      refine (s₂.addNfiles_sharing p 1).then fun s₃ same₃ => ?_
      refine (s₃.addRefcount_sharing f 1).then fun s₄ ⟨r, count, same₄⟩ => ?_
      rw [same₃, same₂, same₁] at count same₄
      refine s₄.get_count f fun file _ => ?_
      refine (s₄.vopIncref_sharing file.fVnode).then fun s₅ same₅ => ?_
      refine (s₅.fUnlock_sharing f cur).then fun s₆ same₆ => ?_
      have same : s₆.sharing = _ := same₆.trans (same₅.trans same₄)
      refine ih ?_ apart.2 fun j member => ?_
      · rw [same]
        exact h.attach room mine (empty i List.mem_cons_self) count
      · have other : j ≠ i := by
          rintro rfl
          exact apart.1 member
        rw [same, Sharing.setCount_slots, Sharing.put_other (by simp [other])]
        exact empty j (List.mem_cons_of_mem i member)

theorem fileCopy_held (h : Held owner s.sharing) (source cur : P)
    (empty : ∀ i, s.sharing.slots (p, i) = none) :
    (s.fileCopy source p cur).Ensures fun t => Held owner t.sharing := by
  refine (s.fdLock_sharing source cur).then fun s₁ same₁ => ?_
  refine (copySlots_held room mine (same₁ ▸ h) source cur _ (List.nodup_finRange 8)
    fun i _ => same₁ ▸ empty i).then fun s₂ held => ?_
  simp only [Outcome.ensures_bind, Outcome.ensures_deref, Outcome.ensures_kassert]
  intro _ _ _ _ _
  exact (s₂.fdUnlock_sharing source cur).mono fun t same => same ▸ held

theorem sysDup2_held (h : Held owner s.sharing) (oldfd newfd : Int) (reclaims : Reclaims V)
    (nothing : s.ReplacesNothing p oldfd newfd) :
    (s.sysDup2 p oldfd newfd reclaims).Ensures fun (_, t) => Held owner t.sharing := by
  unfold sysDup2
  split
  · refine s.deref_slot p fun fdesc table => ?_
    rw [Outcome.ensures_bind, Outcome.ensures_deref]
    intro old inside
    split
    · exact Outcome.ensures_pure.mpr h
    · rename_i f open?
      have slot : s.sharing.slots (p, old) = some f := (table old).trans open?
      split
      · exact Outcome.ensures_pure.mpr h
      · rw [Outcome.ensures_bind, Outcome.ensures_deref]
        intro new inside'
        have apart : s.sharing.slots (p, new) = none ∨ s.sharing.slots (p, new) = some f := by
          simpa [ReplacesNothing, descriptor, inside, inside', slot] using nothing
        refine (s.fdLock_sharing p p).then fun s₁ same₁ => s₁.deref_slot p fun fdesc' table' => ?_
        rw [Outcome.ensures_bind, Outcome.ensures_deref]
        intro g open'
        obtain rfl : g = f := by
          rw [same₁] at table'
          simpa [← table', slot] using open'.symm
        refine (s₁.setSlot_sharing p new (some g)).then fun s₂ same₂ => ?_
        refine (s₂.addRefcount_sharing g 1).then fun s₃ ⟨r, count, same₃⟩ => ?_
        refine (s₃.fdUnlock_sharing p p).then fun s₄ same₄ => ?_
        rw [same₂, same₁] at count same₃
        rw [same₃] at same₄
        rcases apart with empty | same
        · have closed : (fdesc.fdOfiles new).isSome = false := by rw [← table, empty]; rfl
          rw [closed]
          simp only [Bool.false_eq_true, if_false, Outcome.ensures_pure, same₄]
          exact h.attach room mine empty count
        · have opened : (fdesc.fdOfiles new).isSome = true := by rw [← table, same]; rfl
          rw [opened, if_pos rfl]
          rw [Sharing.put_same same] at count same₄
          refine (undoCount_sharing (i := old) (f := g) (r := r) ?_ ?_ ?_ reclaims).then
            fun t undone => ?_
          · rw [same₄, Sharing.setCount_slots, slot]
          · exact h.balanced.count_pos slot count
          · rw [same₄, Sharing.setCount_self]
          · rw [same₄, Sharing.setCount_setCount, Sharing.setCount_same count] at undone
            simp only [Outcome.ensures_pure, undone]
            exact h
  · exact Outcome.ensures_pure.mpr h

end Calls

/-- The `f_refcount` of every live file is the number of slots that point to it, and every slot
points to a live file. -/
structure Counted [Fintype P] (s : Files P F V) : Prop where
  refcount : ∀ f file, s.files f = .live file → file.fRefcount.toNat =
    countWhere (· = some f) fun place : P × Fin 8 =>
      (s.tables place.1).bind fun fdesc => fdesc.fdOfiles place.2
  live : ∀ p fdesc i f, s.tables p = some fdesc → fdesc.fdOfiles i = some f →
    ∃ file, s.files f = .live file

theorem counted_iff [Fintype P] {s : Files P F V} : s.Counted ↔ s.sharing.Balanced := by
  constructor
  · intro h
    refine ⟨fun f n count => ?_, fun ⟨p, i⟩ f slot => ?_⟩
    · cases there : s.files f with
      | live file =>
        rw [counts_file (by rw [there]; rfl), Option.some.injEq] at count
        rw [← count]
        exact h.refcount f file there
      | _ => simp [sharing, there, Cell.value?] at count
    · obtain ⟨fdesc, table, open?⟩ := Option.bind_eq_some_iff.mp slot
      obtain ⟨file, there⟩ := h.live p fdesc i f table open?
      exact ⟨_, counts_file (by rw [there]; rfl)⟩
  · intro h
    refine ⟨fun f file there => h.counted f _ (counts_file (by rw [there]; rfl)), ?_⟩
    intro p fdesc i f table open?
    obtain ⟨n, count⟩ := h.named (p, i) f ((slots_table table i).trans open?)
    cases there : s.files f with
    | live file => exact ⟨file, rfl⟩
    | _ => simp [sharing, there, Cell.value?] at count

end Files

end Os161
