import Os161.Base.Count
import Os161.File.Frame
import Os161.File.Refcount

/-!
# The count of open files

`fd_nfiles` goes with the slots that are written in `fd_attach`, `fd_detach` and `file_copy`.
`sys_dup2` and `sys_close` write a slot and leave the count.
-/

set_option linter.unusedSectionVars false

namespace Os161

namespace Files

variable {P F V : Type} [DecidableEq P] [DecidableEq F] [DecidableEq V]
variable {s t : Files P F V} {p q cur : P} {d : Int}

/-- How many slots of a table are open. -/
def openSlots (fdesc : Filedesc F P) : Nat := countWhere (· ≠ none) fdesc.fdOfiles

/-- Every count is right, but that of `p` is short by `d`. -/
def Short (s : Files P F V) (p : P) (d : Int) : Prop :=
  ∀ q fdesc, s.tables q = some fdesc →
    (openSlots fdesc : Int) = fdesc.fdNfiles.toNat + if q = p then d else 0

/-- Every `fd_nfiles` is the number of open slots. -/
def Tallied (s : Files P F V) : Prop :=
  ∀ q fdesc, s.tables q = some fdesc → fdesc.fdNfiles.toNat = openSlots fdesc

theorem short_zero : s.Short p 0 ↔ s.Tallied := by
  simp only [Short, Tallied, ite_self, Int.add_zero]
  constructor
  · intro h q fdesc table
    have := h q fdesc table
    omega
  · intro h q fdesc table
    have := h q fdesc table
    omega

theorem Short.away (h : s.Short p d) (near : Near (fun _ => False) s t) : t.Short p d := by
  intro q fdesc table
  rw [near q id] at table
  exact h q fdesc table

theorem Tallied.away (h : s.Tallied) (near : Near (fun _ => False) s t) : t.Tallied := by
  intro q fdesc table
  rw [near q id] at table
  exact h q fdesc table

theorem openSlots_le (fdesc : Filedesc F P) : openSlots fdesc ≤ 8 := by
  have bound := countWhere_le_card (p := (· ≠ none)) (f := fdesc.fdOfiles)
  simpa [openSlots] using bound

theorem openSlots_update (fdesc : Filedesc F P) (i : Fin 8) (o : Option F) :
    openSlots { fdesc with fdOfiles := Function.update fdesc.fdOfiles i o } +
        (if fdesc.fdOfiles i = none then 0 else 1) =
      openSlots fdesc + if o = none then 0 else 1 := by
  have moved := countWhere_update (p := (· ≠ none)) (f := fdesc.fdOfiles) i o
  simpa only [openSlots, ne_eq, ite_not] using moved

theorem updateTable_short (h : s.Short p d) {g : Filedesc F P → Outcome (Filedesc F P)}
    (keep : ∀ a, (g a).Ensures fun b => b.fdOfiles = a.fdOfiles ∧ b.fdNfiles = a.fdNfiles) :
    (s.updateTable q g).Ensures fun t => t.Short p d := by
  simp only [updateTable, Outcome.ensures_bind, Outcome.ensures_deref, Outcome.ensures_pure]
  intro fdesc table
  refine (keep fdesc).mono ?_
  rintro after ⟨slots, nfiles⟩
  intro r other there
  simp only [Function.update_apply] at there
  split at there
  · rename_i here
    obtain rfl := Option.some.inj there
    have before := h q fdesc table
    rw [here]
    simpa only [openSlots, slots, nfiles] using before
  · exact h r other there

theorem fdLock_short (h : s.Short p d) : (s.fdLock q cur).Ensures fun t => t.Short p d :=
  updateTable_short h fun a => by simp

theorem fdUnlock_short (h : s.Short p d) : (s.fdUnlock q cur).Ensures fun t => t.Short p d :=
  updateTable_short h fun a => by simp

theorem fdLockDestroy_short (h : s.Short p d) : (s.fdLockDestroy q).Ensures fun t => t.Short p d :=
  updateTable_short h fun a => by simp

theorem setSlot_short (h : s.Short p d) (i : Fin 8) (o : Option F) :
    (s.setSlot p i o).Ensures fun t =>
      t.Short p (d + (if o = none then 0 else 1) - if s.sharing.slots (p, i) = none then 0 else 1) := by
  simp only [setSlot, updateTable, Outcome.ensures_bind, Outcome.ensures_deref,
    Outcome.ensures_pure]
  intro fdesc table r other there
  rw [slots_table table]
  simp only [Function.update_apply] at there
  split at there
  · rename_i here
    obtain rfl := Option.some.inj there
    have before := h p fdesc table
    have moved := openSlots_update fdesc i o
    rw [if_pos rfl] at before
    rw [if_pos here]
    simp only
    split at moved <;> split at moved <;> simp_all <;> omega
  · rename_i away
    have before := h r other there
    rw [if_neg away] at before ⊢
    exact before

/-- The count catches up. -/
theorem addNfiles_short {n : UInt16} (h : s.Short p d) (fits : n.toNat = d ∨ n = -1 ∧ d = -1) :
    (s.addNfiles p n).Ensures Tallied := by
  simp only [addNfiles, updateTable, Outcome.ensures_bind, Outcome.ensures_deref,
    Outcome.ensures_pure]
  intro fdesc table r other there
  simp only [Function.update_apply] at there
  split at there
  · obtain rfl := Option.some.inj there
    have before := h p fdesc table
    have few := openSlots_le fdesc
    rw [if_pos rfl] at before
    show (fdesc.fdNfiles + n).toNat = openSlots fdesc
    rw [UInt16.toNat_add]
    rcases fits with same | ⟨rfl, rfl⟩
    · have small : fdesc.fdNfiles.toNat + n.toNat = openSlots fdesc := by omega
      rw [small]
      exact Nat.mod_eq_of_lt (by omega)
    · have minus : (-1 : UInt16).toNat = 65535 := rfl
      rw [minus]
      omega
  · rename_i away
    have before := h r other there
    rw [if_neg away] at before
    omega

theorem fdLock_tallied (h : s.Tallied) : (s.fdLock q cur).Ensures Tallied :=
  (fdLock_short (short_zero.mpr h)).mono fun _ => (short_zero (p := q)).mp

theorem fdUnlock_tallied (h : s.Tallied) : (s.fdUnlock q cur).Ensures Tallied :=
  (fdUnlock_short (short_zero.mpr h)).mono fun _ => (short_zero (p := q)).mp

theorem fdLockDestroy_tallied (h : s.Tallied) : (s.fdLockDestroy q).Ensures Tallied :=
  (fdLockDestroy_short (short_zero.mpr h)).mono fun _ => (short_zero (p := q)).mp

/-- What changes no table keeps the counts. -/
theorem away_tallied {x : Outcome (Files P F V)} (h : s.Tallied)
    (frame : x.Ensures (Near (fun _ => False) s)) : x.Ensures Tallied :=
  frame.mono fun _ near => h.away near

theorem away_short {x : Outcome (Files P F V)} (h : s.Short p d)
    (frame : x.Ensures (Near (fun _ => False) s)) : x.Ensures fun t => t.Short p d :=
  frame.mono fun _ near => h.away near

theorem dropTable_tallied (h : s.Tallied) :
    ({ s with tables := Function.update s.tables p none } : Files P F V).Tallied := by
  intro q fdesc table
  simp only [Function.update_apply] at table
  split at table
  · cases table
  · exact h q fdesc table

theorem fdCreate_tallied (h : s.Tallied) {room : Bool × Bool} (created : s.fdCreate p room = .ok t) :
    t.Tallied := by
  unfold fdCreate at created
  split at created
  · obtain rfl := Except.ok.inj created
    intro q fdesc table
    simp only [Function.update_apply] at table
    split at table
    · obtain rfl := Option.some.inj table
      exact (countWhere_eq_zero.mpr fun i => by simp).symm
    · exact h q fdesc table
  · cases created

theorem fdDestroy_tallied (h : s.Tallied) : (s.fdDestroy p).Ensures Tallied := by
  simp only [fdDestroy, Outcome.ensures_bind, Outcome.ensures_deref, Outcome.ensures_kassert]
  intro fdesc _ _
  exact (fdLockDestroy_tallied h).mono fun t after => Outcome.ensures_pure.mpr (dropTable_tallied after)

theorem fdAttach_tallied (h : s.Tallied) (f : F) :
    (s.fdAttach p cur f).Ensures fun out => out.2.Tallied := by
  refine (fdLock_tallied h).then fun s₁ h₁ => s₁.deref_slot p fun fdesc slots => ?_
  split
  · rename_i i found
    have empty : s₁.sharing.slots (p, i) = none := by
      rw [slots]
      simpa using List.find?_some found
    refine (setSlot_short (short_zero.mpr h₁) i (some f)).then fun s₂ short => ?_
    rw [empty] at short
    refine (addNfiles_short short (.inl rfl)).then fun s₃ h₃ => ?_
    exact (fdUnlock_tallied h₃).then fun s₄ h₄ => Outcome.ensures_pure.mpr h₄
  · exact (fdUnlock_tallied h₁).then fun s₂ h₂ => Outcome.ensures_pure.mpr h₂

theorem fdDetach_tallied (h : s.Tallied) {i : Fin 8} (open' : s.sharing.slots (p, i) ≠ none) :
    (s.fdDetach p cur i).Ensures Tallied := by
  refine ((fdLock_tallied h).and (s.fdLock_sharing p cur)).then fun s₁ ⟨h₁, same⟩ => ?_
  refine (setSlot_short (short_zero.mpr h₁) i none).then fun s₂ short => ?_
  rw [same, if_neg open'] at short
  exact (addNfiles_short short (.inr ⟨rfl, rfl⟩)).then fun s₃ h₃ => fdUnlock_tallied h₃

theorem desFile_tallied (h : s.Tallied) (reclaims : Reclaims V) (f : F) :
    (s.desFile reclaims f).Ensures Tallied := by
  simp only [desFile, Outcome.ensures_bind, Heap.get_ensures, Outcome.ensures_kassert]
  intro file _ _
  refine (away_tallied h (s.vopDecref_near reclaims _)).mono fun s₁ h₁ => ?_
  refine (away_tallied h₁ (s₁.updateFile_near f _)).mono fun s₂ h₂ => ?_
  exact away_tallied h₂ (s₂.kfreeFile_near f)

theorem getFile_tallied (h : s.Tallied) (fd : Int) :
    (s.getFile p cur fd).Ensures fun out => out.2.Tallied := by
  unfold getFile
  split
  · exact Outcome.ensures_pure.mpr h
  · refine (fdLock_tallied h).then fun s₁ h₁ => s₁.deref_slot p fun fdesc _ => ?_
    split
    · refine (away_tallied h₁ (s₁.updateFile_near _ _)).then fun s₂ h₂ => ?_
      exact (fdUnlock_tallied h₂).then fun s₃ h₃ => Outcome.ensures_pure.mpr h₃
    · exact (fdUnlock_tallied h₁).then fun s₂ h₂ => Outcome.ensures_pure.mpr h₂

theorem desDescriptor_tallied (h : s.Tallied) (reclaims : Reclaims V) (i : Fin 8) :
    (s.desDescriptor p cur reclaims i).Ensures fun out => out.2.Tallied := by
  refine ((getFile_tallied h _).and (s.getFile_sharing p cur i)).then ?_
  rintro ⟨result, s₁⟩ ⟨h₁, got⟩
  cases result with
  | error err => exact Outcome.ensures_pure.mpr h₁
  | ok f =>
    simp only [Outcome.ensures_bind, Heap.get_ensures, Outcome.ensures_kassert]
    intro file _ _
    have open' : s₁.sharing.slots (p, i) ≠ none := by
      rw [got.1, got.2]
      rintro ⟨⟩
    refine (fdDetach_tallied h₁ open').mono fun s₂ h₂ => ?_
    refine (away_tallied h₂ (s₂.updateFile_near f _)).mono fun s₃ h₃ => ?_
    refine (away_tallied h₃ (s₃.vopDecref_near reclaims _)).mono fun s₄ h₄ => ?_
    intro file _
    split
    · refine (away_tallied h₄ (s₄.updateFile_near f _)).then fun s₅ h₅ => ?_
      exact (desFile_tallied h₅ reclaims f).then fun t after => Outcome.ensures_pure.mpr after
    · exact (away_tallied h₄ (s₄.updateFile_near f _)).then fun t after => Outcome.ensures_pure.mpr after

theorem closeSlots_tallied (h : s.Tallied) (reclaims : Reclaims V) (slots : List (Fin 8)) :
    (s.closeSlots p cur reclaims slots).Ensures fun out => out.2.Tallied := by
  induction slots generalizing s with
  | nil => exact (fdUnlock_tallied h).then fun t after => Outcome.ensures_pure.mpr after
  | cons i rest ih =>
    refine s.deref_slot p fun fdesc _ => ?_
    split
    · exact ih h
    · refine (fdUnlock_tallied h).then fun s₁ h₁ => ?_
      refine (desDescriptor_tallied h₁ reclaims i).then fun (result, s₂) h₂ => ?_
      cases result with
      | error err => exact Outcome.ensures_pure.mpr h₂
      | ok _ => exact (fdLock_tallied h₂).then fun s₃ h₃ => ih h₃

theorem closeAllF_tallied (h : s.Tallied) (reclaims : Reclaims V) :
    (s.closeAllF p cur reclaims).Ensures fun out => out.2.Tallied :=
  (fdLock_tallied h).then fun _ h₁ => closeSlots_tallied h₁ reclaims _

theorem attach_tallied (h : s.Tallied) (answers : Answers F V) (vn : V) (f : F) :
    (kOpen.attach p cur answers s vn f).Ensures fun out => out.2.Tallied := by
  refine (away_tallied h (s.updateFile_near f _)).then fun s₁ h₁ => ?_
  refine (fdAttach_tallied h₁ f).then fun (result, s₂) h₂ => ?_
  cases result with
  | error err =>
    refine (away_tallied h₂ (s₂.updateFile_near f _)).then fun s₃ h₃ => ?_
    refine (away_tallied h₃ (s₃.vopDecref_near _ vn)).then fun s₄ h₄ => ?_
    exact (desFile_tallied h₄ _ f).then fun t after => Outcome.ensures_pure.mpr after
  | ok i =>
    refine (away_tallied h₂ (s₂.updateFile_near f _)).then fun s₃ h₃ => ?_
    refine (away_tallied h₃ (s₃.vopIncref_near vn)).then fun s₄ h₄ => ?_
    exact (away_tallied h₄ (s₄.updateFile_near f _)).then fun t after => Outcome.ensures_pure.mpr after

theorem kOpen_tallied (h : s.Tallied) (flags : UInt32) (answers : Answers F V) :
    (s.kOpen p cur flags answers).Ensures fun out => out.2.Tallied := by
  have seeks : ∀ (u : Files P F V) vn f, u.Tallied →
      (kOpen.seek p cur flags answers u vn f).Ensures fun out => out.2.Tallied := by
    intro u vn f h
    unfold kOpen.seek
    split
    · split
      · simp only [Outcome.ensures_bind, Heap.get_ensures]
        intro file _
        refine (away_tallied h (u.vopDecref_near _ vn)).mono fun u₁ h₁ => ?_
        exact (desFile_tallied h₁ _ f).mono fun t after => Outcome.ensures_pure.mpr after
      · exact (away_tallied h (u.updateFile_near f _)).then fun u₁ h₁ => attach_tallied h₁ answers vn f
    · exact attach_tallied h answers vn f
  unfold kOpen
  split
  · exact Outcome.ensures_pure.mpr h
  · exact Outcome.ensures_pure.mpr h
  · rename_i vn f _ _
    simp only [Outcome.ensures_bind, Heap.alloc_ensures]
    intro _
    have opened : ({ s.vfsOpened vn with files := Function.update s.files f (.live
      ⟨vn, flags.toUInt16, 0, 0, some none⟩) } : Files P F V).Tallied := h
    split
    · exact seeks _ vn f opened
    · exact (away_tallied opened (kfreeFile_near _ f)).then fun t after => seeks t vn f after

theorem sysOpen_tallied (h : s.Tallied) (copied : Option Errno) (flags : UInt32) (garbage : Int)
    (answers : Answers F V) :
    (s.sysOpen cur copied flags garbage answers).Ensures fun out => out.2.Tallied := by
  unfold sysOpen
  split
  · split
    · exact Outcome.ensures_pure.mpr h
    · refine (kOpen_tallied h flags answers).then fun (result, t) after => ?_
      cases result with
      | ok i => exact Outcome.ensures_pure.mpr after
      | error err => exact Outcome.ensures_pure.mpr after
  · exact Outcome.ensures_pure.mpr h

/-- The slots that are still to be copied are empty in the target. -/
theorem copySlots_tallied (h : s.Tallied) {source target : P} (slots : List (Fin 8))
    (once : slots.Nodup) (empty : ∀ i ∈ slots, s.sharing.slots (target, i) = none) :
    (s.copySlots source target cur slots).Ensures Tallied := by
  induction slots generalizing s with
  | nil => exact Outcome.ensures_done.mpr h
  | cons i rest ih =>
    obtain ⟨fresh, once⟩ := List.nodup_cons.mp once
    refine s.deref_slot source fun fdesc _ => ?_
    split
    · exact ih h once fun j member => empty j (List.mem_cons_of_mem i member)
    · rename_i f _
      refine ((away_tallied h (s.updateFile_near f _)).and (s.fLock_sharing f cur)).then
        fun s₁ ⟨h₁, same₁⟩ => ?_
      refine ((setSlot_short (short_zero.mpr h₁) i (some f)).and
        (s₁.setSlot_sharing target i (some f))).then fun s₂ ⟨short, same₂⟩ => ?_
      rw [same₁, empty i (List.mem_cons_self ..)] at short
      refine ((addNfiles_short short (.inl rfl)).and (s₂.addNfiles_sharing target 1)).then
        fun s₃ ⟨h₃, same₃⟩ => ?_
      refine ((away_tallied h₃ (s₃.updateFile_near f _)).and (s₃.addRefcount_sharing f 1)).then
        fun s₄ ⟨h₄, _, _, same₄⟩ => ?_
      simp only [Outcome.ensures_bind, Heap.get_ensures]
      intro file _
      refine ((away_tallied h₄ (s₄.vopIncref_near _)).and (s₄.vopIncref_sharing _)).mono
        fun s₅ ⟨h₅, same₅⟩ => ?_
      refine ((away_tallied h₅ (s₅.updateFile_near f _)).and (s₅.fUnlock_sharing f cur)).mono
        fun s₆ ⟨h₆, same₆⟩ => ?_
      refine ih h₆ once fun j member => ?_
      have other : j ≠ i := by
        rintro rfl
        exact fresh member
      rw [same₆, same₅, same₄, same₃, same₂, same₁]
      simpa [Sharing.setCount, Sharing.put, other] using empty j (List.mem_cons_of_mem i member)

theorem fileCopy_tallied (h : s.Tallied) {source target : P}
    (empty : ∀ i, s.sharing.slots (target, i) = none) :
    (s.fileCopy source target cur).Ensures Tallied := by
  refine ((fdLock_tallied h).and (s.fdLock_sharing source cur)).then fun s₁ ⟨h₁, same⟩ => ?_
  refine (copySlots_tallied h₁ _ (List.nodup_finRange 8) fun i _ => by rw [same, empty i]).then
    fun s₂ h₂ => ?_
  simp only [Outcome.ensures_bind, Outcome.ensures_deref, Outcome.ensures_kassert]
  intro _ _ _ _ _
  exact fdUnlock_tallied h₂

theorem undoCount_tallied (h : s.Tallied) (reclaims : Reclaims V) (old : Fin 8) :
    (sysDup2.undoCount p reclaims s old).Ensures Tallied := by
  refine (fdLock_tallied h).then fun s₁ h₁ => s₁.deref_slot p fun fdesc _ => ?_
  rw [Outcome.ensures_bind, Outcome.ensures_deref]
  intro f _
  refine (away_tallied h₁ (s₁.updateFile_near f _)).then fun s₂ h₂ => ?_
  simp only [Outcome.ensures_bind, Heap.get_ensures]
  intro file _
  refine (fdUnlock_tallied h₂).mono fun s₃ h₃ => ?_
  split
  · exact Outcome.ensures_pure.mpr h₃
  · simp only [Outcome.ensures_bind]
    refine (fdLockDestroy_tallied h₃).mono fun s₄ h₄ => ?_
    refine (away_tallied h₄ (s₄.vopDecref_near reclaims _)).mono fun s₅ h₅ => ?_
    exact Outcome.ensures_pure.mpr (dropTable_tallied h₅)

/-- When `sys_dup2` has nothing to do, or `newfd` is open already. -/
def Covers (s : Files P F V) (cur : P) (oldfd newfd : Int) : Prop :=
  dup2Bounds oldfd newfd = true →
    s.descriptor cur oldfd = none ∨ oldfd = newfd ∨ s.descriptor cur newfd ≠ none

/-- When `sys_close` does not take the last reference. -/
def Keeps (s : Files P F V) (cur : P) (fd : Int) : Prop :=
  ∀ f ∈ s.descriptor cur fd, s.sharing.counts f ≠ some 1

theorem descriptor_slot {fd : Int} {i : Fin 8} (inside : index fd = some i) :
    s.descriptor p fd = s.sharing.slots (p, i) := by
  simp [descriptor, inside]

/-- The table is there and its count is wrong. -/
def Wrong (s : Files P F V) (cur : P) (d : Int) : Prop :=
  s.Short cur d ∧ ∃ fdesc, s.tables cur = some fdesc

theorem Wrong.not_tallied (h : s.Wrong cur d) (off : d ≠ 0) : ¬ s.Tallied := by
  obtain ⟨short, fdesc, table⟩ := h
  intro tallied
  have right := tallied cur fdesc table
  have wrong := short cur fdesc table
  rw [if_pos rfl] at wrong
  omega

theorem updateTable_there {g : Filedesc F P → Outcome (Filedesc F P)} :
    (s.updateTable cur g).Ensures fun t => ∃ fdesc, t.tables cur = some fdesc := by
  simp only [updateTable, Outcome.ensures_bind, Outcome.ensures_deref, Outcome.ensures_pure]
  exact fun _ _ after _ => ⟨after, Function.update_self ..⟩

/-- `sys_dup2` keeps the counts when it covers a slot, and leaves one short when it fills one. -/
theorem sysDup2_short (h : s.Tallied) (oldfd newfd : Int) (reclaims : Reclaims V) :
    (s.sysDup2 cur oldfd newfd reclaims).Ensures fun out =>
      s.Covers cur oldfd newfd ∧ out.2.Tallied ∨
        ¬ s.Covers cur oldfd newfd ∧ out.2.Wrong cur 1 := by
  unfold sysDup2
  split
  · rename_i bounds
    refine s.deref_slot cur fun fdesc slots => ?_
    rw [Outcome.ensures_bind, Outcome.ensures_deref]
    intro old inside
    have oldSlot := descriptor_slot (s := s) (p := cur) inside
    rw [slots] at oldSlot
    split
    · rename_i closed
      exact Outcome.ensures_pure.mpr (.inl ⟨fun _ => .inl (oldSlot.trans closed), h⟩)
    · rename_i f₀ open'
      split
      · rename_i same
        exact Outcome.ensures_pure.mpr (.inl ⟨fun _ => .inr (.inl same), h⟩)
      · rename_i differ
        rw [Outcome.ensures_bind, Outcome.ensures_deref]
        intro new inside'
        have newSlot := descriptor_slot (s := s) (p := cur) inside'
        refine ((fdLock_tallied h).and (s.fdLock_sharing cur cur)).then fun s₁ ⟨h₁, same₁⟩ => ?_
        refine s₁.deref_slot cur fun fdesc₁ _ => ?_
        rw [Outcome.ensures_bind, Outcome.ensures_deref]
        intro f _
        refine (setSlot_short (short_zero.mpr h₁) new (some f)).then fun s₂ short₂ => ?_
        rw [same₁] at short₂
        refine (away_short short₂ (s₂.updateFile_near f _)).then fun s₃ short₃ => ?_
        refine ((fdUnlock_short short₃).and updateTable_there).then fun s₄ ⟨short₄, there⟩ => ?_
        rw [slots] at newSlot short₄
        split
        · rename_i flag
          have filled : fdesc.fdOfiles new ≠ none := by
            rw [← Option.isSome_iff_ne_none]
            exact flag
          rw [if_neg filled] at short₄
          have covers : s.Covers cur oldfd newfd := fun _ => .inr (.inr (by rwa [newSlot]))
          refine (undoCount_tallied (short_zero.mp short₄) reclaims old).then fun t after => ?_
          exact Outcome.ensures_pure.mpr (.inl ⟨covers, after⟩)
        · rename_i flag
          have empty : fdesc.fdOfiles new = none := by simpa using flag
          rw [if_pos empty] at short₄
          refine Outcome.ensures_pure.mpr (.inr ⟨fun covers => ?_, short₄, there⟩)
          rcases covers bounds with closed | same | filled
          · rw [oldSlot, open'] at closed
            cases closed
          · exact differ same
          · exact filled (newSlot.trans empty)
  · rename_i bounds
    exact Outcome.ensures_pure.mpr (.inl ⟨fun inside => (bounds inside).elim, h⟩)

/-- `sys_close` keeps the counts while others refer to the file, and else is left with one too
many. -/
theorem sysClose_short (h : s.Tallied) (fd : Int) (reclaims : Reclaims V) :
    (s.sysClose cur fd reclaims).Ensures fun out =>
      s.Keeps cur fd ∧ out.2.Tallied ∨ ¬ s.Keeps cur fd ∧ out.2.Wrong cur (-1) := by
  unfold sysClose
  split
  · rename_i outside
    refine Outcome.ensures_pure.mpr (.inl ⟨fun f there => ?_, h⟩)
    have none' : index fd = none := by
      unfold index
      exact dif_neg (by omega)
    simp [descriptor, none'] at there
  · refine s.deref_slot cur fun fdesc slots => ?_
    rw [Outcome.ensures_bind, Outcome.ensures_deref]
    intro i inside
    have slot := descriptor_slot (s := s) (p := cur) inside
    rw [slots] at slot
    split
    · rename_i closed
      refine Outcome.ensures_pure.mpr (.inl ⟨fun f there => ?_, h⟩)
      rw [slot, closed] at there
      cases there
    · rename_i f open'
      rw [open'] at slot
      refine ((fdLock_tallied h).and (s.fdLock_sharing cur cur)).then ?_
      rintro s₁ ⟨h₁, same₁⟩
      refine s₁.get_count f fun file count => ?_
      rw [Outcome.ensures_bind, Outcome.ensures_kassert]
      intro positive
      refine ((away_tallied h₁ (s₁.updateFile_near f _)).and (s₁.addRefcount_sharing f (-1))).then ?_
      rintro s₂ ⟨h₂, r, before, same₂⟩
      rw [same₁] at before same₂
      refine s₂.get_count f fun file count => ?_
      rw [same₂, Sharing.setCount_self] at count
      have left : file.fRefcount = r + -1 := UInt16.toNat_inj.mp (Option.some.inj count).symm
      split
      · rename_i zero
        rw [left] at zero
        have one : r = 1 := calc
          r = r + -1 + 1 := by
            rw [UInt16.add_assoc, show (-1 + 1 : UInt16) = 0 from rfl, UInt16.add_zero]
          _ = 1 := by rw [zero, UInt16.zero_add]
        refine (away_tallied h₂ (s₂.vopDecref_near reclaims _)).and (s₂.vopDecref_sharing reclaims _)
          |>.then ?_
        rintro s₃ ⟨h₃, same₃⟩
        refine ((fdUnlock_tallied h₃).and (s₃.fdUnlock_sharing cur cur)).then ?_
        rintro s₄ ⟨h₄, same₄⟩
        refine ((fdLockDestroy_tallied h₄).and (s₄.fdLockDestroy_sharing cur)).then ?_
        rintro s₅ ⟨h₅, same₅⟩
        refine ((away_tallied h₅ (s₅.kfreeFile_near f)).and (s₅.kfreeFile_sharing f)).then ?_
        rintro s₆ ⟨h₆, same₆⟩
        have still : s₆.sharing.slots (cur, i) ≠ none := by
          rw [same₆, same₅, same₄, same₃, same₂]
          simp [Sharing.setCount, slots, open']
        refine ((setSlot_short (short_zero.mpr h₆) i none).and updateTable_there).then ?_
        rintro s₇ ⟨short, there⟩
        rw [if_neg still] at short
        refine Outcome.ensures_pure.mpr (.inr ⟨fun keeps => keeps f slot ?_, short, there⟩)
        rw [before, one]
        rfl
      · rename_i more
        refine (fdUnlock_tallied h₂).then fun s₃ h₃ => Outcome.ensures_pure.mpr (.inl ⟨?_, h₃⟩)
        intro g there last
        rw [slot] at there
        obtain rfl := Option.some.inj there
        rw [before] at last
        have one : r = 1 := UInt16.toNat_inj.mp (Option.some.inj last)
        rw [left, one] at more
        exact more rfl

/-- The target gets the slots of the source that are copied. -/
theorem copySlots_slots {source target : P} (differ : target ≠ source) (slots : List (Fin 8)) :
    (s.copySlots source target cur slots).Ensures fun t => ∀ i,
      t.sharing.slots (source, i) = s.sharing.slots (source, i) ∧
        t.sharing.slots (target, i) = if i ∈ slots ∧ s.sharing.slots (source, i) ≠ none then
          s.sharing.slots (source, i) else s.sharing.slots (target, i) := by
  induction slots generalizing s with
  | nil => exact Outcome.ensures_done.mpr fun i => by simp
  | cons i rest ih =>
    refine s.deref_slot source fun fdesc table => ?_
    split
    · rename_i closed
      refine ih.mono fun t copied j => ⟨(copied j).1, (copied j).2.trans ?_⟩
      by_cases same : j = i
      · subst same
        simp [table, closed]
      · simp [same]
    · rename_i f open'
      refine (s.fLock_sharing f cur).then fun s₁ same₁ => ?_
      refine (s₁.setSlot_sharing target i (some f)).then fun s₂ same₂ => ?_
      refine (s₂.addNfiles_sharing target 1).then fun s₃ same₃ => ?_
      refine (s₃.addRefcount_sharing f 1).then fun s₄ ⟨_, _, same₄⟩ => ?_
      simp only [Outcome.ensures_bind, Heap.get_ensures]
      intro file _
      refine (s₄.vopIncref_sharing _).mono fun s₅ same₅ => ?_
      refine (s₅.fUnlock_sharing f cur).mono fun s₆ same₆ => ?_
      have now : ∀ q j, s₆.sharing.slots (q, j) =
          if q = target ∧ j = i then some f else s.sharing.slots (q, j) := by
        intro q j
        rw [same₆, same₅, same₄, same₃, same₂, same₁]
        simp [Sharing.setCount, Sharing.put, Function.update_apply, Prod.ext_iff]
      have stays : ∀ j, s₆.sharing.slots (source, j) = s.sharing.slots (source, j) := by
        intro j
        rw [now, if_neg (by simp [differ.symm])]
      have gets : ∀ j, s₆.sharing.slots (target, j) =
          if j = i then some f else s.sharing.slots (target, j) := by
        intro j
        rw [now]
        simp
      refine ih.mono fun t copied j => ?_
      obtain ⟨below, above⟩ := copied j
      refine ⟨below.trans (stays j), ?_⟩
      rw [above, stays, gets]
      by_cases same : j = i
      · subst same
        simp [table, open']
      · simp [same]

end Files

namespace FileCalls

open Files

variable {P F V : Type} [DecidableEq P] [DecidableEq F] [DecidableEq V] [Fintype P]
variable {s t : State P F V} {p q cur : P}

/-- The counts are right, and the assertions that compare them hold where they are made: in
`fd_destroy` after `close_all_f`, and in `file_copy` for a new process. -/
structure NfilesRight (s : State P F V) : Prop where
  tallied : s.files.Tallied
  closed : ∀ p cur reclaims closed t fdesc,
    s.files.closeAllF p cur reclaims = .done (closed, t) → t.tables p = some fdesc →
      fdesc.fdNfiles = 0
  exited : ∀ p fdesc, s.phase p = .exited → s.files.tables p = some fdesc → fdesc.fdNfiles = 0
  copied : ∀ cur p room t u v source copy, p ≠ cur → s.files.fdCreate p room = .ok t →
    t.fdLock cur cur = .done u → u.copySlots cur p cur (List.finRange 8) = .done v →
      v.tables cur = some source → v.tables p = some copy → source.fdNfiles = copy.fdNfiles

/-- The calls that keep the counts. -/
def Tallies (s : State P F V) : Action P F V → Prop
  | .dup2 cur oldfd newfd _ => s.files.Covers cur oldfd newfd
  | .close cur fd _ => s.files.Keeps cur fd
  | _ => True

/-- What keeps the counts right over a run. -/
structure Tidy (s : State P F V) : Prop where
  tallied : s.files.Tallied
  exited : ∀ p i, s.phase p = .exited → s.files.sharing.slots (p, i) = none

theorem closed_zero {files : Files P F V} {fdesc : Filedesc F P} (tallied : files.Tallied)
    (empty : ∀ i, files.sharing.slots (p, i) = none) (table : files.tables p = some fdesc) :
    fdesc.fdNfiles = 0 := by
  have none' : openSlots fdesc = 0 := countWhere_eq_zero.mpr fun i filled =>
    filled ((slots_table table i).symm.trans (empty i))
  exact UInt16.toNat_inj.mp ((tallied p fdesc table).trans none')

theorem closeAllF_closed {files : Files P F V} (h : files.Tallied) (reclaims : Reclaims V) :
    (files.closeAllF p cur reclaims).Ensures fun out =>
      out.2.Tallied ∧ ∀ i, out.2.sharing.slots (p, i) = none :=
  (closeAllF_tallied h reclaims).and
    ((files.closeAllF_sharing (I := fun _ => True) p cur reclaims (fun _ _ _ _ _ => trivial)
      trivial).mono fun _ ⟨_, _, empty⟩ => empty)

theorem fdCreate_empty {files after : Files P F V} {room : Bool × Bool}
    (created : files.fdCreate p room = .ok after) (i : Fin 8) :
    after.sharing.slots (p, i) = none := by
  unfold fdCreate at created
  split at created
  · obtain rfl := Except.ok.inj created
    simp [sharing]
  · cases created

theorem Tidy.right (h : Tidy s) : NfilesRight s := by
  refine ⟨h.tallied, ?_, ?_, ?_⟩
  · intro p cur reclaims closed t fdesc value table
    obtain ⟨tallied, empty⟩ := closeAllF_closed h.tallied reclaims (closed, t) value
    exact closed_zero tallied empty table
  · exact fun p fdesc exited table => closed_zero h.tallied (fun i => h.exited p i exited) table
  · intro cur p room t u v source copy differ created locked copies here there
    have empty := fdCreate_empty created
    have same := t.fdLock_sharing cur cur u locked
    have tallied := copySlots_tallied (fdLock_tallied (fdCreate_tallied h.tallied created) u locked)
      (List.finRange 8) (List.nodup_finRange 8) (fun i _ => by rw [same, empty i]) v copies
    have slots := copySlots_slots differ (List.finRange 8) v copies
    have equal : openSlots source = openSlots copy := by
      refine countWhere_congr fun i => ?_
      obtain ⟨below, above⟩ := slots i
      rw [slots_table here] at below
      rw [slots_table there, same, empty i, ← same, ← below] at above
      rw [above]
      simp
    exact UInt16.toNat_inj.mp ((tallied cur source here).trans
      (equal.trans (tallied p copy there).symm))

/-- A call that changes the tables of `mine` alone keeps the processes tidy. -/
theorem Tidy.change (h : Tidy s) {files : Files P F V} {mine : P → Prop} (tallied : files.Tallied)
    (near : Near mine s.files files) (going : ∀ q, mine q → s.phase q ≠ .exited) :
    Tidy { s with files := files } := by
  refine ⟨tallied, fun q i exited => ?_⟩
  have same := near q fun own => going q own exited
  have empty := h.exited q i exited
  simp only [sharing, same]
  exact empty

theorem Tidy.enter {files : Files P F V} {phase : Phase} (h : Tidy { s with files := files })
    (empty : phase = .exited → ∀ i, files.sharing.slots (p, i) = none) :
    Tidy (s.enter p files phase) := by
  refine ⟨h.tallied, fun q i exited => ?_⟩
  simp only [State.enter, Function.update_apply] at exited
  split at exited
  · rename_i same
    exact same ▸ empty exited i
  · exact h.exited q i exited

theorem procCreate_absent (p : P) (room : Bool × Bool) :
    (s.procCreate p room).Ensures fun result => s.phase p = .absent ∧
      ∀ files, result = .ok files → s.files.fdCreate p room = .ok files := by
  rw [State.procCreate, Outcome.ensures_bind, Outcome.ensures_await]
  intro absent
  split
  · exact Outcome.ensures_pure.mpr ⟨absent, fun _ created => created⟩
  · exact Outcome.ensures_pure.mpr ⟨absent, by simp⟩

theorem fdCreate_near {files after : Files P F V} {room : Bool × Bool}
    (created : files.fdCreate p room = .ok after) : Near (fun q => q = p) files after := by
  unfold fdCreate at created
  split at created
  · obtain rfl := Except.ok.inj created
    exact fun q other => Function.update_of_ne other _ _
  · cases created

theorem openStandardFiles_tallied {files : Files P F V} (h : files.Tallied)
    (answers : Fin 3 → Answers F V) (reclaims : Reclaims V) :
    (openStandardFiles files p cur answers reclaims).Ensures fun out => out.2.Tallied := by
  unfold openStandardFiles
  generalize [(oRdonly, answers 0), (oWronly, answers 1), (oWronly, answers 2)] = opens
  induction opens generalizing files with
  | nil => exact Outcome.ensures_pure.mpr h
  | cons first rest ih =>
    refine (kOpen_tallied h first.1 first.2).then fun (result, t) after => ?_
    cases result with
    | ok i => exact ih after
    | error err => exact (closeAllF_tallied after reclaims).then fun out after => Outcome.ensures_pure.mpr after

/-- The two processes of `common_prog` and of `sys_fork` have not exited. -/
theorem going_of (absent : s.phase p = .absent) (running : s.phase cur = .running) (q : P)
    (mine : q = p ∨ q = cur) : s.phase q ≠ .exited := by
  rcases mine with rfl | rfl
  · simp [absent]
  · simp [running]

theorem wide {files after : Files P F V} (near : Near (fun q => q = p) files after) :
    Near (fun q => q = p ∨ q = cur) files after :=
  near.mono fun _ => .inl

theorem abandon_tidy (h : Tidy s) {files : Files P F V} (absent : s.phase p = .absent)
    (running : s.phase cur = .running) (tallied : files.Tallied)
    (near : Near (fun q => q = p ∨ q = cur) s.files files) (reclaims : Reclaims V) :
    (s.abandon files p cur reclaims).Ensures Tidy := by
  have closes : (files.closeAllF p cur reclaims).Ensures fun out =>
    Near (fun q => q = p ∨ q = cur) files out.2 := files.closeAllF_near (.inl rfl) cur reclaims
  refine ((closeAllF_closed tallied reclaims).and closes).then
    fun (_, after) ⟨⟨tallied₁, _⟩, near₁⟩ => ?_
  have destroys : (after.fdDestroy p).Ensures (Near (fun q => q = p ∨ q = cur) after) :=
    after.fdDestroy_near (.inl rfl)
  refine ((fdDestroy_tallied tallied₁).and destroys).then fun t ⟨tallied₂, near₂⟩ => ?_
  exact Outcome.ensures_pure.mpr
    (h.change tallied₂ ((near.trans near₁).trans near₂) (going_of absent running))

theorem start_tidy (h : Tidy s) (cur p : P) (room : Bool × Bool) (answers : Fin 3 → Answers F V)
    (threaded : Bool) (reclaims : Reclaims V) :
    (s.start cur p room answers threaded reclaims).Ensures Tidy := by
  rw [State.start, Outcome.ensures_bind, Outcome.ensures_await]
  intro running
  refine (procCreate_absent p room).then ?_
  rintro result ⟨absent, created⟩
  cases result with
  | error err => exact Outcome.ensures_pure.mpr h
  | ok files =>
    have made := created files rfl
    have opens : (openStandardFiles files p cur answers reclaims).Ensures fun out =>
      Near (fun q => q = p) files out.2 := openStandardFiles_near (by rfl) cur answers reclaims
    refine ((openStandardFiles_tallied (fdCreate_tallied h.tallied made) answers reclaims).and
      opens).then ?_
    rintro ⟨result, after⟩ ⟨tallied, near₁⟩
    have near : Near (fun q => q = p ∨ q = cur) s.files after :=
      wide ((fdCreate_near made).trans near₁)
    cases result with
    | error err =>
      have destroys : (after.fdDestroy p).Ensures (Near (fun q => q = p ∨ q = cur) after) :=
        after.fdDestroy_near (.inl rfl)
      refine ((fdDestroy_tallied tallied).and destroys).then ?_
      rintro t ⟨tallied₂, near₂⟩
      exact Outcome.ensures_pure.mpr
        (h.change tallied₂ (near.trans near₂) (going_of absent running))
    | ok _ =>
      cases threaded with
      | true =>
        exact Outcome.ensures_pure.mpr
          ((h.change tallied near (going_of absent running)).enter (by simp))
      | false => exact abandon_tidy h absent running tallied near reclaims

theorem fork_tidy (h : Tidy s) (cur p : P) (room : Bool × Bool) (threaded : Bool)
    (reclaims : Reclaims V) : (s.fork cur p room threaded reclaims).Ensures Tidy := by
  rw [State.fork, Outcome.ensures_bind, Outcome.ensures_await]
  intro running
  refine (procCreate_absent p room).then ?_
  rintro result ⟨absent, created⟩
  cases result with
  | error err => exact Outcome.ensures_fault
  | ok files =>
    have made := created files rfl
    have copies : (files.fileCopy cur p cur).Ensures (Near (fun q => q = p ∨ q = cur) files) :=
      files.fileCopy_near (.inl rfl) cur (.inr rfl)
    refine ((fileCopy_tallied (fdCreate_tallied h.tallied made) (fdCreate_empty made)).and
      copies).then ?_
    rintro after ⟨tallied, near₁⟩
    have near := (wide (fdCreate_near made)).trans near₁
    cases threaded with
    | true =>
      exact Outcome.ensures_pure.mpr
        ((h.change tallied near (going_of absent running)).enter (by simp))
    | false => exact abandon_tidy h absent running tallied near reclaims

theorem exit_tidy (h : Tidy s) (cur : P) (reclaims : Reclaims V) :
    (s.exit cur reclaims).Ensures Tidy := by
  rw [State.exit, Outcome.ensures_bind, Outcome.ensures_await]
  intro running
  have closes : (s.files.closeAllF cur cur reclaims).Ensures fun out =>
    Near (fun q => q = cur) s.files out.2 := s.files.closeAllF_near (by rfl) cur reclaims
  refine ((closeAllF_closed h.tallied reclaims).and closes).then ?_
  rintro ⟨_, after⟩ ⟨⟨tallied, empty⟩, near⟩
  simp only [Outcome.ensures_bind, Outcome.ensures_kassert, Outcome.ensures_pure]
  intro _
  exact (h.change tallied near fun q same => by simp [same, running]).enter fun _ => empty

theorem reap_tidy (h : Tidy s) (p : P) : (s.reap p).Ensures Tidy := by
  rw [State.reap, Outcome.ensures_bind, Outcome.ensures_await]
  intro _
  have destroys : (s.files.fdDestroy p).Ensures (Near (fun q => q = p) s.files) :=
    s.files.fdDestroy_near (by rfl)
  refine ((fdDestroy_tallied h.tallied).and destroys).then ?_
  rintro after ⟨tallied, near⟩
  refine Outcome.ensures_pure.mpr ⟨tallied, fun q i exited => ?_⟩
  simp only [State.enter, Function.update_apply] at exited
  split at exited
  · cases exited
  · rename_i away
    have same := near q away
    have empty := h.exited q i exited
    simp only [State.enter, sharing, same]
    exact empty

/-- The calls of one process on its own table. -/
theorem own_tidy {α : Type} (h : Tidy s) {x : Outcome (α × Files P F V)}
    (running : s.phase cur = .running) (tallied : x.Ensures fun out => out.2.Tallied)
    (frame : x.Ensures fun out => Near (fun q => q = cur) s.files out.2) :
    (do let (_, files) ← x; return { s with files := files } : Outcome (State P F V)).Ensures Tidy :=
  (tallied.and frame).then fun _ ⟨tallied, near⟩ => Outcome.ensures_pure.mpr
    (h.change tallied near fun q same => by simp [same, running])

theorem step_tidy (h : Tidy s) (a : Action P F V) (tallies : Tallies s a) :
    (s.step a).Ensures Tidy := by
  cases a with
  | start cur p room answers threaded reclaims =>
    exact start_tidy h cur p room answers threaded reclaims
  | «open» cur copied flags garbage answers =>
    rw [State.step, Outcome.ensures_bind, Outcome.ensures_await]
    intro running
    exact own_tidy h running (sysOpen_tallied h.tallied copied flags garbage answers)
      (s.files.sysOpen_near (by rfl) copied flags garbage answers)
  | dup2 cur oldfd newfd reclaims =>
    rw [State.step, Outcome.ensures_bind, Outcome.ensures_await]
    intro running
    refine own_tidy h running ((sysDup2_short h.tallied oldfd newfd reclaims).mono fun out done => ?_)
      (s.files.sysDup2_near (by rfl) oldfd newfd reclaims)
    rcases done with ⟨_, tallied⟩ | ⟨wrong, _⟩
    · exact tallied
    · exact (wrong tallies).elim
  | close cur fd reclaims =>
    rw [State.step, Outcome.ensures_bind, Outcome.ensures_await]
    intro running
    refine own_tidy h running ((sysClose_short h.tallied fd reclaims).mono fun out done => ?_)
      (s.files.sysClose_near (by rfl) fd reclaims)
    rcases done with ⟨_, tallied⟩ | ⟨wrong, _⟩
    · exact tallied
    · exact (wrong tallies).elim
  | fork cur p room threaded reclaims => exact fork_tidy h cur p room threaded reclaims
  | exit cur reclaims => exact exit_tidy h cur reclaims
  | reap p => exact reap_tidy h p

theorem initial_tidy {p0 : P} (start : (machine p0).initial s) : Tidy s := by
  obtain ⟨tables, -, phase⟩ := start
  constructor
  · intro q fdesc table
    simp only [tables, Function.update_apply] at table
    split at table
    · obtain rfl := Option.some.inj table
      exact (countWhere_eq_zero.mpr fun i => by simp).symm
    · cases table
  · intro q i exited
    simp only [phase, Function.update_apply] at exited
    split at exited <;> cases exited

/-- A `sys_dup2` that fills a slot and a `sys_close` that empties one end it. -/
theorem tallies_iff (h : Tidy s) {a : Action P F V} (step : s.step a = .done t) :
    NfilesRight t ↔ Tallies s a := by
  constructor
  · intro right
    cases a with
    | dup2 cur oldfd newfd reclaims =>
      obtain ⟨_, _, after⟩ := Outcome.bind_done.mp step
      obtain ⟨out, value, after⟩ := Outcome.bind_done.mp after
      obtain rfl := Outcome.pure_done.mp after
      rcases sysDup2_short h.tallied oldfd newfd reclaims out value with ⟨covers, _⟩ | ⟨_, wrong⟩
      · exact covers
      · exact (wrong.not_tallied (by decide) right.tallied).elim
    | close cur fd reclaims =>
      obtain ⟨_, _, after⟩ := Outcome.bind_done.mp step
      obtain ⟨out, value, after⟩ := Outcome.bind_done.mp after
      obtain rfl := Outcome.pure_done.mp after
      rcases sysClose_short h.tallied fd reclaims out value with ⟨keeps, _⟩ | ⟨_, wrong⟩
      · exact keeps
      · exact (wrong.not_tallied (by decide) right.tallied).elim
    | _ => trivial
  · exact fun tallies => (step_tidy h a tallies t step).right

/-- In every run whose calls all keep the counts they are right, and no other call keeps them. -/
theorem nfiles_right {p0 : P} {s : State P F V} (h : (machine p0).ReachableBy Tallies s) :
    NfilesRight s ∧ ∀ a t, (machine p0).step s a = .done t → (NfilesRight t ↔ Tallies s a) := by
  have tidy : Tidy s := (machine p0).invariant_ensures (fun _ => initial_tidy)
    (fun _ a tidy tallies => step_tidy tidy a tallies) h
  exact ⟨tidy.right, fun _ _ => tallies_iff tidy⟩

instance (s : State P F V) (a : Action P F V) : Decidable (Tallies s a) :=
  match a with
  | .dup2 .. => inferInstanceAs (Decidable (_ → _ ∨ _ ∨ _))
  | .close .. => inferInstanceAs (Decidable (∀ f ∈ _, _))
  | .start .. | .open .. | .fork .. | .exit .. | .reap .. => .isTrue trivial

/-- Process `1` shares its files with process `2`, which exits, and covers a descriptor. -/
theorem nfiles_right_shared : ∃ s : State (Fin 3) Nat Unit, (machine 0).ReachableBy Tallies s ∧
    s.phase 2 = .exited ∧ NfilesRight s := by
  have passes : ((machine (0 : Fin 3)).runIf (fun s a => decide (Tallies s a)) boot
      [startOne, .open 1 none oRdwr 0 (good 3), .fork 1 2 (true, true) true fun _ => false,
        .close 1 0 fun _ => false, .dup2 1 0 3 fun _ => false, .exit 2 fun _ => false]).passes
      (fun s => decide (s.phase 2 = .exited)) = true := by
    decide +kernel
  obtain ⟨s, run, exited⟩ := Outcome.passes_done passes
  have reached : (machine 0).ReachableBy Tallies s :=
    .runIf _ _ (.initial ⟨rfl, fun _ => rfl, rfl⟩) (fun _ _ => of_decide_eq_true) run
  exact ⟨s, reached, of_decide_eq_true exited, (nfiles_right reached).1⟩

/-- Process `1` fills a slot with `sys_dup2`: now a fork stops the machine, and so does the end of
the process. -/
theorem nfiles_wrong : ∃ s : State (Fin 3) Nat Unit, (machine 0).Reachable s ∧ ¬ NfilesRight s ∧
    s.step (.fork 1 2 (true, true) true fun _ => false) = .panic ∧
      ∃ t, s.step (.exit 1 fun _ => false) = .done t ∧ t.step (.reap 1) = .panic := by
  have passes : ((machine (0 : Fin 3)).run boot [startOne, .dup2 1 0 3 fun _ => false]).passes
      (fun s => (s.files.tables 1).any (fun fdesc =>
          decide (fdesc.fdNfiles.toNat = 3 ∧ openSlots fdesc = 4)) &&
        (s.step (.fork 1 2 (true, true) true fun _ => false)).panics &&
          (s.step (.exit 1 fun _ => false)).passes fun t => (t.step (.reap 1)).panics) = true := by
    decide +kernel
  obtain ⟨s, run, wrong⟩ := Outcome.passes_done passes
  simp only [Bool.and_eq_true] at wrong
  obtain ⟨⟨counts, forks⟩, exits⟩ := wrong
  refine ⟨s, .run _ (.initial ⟨rfl, fun _ => rfl, rfl⟩) run, fun right => ?_,
    Outcome.eq_panic forks, ?_⟩
  · cases table : s.files.tables 1 with
    | none =>
      rw [table] at counts
      cases counts
    | some fdesc =>
      rw [table] at counts
      obtain ⟨three, four⟩ := of_decide_eq_true counts
      have same := right.tallied 1 fdesc table
      omega
  · obtain ⟨t, value, reaps⟩ := Outcome.passes_done exits
    exact ⟨t, value, Outcome.eq_panic reaps⟩

end FileCalls

end Os161
