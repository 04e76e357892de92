import Os161.File.Refcount
import Os161.File.Transfer

/-!
# What `dup2` and `close` do to the descriptors

`sys_dup2` does its part as long as nothing is open at `newfd`. `sys_close` leaves the slot as it is
or destroys the lock of the table, where `des_descriptor` does neither.
-/

set_option linter.unusedSectionVars false

namespace Os161.Files

variable {P F V : Type} [DecidableEq P] [DecidableEq F] [DecidableEq V]
variable {s t : Files P F V} {p cur : P} {f g : F} {oldfd newfd fd : Int} {old new i : Fin 8}
variable {reclaims : Reclaims V}

def withTable (s : Files P F V) (p : P) (fdesc : Filedesc F P) : Files P F V :=
  { s with tables := Function.update s.tables p (some fdesc) }

section With

variable {fdesc after : Filedesc F P} {file : File V P}

@[simp] theorem withTable_self : (s.withTable p fdesc).tables p = some fdesc :=
  Function.update_self ..

@[simp] theorem withTable_files : (s.withTable p fdesc).files = s.files := rfl

@[simp] theorem withTable_vnodes : (s.withTable p fdesc).vnodes = s.vnodes := rfl

@[simp] theorem withTable_withTable : (s.withTable p fdesc).withTable p after = s.withTable p after := by
  simp [withTable]

theorem withFile_withTable :
    (s.withFile f file).withTable p fdesc = (s.withTable p fdesc).withFile f file := rfl

theorem withTable_other {q : P} (other : q ≠ p) : (s.withTable p fdesc).tables q = s.tables q :=
  Function.update_of_ne other ..

end With

section Steps

variable {Q : Files P F V → Prop}

theorem updateTable_ensures {h : Filedesc F P → Outcome (Filedesc F P)} :
    (s.updateTable p h).Ensures Q ↔ ∀ fdesc, s.tables p = some fdesc →
      (h fdesc).Ensures fun after => Q (s.withTable p after) := by
  simp [updateTable, withTable]

theorem updateFile_ensures {h : File V P → Outcome (File V P)} :
    (s.updateFile f h).Ensures Q ↔ ∀ file, s.files f = .live file →
      (h file).Ensures fun after => Q (s.withFile f after) := by
  simp [updateFile, withFile, value_live]

theorem fdLock_ensures : (s.fdLock p cur).Ensures Q ↔ ∀ fdesc, s.tables p = some fdesc →
    fdesc.fdLk = some none → Q (s.withTable p { fdesc with fdLk := some (some cur) }) := by
  simp only [fdLock, updateTable_ensures, Outcome.ensures_bind, Outcome.ensures_deref,
    AtomicLock.acquire_ensures, Outcome.ensures_pure]
  constructor
  · exact fun h fdesc table free => h fdesc table none free rfl
  · rintro h fdesc table lock there rfl
    exact h fdesc table there

theorem fdUnlock_ensures : (s.fdUnlock p cur).Ensures Q ↔ ∀ fdesc, s.tables p = some fdesc →
    fdesc.fdLk = some (some cur) → Q (s.withTable p { fdesc with fdLk := some none }) := by
  simp only [fdUnlock, updateTable_ensures, Outcome.ensures_bind, Outcome.ensures_deref,
    AtomicLock.release_ensures, Outcome.ensures_pure]
  constructor
  · exact fun h fdesc table held => h fdesc table _ held rfl
  · rintro h fdesc table lock there rfl
    exact h fdesc table there

theorem setSlot_ensures {o : Option F} : (s.setSlot p i o).Ensures Q ↔ ∀ fdesc,
    s.tables p = some fdesc →
      Q (s.withTable p { fdesc with fdOfiles := Function.update fdesc.fdOfiles i o }) := by
  simp only [setSlot, updateTable_ensures, Outcome.ensures_pure]

theorem addRefcount_ensures {n : UInt16} : (s.addRefcount f n).Ensures Q ↔ ∀ file,
    s.files f = .live file → Q (s.withFile f { file with fRefcount := file.fRefcount + n }) := by
  simp only [addRefcount, updateFile_ensures, Outcome.ensures_pure]

theorem get_ensures {α : Type} {h : File V P → Outcome α} {R : α → Prop} :
    (s.files.get f >>= h).Ensures R ↔ ∀ file, s.files f = .live file → (h file).Ensures R := by
  simp only [Outcome.ensures_bind, Heap.get_ensures, value_live]

theorem fdLockDestroy_ensures : (s.fdLockDestroy p).Ensures Q ↔ ∀ fdesc, s.tables p = some fdesc →
    fdesc.fdLk = some none → Q (s.withTable p { fdesc with fdLk := none }) := by
  simp only [fdLockDestroy, updateTable_ensures, Outcome.ensures_bind, Outcome.ensures_deref,
    Outcome.ensures_kassert, Outcome.ensures_pure]
  constructor
  · exact fun h fdesc table free => h fdesc table none free rfl
  · rintro h fdesc table lock there rfl
    exact h fdesc table there

end Steps

/-! ### `sys_dup2` -/

/-- `sys_dup2` has put the file `f` of `oldfd` into the slot of `newfd`, and let go of the file that
was there. -/
structure Duplicated (s t : Files P F V) (cur : P) (new : Fin 8) (f : F) (reclaims : Reclaims V) :
    Prop where
  table : ∃ fdesc, s.tables cur = some fdesc ∧
    t.tables cur = some { fdesc with fdOfiles := Function.update fdesc.fdOfiles new (some f) }
  others : ∀ p, p ≠ cur → t.tables p = s.tables p
  count : ∃ file after, s.files f = .live file ∧ t.files f = .live after ∧
    after.fRefcount.toNat = file.fRefcount.toNat + 1
  replaced : ∀ g file, s.sharing.slots (cur, new) = some g → g ≠ f → s.files g = .live file →
    if file.fRefcount = 1 then
      t.files g = .freed ∧ ∃ u, s.vfsClose reclaims file.fVnode = .done u ∧ t.vnodes = u.vnodes
    else
      ∃ after, t.files g = .live after ∧ after.fRefcount.toNat + 1 = file.fRefcount.toNat
  files : ∀ g, g ≠ f → s.sharing.slots (cur, new) ≠ some g → t.files g = s.files g

/-- What the call does before it looks at what was open at `newfd`. -/
theorem dup2_shared {α : Type} {k : Files P F V → Outcome α} {R : α → Prop} {fdesc : Filedesc F P}
    (table : s.tables cur = some fdesc) (slot : fdesc.fdOfiles old = some f)
    (rest : ∀ file, s.files f = .live file → fdesc.fdLk = some none →
      (k ((s.withTable cur
        { fdesc with fdOfiles := Function.update fdesc.fdOfiles new (some f) }).withFile f
          { file with fRefcount := file.fRefcount + 1 })).Ensures R) :
    (do
      let s ← s.fdLock cur cur
      let fdesc ← Outcome.deref (s.tables cur)
      let f ← Outcome.deref (fdesc.fdOfiles old)
      let s ← s.setSlot cur new (some f)
      let s ← s.addRefcount f 1
      let s ← s.fdUnlock cur cur
      k s).Ensures R := by
  simp only [Outcome.ensures_bind, fdLock_ensures, Outcome.ensures_deref, setSlot_ensures,
    addRefcount_ensures, fdUnlock_ensures]
  intro fdesc₁ table₁ free fdesc₂ table₂ g slot₂ fdesc₃ table₃ file live fdesc₄ table₄ held
  obtain rfl := Option.some.inj (table.symm.trans table₁)
  rw [withTable_self, Option.some.injEq] at table₂ table₃
  subst table₂ table₃
  obtain rfl := Option.some.inj (slot.symm.trans slot₂)
  rw [withFile_tables, withTable_self, Option.some.injEq] at table₄
  subst table₄
  simp only [withFile_withTable, withTable_withTable]
  have after := rest file live free
  rw [← free]
  exact after

/-- With `newfd` open, the call takes back the reference that it has given to the file. -/
theorem undoCount_count {file : File V P} (live : s.files f = .live file) {fdesc : Filedesc F P}
    (table : s.tables cur = some fdesc) (slot : fdesc.fdOfiles old = some f) :
    (sysDup2.undoCount cur reclaims s old).Ensures fun t =>
      t.files f = .live { file with fRefcount := file.fRefcount + -1 } := by
  unfold sysDup2.undoCount
  simp only [Outcome.ensures_bind, fdLock_ensures, Outcome.ensures_deref, addRefcount_ensures,
    Heap.get_ensures, value_live, fdUnlock_ensures]
  intro fdesc₁ table₁ free fdesc₂ table₂ g slot₂ file₁ live₁ file₂ live₂ fdesc₃ table₃ held
  obtain rfl := Option.some.inj (table.symm.trans table₁)
  rw [withTable_self, Option.some.injEq] at table₂
  subst table₂
  obtain rfl := Option.some.inj (slot.symm.trans slot₂)
  rw [withTable_files, live, Cell.live.injEq] at live₁
  subst live₁
  split
  · exact Outcome.ensures_pure.mpr (by simp)
  · simp only [Outcome.ensures_bind, fdLockDestroy_ensures]
    intro fdesc₄ table₄ free₄
    unfold vfsClose vopDecref
    simp only [Outcome.ensures_bind, Outcome.ensures_deref, Outcome.ensures_kassert]
    intro count there positive
    split
    · exact Outcome.ensures_pure.mpr (by simp)
    · split <;> exact Outcome.ensures_pure.mpr (by simp)

/-- Where a successful `sys_dup2` on two descriptors leads to. -/
theorem sysDup2_effect (inside : index oldfd = some old) (inside' : index newfd = some new)
    {fdesc : Filedesc F P} (table : s.tables cur = some fdesc) (slot : fdesc.fdOfiles old = some f)
    (differ : oldfd ≠ newfd) :
    (s.sysDup2 cur oldfd newfd reclaims).Ensures fun (result, t) => (∃ r, result = .ok r) →
      ∃ file, s.files f = .live file ∧
        if fdesc.fdOfiles new = none then
          t = (s.withTable cur
            { fdesc with fdOfiles := Function.update fdesc.fdOfiles new (some f) }).withFile f
              { file with fRefcount := file.fRefcount + 1 }
        else
          t.files f = .live file := by
  unfold sysDup2
  split
  · simp only [Outcome.ensures_bind (x := Outcome.deref _), Outcome.ensures_deref]
    intro fdesc₁ table₁ old₁ inside₁
    obtain rfl := Option.some.inj (table.symm.trans table₁)
    obtain rfl := Option.some.inj (inside.symm.trans inside₁)
    simp only [slot]
    rw [Outcome.ensures_bind, Outcome.ensures_deref]
    intro new₁ inside₁'
    obtain rfl := Option.some.inj (inside'.symm.trans inside₁')
    refine dup2_shared table slot fun file live free => ?_
    by_cases empty : fdesc.fdOfiles new = none
    · rw [if_neg (by simp [empty]), Outcome.ensures_pure]
      intro _
      exact ⟨file, live, by rw [if_pos empty]⟩
    · rw [if_pos (Option.isSome_iff_ne_none.mpr empty)]
      have apart : new ≠ old ∨ new = old := (eq_or_ne new old).symm
      have still : Function.update fdesc.fdOfiles new (some f) old = some f := by
        rcases apart with apart | same
        · rw [Function.update_of_ne (Ne.symm apart)]
          exact slot
        · rw [same, Function.update_self]
      have table' : ((s.withTable cur { fdesc with
          fdOfiles := Function.update fdesc.fdOfiles new (some f) }).withFile f
            { file with fRefcount := file.fRefcount + 1 }).tables cur = some { fdesc with
              fdOfiles := Function.update fdesc.fdOfiles new (some f) } := withTable_self
      refine (undoCount_count withFile_same table' still).then fun t back => ?_
      rw [Outcome.ensures_pure]
      intro _
      refine ⟨file, live, ?_⟩
      rw [if_neg empty, back]
      have same : file.fRefcount + 1 + -1 = file.fRefcount := by
        rw [UInt16.add_assoc]
        exact UInt16.add_zero _
      rw [same]
  · exact Outcome.ensures_pure.mpr (by rintro ⟨r, failed⟩; cases failed)

theorem open_table (slot : s.sharing.slots (cur, i) = some f) :
    ∃ fdesc, s.tables cur = some fdesc ∧ fdesc.fdOfiles i = some f := by
  obtain ⟨fdesc, table, there⟩ := Option.bind_eq_some_iff.mp slot
  exact ⟨fdesc, table, there⟩

/-- When something was open at `newfd`, the count of the file of `oldfd` ends where it was. -/
theorem sysDup2_count_stays (inside : index oldfd = some old) (inside' : index newfd = some new)
    {fdesc : Filedesc F P} (table : s.tables cur = some fdesc) (slot : fdesc.fdOfiles old = some f)
    (differ : oldfd ≠ newfd) (there : fdesc.fdOfiles new ≠ none) {r : Int}
    (h : s.sysDup2 cur oldfd newfd reclaims = .done (.ok r, t)) : t.files f = s.files f := by
  obtain ⟨file, live, effect⟩ := sysDup2_effect inside inside' table slot differ _ h ⟨r, rfl⟩
  rw [if_neg there] at effect
  rw [live]
  exact effect

theorem sysDup2_same (inside : index oldfd = some old) {fdesc : Filedesc F P}
    (table : s.tables cur = some fdesc) (slot : fdesc.fdOfiles old = some f)
    (same : oldfd = newfd) {r : Int}
    (h : s.sysDup2 cur oldfd newfd reclaims = .done (.ok r, t)) : t = s := by
  unfold sysDup2 at h
  split at h
  · rw [table, inside] at h
    simp only [Outcome.deref, Outcome.done_bind, slot, Outcome.pure_done, Prod.mk.injEq] at h
    exact h.2.symm
  · simp [Outcome.pure_done] at h

/-- When nothing was open at `newfd`, the file must have room for one more in its count. -/
theorem duplicated_empty {fdesc : Filedesc F P} {file : File V P} (table : s.tables cur = some fdesc)
    (live : s.files f = .live file) (empty : fdesc.fdOfiles new = none)
    (effect : t = (s.withTable cur
      { fdesc with fdOfiles := Function.update fdesc.fdOfiles new (some f) }).withFile f
        { file with fRefcount := file.fRefcount + 1 }) :
    Duplicated s t cur new f reclaims ↔ file.fRefcount.toNat < 65535 := by
  subst effect
  have bound := file.fRefcount.toNat_lt
  have wraps : (file.fRefcount + 1).toNat = (file.fRefcount.toNat + 1) % 65536 := by
    rw [UInt16.toNat_add]
    rfl
  constructor
  · intro done
    obtain ⟨before, after, was, is, higher⟩ := done.count
    rw [live, Cell.live.injEq] at was
    rw [withFile_same, Cell.live.injEq] at is
    subst was is
    change (file.fRefcount + 1).toNat = file.fRefcount.toNat + 1 at higher
    omega
  · intro few
    have higher : (file.fRefcount + 1).toNat = file.fRefcount.toNat + 1 := by omega
    refine ⟨⟨fdesc, table, withTable_self⟩, fun p other => withTable_other other,
      ⟨file, _, live, withFile_same, higher⟩, ?_, fun g other _ => withFile_other other⟩
    intro g before there
    rw [slots_table table, empty] at there
    cases there

/-- A successful `sys_dup2` of an open descriptor does its part if and only if the descriptors are
the same and nothing has changed, or nothing was open at `newfd` and there was room in the 16 bits
of the count. When something was open at `newfd`, the count of the file ends where it was. -/
theorem sysDup2_duplicates_iff (inside : index oldfd = some old) (inside' : index newfd = some new)
    (slot : s.sharing.slots (cur, old) = some f) {r : Int}
    (h : s.sysDup2 cur oldfd newfd reclaims = .done (.ok r, t)) :
    ((if oldfd = newfd then t = s else Duplicated s t cur new f reclaims) ↔
      oldfd = newfd ∨
        s.sharing.slots (cur, new) = none ∧ ∃ n, s.sharing.counts f = some n ∧ n < 65535) ∧
      (oldfd ≠ newfd → s.sharing.slots (cur, new) ≠ none → t.files f = s.files f) := by
  obtain ⟨fdesc, table, slot⟩ := open_table slot
  rw [slots_table table]
  refine ⟨?_, fun differ there => sysDup2_count_stays inside inside' table slot differ there h⟩
  by_cases same : oldfd = newfd
  · rw [if_pos same]
    exact iff_of_true (sysDup2_same inside table slot same h) (.inl same)
  rw [if_neg same, or_iff_right same]
  obtain ⟨file, live, effect⟩ := sysDup2_effect inside inside' table slot same _ h ⟨r, rfl⟩
  have count : s.sharing.counts f = some file.fRefcount.toNat := counts_file (value_live.mpr live)
  rw [count]
  by_cases empty : fdesc.fdOfiles new = none
  · rw [if_pos empty] at effect
    rw [duplicated_empty table live empty effect]
    simp [empty]
  · apply iff_of_false
    · intro done
      obtain ⟨before, after, was, is, higher⟩ := done.count
      rw [if_neg empty] at effect
      rw [live, Cell.live.injEq] at was
      rw [effect, Cell.live.injEq] at is
      subst was is
      omega
    · exact fun both => empty both.1

section Runs

open FileCalls

/-- Process `1` has its three standard files on descriptors `0`, `1` and `2`. -/
def Started (s : State (Fin 3) Nat Unit) : Prop := (machine 0).run boot [startOne] = .done s

theorem Started.reached {s : State (Fin 3) Nat Unit} (h : Started s) : (machine 0).Reachable s :=
  .run _ (.initial ⟨rfl, fun _ => rfl, rfl⟩) h

/-- Nothing is open at `3`. -/
theorem sysDup2_duplicates_three : ∃ s : State (Fin 3) Nat Unit, ∃ t, (machine 0).Reachable s ∧
    s.files.sysDup2 1 0 3 (fun _ => false) = .done (.ok 3, t) ∧
      Duplicated s.files t 1 3 0 fun _ => false := by
  have passes : ((machine (0 : Fin 3)).run boot [startOne]).passes (fun s => decide
      (s.files.sharing.slots (1, 0) = some 0 ∧ s.files.sharing.slots (1, 3) = none ∧
        s.files.sharing.counts 0 = some 1) && (s.files.sysDup2 1 0 3 fun _ => false).passes
          fun out => decide (out.1.toOption = some 3)) = true := by
    decide +kernel
  obtain ⟨s, run, checked⟩ := Outcome.passes_done passes
  rw [Bool.and_eq_true] at checked
  obtain ⟨slot, empty, count⟩ := of_decide_eq_true checked.1
  obtain ⟨⟨result, t⟩, call, value⟩ := Outcome.passes_done checked.2
  obtain rfl : result = .ok 3 := by
    cases result with
    | ok r => exact congrArg Except.ok (Option.some.inj (of_decide_eq_true value))
    | error err => cases of_decide_eq_true value
  have done := (sysDup2_duplicates_iff rfl rfl slot call).1.mpr (.inr ⟨empty, 1, count, by decide⟩)
  exact ⟨s, t, Started.reached run, call, by simpa using done⟩

/-- `dup2 (0, 1)` with both open. -/
theorem sysDup2_miscounts : ∃ s : State (Fin 3) Nat Unit, ∃ t, (machine 0).Reachable s ∧
    s.files.sharing.slots (1, 0) = some 0 ∧ s.files.sharing.slots (1, 1) = some 1 ∧
      s.files.sysDup2 1 0 1 (fun _ => false) = .done (.ok 1, t) ∧
        ¬ Duplicated s.files t 1 1 0 fun _ => false := by
  have passes : ((machine (0 : Fin 3)).run boot [startOne]).passes (fun s => decide
      (s.files.sharing.slots (1, 0) = some 0 ∧ s.files.sharing.slots (1, 1) = some 1 ∧
        s.files.sharing.counts 0 = some 1) && (s.files.sysDup2 1 0 1 fun _ => false).passes
          fun out => decide (out.1.toOption = some 1 ∧ out.2.sharing.counts 0 = some 1)) = true := by
    decide +kernel
  obtain ⟨s, run, checked⟩ := Outcome.passes_done passes
  rw [Bool.and_eq_true] at checked
  obtain ⟨slot, other, count⟩ := of_decide_eq_true checked.1
  obtain ⟨⟨result, t⟩, call, value⟩ := Outcome.passes_done checked.2
  obtain ⟨isOne, still⟩ := of_decide_eq_true value
  obtain rfl : result = .ok 1 := by
    cases result with
    | ok r => exact congrArg Except.ok (Option.some.inj isOne)
    | error err => cases isOne
  refine ⟨s, t, Started.reached run, slot, other, call, fun done => ?_⟩
  obtain ⟨file, after, was, is, higher⟩ := done.count
  have before := counts_file (value_live.mpr was)
  have now := counts_file (value_live.mpr is)
  rw [count, Option.some.injEq] at before
  rw [still, Option.some.injEq] at now
  omega

end Runs

/-! ### `sys_close` -/

/-- `sys_close` has emptied the slot, and let go of its file `f`. -/
structure Closed (s t : Files P F V) (cur : P) (i : Fin 8) (f : F) (reclaims : Reclaims V) :
    Prop where
  slot : t.sharing.slots (cur, i) = none
  others : ∀ place, place ≠ (cur, i) → t.sharing.slots place = s.sharing.slots place
  lock : ∃ fdesc, t.tables cur = some fdesc ∧ fdesc.fdLk = some none
  file : ∀ file, s.files f = .live file →
    if file.fRefcount = 1 then
      t.files f = .freed ∧ ∃ u, s.vfsClose reclaims file.fVnode = .done u ∧ t.vnodes = u.vnodes
    else
      (∃ after, t.files f = .live after ∧ after.fRefcount.toNat + 1 = file.fRefcount.toNat) ∧
        t.vnodes = s.vnodes

section Tables

variable (s)

theorem updateFile_tables (f : F) (h : File V P → Outcome (File V P)) :
    (s.updateFile f h).Ensures fun t => t.tables = s.tables := by
  rw [updateFile_ensures]
  intro file live after value
  simp

theorem vopDecref_tables (reclaims : Reclaims V) (vn : V) :
    (s.vopDecref reclaims vn).Ensures fun t => t.tables = s.tables := by
  unfold vopDecref
  simp only [Outcome.ensures_bind, Outcome.ensures_deref, Outcome.ensures_kassert]
  intro count there positive
  split
  · exact Outcome.ensures_pure.mpr rfl
  · split <;> exact Outcome.ensures_pure.mpr rfl

theorem kfreeFile_tables (f : F) : (s.kfreeFile f).Ensures fun t => t.tables = s.tables := by
  simp [kfreeFile]

theorem desFile_tables (reclaims : Reclaims V) (f : F) :
    (s.desFile reclaims f).Ensures fun t => t.tables = s.tables := by
  unfold desFile
  rw [get_ensures]
  intro file live
  rw [Outcome.ensures_bind, Outcome.ensures_kassert]
  intro zero
  refine (s.vopDecref_tables reclaims file.fVnode).then fun s₁ same₁ => ?_
  refine (s₁.updateFile_tables f _).then fun s₂ same₂ => ?_
  exact (s₂.kfreeFile_tables f).mono fun t same => same.trans (same₂.trans same₁)

end Tables

theorem fdDetach_free : (s.fdDetach p p i).Ensures fun t =>
    ∃ fdesc, t.tables p = some fdesc ∧ fdesc.fdLk = some none := by
  simp only [fdDetach, addNfiles, Outcome.ensures_bind, fdLock_ensures, setSlot_ensures,
    updateTable_ensures, Outcome.ensures_pure, fdUnlock_ensures]
  intro fdesc₁ _ _ fdesc₂ _ fdesc₃ _ fdesc₄ _ _
  exact ⟨_, withTable_self, rfl⟩

/-- After `des_descriptor` the slot is empty, and the lock of the table is there and free. -/
theorem desDescriptor_closed : (s.desDescriptor p p reclaims i).Ensures fun (result, t) =>
    result = .ok () → t.sharing.slots (p, i) = none ∧
      ∃ fdesc, t.tables p = some fdesc ∧ fdesc.fdLk = some none := by
  have free : (s.desDescriptor p p reclaims i).Ensures fun (result, t) => result = .ok () →
      ∃ fdesc, t.tables p = some fdesc ∧ fdesc.fdLk = some none := by
    refine (s.getFile_sharing p p i).then fun (result, s₁) _ => ?_
    cases result with
    | error err => exact Outcome.ensures_pure.mpr nofun
    | ok f =>
      rw [get_ensures]
      intro file live
      rw [Outcome.ensures_bind, Outcome.ensures_kassert]
      intro _
      refine fdDetach_free.then fun s₂ ⟨fdesc, table, there⟩ => ?_
      refine (s₂.updateFile_tables f _).then fun s₃ same₃ => ?_
      refine (s₃.vopDecref_tables reclaims file.fVnode).then fun s₄ same₄ => ?_
      rw [get_ensures]
      intro file' live'
      rw [same₃] at same₄
      split
      · refine (s₄.updateFile_tables f _).then fun s₅ same₅ => ?_
        refine (s₅.desFile_tables reclaims f).then fun t same => ?_
        refine Outcome.ensures_pure.mpr fun _ => ⟨fdesc, ?_, there⟩
        rw [same, same₅, same₄]
        exact table
      · refine (s₄.updateFile_tables f _).then fun t same => ?_
        refine Outcome.ensures_pure.mpr fun _ => ⟨fdesc, ?_, there⟩
        rw [same, same₄]
        exact table
  refine (free.and (s.desDescriptor_slots p p reclaims i)).mono fun (result, t) ⟨lock, slots, _⟩ => ?_
  intro done
  refine ⟨?_, lock done⟩
  rw [slots]
  exact Sharing.put_self

/-- With the last reference the lock of the table goes, before that the slot stays. -/
theorem sysClose_effect (inside : index fd = some i) {fdesc : Filedesc F P}
    (table : s.tables cur = some fdesc) (slot : fdesc.fdOfiles i = some f) :
    (s.sysClose cur fd reclaims).Ensures fun (result, t) => result = .ok () →
      ∃ after, t.tables cur = some after ∧ (after.fdLk = none ∨ after.fdOfiles i = some f) := by
  unfold sysClose
  split
  · exact Outcome.ensures_pure.mpr (by simp)
  rw [Outcome.ensures_bind, Outcome.ensures_deref]
  intro fdesc₁ table₁
  obtain rfl := Option.some.inj (table.symm.trans table₁)
  rw [Outcome.ensures_bind, Outcome.ensures_deref]
  intro i₁ inside₁
  obtain rfl := Option.some.inj (inside.symm.trans inside₁)
  simp only [slot]
  rw [Outcome.ensures_bind, fdLock_ensures]
  intro fdesc₂ table₂ _
  obtain rfl := Option.some.inj (table.symm.trans table₂)
  rw [get_ensures]
  intro file live
  rw [Outcome.ensures_bind, Outcome.ensures_kassert]
  intro _
  refine (updateFile_tables _ f _).then fun s₂ same₂ => ?_
  rw [get_ensures]
  intro file' live'
  split
  · refine (s₂.vopDecref_tables reclaims _).then fun s₃ same₃ => ?_
    simp only [Outcome.ensures_bind, fdUnlock_ensures, fdLockDestroy_ensures]
    intro fdesc₃ _ _ fdesc₄ _ _
    refine (kfreeFile_tables _ f).mono fun s₅ same₅ => ?_
    simp only [setSlot_ensures, same₅, withTable_self]
    intro fdesc₅ table₅
    obtain rfl := Option.some.inj table₅
    exact Outcome.ensures_pure.mpr fun _ => ⟨_, withTable_self, .inl rfl⟩
  · simp only [Outcome.ensures_bind, fdUnlock_ensures, same₂, withTable_self]
    intro fdesc₃ table₃ _
    obtain rfl := Option.some.inj table₃
    exact Outcome.ensures_pure.mpr fun _ => ⟨_, withTable_self, .inr slot⟩

/-- No call of `sys_close` on an open descriptor closes it as it should, and none leaves the table
as `des_descriptor` leaves it. -/
theorem sysClose_never_closes (inside : index fd = some i) (slot : s.sharing.slots (cur, i) = some f)
    (h : s.sysClose cur fd reclaims = .done (.ok (), t)) :
    ¬ Closed s t cur i f reclaims ∧
      ∀ u, s.desDescriptor cur cur reclaims i = .done (.ok (), u) → u.tables cur ≠ t.tables cur := by
  obtain ⟨fdesc, table, there⟩ := open_table slot
  obtain ⟨after, tableAfter, wrong⟩ := sysClose_effect inside table there _ h rfl
  constructor
  · intro closed
    rcases wrong with gone | stays
    · obtain ⟨fdesc', table', free⟩ := closed.lock
      obtain rfl := Option.some.inj (tableAfter.symm.trans table')
      rw [gone] at free
      cases free
    · have empty := closed.slot
      rw [slots_table tableAfter, stays] at empty
      cases empty
  · intro u closes same
    obtain ⟨empty, fdesc', table', free⟩ := desDescriptor_closed _ closes rfl
    obtain rfl := Option.some.inj (tableAfter.symm.trans (same ▸ table'))
    rcases wrong with gone | stays
    · rw [gone] at free
      cases free
    · rw [slots_table table', stays] at empty
      cases empty

section Runs

open FileCalls

/-- Process `1` closes descriptor `0`, whose file it has alone. -/
theorem sysClose_closes_alone : ∃ s : State (Fin 3) Nat Unit, ∃ t, (machine 0).Reachable s ∧
    s.files.sharing.slots (1, 0) = some 0 ∧
      s.files.sysClose 1 0 (fun _ => false) = .done (.ok (), t) ∧
        ¬ Closed s.files t 1 0 0 fun _ => false := by
  have passes : ((machine (0 : Fin 3)).run boot [startOne]).passes (fun s =>
      decide (s.files.sharing.slots (1, 0) = some 0) &&
        (s.files.sysClose 1 0 fun _ => false).passes fun out => out.1.isOk) = true := by
    decide +kernel
  obtain ⟨s, run, checked⟩ := Outcome.passes_done passes
  rw [Bool.and_eq_true] at checked
  have slot := of_decide_eq_true checked.1
  obtain ⟨⟨result, t⟩, call, value⟩ := Outcome.passes_done checked.2
  obtain rfl : result = .ok () := by
    cases result with
    | ok r => rfl
    | error err => cases value
  exact ⟨s, t, Started.reached run, slot, call, (sysClose_never_closes rfl slot call).1⟩

/-- Process `1` closes descriptor `0`, whose file it shares with its child, and can close it once
more. -/
theorem sysClose_leaves_open : ∃ s : State (Fin 3) Nat Unit, ∃ t, (machine 0).Reachable s ∧
    s.files.sharing.slots (1, 0) = some 0 ∧
      s.files.sysClose 1 0 (fun _ => false) = .done (.ok (), t) ∧
        (t.sysClose 1 0 fun _ => false).passes (fun out => out.1.isOk) = true ∧
          ¬ Closed s.files t 1 0 0 fun _ => false := by
  have passes : ((machine (0 : Fin 3)).run boot
      [startOne, .fork 1 2 (true, true) true fun _ => false]).passes (fun s =>
        decide (s.files.sharing.slots (1, 0) = some 0) &&
          (s.files.sysClose 1 0 fun _ => false).passes fun out => out.1.isOk &&
            ((out.2.sysClose 1 0 fun _ => false).passes fun again => again.1.isOk) &&
              decide (out.2.sharing.slots (1, 0) = some 0)) = true := by
    decide +kernel
  obtain ⟨s, run, checked⟩ := Outcome.passes_done passes
  rw [Bool.and_eq_true] at checked
  obtain ⟨⟨result, t⟩, call, value⟩ := Outcome.passes_done checked.2
  simp only [Bool.and_eq_true] at value
  obtain ⟨⟨isOk, again⟩, stays⟩ := value
  obtain rfl : result = .ok () := by
    cases result with
    | ok r => rfl
    | error err => cases isOk
  refine ⟨s, t, .run _ (.initial ⟨rfl, fun _ => rfl, rfl⟩) run, of_decide_eq_true checked.1, call,
    again, fun closed => ?_⟩
  have empty := closed.slot
  rw [of_decide_eq_true stays] at empty
  cases empty

end Runs

end Os161.Files
