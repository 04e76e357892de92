import Os161.File.Descriptors

/-!
# When an open fails

`k_open` has five points of failure. What it took before is given back in full only when the vnode
was one that nobody else used and that stays in memory: after the file is there, the vnode is closed
by `k_open` and once more by `des_file`.
-/

set_option linter.unusedSectionVars false

namespace Os161.Files

variable {P F V : Type} [DecidableEq P] [DecidableEq F] [DecidableEq V]
variable {s t : Files P F V} {p cur : P} {f : F} {vn : V} {file : File V P} {flags : UInt32}
variable {answers : Answers F V} {reclaims : Reclaims V} {err : Errno}

/-- The file that `kmalloc` gives to `k_open`, when it comes that far. -/
def taken (answers : Answers F V) : Option F :=
  match answers.vfsOpen with
  | .error _ => none
  | .ok _ => answers.kmalloc

/-- One of the steps of `k_open` fails. -/
def OpenFails (s : Files P F V) (p : P) (flags : UInt32) (answers : Answers F V) : Prop :=
  (∃ err, answers.vfsOpen = .error err) ∨ answers.kmalloc = none ∨ answers.lockCreate = false ∨
    (flags &&& oAppend ≠ 0 ∧ ∃ err, answers.vopStat = .error err) ∨
      ∃ fdesc, s.tables p = some fdesc ∧ ∀ i, fdesc.fdOfiles i ≠ none

/-- `t` is `s` again, but for an allocation that was made and freed. -/
structure RolledBack (s t : Files P F V) (answers : Answers F V) : Prop where
  tables : t.tables = s.tables
  vnodes : t.vnodes = s.vnodes
  freed : ∀ f, taken answers = some f → t.files f = .freed
  others : ∀ f, taken answers ≠ some f → t.files f = s.files f

/-- `k_open` returns an error and has undone what it did. -/
def OpenUndone (s : Files P F V) (p cur : P) (flags : UInt32) (answers : Answers F V) : Prop :=
  ∃ err t, s.kOpen p cur flags answers = .done (.error err, t) ∧ err.code ≠ 0 ∧
    RolledBack s t answers

/-- When a failing `k_open` undoes what it did. -/
def UndoesOpen (s : Files P F V) (p : P) (flags : UInt32) (answers : Answers F V) : Prop :=
  match answers.vfsOpen with
  | .error _ => True
  | .ok vn => answers.kmalloc ≠ none ∧ answers.lockCreate = true ∧ s.vnodes vn = some 1 ∧
      answers.reclaims vn = false ∧
        ((flags &&& oAppend ≠ 0 ∧ ∃ err, answers.vopStat = .error err) ∨ s.fdLkOf p = some none)

/-! ### Closing the vnode twice -/

def withCount (s : Files P F V) (vn : V) (count : Option Nat) : Files P F V :=
  { s with vnodes := Function.update s.vnodes vn count }

@[simp] theorem withCount_self {count : Option Nat} : (s.withCount vn count).vnodes vn = count :=
  Function.update_self ..

@[simp] theorem withCount_withCount {count count' : Option Nat} :
    (s.withCount vn count).withCount vn count' = s.withCount vn count' := by
  simp [withCount]

theorem withCount_eq : s.withCount vn (s.vnodes vn) = s := by
  simp [withCount]

/-- What `VOP_DECREF` leaves of a count. There is nothing to take from a vnode that is not there. -/
def decref (reclaimed : Bool) : Option Nat → Option (Option Nat)
  | none | some 0 => none
  | some 1 => some (if reclaimed then none else some 1)
  | some (n + 2) => some (some (n + 1))

theorem vfsClose_done : s.vfsClose reclaims vn = .done t ↔
    ∃ count, decref (reclaims vn) (s.vnodes vn) = some count ∧ t = s.withCount vn count := by
  unfold vfsClose vopDecref
  match same : s.vnodes vn with
  | none => simp [Outcome.deref, decref]
  | some 0 => simp [Outcome.deref, Outcome.kassert, decref]
  | some 1 =>
    have kept : s.withCount vn (some 1) = s := by rw [← same, withCount_eq]
    cases gone : reclaims vn with
    | true =>
      simp only [Outcome.deref, Outcome.kassert, decref, Outcome.pure_def, withCount]
      simp [eq_comm (a := t)]
    | false =>
      simp only [Outcome.deref, Outcome.kassert, decref, Outcome.pure_def]
      simp [kept, eq_comm (a := t)]
  | some (n + 2) =>
    simp only [Outcome.deref, Outcome.kassert, decref, Outcome.pure_def, withCount]
    simp [eq_comm (a := t)]

/-- One reference is taken, and two are given back. -/
def decrefTwice (reclaimed : Bool) (count : Option Nat) : Option (Option Nat) :=
  (decref reclaimed (some (count.getD 0 + 1))).bind (decref reclaimed)

theorem decrefTwice_restores {reclaimed : Bool} {count : Option Nat} :
    decrefTwice reclaimed count = some count ↔ count = some 1 ∧ reclaimed = false := by
  match count with
  | none => cases reclaimed <;> simp [decrefTwice, decref]
  | some 0 => cases reclaimed <;> simp [decrefTwice, decref]
  | some 1 => cases reclaimed <;> simp [decrefTwice, decref]
  | some (n + 2) => simp [decrefTwice, decref]

/-- The file is as `k_open` makes it, apart from its offset. -/
structure Fresh (file : File V P) (vn : V) : Prop where
  vnode : file.fVnode = vn
  zero : file.fRefcount = 0
  unheld : file.fLk = some none

theorem fLockDestroy_fresh (live : s.files f = .live file) (unheld : file.fLk = some none) :
    s.fLockDestroy f = .done (s.withFile f { file with fLk := none }) := by
  apply updateFile_done.mpr
  exact ⟨file, _, live, by simp [unheld, Outcome.deref, Outcome.kassert, Outcome.pure_def], rfl⟩

theorem desFile_done (fresh : Fresh file vn) (live : s.files f = .live file) :
    s.desFile reclaims f = .done t ↔ ∃ count, decref (reclaims vn) (s.vnodes vn) = some count ∧
      t = { s.withCount vn count with files := Function.update s.files f .freed } := by
  obtain ⟨rfl, zero, unheld⟩ := fresh
  rw [desFile, get_done.mpr live, Outcome.done_bind, zero]
  simp only [Outcome.kassert, if_true, Outcome.done_bind, Outcome.bind_done, vfsClose_done]
  constructor
  · rintro ⟨u, ⟨count, left, rfl⟩, w, destroys, frees⟩
    have destroyed := fLockDestroy_fresh (s := s.withCount file.fVnode count) live unheld
    obtain rfl := Outcome.done.inj (destroyed.symm.trans destroys)
    rw [kfreeFile, Heap.free, get_done.mpr withFile_same] at frees
    obtain rfl := Outcome.done.inj frees
    exact ⟨count, left, by simp [withFile, withCount]⟩
  · rintro ⟨count, left, rfl⟩
    have destroyed := fLockDestroy_fresh (s := s.withCount file.fVnode count) live unheld
    refine ⟨_, ⟨count, left, rfl⟩, _, destroyed, ?_⟩
    rw [kfreeFile, Heap.free, get_done.mpr withFile_same]
    simp [withFile, withCount, Outcome.pure_def]

/-- The state between the allocation of the file and the end of `k_open`. -/
def opened (s : Files P F V) (vn : V) (f : F) (file : File V P) : Files P F V :=
  { s.vfsOpened vn with files := Function.update s.files f (.live file) }

/-- The end of `k_open` after a failure. -/
def undoOpen (s : Files P F V) (reclaims : Reclaims V) (vn : V) (f : F) (err : Errno) :
    Outcome (Except Errno (Fin 8) × Files P F V) := do
  let s ← s.vfsClose reclaims vn
  let s ← s.desFile reclaims f
  return (.error err, s)

theorem undoOpen_done {result : Except Errno (Fin 8)} (fresh : Fresh file vn) :
    (s.opened vn f file).undoOpen reclaims vn f err = .done (result, t) ↔ ∃ count,
      decrefTwice (reclaims vn) (s.vnodes vn) = some count ∧ result = .error err ∧
        t = { s.withCount vn count with files := Function.update s.files f .freed } := by
  have count : (s.opened vn f file).vnodes vn = some ((s.vnodes vn).getD 0 + 1) :=
    Function.update_self ..
  simp only [undoOpen, Outcome.bind_done, Outcome.pure_done, Prod.mk.injEq, vfsClose_done, count,
    decrefTwice, Option.bind_eq_some_iff]
  constructor
  · rintro ⟨u, ⟨once, first, rfl⟩, w, closes, rfl, rfl⟩
    obtain ⟨twice, second, rfl⟩ := (desFile_done fresh (Function.update_self ..)).mp closes
    rw [withCount_self] at second
    exact ⟨twice, ⟨once, first, second⟩, rfl, by simp [opened, withCount, vfsOpened]⟩
  · rintro ⟨twice, ⟨once, first, second⟩, rfl, rfl⟩
    refine ⟨_, ⟨once, first, rfl⟩, _, (desFile_done fresh (Function.update_self ..)).mpr
      ⟨twice, by rwa [withCount_self], rfl⟩, rfl, ?_⟩
    simp [opened, withCount, vfsOpened]

/-- After the allocations, undoing restores the state only for an idle vnode that stays. -/
theorem undoOpen_iff (fresh : Fresh file vn) (gave : answers.vfsOpen = .ok vn)
    (got : answers.kmalloc = some f) :
    (∃ err' t, (s.opened vn f file).undoOpen answers.reclaims vn f err = .done (.error err', t) ∧
      err'.code ≠ 0 ∧ RolledBack s t answers) ↔
        s.vnodes vn = some 1 ∧ answers.reclaims vn = false := by
  have taken_f : taken answers = some f := by rw [taken, gave, got]
  rw [← decrefTwice_restores]
  constructor
  · rintro ⟨err', t, undoes, _, back⟩
    obtain ⟨count, left, _, rfl⟩ := (undoOpen_done fresh).mp undoes
    have same := congrFun back.vnodes vn
    rwa [show count = s.vnodes vn by simpa [withCount] using same] at left
  · intro restores
    refine ⟨err, _, (undoOpen_done fresh).mpr ⟨_, restores, rfl, rfl⟩, ?_, ?_⟩
    · have := err.code_pos
      omega
    · rw [withCount_eq]
      refine ⟨rfl, rfl, fun g taken_g => ?_, fun g other => ?_⟩
      · obtain rfl := Option.some.inj (taken_f.symm.trans taken_g)
        exact Function.update_self ..
      · exact Function.update_of_ne (by rintro rfl; exact other taken_f) ..

/-! ### The points of failure -/

theorem opened_fdLkOf : (s.opened vn f file).fdLkOf p = s.fdLkOf p := rfl

theorem opened_file : (s.opened vn f file).files f = .live file := Function.update_self ..

theorem opened_withFile {file' : File V P} :
    (s.opened vn f file).withFile f file' = s.opened vn f file' := by
  simp [opened, withFile]

theorem scan_full {fdesc : Filedesc F P} (full : ∀ i, fdesc.fdOfiles i ≠ none) :
    ((List.finRange 8).find? fun i => (fdesc.fdOfiles i).isNone) = none := by
  apply List.find?_eq_none.mpr
  intro i _ empty
  exact full i (Option.isNone_iff_eq_none.mp empty)

theorem fdAttach_full {fdesc : Filedesc F P} (table : s.tables p = some fdesc)
    (full : ∀ i, fdesc.fdOfiles i ≠ none) (free : s.fdLkOf p = some none) :
    s.fdAttach p cur f = .done (.error .enfile, s) := by
  have locks : s.fdLock p cur = .done (s.withFdLk p (some cur)) := fdLock_done.mpr ⟨free, rfl⟩
  have unlocks : (s.withFdLk p (some cur)).fdUnlock p cur = .done s := by
    refine fdUnlock_done.mpr ⟨withFdLk_fdLkOf free, ?_⟩
    rw [withFdLk_withFdLk, withFdLk_eq free]
  rw [fdAttach, locks, Outcome.done_bind, withFdLk_table table]
  simp only [Outcome.deref, Outcome.done_bind, scan_full full, unlocks]
  rfl

theorem fLock_opened (fresh : Fresh file vn) : (s.opened vn f file).fLock f cur =
    .done (s.opened vn f { file with fLk := some (some cur) }) :=
  fLock_done.mpr ⟨file, opened_file, fresh.unheld, opened_withFile.symm⟩

/-- The table is full. -/
theorem attach_full {fdesc : Filedesc F P} (fresh : Fresh file vn) (table : s.tables p = some fdesc)
    (full : ∀ i, fdesc.fdOfiles i ≠ none) (free : s.fdLkOf p = some none) :
    kOpen.attach p cur answers (s.opened vn f file) vn f =
      (s.opened vn f file).undoOpen answers.reclaims vn f .enfile := by
  have attaches : (s.opened vn f { file with fLk := some (some cur) }).fdAttach p cur f =
      .done (.error .enfile, s.opened vn f { file with fLk := some (some cur) }) :=
    fdAttach_full table full free
  have unlocks : (s.opened vn f { file with fLk := some (some cur) }).fUnlock f cur =
      .done (s.opened vn f file) := by
    refine fUnlock_done.mpr ⟨_, opened_file, rfl, ?_⟩
    rw [opened_withFile, ← fresh.unheld]
  rw [kOpen.attach, fLock_opened fresh, Outcome.done_bind, attaches, Outcome.done_bind]
  dsimp only
  rw [unlocks, Outcome.done_bind]
  rfl

/-- The call cannot come back from `fd_attach` without the lock of the table. -/
theorem attach_locks {result : Except Errno (Fin 8)} (fresh : Fresh file vn)
    (h : kOpen.attach p cur answers (s.opened vn f file) vn f = .done (result, t)) :
    s.fdLkOf p = some none := by
  rw [kOpen.attach, fLock_opened fresh, Outcome.done_bind] at h
  obtain ⟨_, attaches, _⟩ := Outcome.bind_done.mp h
  obtain ⟨_, locks, _⟩ := Outcome.bind_done.mp attaches
  exact (fdLock_done.mp locks).1

/-- Without a lock the file is freed and then used. -/
theorem seek_faults (gone : s.files f = .freed) :
    kOpen.seek p cur flags answers s vn f = .fault := by
  have gets : s.files.get f = .fault := by simp [Heap.get, gone, Cell.value?, Outcome.deref]
  have locks : ∀ g, s.updateFile f g = .fault := fun g => by simp [updateFile, Heap.modify, gets]
  unfold kOpen.seek
  split
  · split
    · rw [gets, Outcome.fault_bind]
    · rw [locks, Outcome.fault_bind]
  · simp [kOpen.attach, fLock, locks]

/-- The file that `k_open` makes. -/
def newFile (vn : V) (flags : UInt32) : File V P := ⟨vn, flags.toUInt16, 0, 0, some none⟩

theorem newFile_fresh {offset : Int} :
    Fresh { (newFile vn flags : File V P) with fOffset := offset } vn := ⟨rfl, rfl, rfl⟩

theorem kOpen_seeks (gave : answers.vfsOpen = .ok vn) (got : answers.kmalloc = some f)
    (unused : s.files f = .unused) (locked : answers.lockCreate = true) :
    s.kOpen p cur flags answers =
      kOpen.seek p cur flags answers (s.opened vn f (newFile vn flags)) vn f := by
  simp only [kOpen, gave, got, Heap.alloc, unused, Outcome.done_bind, locked, if_true]
  rfl

theorem kOpen_unlocked (gave : answers.vfsOpen = .ok vn) (got : answers.kmalloc = some f)
    (unused : s.files f = .unused) (unlocked : answers.lockCreate = false) :
    s.kOpen p cur flags answers = .fault := by
  have frees : (s.opened vn f (newFile vn flags)).kfreeFile f =
      .done { s.vfsOpened vn with files := Function.update s.files f .freed } := by
    rw [kfreeFile, Heap.free, get_done.mpr opened_file]
    simp [opened, Outcome.pure_def]
  have goes : s.kOpen p cur flags answers = (s.opened vn f (newFile vn flags)).kfreeFile f >>=
      fun s => kOpen.seek p cur flags answers s vn f := by
    simp only [kOpen, gave, got, Heap.alloc, unused, Outcome.done_bind, unlocked]
    rfl
  rw [goes, frees, Outcome.done_bind]
  exact seek_faults (Function.update_self ..)

theorem kOpen_unused (gave : answers.vfsOpen = .ok vn) (got : answers.kmalloc = some f)
    (goes : s.kOpen p cur flags answers ≠ .blocked) : s.files f = .unused := by
  cases same : s.files f with
  | unused => rfl
  | _ =>
    apply (goes _).elim
    simp only [kOpen, gave, got, Heap.alloc, same]
    rfl

theorem vfsOpened_ne : (s.vfsOpened vn).vnodes ≠ s.vnodes := by
  intro same
  have here : (s.vfsOpened vn).vnodes vn = some ((s.vnodes vn).getD 0 + 1) :=
    Function.update_self ..
  rw [same] at here
  cases count : s.vnodes vn <;> simp [count] at here

theorem OpenUndone.unlocked (undone : OpenUndone s p cur flags answers)
    (gave : answers.vfsOpen = .ok vn) (got : answers.kmalloc = some f)
    (unused : s.files f = .unused) : answers.lockCreate = true := by
  obtain ⟨err, t, returns, -⟩ := undone
  by_contra unlocked
  rw [Bool.not_eq_true] at unlocked
  rw [kOpen_unlocked gave got unused unlocked] at returns
  cases returns

/-- `VOP_STAT` fails. -/
theorem kOpen_stat (gave : answers.vfsOpen = .ok vn) (got : answers.kmalloc = some f)
    (unused : s.files f = .unused) (locked : answers.lockCreate = true)
    (append : flags &&& oAppend ≠ 0) (failed : answers.vopStat = .error err) :
    s.kOpen p cur flags answers =
      (s.opened vn f (newFile vn flags)).undoOpen answers.reclaims vn f err := by
  have gets : (s.opened vn f (newFile vn flags)).files.get f = .done (newFile vn flags) :=
    get_done.mpr opened_file
  rw [kOpen_seeks gave got unused locked, kOpen.seek, if_pos (bne_iff_ne.mpr append)]
  simp only [failed, gets, Outcome.done_bind]
  rfl

theorem kOpen_attaches (gave : answers.vfsOpen = .ok vn) (got : answers.kmalloc = some f)
    (unused : s.files f = .unused) (locked : answers.lockCreate = true)
    (stat : ¬ (flags &&& oAppend ≠ 0 ∧ ∃ err, answers.vopStat = .error err)) :
    ∃ file : File V P, Fresh file vn ∧
      s.kOpen p cur flags answers = kOpen.attach p cur answers (s.opened vn f file) vn f := by
  rw [kOpen_seeks gave got unused locked, kOpen.seek]
  by_cases append : flags &&& oAppend ≠ 0
  · rw [if_pos (bne_iff_ne.mpr append)]
    cases answered : answers.vopStat with
    | error err => exact (stat ⟨append, err, answered⟩).elim
    | ok size =>
      have stores : ((s.opened vn f (newFile vn flags)).updateFile f fun file =>
          return { file with fOffset := size }) = .done
            (s.opened vn f { newFile vn flags with fOffset := size }) :=
        store_done.mpr ⟨newFile vn flags, opened_file, opened_withFile.symm⟩
      refine ⟨{ newFile vn flags with fOffset := size }, newFile_fresh, ?_⟩
      simp only [stores, Outcome.done_bind]
  · rw [if_neg (fun takes => append (bne_iff_ne.mp takes))]
    exact ⟨newFile vn flags, newFile_fresh, rfl⟩

/-- With the file and its lock there, the call fails in `VOP_STAT` or on a full table. -/
theorem undone_made (gave : answers.vfsOpen = .ok vn) (got : answers.kmalloc = some f)
    (unused : s.files f = .unused) (locked : answers.lockCreate = true)
    (fails : OpenFails s p flags answers) : OpenUndone s p cur flags answers ↔
      (s.vnodes vn = some 1 ∧ answers.reclaims vn = false) ∧
        ((flags &&& oAppend ≠ 0 ∧ ∃ err, answers.vopStat = .error err) ∨
          s.fdLkOf p = some none) := by
  by_cases stat : flags &&& oAppend ≠ 0 ∧ ∃ err, answers.vopStat = .error err
  · obtain ⟨append, err, failed⟩ := stat
    rw [OpenUndone, kOpen_stat gave got unused locked append failed,
      undoOpen_iff newFile_fresh gave got]
    simp [append, failed]
  · obtain ⟨fdesc, table, full⟩ : ∃ fdesc, s.tables p = some fdesc ∧
        ∀ i, fdesc.fdOfiles i ≠ none := by
      simpa [OpenFails, gave, got, locked, stat] using fails
    obtain ⟨file, fresh, returns⟩ : ∃ file : File V P, Fresh file vn ∧ s.kOpen p cur flags answers =
        kOpen.attach p cur answers (s.opened vn f file) vn f :=
      kOpen_attaches gave got unused locked stat
    by_cases free : s.fdLkOf p = some none
    · rw [OpenUndone, returns, attach_full fresh table full free, undoOpen_iff fresh gave got]
      simp [free]
    · apply iff_of_false
      · rintro ⟨err, t, h, -⟩
        rw [returns] at h
        exact free (attach_locks fresh h)
      · rintro ⟨-, other | same⟩
        · exact stat other
        · exact free same

/-- A failing `k_open` undoes what it did only where no reference to a vnode was taken yet, or where
the reference that is given back too often is one that the vnode keeps. -/
theorem kOpen_undoes_iff (fails : OpenFails s p flags answers)
    (goes : s.kOpen p cur flags answers ≠ .blocked) :
    OpenUndone s p cur flags answers ↔ UndoesOpen s p flags answers := by
  cases gave : answers.vfsOpen with
  | error err =>
    have returns : s.kOpen p cur flags answers = .done (.error err, s) := by
      simp only [kOpen, gave]
      rfl
    have none_taken : taken answers = none := by rw [taken, gave]
    refine iff_of_true ⟨err, s, returns, ?_, rfl, rfl, ?_, fun _ _ => rfl⟩ ?_
    · have := err.code_pos
      omega
    · intro f taken_f
      rw [none_taken] at taken_f
      cases taken_f
    · simp only [UndoesOpen, gave]
  | ok vn =>
    simp only [UndoesOpen, gave]
    cases got : answers.kmalloc with
    | none =>
      refine iff_of_false ?_ (fun undoes => undoes.1 rfl)
      rintro ⟨err, t, returns, -, back⟩
      simp only [kOpen, gave, got, Outcome.pure_done, Prod.mk.injEq] at returns
      rw [← returns.2] at back
      exact vfsOpened_ne back.vnodes
    | some f =>
      have unused := kOpen_unused gave got goes
      constructor
      · intro undone
        have locked := undone.unlocked gave got unused
        obtain ⟨⟨idle, stays⟩, failed⟩ := (undone_made gave got unused locked fails).mp undone
        exact ⟨by simp, locked, idle, stays, failed⟩
      · rintro ⟨-, locked, idle, stays, failed⟩
        exact (undone_made gave got unused locked fails).mpr ⟨⟨idle, stays⟩, failed⟩

end Os161.Files

namespace Os161.FileCalls

open Files

/-- A process with eight descriptors for one device, and an idle device. -/
def fullTable : Files Unit Nat Bool where
  tables _ := some ⟨fun _ => some 0, some none, 8⟩
  files := Function.update (fun _ => .unused) 0 (.live ⟨true, 2, 8, 0, some none⟩)
  vnodes := fun busy => some (if busy then 9 else 1)

/-- The idle device is opened when the table is full. -/
theorem kOpen_undoes_full :
    OpenUndone fullTable () () oRdwr ⟨.ok false, some 1, true, .ok 0, fun _ => false⟩ := by
  have passes : (fullTable.kOpen () () oRdwr
      ⟨.ok false, some 1, true, .ok 0, fun _ => false⟩).passes (fun _ => true) = true := by
    decide +kernel
  obtain ⟨out, returns, -⟩ := Outcome.passes_done passes
  apply (kOpen_undoes_iff _ (by simp [returns])).mpr
  · exact ⟨by simp, rfl, rfl, rfl, .inr rfl⟩
  · exact .inr (.inr (.inr (.inr ⟨_, rfl, fun i => by simp⟩)))

/-- A process with three descriptors opens the console once more when memory is short. -/
theorem kOpen_leaks : ∃ s : State (Fin 3) Nat Unit, (machine 0).Reachable s ∧
    OpenFails s.files 1 oRdwr { good 3 with kmalloc := none } ∧
      s.files.kOpen 1 1 oRdwr { good 3 with kmalloc := none } ≠ .blocked ∧
        ¬ OpenUndone s.files 1 1 oRdwr { good 3 with kmalloc := none } := by
  have passes : ((machine (0 : Fin 3)).run boot [startOne]).passes (fun s =>
      (s.files.kOpen 1 1 oRdwr { good 3 with kmalloc := none }).passes fun out =>
        decide (out.2.vnodes () ≠ s.files.vnodes ())) = true := by
    decide +kernel
  obtain ⟨s, run, checked⟩ := Outcome.passes_done passes
  obtain ⟨⟨result, t⟩, returns, leaks⟩ := Outcome.passes_done checked
  refine ⟨s, Started.reached run, .inr (.inl rfl), by rw [returns]; simp, ?_⟩
  rintro ⟨err, u, same, -, back⟩
  obtain ⟨rfl, rfl⟩ := Prod.mk.inj (Outcome.done.inj (returns.symm.trans same))
  exact of_decide_eq_true leaks (congrFun back.vnodes ())

end Os161.FileCalls
