import Os161.File.Layer
import Os161.Io.Uio

/-!
# Reading, writing and seeking

`sys_read`, `sys_write` and `sys_lseek` of `file_syscall.c`. Each is cut where it loads `f_offset`,
where a vnode operation runs and where it stores `f_offset`: between these parts another process
can come.
-/

set_option linter.unusedSectionVars false

namespace Os161

/-- What `VOP_READ` or `VOP_WRITE` returns, and what it leaves in the `uio`. -/
structure Moved where
  result : Option Errno
  uioResid : UInt32
  uioOffset : Int
  deriving DecidableEq

/-- The vnode operations that the calls use. `D` is what they work on: files, devices and the
memory of the processes. A vnode whose table lacks an operation faults. -/
structure VnodeOps (P V D : Type) where
  vopRead : V → Uio P → D → Outcome (Moved × D)
  vopWrite : V → Uio P → D → Outcome (Moved × D)
  vopStat : V → D → Outcome (Except Errno Int)
  vopTryseek : V → (pos : Int) → Outcome (Option Errno)
  /-- `kprintf` of the string at an address of a process. -/
  kprintf : P → (addr : UInt32) → D → Outcome Unit

/-- The arguments of `sys_read` or `sys_write`. -/
structure RwRequest where
  rw : UioRw
  fd : Int
  buffer : UInt32
  nBytes : UInt32
  deriving DecidableEq

/-- The arguments of `sys_lseek`. -/
structure Seek where
  fd : Int
  offset : Int
  whence : Int
  deriving DecidableEq

/-- `uio_uinit`. -/
def uioUinit {P : Type} (cur : P) (ubuf len : UInt32) (pos : Int) (rw : UioRw) : Uio P :=
  ⟨[⟨ubuf.toNat, len.toNat⟩], pos, len, .userspace, rw, some cur⟩

/-- The file with a new offset, if there is one. -/
def File.moveTo {V Thread : Type} (file : File V Thread) (pos : Option Int) : File V Thread :=
  { file with fOffset := pos.getD file.fOffset }

namespace Files

variable {P F V D : Type} [DecidableEq P] [DecidableEq F]

/-- `curproc->p_fd->fd_ofiles[fd]`. -/
def slot (s : Files P F V) (cur : P) (fd : Int) : Outcome (Option F) := do
  let fdesc ← Outcome.deref (s.tables cur)
  let i ← Outcome.deref (index fd)
  return fdesc.fdOfiles i

/-- Follows `curproc->p_fd->fd_ofiles[fd]`. -/
def fileAt (s : Files P F V) (cur : P) (fd : Int) : Outcome (F × File V P) := do
  let entry ← s.slot cur fd
  let f ← Outcome.deref entry
  let file ← s.files.get f
  return (f, file)

/-! ### sys_read and sys_write -/

/-- The mode of a file that is refused. -/
def refused : UioRw → UInt16
  | .read => oWronly.toUInt16
  | .write => oRdonly.toUInt16

/-- The checks. They come with the file that they find. -/
def checkTransfer (s : Files P F V) (cur : P) (r : RwRequest) : Outcome (Except Errno F) :=
  if r.fd < 0 ∨ 129 < r.fd then return .error .ebadf
  else do
    let entry ← s.slot cur r.fd
    match entry with
    | none => return .error .ebadf
    | some f =>
      if r.buffer = 0 then return .error .efault
      else do
        let file ← s.files.get f
        if file.fOflags = refused r.rw then return .error .eacces
        else if r.nBytes = 0 then return .error .einval
        else return .ok f

/-- The checks and `lock_acquire`. -/
def enterTransfer (s : Files P F V) (cur : P) (r : RwRequest) :
    Outcome (Except Errno F × Files P F V) := do
  let checked ← s.checkTransfer cur r
  match checked with
  | .error err => return (.error err, s)
  | .ok f => do
    let s ← s.fdLock cur cur
    return (.ok f, s)

def loadOffset (s : Files P F V) (cur : P) (r : RwRequest) : Outcome Int := do
  let (_, file) ← s.fileAt cur r.fd
  return file.fOffset

/-- `sys_read` prints the buffer first. -/
def moveData (ops : VnodeOps P V D) (s : Files P F V) (cur : P) (r : RwRequest) (offset : Int)
    (d : D) : Outcome (Moved × D) := do
  let (_, file) ← s.fileAt cur r.fd
  match r.rw with
  | .read => do
    ops.kprintf cur r.buffer d
    ops.vopRead file.fVnode (uioUinit cur r.buffer r.nBytes offset .read) d
  | .write => ops.vopWrite file.fVnode (uioUinit cur r.buffer r.nBytes offset .write) d

/-- An unsigned number that is returned as an `int`. -/
def toInt (n : UInt32) : Int := n.toInt32.toInt

def finishTransfer (s : Files P F V) (cur : P) (r : RwRequest) (moved : Moved) :
    Outcome (Except Errno Int × Files P F V) :=
  match moved.result with
  | some err => do
    let s ← s.fdUnlock cur cur
    return (.error err, s)
  | none => do
    let (f, _) ← s.fileAt cur r.fd
    let s ← s.updateFile f fun file => return { file with fOffset := moved.uioOffset }
    let s ← s.fdUnlock cur cur
    return (.ok (toInt (r.nBytes - moved.uioResid)), s)

def transfer (ops : VnodeOps P V D) (s : Files P F V) (cur : P) (r : RwRequest) (d : D) :
    Outcome (Except Errno Int × Files P F V × D) := do
  let (entered, s) ← s.enterTransfer cur r
  match entered with
  | .error err => return (.error err, s, d)
  | .ok _ => do
    let offset ← s.loadOffset cur r
    let (moved, d) ← s.moveData ops cur r offset d
    let (result, s) ← s.finishTransfer cur r moved
    return (result, s, d)

def sysRead (ops : VnodeOps P V D) (s : Files P F V) (cur : P) (fd : Int)
    (buffer nBytes : UInt32) (d : D) : Outcome (Except Errno Int × Files P F V × D) :=
  s.transfer ops cur ⟨.read, fd, buffer, nBytes⟩ d

def sysWrite (ops : VnodeOps P V D) (s : Files P F V) (cur : P) (fd : Int)
    (buffer nBytes : UInt32) (d : D) : Outcome (Except Errno Int × Files P F V × D) :=
  s.transfer ops cur ⟨.write, fd, buffer, nBytes⟩ d

/-! ### sys_lseek -/

/-- What an `off_t` holds of a number. -/
def offT (n : Int) : Int := n.bmod (2 ^ 64)

/-- The switch on `whence`. -/
def newOffset (ops : VnodeOps P V D) (s : Files P F V) (f : F) (q : Seek) (d : D) :
    Outcome (Except Errno Int) := do
  let file ← s.files.get f
  match q.whence with
  | 0 => return .ok q.offset
  | 1 => return .ok (offT (file.fOffset + q.offset))
  | 2 => do
    let st ← ops.vopStat file.fVnode d
    match st with
    | .error err => return .error err
    | .ok size => return .ok (offT (size + q.offset))
  | _ => return .error .einval

/-- The part of `sys_lseek` between `get_file` and the store of `f_offset`. -/
def position (ops : VnodeOps P V D) (s : Files P F V) (f : F) (q : Seek) (d : D) :
    Outcome (Except Errno Int) := do
  let found ← s.newOffset ops f q d
  match found with
  | .error err => return .error err
  | .ok pos => do
    let file ← s.files.get f
    let err ← ops.vopTryseek file.fVnode pos
    match err with
    | some err => return .error err
    | none => return .ok pos

def finishSeek (s : Files P F V) (cur : P) (f : F) (result : Except Errno Int) :
    Outcome (Except Errno Int × Files P F V) :=
  match result with
  | .error err => do
    let s ← s.fUnlock f cur
    return (.error err, s)
  | .ok pos => do
    let s ← s.updateFile f fun file => return { file with fOffset := pos }
    let s ← s.fUnlock f cur
    return (.ok pos, s)

def sysLseek (ops : VnodeOps P V D) (s : Files P F V) (cur : P) (q : Seek) (d : D) :
    Outcome (Except Errno Int × Files P F V) := do
  let (result, s) ← s.getFile cur cur q.fd
  match result with
  | .error err => return (.error err, s)
  | .ok f => do
    let result ← s.position ops f q d
    s.finishSeek cur f result

/-! ### What the parts do -/

/-- The state of `fd_lk`. -/
def fdLkOf (s : Files P F V) (p : P) : Option (AtomicLock P) :=
  (s.tables p).bind fun fdesc => fdesc.fdLk

def withFdLk (s : Files P F V) (p : P) (lock : AtomicLock P) : Files P F V :=
  let relocked := (s.tables p).map fun fdesc => { fdesc with fdLk := some lock }
  { s with tables := Function.update s.tables p relocked }

def withFile (s : Files P F V) (f : F) (file : File V P) : Files P F V :=
  { s with files := Function.update s.files f (.live file) }

section Parts

variable {s t : Files P F V} {p cur : P} {f : F} {r : RwRequest} {fd : Int}
variable {lock lock' : AtomicLock P} {file file' : File V P}

@[simp] theorem withFdLk_files : (s.withFdLk p lock).files = s.files := rfl

@[simp] theorem withFile_tables : (s.withFile f file).tables = s.tables := rfl

@[simp] theorem withFile_vnodes : (s.withFile f file).vnodes = s.vnodes := rfl

@[simp] theorem withFile_same : (s.withFile f file).files f = .live file := Function.update_self ..

theorem withFile_other {g : F} (other : g ≠ f) : (s.withFile f file).files g = s.files g :=
  Function.update_of_ne other ..

@[simp] theorem withFile_fdLkOf : (s.withFile f file).fdLkOf p = s.fdLkOf p := rfl

@[simp] theorem withFile_withFile :
    (s.withFile f file).withFile f file' = s.withFile f file' := by
  simp [withFile]

theorem withFile_eq (there : s.files f = .live file) : s.withFile f file = s := by
  unfold withFile
  rw [← there, Function.update_eq_self]

@[simp] theorem withFdLk_withFdLk :
    (s.withFdLk p lock).withFdLk p lock' = s.withFdLk p lock' := by
  simp [withFdLk, Function.comp_def]

theorem withFdLk_eq (is : s.fdLkOf p = some lock) : s.withFdLk p lock = s := by
  obtain ⟨fdesc, there, held⟩ := Option.bind_eq_some_iff.mp is
  have same : { fdesc with fdLk := some lock } = fdesc := by rw [← held]
  have table : (s.tables p).map (fun fdesc => { fdesc with fdLk := some lock }) = s.tables p := by
    rw [there, Option.map_some, same]
  simp only [withFdLk, table, Function.update_eq_self]

theorem withFdLk_fdLkOf (is : s.fdLkOf p = some lock) :
    (s.withFdLk p lock').fdLkOf p = some lock' := by
  obtain ⟨fdesc, there, held⟩ := Option.bind_eq_some_iff.mp is
  simp [withFdLk, fdLkOf, there]

theorem withFdLk_withFile :
    (s.withFdLk p lock).withFile f file = (s.withFile f file).withFdLk p lock := rfl

theorem fdLock_done : s.fdLock p cur = .done t ↔
    s.fdLkOf p = some none ∧ t = s.withFdLk p (some cur) := by
  unfold fdLock updateTable fdLkOf withFdLk
  cases table : s.tables p with
  | none => simp [Outcome.deref]
  | some fdesc =>
    rcases held : fdesc.fdLk with _ | _ | holder
    · simp [Outcome.deref, held]
    · simp [Outcome.deref, held, AtomicLock.acquire, Outcome.pure_def, eq_comm]
    · by_cases own : holder = cur <;> simp [Outcome.deref, held, AtomicLock.acquire, own]

theorem fdUnlock_done : s.fdUnlock p cur = .done t ↔
    s.fdLkOf p = some (some cur) ∧ t = s.withFdLk p none := by
  unfold fdUnlock updateTable fdLkOf withFdLk
  cases table : s.tables p with
  | none => simp [Outcome.deref]
  | some fdesc =>
    rcases held : fdesc.fdLk with _ | lock
    · simp [Outcome.deref, held]
    · by_cases own : lock = some cur
      · simp [Outcome.deref, held, AtomicLock.release, own, Outcome.pure_def, eq_comm]
      · simp [Outcome.deref, held, AtomicLock.release, own]

theorem value_live {c : Cell (File V P)} : c.value? = some file ↔ c = .live file := by
  cases c <;> simp [Cell.value?]

theorem get_done : s.files.get f = .done file ↔ s.files f = .live file := by
  rw [Heap.get, Outcome.deref_done, value_live]

theorem updateFile_done {g : File V P → Outcome (File V P)} : s.updateFile f g = .done t ↔
    ∃ file file', s.files f = .live file ∧ g file = .done file' ∧ t = s.withFile f file' := by
  simp only [updateFile, Heap.modify, Outcome.bind_done, Outcome.pure_done, get_done]
  constructor
  · rintro ⟨_, ⟨file, there, file', same, rfl⟩, rfl⟩
    exact ⟨file, file', there, same, rfl⟩
  · rintro ⟨file, file', there, same, rfl⟩
    exact ⟨_, ⟨file, there, file', same, rfl⟩, rfl⟩

theorem fLock_done : s.fLock f cur = .done t ↔ ∃ file, s.files f = .live file ∧
    file.fLk = some none ∧ t = s.withFile f { file with fLk := some (some cur) } := by
  simp only [fLock, updateFile_done, Outcome.bind_done, Outcome.deref_done, Outcome.pure_done,
    AtomicLock.acquire_done]
  constructor
  · rintro ⟨file, _, there, ⟨_, free, _, ⟨rfl, rfl⟩, rfl⟩, rfl⟩
    exact ⟨file, there, free, rfl⟩
  · rintro ⟨file, there, free, rfl⟩
    exact ⟨file, _, there, ⟨_, free, _, ⟨rfl, rfl⟩, rfl⟩, rfl⟩

theorem fUnlock_done : s.fUnlock f cur = .done t ↔ ∃ file, s.files f = .live file ∧
    file.fLk = some (some cur) ∧ t = s.withFile f { file with fLk := some none } := by
  simp only [fUnlock, updateFile_done, Outcome.bind_done, Outcome.deref_done, Outcome.pure_done,
    AtomicLock.release_done]
  constructor
  · rintro ⟨file, _, there, ⟨_, held, _, ⟨rfl, rfl⟩, rfl⟩, rfl⟩
    exact ⟨file, there, held, rfl⟩
  · rintro ⟨file, there, held, rfl⟩
    exact ⟨file, _, there, ⟨_, held, _, ⟨rfl, rfl⟩, rfl⟩, rfl⟩

theorem store_done {pos : Int} :
    (s.updateFile f fun file => return { file with fOffset := pos }) = .done t ↔
      ∃ file, s.files f = .live file ∧ t = s.withFile f { file with fOffset := pos } := by
  rw [updateFile_done]
  constructor
  · rintro ⟨file, _, there, same, rfl⟩
    obtain rfl := Outcome.pure_done.mp same
    exact ⟨file, there, rfl⟩
  · rintro ⟨file, there, rfl⟩
    exact ⟨file, _, there, rfl, rfl⟩

theorem fileAt_done : s.fileAt cur fd = .done (f, file) ↔
    s.slot cur fd = .done (some f) ∧ s.files f = .live file := by
  simp only [fileAt, Outcome.bind_done, Outcome.deref_done, Outcome.pure_done, get_done,
    Prod.mk.injEq]
  constructor
  · rintro ⟨_, found, _, rfl, _, there, rfl, rfl⟩
    exact ⟨found, there⟩
  · rintro ⟨found, there⟩
    exact ⟨_, found, _, rfl, _, there, rfl, rfl⟩

theorem enterTransfer_ok : s.enterTransfer cur r = .done (.ok f, t) ↔
    s.checkTransfer cur r = .done (.ok f) ∧ s.fdLkOf cur = some none ∧
      t = s.withFdLk cur (some cur) := by
  constructor
  · intro h
    obtain ⟨checked, checks, h⟩ := Outcome.bind_done.mp h
    cases checked with
    | error err => cases h
    | ok g =>
      obtain ⟨u, locks, same⟩ := Outcome.bind_done.mp h
      obtain ⟨free, rfl⟩ := fdLock_done.mp locks
      cases same
      exact ⟨checks, free, rfl⟩
  · rintro ⟨checks, free, rfl⟩
    simp [enterTransfer, checks, fdLock_done.mpr ⟨free, rfl⟩, Outcome.pure_def]

theorem enterTransfer_error {err : Errno} : s.enterTransfer cur r = .done (.error err, t) ↔
    s.checkTransfer cur r = .done (.error err) ∧ t = s := by
  constructor
  · intro h
    obtain ⟨checked, checks, h⟩ := Outcome.bind_done.mp h
    cases checked with
    | error err' =>
      cases h
      exact ⟨checks, rfl⟩
    | ok g =>
      obtain ⟨u, _, same⟩ := Outcome.bind_done.mp h
      cases same
  · rintro ⟨checks, rfl⟩
    simp [enterTransfer, checks, Outcome.pure_def]

/-- A transfer that passes the checks has found an open file. -/
theorem checkTransfer_ok (h : s.checkTransfer cur r = .done (.ok f)) :
    s.slot cur r.fd = .done (some f) ∧ ∃ file, s.files f = .live file := by
  unfold checkTransfer at h
  split at h
  · cases h
  obtain ⟨entry, found, h⟩ := Outcome.bind_done.mp h
  cases entry with
  | none => cases h
  | some g =>
    dsimp only at h
    split at h
    · cases h
    obtain ⟨file, there, h⟩ := Outcome.bind_done.mp h
    split at h
    · cases h
    split at h
    · cases h
    · cases h
      exact ⟨found, file, get_done.mp there⟩

theorem slot_done {entry : Option F} : s.slot cur fd = .done entry ↔
    ∃ fdesc i, s.tables cur = some fdesc ∧ index fd = some i ∧ fdesc.fdOfiles i = entry := by
  simp [slot, Outcome.bind_done, Outcome.pure_done]

theorem withFdLk_table {fdesc : Filedesc F P} (there : s.tables cur = some fdesc) :
    (s.withFdLk cur lock).tables cur = some { fdesc with fdLk := some lock } := by
  simp [withFdLk, there]

/-- `fd_lk` is held only while `get_file` looks, so the lock of the file is all that changes. -/
theorem getFile_ok : s.getFile cur cur fd = .done (.ok f, t) ↔
    s.slot cur fd = .done (some f) ∧ s.fdLkOf cur = some none ∧ ∃ file, s.files f = .live file ∧
      file.fLk = some none ∧ t = s.withFile f { file with fLk := some (some cur) } := by
  rw [slot_done]
  unfold getFile
  constructor
  · intro h
    split at h
    · cases h
    rename_i i inside
    obtain ⟨u, locks, h⟩ := Outcome.bind_done.mp h
    obtain ⟨free, rfl⟩ := fdLock_done.mp locks
    obtain ⟨fdesc, table, _⟩ := Option.bind_eq_some_iff.mp free
    obtain ⟨copy, same, h⟩ := Outcome.bind_done.mp h
    rw [withFdLk_table table] at same
    obtain rfl := Option.some.inj (Outcome.deref_done.mp same)
    dsimp only at h
    split at h
    · rename_i g found
      obtain ⟨u, locks, h⟩ := Outcome.bind_done.mp h
      obtain ⟨file, there, unheld, rfl⟩ := fLock_done.mp locks
      obtain ⟨u, unlocks, h⟩ := Outcome.bind_done.mp h
      obtain ⟨-, rfl⟩ := fdUnlock_done.mp unlocks
      rw [withFdLk_withFile, withFdLk_withFdLk, withFdLk_eq (withFile_fdLkOf.trans free)] at h
      obtain ⟨rfl, rfl⟩ : g = f ∧ s.withFile g { file with fLk := some (some cur) } = t := by
        simpa [Outcome.pure_done] using h
      exact ⟨⟨fdesc, i, table, inside, found⟩, free, file, there, unheld, rfl⟩
    · obtain ⟨u, _, same⟩ := Outcome.bind_done.mp h
      cases same
  · rintro ⟨⟨fdesc, i, table, inside, found⟩, free, file, there, unheld, rfl⟩
    have locks : s.fdLock cur cur = .done (s.withFdLk cur (some cur)) := fdLock_done.mpr ⟨free, rfl⟩
    have locks' : (s.withFdLk cur (some cur)).fLock f cur =
        .done ((s.withFdLk cur (some cur)).withFile f { file with fLk := some (some cur) }) :=
      fLock_done.mpr ⟨file, there, unheld, rfl⟩
    have unlocks : ((s.withFdLk cur (some cur)).withFile f
        { file with fLk := some (some cur) }).fdUnlock cur cur =
        .done (s.withFile f { file with fLk := some (some cur) }) := by
      refine fdUnlock_done.mpr ⟨withFdLk_fdLkOf free, ?_⟩
      rw [withFdLk_withFile, withFdLk_withFdLk, withFdLk_eq (withFile_fdLkOf.trans free)]
    simp [inside, locks, withFdLk_table table, Outcome.deref, found, locks', unlocks,
      Outcome.pure_def]

theorem getFile_error {err : Errno} : s.getFile cur cur fd = .done (.error err, t) ↔
    err = .ebadf ∧ t = s ∧
      (index fd = none ∨ s.slot cur fd = .done none ∧ s.fdLkOf cur = some none) := by
  rw [slot_done]
  unfold getFile
  constructor
  · intro h
    split at h
    · rename_i outside
      obtain ⟨rfl, rfl⟩ : Errno.ebadf = err ∧ s = t := by simpa [Outcome.pure_done] using h
      exact ⟨rfl, rfl, .inl outside⟩
    rename_i i inside
    obtain ⟨u, locks, h⟩ := Outcome.bind_done.mp h
    obtain ⟨free, rfl⟩ := fdLock_done.mp locks
    obtain ⟨fdesc, table, _⟩ := Option.bind_eq_some_iff.mp free
    obtain ⟨copy, same, h⟩ := Outcome.bind_done.mp h
    rw [withFdLk_table table] at same
    obtain rfl := Option.some.inj (Outcome.deref_done.mp same)
    dsimp only at h
    split at h
    · obtain ⟨u, _, h⟩ := Outcome.bind_done.mp h
      obtain ⟨u, _, same⟩ := Outcome.bind_done.mp h
      cases same
    · rename_i found
      obtain ⟨u, unlocks, same⟩ := Outcome.bind_done.mp h
      obtain ⟨-, rfl⟩ := fdUnlock_done.mp unlocks
      rw [withFdLk_withFdLk, withFdLk_eq free] at same
      obtain ⟨rfl, rfl⟩ : Errno.ebadf = err ∧ s = t := by simpa [Outcome.pure_done] using same
      exact ⟨rfl, rfl, .inr ⟨⟨fdesc, i, table, inside, found⟩, free⟩⟩
  · rintro ⟨rfl, rfl, outside | ⟨⟨fdesc, i, table, inside, found⟩, free⟩⟩
    · simp [outside, Outcome.pure_def]
    · have locks : t.fdLock cur cur = .done (t.withFdLk cur (some cur)) :=
        fdLock_done.mpr ⟨free, rfl⟩
      have unlocks : (t.withFdLk cur (some cur)).fdUnlock cur cur = .done t := by
        refine fdUnlock_done.mpr ⟨withFdLk_fdLkOf free, ?_⟩
        rw [withFdLk_withFdLk, withFdLk_eq free]
      simp [inside, locks, withFdLk_table table, Outcome.deref, found, unlocks, Outcome.pure_def]

/-! ### What the parts depend on -/

theorem slot_congr (same : t.tables cur = s.tables cur) : t.slot cur fd = s.slot cur fd := by
  simp only [slot, same]

@[simp] theorem withFdLk_slot : (s.withFdLk p lock).slot cur fd = s.slot cur fd := by
  by_cases own : cur = p
  · subst own
    cases table : s.tables cur <;> simp [slot, withFdLk, table, Outcome.deref]
  · exact slot_congr (Function.update_of_ne own ..)

@[simp] theorem withFile_slot : (s.withFile f file).slot cur fd = s.slot cur fd := rfl

theorem checkTransfer_congr {checked : Except Errno F} (slots : t.slot cur r.fd = s.slot cur r.fd)
    (modes : ∀ f file, s.files f = .live file → ∃ file', t.files f = .live file' ∧
      file'.fOflags = file.fOflags) (h : s.checkTransfer cur r = .done checked) :
    t.checkTransfer cur r = .done checked := by
  unfold checkTransfer at h ⊢
  rw [slots]
  split
  · rwa [if_pos ‹_›] at h
  rw [if_neg ‹_›] at h
  obtain ⟨entry, found, h⟩ := Outcome.bind_done.mp h
  rw [found, Outcome.done_bind]
  cases entry with
  | none => exact h
  | some f =>
    dsimp only at h ⊢
    split
    · rwa [if_pos ‹_›] at h
    rw [if_neg ‹_›] at h
    obtain ⟨file, there, h⟩ := Outcome.bind_done.mp h
    obtain ⟨file', there', same⟩ := modes f file (get_done.mp there)
    rw [get_done.mpr there', Outcome.done_bind, same]
    exact h

theorem moveData_congr (ops : VnodeOps P V D) {offset : Int} {d : D}
    (slots : t.slot cur r.fd = s.slot cur r.fd) (found : s.slot cur r.fd = .done (some f))
    (there : s.files f = .live file) (there' : t.files f = .live file')
    (same : file'.fVnode = file.fVnode) :
    t.moveData ops cur r offset d = s.moveData ops cur r offset d := by
  have left := fileAt_done.mpr ⟨slots.trans found, there'⟩
  have right := fileAt_done.mpr ⟨found, there⟩
  simp only [moveData, left, right, Outcome.done_bind, same]

theorem position_congr (ops : VnodeOps P V D) {q : Seek} {d : D}
    (there : s.files f = .live file) (there' : t.files f = .live file')
    (vnodes : file'.fVnode = file.fVnode) (offsets : file'.fOffset = file.fOffset) :
    t.position ops f q d = s.position ops f q d := by
  simp only [position, newOffset, get_done.mpr there, get_done.mpr there', Outcome.done_bind,
    vnodes, offsets]

/-! ### How calls end -/

/-- The offset that a transfer stores. -/
def newPos (m : Moved) : Option Int :=
  match m.result with
  | some _ => none
  | none => some m.uioOffset

/-- What a transfer returns. -/
def answer (r : RwRequest) (m : Moved) : Except Errno Int :=
  match m.result with
  | some err => .error err
  | none => .ok (toInt (r.nBytes - m.uioResid))

theorem finishTransfer_done {m : Moved} {result : Except Errno Int}
    (found : s.slot cur r.fd = .done (some f)) (there : s.files f = .live file) :
    s.finishTransfer cur r m = .done (result, t) ↔ s.fdLkOf cur = some (some cur) ∧
      result = answer r m ∧ t = (s.withFile f (file.moveTo (newPos m))).withFdLk cur none := by
  unfold finishTransfer answer newPos
  have at_ := fileAt_done.mpr ⟨found, there⟩
  cases m.result with
  | some err =>
    have kept : s.withFile f (file.moveTo none) = s := withFile_eq there
    simp only [kept, Outcome.bind_done, Outcome.pure_done, Prod.mk.injEq, fdUnlock_done]
    constructor
    · rintro ⟨_, ⟨held, rfl⟩, rfl, rfl⟩
      exact ⟨held, rfl, rfl⟩
    · rintro ⟨held, rfl, rfl⟩
      exact ⟨_, ⟨held, rfl⟩, rfl, rfl⟩
  | none =>
    simp only [at_, Outcome.done_bind, Outcome.bind_done, Outcome.pure_done, Prod.mk.injEq,
      fdUnlock_done, store_done]
    constructor
    · rintro ⟨_, ⟨file', there', rfl⟩, _, ⟨held, rfl⟩, rfl, rfl⟩
      obtain rfl : file = file' := Cell.live.inj (there.symm.trans there')
      exact ⟨held, rfl, rfl⟩
    · rintro ⟨held, rfl, rfl⟩
      exact ⟨_, ⟨file, there, rfl⟩, _, ⟨held, rfl⟩, rfl, rfl⟩

theorem finishSeek_done {result result' : Except Errno Int} (there : s.files f = .live file) :
    s.finishSeek cur f result = .done (result', t) ↔ file.fLk = some (some cur) ∧
      result' = result ∧
        t = s.withFile f { file.moveTo result.toOption with fLk := some none } := by
  unfold finishSeek
  cases result with
  | error err =>
    simp only [Outcome.bind_done, Outcome.pure_done, Prod.mk.injEq, fUnlock_done]
    constructor
    · rintro ⟨_, ⟨file', there', held, rfl⟩, rfl, rfl⟩
      obtain rfl : file = file' := Cell.live.inj (there.symm.trans there')
      exact ⟨held, rfl, rfl⟩
    · rintro ⟨held, rfl, rfl⟩
      exact ⟨_, ⟨file, there, held, rfl⟩, rfl, rfl⟩
  | ok pos =>
    simp only [Outcome.bind_done, Outcome.pure_done, Prod.mk.injEq, fUnlock_done, store_done]
    constructor
    · rintro ⟨_, ⟨file', there', rfl⟩, _, ⟨file'', there'', held, rfl⟩, rfl, rfl⟩
      obtain rfl : file = file' := Cell.live.inj (there.symm.trans there')
      obtain rfl := Cell.live.inj (withFile_same.symm.trans there'')
      exact ⟨held, rfl, withFile_withFile⟩
    · rintro ⟨held, rfl, rfl⟩
      exact ⟨_, ⟨file, there, rfl⟩, _, ⟨_, withFile_same, held, rfl⟩, rfl, withFile_withFile⟩

/-- A transfer by itself moves the data from the offset of its file on. -/
theorem transfer_done (ops : VnodeOps P V D) {d d' : D} {m : Moved}
    (checks : s.checkTransfer cur r = .done (.ok f)) (free : s.fdLkOf cur = some none)
    (there : s.files f = .live file)
    (moves : s.moveData ops cur r file.fOffset d = .done (m, d')) :
    s.transfer ops cur r d =
      .done (answer r m, s.withFile f (file.moveTo (newPos m)), d') := by
  obtain ⟨found, -⟩ := checkTransfer_ok checks
  have enters := enterTransfer_ok.mpr ⟨checks, free, rfl⟩
  set locked := s.withFdLk cur (some cur)
  have found' : locked.slot cur r.fd = .done (some f) := withFdLk_slot.trans found
  have loads : locked.loadOffset cur r = .done file.fOffset := by
    simp [loadOffset, fileAt_done.mpr ⟨found', there⟩, Outcome.pure_def]
  have moves' : locked.moveData ops cur r file.fOffset d = .done (m, d') :=
    (moveData_congr ops withFdLk_slot found there there rfl).trans moves
  have finishes : locked.finishTransfer cur r m =
      .done (answer r m, s.withFile f (file.moveTo (newPos m))) := by
    refine (finishTransfer_done found' there).mpr ⟨withFdLk_fdLkOf free, rfl, ?_⟩
    rw [withFdLk_withFile, withFdLk_withFdLk, withFdLk_eq (withFile_fdLkOf.trans free)]
  simp [transfer, enters, loads, moves', finishes, Outcome.pure_def]

theorem sysLseek_done (ops : VnodeOps P V D) {q : Seek} {d : D} {result : Except Errno Int}
    (found : s.slot cur q.fd = .done (some f)) (free : s.fdLkOf cur = some none)
    (there : s.files f = .live file) (unheld : file.fLk = some none)
    (finds : s.position ops f q d = .done result) :
    s.sysLseek ops cur q d =
      .done (result, s.withFile f (file.moveTo result.toOption)) := by
  have gets := getFile_ok.mpr ⟨found, free, file, there, unheld, rfl⟩
  set locked := s.withFile f { file with fLk := some (some cur) }
  have same : locked.files f = .live { file with fLk := some (some cur) } := withFile_same
  have finds' : locked.position ops f q d = .done result :=
    (position_congr ops there same rfl rfl).trans finds
  have unlocked : { file.moveTo result.toOption with fLk := some none } =
      file.moveTo result.toOption := by
    rw [← unheld]
    rfl
  have finishes : locked.finishSeek cur f result =
      .done (result, s.withFile f (file.moveTo result.toOption)) := by
    refine (finishSeek_done withFile_same).mpr ⟨rfl, rfl, ?_⟩
    rw [withFile_withFile, ← unlocked]
    rfl
  simp [sysLseek, gets, finds', finishes]

end Parts

end Files

end Os161
