import Os161.Io.Uio
import Mathlib.Logic.Function.Basic

/-!
# The LAMEbus disk

`lhd.c`: an I/O request is cut into sectors, and each goes through the buffer on the card. What the
hardware does with its operations comes from outside, one `Attempt` for each. Requests come one at
a time.
-/

namespace Os161

/-! The status codes and bits. -/

def lhdIdle : UInt32 := 0
def lhdWorking : UInt32 := 1
def lhdOk : UInt32 := 4
def lhdInvsect : UInt32 := 12
def lhdMedia : UInt32 := 20
def lhdIswrite : UInt32 := 2
def lhdStatemask : UInt32 := 0x1d

abbrev Sector := Fin 512 → UInt8

/-- What the hardware does with one operation on a sector it has. -/
inductive Attempt where
  | ok
  /-- A media error; it leaves these bytes where the operation was to put some. -/
  | media (left : Sector)

/-- The card: its size, the first sector's worth of its buffer, the sectors, and the number of
operations it has had. -/
structure Lhd where
  dBlocks : UInt32
  lhBuf : Bytes
  sectors : UInt32 → Sector
  operations : Nat

/-- What a request works on. -/
structure Request (Space User : Type) where
  lh : Lhd
  memory : Memory Space User
  uio : Uio Space

def lhdCodeToErrno (code : UInt32) : Option Errno :=
  if code &&& lhdStatemask = lhdOk then none
  else if code &&& lhdStatemask = lhdInvsect then some .einval
  else if code &&& lhdStatemask = lhdMedia then some .eio
  else some .eagain

/-- `lhd_irq`: the result that it reports, when an operation has finished. -/
def lhdIrq (val : UInt32) : Option (Option Errno) :=
  if val &&& lhdStatemask ∈ [lhdOk, lhdInvsect, lhdMedia] then some (lhdCodeToErrno val) else none

def Attempt.status : Attempt → UInt32
  | ok => lhdOk
  | media _ => lhdMedia

namespace Lhd

def withBuf (lh : Lhd) (buf : Bytes) : Lhd := { lh with lhBuf := buf }

/-- The hardware has written a sector from the card's buffer. -/
def written (lh : Lhd) (sect : UInt32) : Attempt → Lhd
  | .ok => { lh with
      sectors := Function.update lh.sectors sect (lh.lhBuf.slice 0 512)
      operations := lh.operations + 1 }
  | .media left => { lh with
      sectors := Function.update lh.sectors sect left
      operations := lh.operations + 1 }

/-- The hardware has read a sector into the card's buffer. -/
def fetched (lh : Lhd) (sect : UInt32) : Attempt → Lhd
  | .ok => { lh with lhBuf := lh.lhBuf.fill 0 (lh.sectors sect), operations := lh.operations + 1 }
  | .media left => { lh with lhBuf := lh.lhBuf.fill 0 left, operations := lh.operations + 1 }

/-- From the write to the status register to the interrupt: the new status and the new card. -/
def operate (attempts : Nat → Attempt) (lh : Lhd) (sect statval : UInt32) : UInt32 × Lhd :=
  let direction := statval &&& lhdIswrite
  if lh.dBlocks ≤ sect then (lhdInvsect ||| direction, lh)
  else
    let attempt := attempts lh.operations
    (attempt.status ||| direction,
      if direction = lhdIswrite then lh.written sect attempt else lh.fetched sect attempt)

end Lhd

namespace Request

variable {Space User : Type} [DecidableEq Space]

/-- `uiomove` between the card's buffer and the blocks of the `uio`. -/
def moveSector (copy : UserCopy User) (r : Request Space User) :
    Outcome (Option Errno × Request Space User) := do
  let (result, t) ← Transfer.uiomove copy 512 ⟨r.lh.lhBuf, r.memory, r.uio⟩
  return (result, ⟨r.lh.withBuf t.buf, t.memory, t.uio⟩)

/-- The loop of `lhd_io`, with the number of sectors still to do. -/
def lhdSectors (copy : UserCopy User) (attempts : Nat → Attempt) (statval sect : UInt32)
    (r : Request Space User) : Nat → Outcome (Option Errno × Request Space User)
  | 0 => return (none, r)
  | len + 1 => do
    let (result, r) ← if r.uio.uioRw = .write then r.moveSector copy else pure (none, r)
    match result with
    | some err => return (some err, r)
    | none => do
      let (val, lh) := r.lh.operate attempts sect statval
      let r := { r with lh := lh }
      match lhdIrq val with
      | none => .blocked
      | some result => do
        let (result, r) ←
          if result = none ∧ r.uio.uioRw = .read then r.moveSector copy else pure (result, r)
        match result with
        | some err => return (some err, r)
        | none => lhdSectors copy attempts statval (sect + 1) r len

def lhdIo (copy : UserCopy User) (attempts : Nat → Attempt) (r : Request Space User) :
    Outcome (Option Errno × Request Space User) :=
  let sector := UInt32.ofInt (r.uio.uioOffset.tdiv 512)
  let sectoff := UInt32.ofInt (r.uio.uioOffset.tmod 512)
  let len := r.uio.uioResid / 512
  let lenoff := r.uio.uioResid % 512
  if sectoff ≠ 0 ∨ lenoff ≠ 0 then return (some .einval, r)
  else if r.lh.dBlocks < sector + len then return (some .einval, r)
  else
    let statval := if r.uio.uioRw = .write then lhdWorking ||| lhdIswrite else lhdWorking
    lhdSectors copy attempts statval sector r len.toNat

theorem ofInt_natCast (n : Nat) : UInt32.ofInt n = UInt32.ofNat n := by
  rw [← UInt32.toNat_inj, UInt32.ofInt, UInt32.toNat_ofNat', UInt32.toNat_ofNat']
  omega

/-- An aligned request inside the disk goes through its sectors. -/
theorem lhdIo_aligned (copy : UserCopy User) (attempts : Nat → Attempt) {r : Request Space User}
    {sect : Nat} (len : UInt32) (offset : r.uio.uioOffset = sect * 512)
    (resid : r.uio.uioResid = len * 512) (small : len.toNat < 1024)
    (inside : sect + len.toNat ≤ r.lh.dBlocks.toNat) :
    r.lhdIo copy attempts = lhdSectors copy attempts
      (if r.uio.uioRw = .write then lhdWorking ||| lhdIswrite else lhdWorking)
      (UInt32.ofNat sect) r len.toNat := by
  have sector : UInt32.ofInt ((sect * 512 : Int).tdiv 512) = UInt32.ofNat sect := by
    rw [Int.mul_tdiv_cancel _ (by decide), ofInt_natCast]
  have sectoff : UInt32.ofInt ((sect * 512 : Int).tmod 512) = 0 := by
    rw [Int.mul_tmod_left]
    rfl
  have length : len * 512 / 512 = len := by
    rw [← UInt32.toNat_inj, UInt32.toNat_div, UInt32.toNat_mul]
    simp
    omega
  have lenoff : len * 512 % 512 = 0 := by
    rw [← UInt32.toNat_inj, UInt32.toNat_mod, UInt32.toNat_mul]
    simp
  have within : ¬ r.lh.dBlocks < UInt32.ofNat sect + len := by
    have range := r.lh.dBlocks.toNat_lt
    rw [UInt32.lt_iff_toNat_lt, UInt32.toNat_add, UInt32.toNat_ofNat']
    omega
  simp only [lhdIo, offset, resid, sector, sectoff, length, lenoff, ne_eq, not_true, or_self,
    if_false, within]

end Request

/-- What the interrupt handler makes of an attempt. -/
def Attempt.result : Attempt → Option Errno
  | ok => none
  | media _ => some .eio

theorem lhdIrq_status {attempt : Attempt} {direction : UInt32}
    (either : direction = 0 ∨ direction = lhdIswrite) :
    lhdIrq (attempt.status ||| direction) = some attempt.result := by
  rcases either with rfl | rfl <;> cases attempt <;>
    (simp only [Attempt.status, Attempt.result]; decide)

theorem Lhd.operate_write {attempts : Nat → Attempt} {lh : Lhd} {sect : UInt32}
    (inside : sect < lh.dBlocks) :
    lh.operate attempts sect (lhdWorking ||| lhdIswrite) =
      ((attempts lh.operations).status ||| lhdIswrite, lh.written sect (attempts lh.operations)) := by
  have direction : (lhdWorking ||| lhdIswrite) &&& lhdIswrite = lhdIswrite := rfl
  rw [operate, direction, if_neg (UInt32.not_le.mpr inside)]
  exact congrArg (Prod.mk _) (if_pos rfl)

theorem Lhd.operate_read {attempts : Nat → Attempt} {lh : Lhd} {sect : UInt32}
    (inside : sect < lh.dBlocks) :
    lh.operate attempts sect lhdWorking =
      ((attempts lh.operations).status ||| 0, lh.fetched sect (attempts lh.operations)) := by
  have direction : lhdWorking &&& lhdIswrite = 0 := rfl
  rw [operate, direction, if_neg (UInt32.not_le.mpr inside)]
  exact congrArg (Prod.mk _) (if_neg (by decide))

namespace Request

variable {Space User : Type} [DecidableEq Space] {copy : UserCopy User} {attempts : Nat → Attempt}
variable {r : Request Space User} {data : Nat} {sect : UInt32}

/-- The `uio` of one kernel block of a sector's size. -/
structure OneSector (uio : Uio Space) (data : Nat) (sect : UInt32) (rw : UioRw) : Prop where
  iov : uio.uioIov = [⟨data, 512⟩]
  offset : uio.uioOffset = sect.toNat * 512
  resid : uio.uioResid = 512
  segflg : uio.uioSegflg = .sysspace
  rw : uio.uioRw = rw
  space : uio.uioSpace = none

/-- What is left of the `uio` after the sector has been moved. -/
def used (uio : Uio Space) (data : Nat) : Uio Space :=
  { uio with uioIov := [⟨data + 512, 0⟩], uioOffset := uio.uioOffset + 512, uioResid := 0 }

theorem lhdIo_one {rw : UioRw} (one : OneSector r.uio data sect rw) (inside : sect < r.lh.dBlocks) :
    r.lhdIo copy attempts = lhdSectors copy attempts
      (if rw = .write then lhdWorking ||| lhdIswrite else lhdWorking) sect r 1 := by
  rw [UInt32.lt_iff_toNat_lt] at inside
  have aligned := lhdIo_aligned copy attempts 1 one.offset one.resid (by decide) inside
  rwa [UInt32.ofNat_toNat, one.rw] at aligned

/-- The sector is moved, and the `uio` is used up. -/
theorem moveSector_one {rw : UioRw} (one : OneSector r.uio data sect rw) :
    r.moveSector copy = .done (none,
      match rw with
      | .read =>
        ⟨r.lh, { r.memory with kernel := r.memory.kernel.memmove data r.lh.lhBuf 0 512 },
          used r.uio data⟩
      | .write =>
        ⟨r.lh.withBuf (r.lh.lhBuf.memmove 0 r.memory.kernel data 512), r.memory,
          used r.uio data⟩) := by
  have left : 0 < r.uio.uioResid := by rw [one.resid]; decide
  have all := Transfer.uiomove_kernel copy ⟨r.lh.lhBuf, r.memory, r.uio⟩ one.segflg one.space
    one.iov (by decide) left
  rw [moveSector, all]
  cases rw <;>
    simp [Transfer.moveBlock, one.segflg, one.rw, used, one.resid, Outcome.pure_def, Lhd.withBuf]

/-- A write moves the sector into the card's buffer before the card does anything, and uses the
`uio` up whatever the card then does. -/
theorem lhdIo_write (one : OneSector r.uio data sect .write) (inside : sect < r.lh.dBlocks) :
    r.lhdIo copy attempts = .done ((attempts r.lh.operations).result,
      ⟨(r.lh.withBuf (r.lh.lhBuf.memmove 0 r.memory.kernel data 512)).written sect
        (attempts r.lh.operations), r.memory, used r.uio data⟩) := by
  rw [lhdIo_one one inside, lhdSectors, if_pos one.rw, moveSector_one one]
  simp only [Outcome.done_bind, if_true]
  rw [Lhd.operate_write (by exact inside)]
  simp only [lhdIrq_status (.inr rfl), used, one.rw]
  cases attempt : attempts r.lh.operations with
  | ok => simp [attempt, Attempt.result, lhdSectors, Outcome.pure_def, Lhd.withBuf]
  | media left => simp [attempt, Attempt.result, Outcome.pure_def, Lhd.withBuf]

/-- A read moves the sector out of the card's buffer, and only when the card has it. -/
theorem lhdIo_read (one : OneSector r.uio data sect .read) (inside : sect < r.lh.dBlocks) :
    r.lhdIo copy attempts =
      match attempts r.lh.operations with
      | .ok => .done (none, ⟨r.lh.fetched sect .ok, { r.memory with
          kernel := r.memory.kernel.memmove data (r.lh.fetched sect .ok).lhBuf 0 512 },
          used r.uio data⟩)
      | .media left => .done (some .eio, ⟨r.lh.fetched sect (.media left), r.memory, r.uio⟩) := by
  rw [lhdIo_one one inside, lhdSectors, if_neg (by rw [one.rw]; decide)]
  simp only [Outcome.done_bind, Outcome.pure_def, reduceCtorEq, if_false]
  rw [Lhd.operate_read inside]
  simp only [lhdIrq_status (.inl rfl)]
  cases attempt : attempts r.lh.operations with
  | ok =>
    have fetched : OneSector (Request.uio ⟨r.lh.fetched sect .ok, r.memory, r.uio⟩) data sect .read :=
      one
    simp [Attempt.result, one.rw, moveSector_one fetched, lhdSectors, Outcome.pure_def]
  | media left => simp [Attempt.result]

/-- With nothing left to move there is nothing to do, and that is a success. -/
theorem lhdIo_used (one : OneSector r.uio data sect .write) (inside : sect < r.lh.dBlocks)
    (lh : Lhd) (same : lh.dBlocks = r.lh.dBlocks) :
    lhdIo copy attempts ⟨lh, r.memory, used r.uio data⟩ =
      .done (none, ⟨lh, r.memory, used r.uio data⟩) := by
  rw [UInt32.lt_iff_toNat_lt] at inside
  have offset : (used r.uio data).uioOffset = (sect.toNat + 1 : Nat) * 512 := by
    simp only [used, one.offset]
    omega
  rw [lhdIo_aligned copy attempts 0 offset (by rfl) (by decide) (by simp [same]; omega)]
  rfl

end Request

end Os161
