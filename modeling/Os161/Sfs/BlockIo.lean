import Os161.Io.Lhd

/-!
# Block I/O of SFS

`sfs_io.c`: reading and writing a block of the volume, retrying I/O errors. The calls are made with
`vfs_biglock` held.
-/

namespace Os161.SfsIo

variable {Space User : Type} [DecidableEq Space]

/-- The loop of `sfs_rwblock`, with the number of retries it has left. -/
def retry (copy : UserCopy User) (attempts : Nat → Attempt) (r : Request Space User) :
    Nat → Outcome (Option Errno × Request Space User)
  | 0 => do
    let (result, r) ← r.lhdIo copy attempts
    if result = some .einval then .panic else return (result, r)
  | left + 1 => do
    let (result, r) ← r.lhdIo copy attempts
    if result = some .einval then .panic
    else if result = some .eio then retry copy attempts r left
    else return (result, r)

/-- It tries again ten times. -/
def sfsRwblock (copy : UserCopy User) (attempts : Nat → Attempt) (r : Request Space User) :
    Outcome (Option Errno × Request Space User) :=
  retry copy attempts r 10

/-- `SFSUIO`. -/
def sfsuio (data : Nat) (block : UInt32) (rw : UioRw) : Uio Space :=
  .kinit data 512 (block.toNat * 512) rw

def sfsReadblock (copy : UserCopy User) (attempts : Nat → Attempt) (lh : Lhd)
    (memory : Memory Space User) (block : UInt32) (data len : Nat) :
    Outcome (Option Errno × Request Space User) := do
  Outcome.kassert (len = 512)
  sfsRwblock copy attempts ⟨lh, memory, sfsuio data block .read⟩

def sfsWriteblock (copy : UserCopy User) (attempts : Nat → Attempt) (lh : Lhd)
    (memory : Memory Space User) (block : UInt32) (data len : Nat) :
    Outcome (Option Errno × Request Space User) := do
  Outcome.kassert (len = 512)
  sfsRwblock copy attempts ⟨lh, memory, sfsuio data block .write⟩

variable {copy : UserCopy User} {attempts : Nat → Attempt} {lh : Lhd} {memory : Memory Space User}
variable {block : UInt32} {data : Nat}

omit [DecidableEq Space] in
theorem sfsuio_one {rw : UioRw} :
    Request.OneSector (sfsuio data block rw : Uio Space) data block rw :=
  ⟨rfl, rfl, rfl, rfl, rfl, rfl⟩

/-- A device that does not report an error ends the loop. -/
theorem retry_success {r after : Request Space User} {left : Nat}
    (io : r.lhdIo copy attempts = .done (none, after)) :
    retry copy attempts r left = .done (none, after) := by
  cases left with
  | zero => simp [retry, io, Outcome.pure_def]
  | succ left => simp [retry, io, Outcome.pure_def]

theorem retry_again {r after : Request Space User} {left : Nat}
    (io : r.lhdIo copy attempts = .done (some .eio, after)) :
    retry copy attempts r (left + 1) = retry copy attempts after left := by
  simp [retry, io]

/-- The write always comes back with success: a second attempt finds nothing left to write. -/
theorem sfsWriteblock_done (inside : block < lh.dBlocks) :
    sfsWriteblock copy attempts lh memory block data 512 = .done (none,
      ⟨(lh.withBuf (lh.lhBuf.memmove 0 memory.kernel data 512)).written block
        (attempts lh.operations), memory, Request.used (sfsuio data block .write) data⟩) := by
  have io : Request.lhdIo copy attempts ⟨lh, memory, sfsuio data block .write⟩ = _ :=
    Request.lhdIo_write sfsuio_one inside
  change retry copy attempts ⟨lh, memory, sfsuio data block .write⟩ (9 + 1) = _
  cases attempt : attempts lh.operations with
  | ok =>
    rw [attempt] at io
    exact retry_success io
  | media left =>
    rw [attempt] at io
    rw [retry_again io]
    exact retry_success (Request.lhdIo_used (r := ⟨lh, memory, _⟩) sfsuio_one inside _ rfl)

/-- A read that fails leaves its `uio` and the disk as they were, so the next attempt is a fresh
one. -/
theorem retry_read {r : Request Space User} (one : Request.OneSector r.uio data block .read)
    (inside : block < r.lh.dBlocks) (left : Nat) :
    ∃ result after, retry copy attempts r left = .done (result, after) ∧
      after.lh.sectors = r.lh.sectors ∧
      (result = none → after.memory.kernel.slice data 512 = r.lh.sectors block) := by
  induction left generalizing r with
  | zero =>
    rw [retry, Request.lhdIo_read one inside]
    cases attempts r.lh.operations with
    | ok => exact ⟨none, _, rfl, rfl, fun _ => by simp [Lhd.fetched]⟩
    | media bytes => exact ⟨some .eio, _, rfl, rfl, by simp⟩
  | succ left ih =>
    rw [retry, Request.lhdIo_read one inside]
    cases attempts r.lh.operations with
    | ok => exact ⟨none, _, rfl, rfl, fun _ => by simp [Lhd.fetched]⟩
    | media bytes =>
      exact ih (r := ⟨r.lh.fetched block (.media bytes), r.memory, r.uio⟩) one inside

/-- If the write returns 0, the block holds the caller's bytes. -/
def WriteSound (copy : UserCopy User) (attempts : Nat → Attempt) (lh : Lhd)
    (memory : Memory Space User) (block : UInt32) (data : Nat) : Prop :=
  ∃ result r, sfsWriteblock copy attempts lh memory block data 512 = .done (result, r) ∧
    (result = none → r.lh.sectors block = memory.kernel.slice data 512)

/-- If the read returns 0, the caller's buffer holds the block, which the read leaves alone. -/
def ReadSound (copy : UserCopy User) (attempts : Nat → Attempt) (lh : Lhd)
    (memory : Memory Space User) (block : UInt32) (data : Nat) : Prop :=
  ∃ result r, sfsReadblock copy attempts lh memory block data 512 = .done (result, r) ∧
    r.lh.sectors = lh.sectors ∧
    (result = none → r.memory.kernel.slice data 512 = lh.sectors block)

/-- The first attempt succeeds, or it fails and yet leaves these bytes on the disk. -/
def Lands (attempts : Nat → Attempt) (lh : Lhd) (bytes : Sector) : Prop :=
  match attempts lh.operations with
  | .ok => True
  | .media left => left = bytes

theorem writeSound_iff (inside : block < lh.dBlocks) :
    WriteSound copy attempts lh memory block data ↔
      ((lh.withBuf (lh.lhBuf.memmove 0 memory.kernel data 512)).written block
        (attempts lh.operations)).sectors block = memory.kernel.slice data 512 := by
  constructor
  · rintro ⟨result, r, value, sound⟩
    rw [sfsWriteblock_done inside] at value
    obtain ⟨rfl, rfl⟩ := Prod.mk.inj (Outcome.done.inj value)
    exact sound rfl
  · intro same
    exact ⟨none, _, sfsWriteblock_done inside, fun _ => same⟩

/-- Reads keep their promise whatever the disk does, and writes when the first attempt lands. -/
theorem blocks_sound (copy : UserCopy User) (attempts : Nat → Attempt) (lh : Lhd)
    (memory : Memory Space User) (block : UInt32) (data : Nat) (inside : block < lh.dBlocks) :
    ReadSound copy attempts lh memory block data ∧
      (WriteSound copy attempts lh memory block data ↔
        Lands attempts lh (memory.kernel.slice data 512)) := by
  refine ⟨retry_read (r := ⟨lh, memory, _⟩) sfsuio_one inside 10, ?_⟩
  rw [writeSound_iff inside, Lands]
  cases attempts lh.operations with
  | ok => simp [Lhd.written, Lhd.withBuf]
  | media left => simp [Lhd.written]

/-- A disk of one sector of zeros. -/
def zeroDisk : Lhd := ⟨1, fun _ => 0, fun _ _ => 0, 0⟩

/-- Kernel memory full of ones. -/
def ones : Memory Unit Unit := ⟨fun _ => 1, (), none⟩

def noCopy : UserCopy Unit where
  copyin _ _ buf _ _ := (some .efault, buf)
  copyout _ _ user _ _ := (some .efault, user)

/-- The first operation fails and leaves zeros behind, and all others succeed. -/
def failsOnce : Nat → Attempt
  | 0 => .media fun _ => 0
  | _ => .ok

theorem blocks_sound_fails_once : ReadSound noCopy failsOnce zeroDisk ones 0 0 ∧
    (WriteSound noCopy failsOnce zeroDisk ones 0 0 ↔
      Lands failsOnce zeroDisk (ones.kernel.slice 0 512)) :=
  blocks_sound noCopy failsOnce zeroDisk ones 0 0 (by decide)

/-- A write of ones returns 0, and the block is still all zeros. -/
theorem write_lost : ∃ r, sfsWriteblock noCopy failsOnce zeroDisk ones 0 0 512 = .done (none, r) ∧
    r.lh.sectors 0 = (fun _ => 0) ∧ r.lh.sectors 0 ≠ ones.kernel.slice 0 512 := by
  have first : (failsOnce zeroDisk.operations) = .media fun _ => 0 := rfl
  have zeros : ∀ lh : Lhd, (lh.written 0 (failsOnce zeroDisk.operations)).sectors 0 =
      fun _ => 0 := by
    intro lh
    rw [first]
    simp [Lhd.written]
  have differ : (fun _ => 0 : Sector) ≠ ones.kernel.slice 0 512 := by
    intro same
    exact absurd (congrFun same 0) (by decide)
  refine ⟨_, sfsWriteblock_done (by decide), zeros _, ?_⟩
  rw [zeros]
  exact differ

end Os161.SfsIo
