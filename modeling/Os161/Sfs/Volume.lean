import Os161.Base.Fallible
import Os161.Base.Words
import Os161.Io.Lhd
import Os161.Sfs.Bitmap

/-!
# SFS volumes

The structures of `kern/sfs.h` and `sfs.h`, the block I/O of `sfs_io.c` and `sfs_balloc.c`. The
device behind `DEVOP_IO` comes from outside: it does an operation whole or fails and does nothing.
(What `lhd_io` makes of its `uio` when a write fails is in `Sfs.BlockIo`.) All calls are made with
`vfs_biglock` held.
-/

namespace Os161.Sfs

/-- What a device answers. `EINVAL` is kept for requests that are wrong. -/
abbrev Reply := Option { err : Errno // err ≠ .einval }

/-- The answers to the operations to come. -/
abbrev Replies := Nat → Reply

def Replies.next (w : Replies) : Replies := fun n => w (n + 1)

/-- `struct device`, and the sectors on it. -/
structure Device where
  dBlocks : UInt32
  dBlocksize : UInt32
  blocks : UInt32 → Sector

def sfsMagic : UInt32 := 0xabadf001

structure Superblock where
  sbMagic : UInt32
  sbNblocks : UInt32
  sbVolname : Fin 32 → UInt8
  reserved : Fin 118 → UInt32

structure Dinode where
  sfiSize : UInt32
  sfiType : UInt16
  sfiLinkcount : UInt16
  sfiDirect : Fin 15 → UInt32
  sfiIndirect : UInt32
  sfiWaste : Fin 110 → UInt32

/-- `struct sfs_vnode`, with the counts of its `sv_absvn`. -/
structure SfsVnode where
  vnRefcount : Int
  vnOpencount : Int
  svI : Dinode
  svIno : UInt32
  svDirty : Bool

structure SfsFs where
  sfsSb : Superblock
  sfsSuperdirty : Bool
  sfsDevice : Device
  /-- The addresses of the vnodes. -/
  sfsVnodes : List Nat
  sfsFreemap : Bitmap
  sfsFreemapdirty : Bool

/-- A volume and a vnode of it. -/
structure File where
  fs : SfsFs
  sv : SfsVnode

/-- The words of a block; `uint32_t idbuf[SFS_DBPERIDB]`. -/
abbrev Words := Fin 128 → UInt32

def sectorWords (s : Sector) : Words := unpackWords (n := 128) s

def wordsSector (words : Words) : Sector := packWords (n := 128) words

def zeroSector : Sector := fun _ => 0

theorem byte_inside (p : Nat) : p % 512 < 512 := Nat.mod_lt _ (by decide)

@[simp] theorem sectorWords_wordsSector (words : Words) : sectorWords (wordsSector words) = words :=
  unpack_packWords words

@[simp] theorem wordsSector_sectorWords (s : Sector) : wordsSector (sectorWords s) = s :=
  pack_unpackWords (n := 128) s

@[simp] theorem sectorWords_zero : sectorWords zeroSector = fun _ => 0 := unpackWords_zero

@[simp] theorem wordsSector_zero : wordsSector (fun _ => 0) = zeroSector := packWords_zero

namespace Superblock

/-- The words of a superblock in memory. -/
def words (sb : Superblock) : Words := fun i =>
  if i.val = 0 then sb.sbMagic
  else if i.val = 1 then sb.sbNblocks
  else if name : i.val < 10 then unpackWords (n := 8) sb.sbVolname ⟨i - 2, by omega⟩
  else sb.reserved ⟨i - 10, by omega⟩

def toSector (sb : Superblock) : Sector := wordsSector sb.words

def ofSector (s : Sector) : Superblock where
  sbMagic := sectorWords s 0
  sbNblocks := sectorWords s 1
  sbVolname := packWords (n := 8) fun i => sectorWords s ⟨i + 2, by omega⟩
  reserved i := sectorWords s ⟨i + 10, by omega⟩

end Superblock

namespace Dinode

/-- The words of an inode in memory. The type and the link count share one. -/
def words (inode : Dinode) : Words := fun i =>
  if i.val = 0 then inode.sfiSize
  else if i.val = 1 then inode.sfiType.toUInt32 <<< 16 ||| inode.sfiLinkcount.toUInt32
  else if direct : i.val < 17 then inode.sfiDirect ⟨i - 2, by omega⟩
  else if i.val = 17 then inode.sfiIndirect
  else inode.sfiWaste ⟨i - 18, by omega⟩

def toSector (inode : Dinode) : Sector := wordsSector inode.words

def ofSector (s : Sector) : Dinode where
  sfiSize := sectorWords s 0
  sfiType := (sectorWords s 1 >>> 16).toUInt16
  sfiLinkcount := (sectorWords s 1).toUInt16
  sfiDirect i := sectorWords s ⟨i + 2, by omega⟩
  sfiIndirect := sectorWords s 17
  sfiWaste i := sectorWords s ⟨i + 18, by omega⟩

end Dinode

/-! ### Block I/O -/

section BlockIo

variable {σ α : Type}

/-- The sector of a request for one block: it has to start a sector that the device has. -/
def Device.sector (dev : Device) (offset : Int) : Option UInt32 :=
  let sector := UInt32.ofInt (offset.tdiv 512)
  if offset.tmod 512 = 0 ∧ sector < dev.dBlocks then some sector else none

/-- `DEVOP_IO` for one block; `io` moves the data. -/
def devopIo (sector : Option UInt32) (io : UInt32 → Fallible Errno Replies σ α) :
    Fallible Errno Replies σ α := fun s w =>
  match sector with
  | none => .done (.error .einval, s, w)
  | some sector =>
    match w 0 with
    | some err => .done (.error err, s, w.next)
    | none => io sector s w.next

/-- The loop of `sfs_rwblock`, with the number of retries it has left. -/
def retry (io : Fallible Errno Replies σ α) : Nat → Fallible Errno Replies σ α
  | 0 => do
    let result ← io.attempt
    match result with
    | .ok a => return a
    | .error .einval => .panic
    | .error err => .fail err
  | left + 1 => do
    let result ← io.attempt
    match result with
    | .ok a => return a
    | .error .einval => .panic
    | .error .eio => retry io left
    | .error err => .fail err

/-- It tries again ten times. -/
def sfsRwblock (io : Fallible Errno Replies σ α) : Fallible Errno Replies σ α := retry io 10

end BlockIo

/-- The offset that `SFSUIO` makes of a block number. -/
def sfsuioOffset (block : UInt32) : Int := block.toNat * 512

namespace SfsFs

def withBlock (fs : SfsFs) (block : UInt32) (data : Sector) : SfsFs :=
  { fs with sfsDevice.blocks := Function.update fs.sfsDevice.blocks block data }

def withFreemap (fs : SfsFs) (freemap : Bitmap) : SfsFs := { fs with sfsFreemap := freemap }

def withSb (fs : SfsFs) (sb : Superblock) : SfsFs := { fs with sfsSb := sb }

def freemapDirty (fs : SfsFs) : SfsFs := { fs with sfsFreemapdirty := true }

end SfsFs

def sfsReadblock (block : UInt32) : Fallible Errno Replies SfsFs Sector := do
  let fs ← .get
  sfsRwblock (devopIo (fs.sfsDevice.sector (sfsuioOffset block)) fun sector => do
    return (← .get).sfsDevice.blocks sector)

def sfsWriteblock (block : UInt32) (data : Sector) : Fallible Errno Replies SfsFs Unit := do
  let fs ← .get
  sfsRwblock (devopIo (fs.sfsDevice.sector (sfsuioOffset block)) fun sector =>
    .modify fun fs => fs.withBlock sector data)

/-! ### `sfs_balloc.c` -/

def sfsClearblock (block : UInt32) : Fallible Errno Replies SfsFs Unit :=
  sfsWriteblock block zeroSector

/-- `bitmap_unmark` on the freemap. -/
def unmarkBlock (diskblock : UInt32) : Fallible Errno Replies SfsFs Unit :=
  .lift fun fs => do
    let freemap ← fs.sfsFreemap.bitmapUnmark diskblock
    return ((), fs.withFreemap freemap)

def sfsBalloc : Fallible Errno Replies SfsFs UInt32 := do
  let found ← .lift fun fs => do
    let (found, freemap) ← fs.sfsFreemap.bitmapAlloc
    return (found, fs.withFreemap freemap)
  match found with
  | none => .fail .enospc
  | some diskblock => do
    .modify SfsFs.freemapDirty
    if (← .get).sfsSb.sbNblocks ≤ diskblock then .panic
    else do
      -- clear the block before returning it
      let result ← (sfsClearblock diskblock).attempt
      match result with
      | .error err => do
        unmarkBlock diskblock
        .fail err
      | .ok () => return diskblock

def sfsBfree (diskblock : UInt32) : Fallible Errno Replies SfsFs Unit := do
  unmarkBlock diskblock
  .modify SfsFs.freemapDirty

def sfsBused (diskblock : UInt32) : Fallible Errno Replies SfsFs Bool := do
  let fs ← .get
  if fs.sfsSb.sbNblocks ≤ diskblock then .panic
  else .lift fun fs => do
    let used ← fs.sfsFreemap.bitmapIsset diskblock
    return (used, fs)

def File.withFs (f : File) (fs : SfsFs) : File := { f with fs := fs }

def File.withSv (f : File) (sv : SfsVnode) : File := { f with sv := sv }

/-- A function of `struct sfs_fs` in a function that has a vnode too. -/
def onFs {α : Type} (x : Fallible Errno Replies SfsFs α) : Fallible Errno Replies File α :=
  .within File.fs File.withFs x

/-! ### What the calls do -/

theorem Device.sector_inside {dev : Device} {block : UInt32} (inside : block < dev.dBlocks) :
    dev.sector (sfsuioOffset block) = some block := by
  have sector : UInt32.ofInt ((block.toNat * 512 : Int).tdiv 512) = block := by
    rw [Int.mul_tdiv_cancel _ (by decide), Request.ofInt_natCast, UInt32.ofNat_toNat]
  have aligned : (block.toNat * 512 : Int).tmod 512 = 0 := Int.mul_tmod_left ..
  unfold Device.sector sfsuioOffset
  rw [sector]
  exact if_pos ⟨aligned, inside⟩

theorem Device.sector_outside {dev : Device} {block : UInt32} (outside : ¬ block < dev.dBlocks) :
    dev.sector (sfsuioOffset block) = none := by
  have sector : UInt32.ofInt ((block.toNat * 512 : Int).tdiv 512) = block := by
    rw [Int.mul_tdiv_cancel _ (by decide), Request.ofInt_natCast, UInt32.ofNat_toNat]
  unfold Device.sector sfsuioOffset
  rw [sector]
  exact if_neg fun both => outside both.2

/-- What a block operation with some retries left comes to, and the answers after it. -/
def Replies.settle (w : Replies) : Nat → Reply × Replies
  | 0 => (w 0, w.next)
  | left + 1 => if w 0 = some ⟨.eio, by decide⟩ then w.next.settle left else (w 0, w.next)

/-- What the next block operation comes to, after all of its retries. -/
def Replies.answer (w : Replies) : Reply × Replies := w.settle 10

/-- The answers that are left after `n` block operations. -/
def Replies.after (w : Replies) : Nat → Replies
  | 0 => w
  | n + 1 => w.answer.2.after n

/-- What the block operation that comes after `n` others comes to. -/
def Replies.nth (w : Replies) (n : Nat) : Reply := (w.after n).answer.1

theorem Replies.after_add (w : Replies) (m n : Nat) : w.after (m + n) = (w.after m).after n := by
  induction m generalizing w with
  | zero => rw [Nat.zero_add, Replies.after]
  | succ m ih =>
    rw [Nat.succ_add, Replies.after, Replies.after]
    exact ih w.answer.2

theorem Replies.nth_add (w : Replies) (m n : Nat) : w.nth (m + n) = (w.after m).nth n := by
  unfold Replies.nth
  rw [Replies.after_add]

section Rwblock

variable {σ α : Type} {s t : σ} {w : Replies} {block : UInt32}
variable {io : UInt32 → Fallible Errno Replies σ α}

/-- An end that `sfs_rwblock` takes as it is. -/
def Final (r : Except Errno α) : Prop := r ≠ .error .einval ∧ r ≠ .error .eio

/-- What `sfs_rwblock` makes of an answer when moving the data always ends in the same way. -/
theorem retry_eq {r : Except Errno α} (moves : ∀ v, io block s v = .done (r, t, v)) (final : Final r)
    (left : Nat) : retry (devopIo (some block) io) left s w =
      match w.settle left with
      | (none, v) => .done (r, t, v)
      | (some err, v) => .done (.error err, s, v) := by
  have goes (reply : w 0 = none) : devopIo (some block) io s w = .done (r, t, w.next) := by
    simp [devopIo, reply, moves]
  have fails {err : { err : Errno // err ≠ .einval }} (reply : w 0 = some err) :
      devopIo (some block) io s w = .done (.error err, s, w.next) := by
    simp [devopIo, reply]
  obtain ⟨real, once⟩ := final
  induction left generalizing w with
  | zero =>
    unfold retry Replies.settle
    cases reply : w 0 with
    | none =>
      rw [Fallible.attempt_bind (goes reply)]
      cases r with
      | ok a => rfl
      | error e => cases e <;> first | rfl | exact (real rfl).elim
    | some err =>
      rw [Fallible.attempt_bind (fails reply)]
      obtain ⟨err, real⟩ := err
      cases err <;> first | rfl | exact (real rfl).elim
  | succ left ih =>
    unfold retry Replies.settle
    cases reply : w 0 with
    | none =>
      rw [Fallible.attempt_bind (goes reply)]
      cases r with
      | ok a => rfl
      | error e => cases e <;> first | rfl | exact (real rfl).elim | exact (once rfl).elim
    | some err =>
      rw [Fallible.attempt_bind (fails reply)]
      obtain ⟨err, real⟩ := err
      by_cases again : err = .eio
      · subst again
        rw [if_pos rfl]
        apply ih
        · intro reply
          simp [devopIo, reply, moves]
        · intro err reply
          simp [devopIo, reply]
      · rw [if_neg (by simpa using again)]
        cases err <;> first | rfl | exact (real rfl).elim | exact (again rfl).elim

theorem sfsRwblock_eq {r : Except Errno α} (moves : ∀ v, io block s v = .done (r, t, v))
    (final : Final r) : sfsRwblock (devopIo (some block) io) s w =
      match w.answer with
      | (none, v) => .done (r, t, v)
      | (some err, v) => .done (.error err, s, v) :=
  retry_eq moves final 10

theorem final_ok {a : α} : Final (.ok a) := ⟨nofun, nofun⟩

/-- The device fails and nothing is moved, or the move decides. -/
theorem sfsRwblock_cases {r : Except Errno α} (moves : ∀ v, io block s v = .done (r, t, v))
    (final : Final r) (w : Replies) :
    (∃ err, w.nth 0 = some err ∧
      sfsRwblock (devopIo (some block) io) s w = .done (.error err, s, w.after 1)) ∨
    w.nth 0 = none ∧ sfsRwblock (devopIo (some block) io) s w = .done (r, t, w.after 1) := by
  have eq := @sfsRwblock_eq _ _ _ _ w block io r moves final
  change (∃ err, w.answer.1 = some err ∧ _ = Outcome.done (_, _, w.answer.2)) ∨
    w.answer.1 = none ∧ _ = Outcome.done (_, _, w.answer.2)
  cases answer : w.answer with
  | mk reply v =>
    rw [answer] at eq
    cases reply with
    | some err => exact .inl ⟨err, rfl, eq⟩
    | none => exact .inr ⟨rfl, eq⟩

end Rwblock

@[simp] theorem SfsFs.withBlock_self (fs : SfsFs) (block : UInt32) (data : Sector) :
    (fs.withBlock block data).sfsDevice.blocks block = data := by
  simp [SfsFs.withBlock]

theorem SfsFs.withBlock_other (fs : SfsFs) {block b : UInt32} (other : b ≠ block) (data : Sector) :
    (fs.withBlock block data).sfsDevice.blocks b = fs.sfsDevice.blocks b := by
  simp [SfsFs.withBlock, other]

section Blocks

variable {fs : SfsFs} {w : Replies} {block : UInt32} {data : Sector} {err : { err : Errno // err ≠ .einval }}

theorem sfsReadblock_eq (inside : block < fs.sfsDevice.dBlocks) : sfsReadblock block fs w =
    match w.answer with
    | (none, v) => .done (.ok (fs.sfsDevice.blocks block), fs, v)
    | (some err, v) => .done (.error err, fs, v) := by
  unfold sfsReadblock
  rw [Fallible.get_bind, Device.sector_inside inside]
  exact sfsRwblock_eq (fun v => rfl) final_ok

theorem sfsWriteblock_eq (inside : block < fs.sfsDevice.dBlocks) : sfsWriteblock block data fs w =
    match w.answer with
    | (none, v) => .done (.ok (), fs.withBlock block data, v)
    | (some err, v) => .done (.error err, fs, v) := by
  unfold sfsWriteblock
  rw [Fallible.get_bind, Device.sector_inside inside]
  exact sfsRwblock_eq (fun v => rfl) final_ok

theorem sfsReadblock_ok (inside : block < fs.sfsDevice.dBlocks) (ok : w.answer.1 = none) :
    sfsReadblock block fs w = .done (.ok (fs.sfsDevice.blocks block), fs, w.answer.2) := by
  rw [sfsReadblock_eq inside]
  split
  · rename_i answer
    rw [answer]
  · rename_i answer
    rw [answer] at ok
    cases ok

theorem sfsReadblock_fails (inside : block < fs.sfsDevice.dBlocks) (fails : w.answer.1 = some err) :
    sfsReadblock block fs w = .done (.error err, fs, w.answer.2) := by
  rw [sfsReadblock_eq inside]
  split
  · rename_i answer
    rw [answer] at fails
    cases fails
  · rename_i answer
    rw [answer] at fails ⊢
    cases fails
    rfl

theorem sfsWriteblock_ok (inside : block < fs.sfsDevice.dBlocks) (ok : w.answer.1 = none) :
    sfsWriteblock block data fs w = .done (.ok (), fs.withBlock block data, w.answer.2) := by
  rw [sfsWriteblock_eq inside]
  split
  · rename_i answer
    rw [answer]
  · rename_i answer
    rw [answer] at ok
    cases ok

theorem sfsWriteblock_fails (inside : block < fs.sfsDevice.dBlocks) (fails : w.answer.1 = some err) :
    sfsWriteblock block data fs w = .done (.error err, fs, w.answer.2) := by
  rw [sfsWriteblock_eq inside]
  split
  · rename_i answer
    rw [answer] at fails
    cases fails
  · rename_i answer
    rw [answer] at fails ⊢
    cases fails
    rfl

/-- A block that the device does not have is a panic: the device answers `EINVAL`. -/
theorem sfsReadblock_outside (outside : ¬ block < fs.sfsDevice.dBlocks) :
    sfsReadblock block fs w = .panic := by
  unfold sfsReadblock
  rw [Fallible.get_bind, Device.sector_outside outside]
  rfl

theorem sfsWriteblock_outside (outside : ¬ block < fs.sfsDevice.dBlocks) :
    sfsWriteblock block data fs w = .panic := by
  unfold sfsWriteblock
  rw [Fallible.get_bind, Device.sector_outside outside]
  rfl

end Blocks

theorem onFs_eq {α : Type} {x : Fallible Errno Replies SfsFs α} {r : Except Errno α} {f : File} {fs : SfsFs}
    {w y : Replies} (goes : x f.fs w = .done (r, fs, y)) : onFs x f w = .done (r, f.withFs fs, y) :=
  Fallible.within_eq goes

/-- What holds of a mounted volume between calls: the freemap has a bit for every block, the device
has every block, and what is not a block for files to have is marked. -/
structure SfsFs.Sound (fs : SfsFs) : Prop where
  whole : fs.sfsFreemap.Whole
  covers : fs.sfsSb.sbNblocks ≤ fs.sfsFreemap.nbits
  device : fs.sfsSb.sbNblocks ≤ fs.sfsDevice.dBlocks
  beyond : ∀ i, fs.sfsSb.sbNblocks ≤ i → i < fs.sfsFreemap.nbits → fs.sfsFreemap.bit i = true
  super : fs.sfsFreemap.bit 0 = true

/-- A block that can be allocated. -/
structure SfsFs.Fresh (fs : SfsFs) (block : UInt32) : Prop where
  inside : block < fs.sfsSb.sbNblocks
  free : fs.sfsFreemap.bit block = false
  nonzero : block ≠ 0

/-- The volume after a block has been allocated. -/
def SfsFs.allocated (fs : SfsFs) (block : UInt32) : SfsFs :=
  ((fs.withFreemap (fs.sfsFreemap.mark block)).freemapDirty).withBlock block zeroSector

/-- The volume after a block has been freed. -/
def SfsFs.freed (fs : SfsFs) (block : UInt32) : SfsFs :=
  (fs.withFreemap (fs.sfsFreemap.unmark block)).freemapDirty

section Blocks

variable {fs : SfsFs} {w : Replies} {block : UInt32}

theorem SfsFs.Sound.fresh (ok : fs.Sound) (free : fs.sfsFreemap.Free block) : fs.Fresh block := by
  refine ⟨?_, free.2, ?_⟩
  · rw [← UInt32.not_le]
    intro past
    exact Bool.false_ne_true (free.2.symm.trans (ok.beyond block past free.1))
  · rintro rfl
    exact Bool.false_ne_true (free.2.symm.trans ok.super)

theorem SfsFs.Sound.bused (ok : fs.Sound) (inside : block < fs.sfsSb.sbNblocks) :
    sfsBused block fs w = .done (.ok (fs.sfsFreemap.bit block), fs, w) := by
  unfold sfsBused
  rw [Fallible.get_bind, if_neg (UInt32.not_le.mpr inside)]
  apply Fallible.lift_eq
  rw [ok.whole.isset (UInt32.lt_of_lt_of_le inside ok.covers)]
  rfl

theorem SfsFs.Sound.bfree (ok : fs.Sound) (inside : block < fs.sfsSb.sbNblocks)
    (marked : fs.sfsFreemap.bit block = true) :
    sfsBfree block fs w = .done (.ok (), fs.freed block, w) := by
  have unmarks := ok.whole.unmarks (UInt32.lt_of_lt_of_le inside ok.covers) marked
  unfold sfsBfree unmarkBlock
  rw [Fallible.lift_bind (a := ()) (t := fs.withFreemap (fs.sfsFreemap.unmark block))]
  · rfl
  · rw [unmarks]
    rfl

/-- `sfs_balloc` takes a free block that it can clear, and otherwise leaves the freemap alone. -/
theorem SfsFs.Sound.balloc (ok : fs.Sound) (w : Replies) :
    ((∀ i, i < fs.sfsSb.sbNblocks → fs.sfsFreemap.bit i = true) ∧
      sfsBalloc fs w = .done (.error .enospc, fs, w)) ∨
    ∃ block, fs.Fresh block ∧
      ((w.answer.1 = none ∧ sfsBalloc fs w = .done (.ok block, fs.allocated block, w.answer.2)) ∨
        ∃ err, w.answer.1 = some err ∧
          sfsBalloc fs w = .done (.error err, fs.freemapDirty, w.answer.2)) := by
  rcases ok.whole.alloc with ⟨block, free, alloc⟩ | ⟨full, alloc⟩
  · right
    have fresh := ok.fresh free
    have inside : block < fs.sfsDevice.dBlocks := UInt32.lt_of_lt_of_le fresh.inside ok.device
    let marked := (fs.withFreemap (fs.sfsFreemap.mark block)).freemapDirty
    have room : ¬ marked.sfsSb.sbNblocks ≤ block := UInt32.not_le.mpr fresh.inside
    have start : sfsBalloc fs w = (do
        let result ← (sfsClearblock block).attempt
        match result with
        | .error err => do
          unmarkBlock block
          .fail err
        | .ok () => return block : Fallible Errno Replies SfsFs UInt32) marked w := by
      unfold sfsBalloc
      rw [Fallible.lift_bind (a := some block) (t := fs.withFreemap (fs.sfsFreemap.mark block))]
      · dsimp only
        rw [Fallible.modify_bind, Fallible.get_bind, if_neg room]
      · rw [alloc]
        rfl
    refine ⟨block, fresh, ?_⟩
    cases answer : w.answer.1 with
    | none =>
      left
      have clears : sfsClearblock block marked w = .done (.ok (), fs.allocated block, w.answer.2) :=
        sfsWriteblock_ok inside answer
      refine ⟨rfl, ?_⟩
      rw [start, Fallible.attempt_bind clears]
      rfl
    | some err =>
      right
      have clears : sfsClearblock block marked w = .done (.error err, marked, w.answer.2) :=
        sfsWriteblock_fails inside answer
      refine ⟨err, rfl, ?_⟩
      rw [start, Fallible.attempt_bind clears]
      dsimp only
      have unmarks : marked.sfsFreemap.bitmapUnmark block = .done fs.sfsFreemap := by
        have within : block < (fs.sfsFreemap.mark block).nbits :=
          UInt32.lt_of_lt_of_le fresh.inside ok.covers
        have set : (fs.sfsFreemap.mark block).bit block = true := by simp [Bitmap.mark_bit]
        have undone := ok.whole.mark.unmarks within set
        rwa [Bitmap.unmark_mark fresh.free] at undone
      unfold unmarkBlock
      rw [Fallible.lift_bind (a := ()) (t := fs.freemapDirty)]
      · rfl
      · rw [unmarks]
        rfl
  · left
    refine ⟨fun i inside => full i (UInt32.lt_of_lt_of_le inside ok.covers), ?_⟩
    unfold sfsBalloc
    rw [Fallible.lift_bind (a := none) (t := fs)]
    · rfl
    · rw [alloc]
      rfl

end Blocks

/-! ### Volumes for examples -/

/-- A device that never fails. -/
def noErrors : Replies := fun _ => none

theorem noErrors_nth (n : Nat) : noErrors.nth n = none := by
  have after : noErrors.after n = noErrors := by
    induction n with
    | zero => rfl
    | succ n ih => exact ih
  unfold Replies.nth
  rw [after]
  rfl

/-- A superblock with this number of blocks. -/
def superblockOf (nblocks : UInt32) : Superblock := ⟨sfsMagic, nblocks, fun _ => 0, fun _ => 0⟩

/-- A volume of ten blocks, all of them in use. -/
def fullVolume (blocks : UInt32 → Sector) : SfsFs :=
  ⟨superblockOf 10, false, ⟨10, 512, blocks⟩, [], ⟨4096, 512, fun _ => 0xff⟩, false⟩

theorem fullVolume_bit (blocks : UInt32 → Sector) (b : UInt32) :
    (fullVolume blocks).sfsFreemap.bit b = true := by
  have all : ∀ k : Fin 8, (0xff : UInt8).toBitVec.getLsbD k = true := by decide
  exact all ⟨b.toNat % 8, Nat.mod_lt _ (by decide)⟩

theorem fullVolume_sound (blocks : UInt32 → Sector) : (fullVolume blocks).Sound where
  whole := ⟨(by decide : (512 : UInt32) = 4096 / 8), (by decide : (4096 : UInt32) % 8 = 0)⟩
  covers := (by decide : (10 : UInt32) ≤ 4096)
  device := UInt32.le_refl 10
  beyond b _ _ := fullVolume_bit blocks b
  super := fullVolume_bit blocks 0

end Os161.Sfs
