import Os161.Io.Uio
import Os161.Sfs.Bmap

/-!
# Reading and writing a file

`sfs_io.c` from `sfs_partialio` on. One transfer is cut at the borders of the blocks: what is not a
whole block goes through a buffer, and whole blocks go straight between the device and the `uio`.
The calls are made with `vfs_biglock` held.
-/

namespace Os161.Sfs

/-- What a transfer works on. -/
structure FileIo (Space User : Type) where
  file : File
  memory : Memory Space User
  uio : Uio Space

abbrev FileCall (Space User α : Type) := Fallible Errno Replies (FileIo Space User) α

variable {Space User : Type}

namespace FileIo

def withFile (s : FileIo Space User) (file : File) : FileIo Space User := { s with file := file }

def withUio (s : FileIo Space User) (uio : Uio Space) : FileIo Space User := { s with uio := uio }

def size (s : FileIo Space User) : UInt32 := s.file.sv.svI.sfiSize

/-- `uio->uio_offset / SFS_BLOCKSIZE`, in 32 bits. -/
def fileblock (s : FileIo Space User) : UInt32 := UInt32.ofInt (s.uio.uioOffset.tdiv 512)

/-- The `uio` as `sfs_blockio` hands it to the device. -/
def toDevice (diskoff : Int) (s : FileIo Space User) : FileIo Space User :=
  s.withUio { s.uio with uioOffset := diskoff, uioResid := 512 }

/-- The `uio` when the device is done with it. -/
def fromDevice (diskoff saveoff : Int) (saveres : UInt32) (s : FileIo Space User) :
    FileIo Space User :=
  s.withUio { s.uio with
    uioOffset := s.uio.uioOffset - diskoff + saveoff
    uioResid := s.uio.uioResid - 512 + saveres }

end FileIo

def onFile {α : Type} (x : Fallible Errno Replies File α) : FileCall Space User α :=
  .within FileIo.file FileIo.withFile x

/-- A sector as a buffer. -/
def bufBytes (buf : Sector) : Bytes := Bytes.fill (fun _ => 0) 0 buf

section Calls

variable [DecidableEq Space] (copy : UserCopy User)

/-- `uiomove` of `n` bytes at `ptr` of a buffer, which it gives back. -/
def moveBuf (buf : Sector) (ptr n : Nat) : FileCall Space User Sector := fun s w => do
  let (result, t) ← Transfer.uiomove copy n ⟨fun i => bufBytes buf (ptr + i), s.memory, s.uio⟩
  let s := ⟨s.file, t.memory, t.uio⟩
  match result with
  | some err => .done (.error err, s, w)
  | none => .done (.ok (((bufBytes buf).memmove ptr t.buf 0 n).slice 0 512), s, w)

def moveZeros (n : Nat) : FileCall Space User Unit := fun s w => do
  let (result, t) ← Transfer.uiomovezeros copy n ⟨fun _ => 0, s.memory, s.uio⟩
  let s := ⟨s.file, t.memory, t.uio⟩
  match result with
  | some err => .done (.error err, s, w)
  | none => .done (.ok (), s, w)

def sfsPartialio (skipstart len : UInt32) : FileCall Space User Unit := do
  .kassert (skipstart + len ≤ 512)
  let s ← .get
  let diskblock ← onFile (sfsBmap s.fileblock (s.uio.uioRw = .write))
  let iobuf ← if diskblock = 0 then do
      .kassert (s.uio.uioRw = .read)
      pure zeroSector
    else onFile (onFs (sfsReadblock diskblock))
  let iobuf ← moveBuf copy iobuf skipstart.toNat len.toNat
  if s.uio.uioRw = .write then onFile (onFs (sfsWriteblock diskblock iobuf)) else return ()

/-- What the device does with the caller's `uio` and one sector. -/
def uioSector (sector : UInt32) : FileCall Space User Unit := do
  let s ← .get
  let buf ← moveBuf copy (s.file.fs.sfsDevice.blocks sector) 0 512
  if s.uio.uioRw = .write then
    .modify fun s => s.withFile (s.file.withFs (s.file.fs.withBlock sector buf))
  else return ()

/-- `diskblock * SFS_BLOCKSIZE`, in 32 bits. -/
def blockOffset (diskblock : UInt32) : Int := (diskblock * 512).toNat

/-- `sfs_rwblock` on the caller's `uio`, with an offset and a residue for the device. -/
def deviceIo (diskoff : Int) : FileCall Space User Unit := do
  let s ← .get
  .modify (FileIo.toDevice diskoff)
  let result ← (sfsRwblock
    (devopIo (s.file.fs.sfsDevice.sector diskoff) (uioSector copy))).attempt
  .modify (FileIo.fromDevice diskoff s.uio.uioOffset s.uio.uioResid)
  match result with
  | .error err => .fail err
  | .ok () => return ()

def sfsBlockio : FileCall Space User Unit := do
  let s ← .get
  let diskblock ← onFile (sfsBmap s.fileblock (s.uio.uioRw = .write))
  if diskblock = 0 then do
    .kassert (s.uio.uioRw = .read)
    moveZeros copy 512
  else do
    .kassert (512 ≤ s.uio.uioResid)
    deviceIo copy (blockOffset diskblock)

def wholeBlocks : Nat → FileCall Space User Unit
  | 0 => return ()
  | nblocks + 1 => do
    sfsBlockio copy
    wholeBlocks nblocks

/-- The leading partial block, if there is one. -/
def leadingBlock : FileCall Space User Unit := do
  let s ← .get
  let blkoff := UInt32.ofInt (s.uio.uioOffset.tmod 512)
  if blkoff ≠ 0 then
    sfsPartialio copy blkoff (if s.uio.uioResid < 512 - blkoff then s.uio.uioResid else 512 - blkoff)
  else return ()

/-- The rest of the blocks. -/
def alignedBlocks : FileCall Space User Unit := do
  let s ← .get
  if s.uio.uioResid = 0 then return ()
  else do
    .kassert (s.uio.uioOffset.tmod 512 = 0)
    wholeBlocks copy (s.uio.uioResid / 512).toNat
    let s ← .get
    .kassert (s.uio.uioResid < 512)
    if 0 < s.uio.uioResid then sfsPartialio copy 0 s.uio.uioResid else return ()

/-- The end of `sfs_io`: what was written past the end of the file has made it longer. -/
def adjustSize (origresid : UInt32) (s : FileIo Space User) : FileIo Space User :=
  if s.uio.uioResid ≠ origresid ∧ s.uio.uioRw = .write ∧ (s.size.toNat : Int) < s.uio.uioOffset then
    s.withFile (s.file.setSize (UInt32.ofInt s.uio.uioOffset))
  else s

/-- `sfs_io` after the check for the end of the file, which took `extraresid` bytes off. -/
def transferBlocks (origresid extraresid : UInt32) : FileCall Space User Unit := do
  let result ← Fallible.attempt do
    leadingBlock copy
    alignedBlocks copy
  .modify fun s =>
    let s := adjustSize origresid s
    s.withUio { s.uio with uioResid := s.uio.uioResid + extraresid }
  match result with
  | .error err => .fail err
  | .ok () => return ()

def sfsIo : FileCall Space User Unit := do
  let s ← .get
  let origresid := s.uio.uioResid
  if s.uio.uioRw = .read then
    let size : Int := s.size.toNat
    let endpos := s.uio.uioOffset + s.uio.uioResid.toNat
    if size ≤ s.uio.uioOffset then return ()
    else if size < endpos then do
      let extraresid := UInt32.ofInt (endpos - size)
      .kassert (extraresid < s.uio.uioResid)
      .modify fun s => s.withUio { s.uio with uioResid := s.uio.uioResid - extraresid }
      transferBlocks copy origresid extraresid
    else transferBlocks copy origresid 0
  else transferBlocks copy origresid 0

end Calls

/-! ### The bytes of a file -/

namespace File

/-- The bytes of a file, also those past its end. -/
def bytes (f : File) : Bytes := fun p => f.content (p / 512) ⟨p % 512, byte_inside p⟩

/-- New data in the block of a file. -/
def store (f : File) (k : Nat) (data : Sector) : File := f.withFs (f.fs.withBlock (f.blockAt k) data)

variable {f g h : File} {k : Nat} {data : Sector} {block : UInt32}

theorem store_blockAt (tree : f.Tree) (mapped : f.blockAt k ≠ 0) (j : Nat) :
    (f.store k data).blockAt j = f.blockAt j := by
  by_cases direct : j < 15
  · exact ((f.store k data).blockAt_direct ⟨j, direct⟩).trans (f.blockAt_direct ⟨j, direct⟩).symm
  · exact @blockAt_congr f (f.store k data) rfl
      (SfsFs.withBlock_other _ (tree.apart k mapped).symm _) j (by omega)

theorem Tree.store (tree : f.Tree) (mapped : f.blockAt k ≠ 0) : (f.store k data).Tree := by
  have places := @store_blockAt f k data tree mapped
  refine ⟨tree.sound.withBlock _, fun j real => ?_, fun j real => ?_, fun i j real same => ?_,
    tree.indirectInside, tree.indirectMarked, fun j real => ?_⟩
  · rw [places] at real ⊢
    exact tree.inside j real
  · rw [places] at real ⊢
    exact tree.marked j real
  · rw [places] at real same
    rw [places] at same
    exact tree.distinct i j real same
  · rw [places] at real ⊢
    exact tree.apart j real

theorem store_content (tree : f.Tree) (mapped : f.blockAt k ≠ 0) (j : Nat) :
    (f.store k data).content j = if j = k then data else f.content j := by
  unfold content
  rw [store_blockAt tree mapped]
  by_cases same : j = k
  · rw [if_pos same, same, if_neg mapped]
    exact SfsFs.withBlock_self ..
  · rw [if_neg same]
    by_cases hole : f.blockAt j = 0
    · rw [if_pos hole, if_pos hole]
    · rw [if_neg hole, if_neg hole]
      exact SfsFs.withBlock_other _ (fun met => same (tree.distinct j k mapped met)) _

/-- Bytes that do not cross the border of a block. -/
theorem store_bytes (tree : f.Tree) (mapped : f.blockAt k ≠ 0) {src : Bytes} {base skip n : Nat}
    (inside : skip + n ≤ 512)
    (is : data = ((bufBytes (f.content k)).memmove skip src base n).slice 0 512) :
    (f.store k data).bytes = f.bytes.memmove (512 * k + skip) src base n := by
  funext p
  have border := Nat.div_add_mod p 512
  have rest : p % 512 < 512 := Nat.mod_lt _ (by decide)
  unfold bytes
  rw [store_content tree mapped]
  by_cases here : p / 512 = k
  · rw [if_pos here, is]
    unfold Bytes.slice Bytes.memmove bufBytes Bytes.fill
    simp only [Nat.zero_add, Nat.zero_le, true_and, rest, Nat.sub_zero, dif_pos]
    by_cases moved : skip ≤ p % 512 ∧ p % 512 < skip + n
    · have place : p - (512 * k + skip) = p % 512 - skip := by omega
      rw [if_pos moved, if_pos (by omega), place]
    · rw [if_neg moved, if_neg (by omega), here]
  · rw [if_neg here]
    exact (if_neg (by omega)).symm

/-- Every block that the file has is one of those on which `sfs_blockio` and `sfs_readblock` agree,
and so is every block that it can get. -/
structure Low (f : File) : Prop where
  mapped : ∀ k, (f.blockAt k).toNat < 2 ^ 23
  free : ∀ b, f.fs.Fresh b → b.toNat < 2 ^ 23

/-- The file may get blocks that were free, and keeps its size. -/
structure Grows (f g : File) : Prop where
  sb : g.fs.sfsSb = f.fs.sfsSb
  size : g.sv.svI.sfiSize = f.sv.svI.sfiSize
  fresh : ∀ b, g.fs.Fresh b → f.fs.Fresh b
  mapped : ∀ k, g.blockAt k = f.blockAt k ∨ f.fs.Fresh (g.blockAt k)

theorem Grows.refl (f : File) : Grows f f := ⟨rfl, rfl, fun _ => id, fun _ => .inl rfl⟩

theorem Grows.trans (first : Grows f g) (second : Grows g h) : Grows f h := by
  refine ⟨second.sb.trans first.sb, second.size.trans first.size,
    fun b free => first.fresh b (second.fresh b free), fun k => ?_⟩
  rcases second.mapped k with same | new
  · rw [same]
    exact first.mapped k
  · exact .inr (first.fresh _ new)

theorem Grows.low (grows : Grows f g) (low : f.Low) : g.Low := by
  refine ⟨fun k => ?_, fun b free => low.free b (grows.fresh b free)⟩
  rcases grows.mapped k with same | new
  · rw [same]
    exact low.mapped k
  · exact low.free _ new

theorem Grows.store (tree : f.Tree) (mapped : f.blockAt k ≠ 0) : Grows f (f.store k data) :=
  ⟨rfl, rfl, fun _ free => ⟨free.inside, free.free, free.nonzero⟩,
    fun j => .inl (store_blockAt tree mapped j)⟩

/-- A block that has been marked is not free, and those that are free were free before. -/
theorem fresh_of_bits (sb : g.fs.sfsSb = f.fs.sfsSb)
    (bits : ∀ x, g.fs.sfsFreemap.bit x = (f.fs.sfsFreemap.bit x || decide (block = x))) (b : UInt32)
    (free : g.fs.Fresh b) : f.fs.Fresh b := by
  have unmarked := free.free
  rw [bits, Bool.or_eq_false_iff] at unmarked
  exact ⟨sb ▸ free.inside, unmarked.1, free.nonzero⟩

theorem Grows.leak (tree : f.Tree) (fresh : f.fs.Fresh block) :
    Grows f (f.withFs (f.fs.allocated block)) :=
  ⟨rfl, rfl, @fresh_of_bits f (f.withFs (f.fs.allocated block)) block rfl fun _ => SfsFs.allocated_bit,
    fun k => .inl (leak_blockAt tree fresh k)⟩

theorem Grows.gainIndirect (fresh : f.fs.Fresh block) (absent : f.sv.svI.sfiIndirect = 0) :
    Grows f (f.gainIndirect block) :=
  ⟨rfl, rfl, @fresh_of_bits f (f.gainIndirect block) block rfl fun _ => SfsFs.allocated_bit,
    fun k => .inl (gainIndirect_blockAt absent fresh k)⟩

theorem gain_size : (f.gain k block).sv.svI.sfiSize = f.sv.svI.sfiSize := by
  unfold File.gain
  split
  · rfl
  · split <;> rfl

theorem Grows.gain (tree : f.Tree) (fresh : f.fs.Fresh block) (gap : f.Gap k) :
    Grows f (f.gain k block) := by
  have gains := @gain_gains f block k tree gap
  refine ⟨gains.sb, gain_size, fresh_of_bits gains.sb gains.bits, fun j => ?_⟩
  rw [gain_blockAt tree fresh gap]
  by_cases at_ : j = k
  · rw [if_pos at_]
    exact .inr fresh
  · rw [if_neg at_]
    exact .inl rfl

end File

section Bmap

variable {f g : File} {w : Replies} {k n : Nat} {doalloc : Bool}

theorem AtHand.grows (hand : AtHand f w k g n) : File.Grows f g := by
  cases hand with
  | direct => exact .refl _
  | read => exact .refl _
  | made _ absent fresh => exact .gainIndirect fresh absent

theorem Refused.grows {err : Errno} (refused : Refused f w err g n) : File.Grows f g := by
  cases refused with
  | full => exact .refl _
  | uncleared => exact ⟨rfl, rfl, fun _ free => ⟨free.inside, free.free, free.nonzero⟩, fun _ => .inl rfl⟩

theorem BmapExit.grows {r : Except Errno UInt32} (h : f.Tree) (exits : BmapExit f w k doalloc r g n) :
    File.Grows f g := by
  cases exits with
  | tooBig => exact .refl _
  | unread => exact .refl _
  | nothing => exact .refl _
  | found => exact .refl _
  | unmade _ _ _ _ refused => exact refused.grows
  | unallocated _ _ _ hand refused => exact hand.grows.trans refused.grows
  | lost _ _ _ _ hand fresh => exact hand.grows.trans (.leak (hand.tree h) fresh)
  | gained inside hole _ hand fresh =>
    exact hand.grows.trans (.gain (hand.tree h) fresh (hand.gap inside hole))

/-- What can go wrong with the volume at a block of a file: it is full and the block is missing, or
the device reports an error. -/
inductive Trouble (f : File) (w : Replies) (k : Nat) : Errno → Prop
  | full (full : ∀ i, i < f.fs.sfsSb.sbNblocks → f.fs.sfsFreemap.bit i = true) (hole : f.blockAt k = 0) :
      Trouble f w k .enospc
  | device {err : { err : Errno // err ≠ .einval }} (n : Nat) (fails : w.nth n = some err) :
      Trouble f w k err

theorem Refused.trouble {err : Errno} {m : Nat} (refused : Refused f (w.after m) err g n)
    (hole : f.blockAt k = 0) : Trouble g w k err := by
  cases refused with
  | full full => exact .full full hole
  | uncleared _ fails => exact .device (m + 0) (by rwa [Replies.nth_add])

/-- What `sfs_bmap` gives to a caller. -/
inductive Mapped (g : File) (w : Replies) (k : Nat) (doalloc : Bool) : Except Errno UInt32 → Prop
  | tooBig (beyond : 143 ≤ k) : Mapped g w k doalloc (.error .efbig)
  | trouble {err : Errno} (inside : k < 143) (trouble : Trouble g w k err) : Mapped g w k doalloc (.error err)
  | hole (inside : k < 143) (hole : g.blockAt k = 0) (look : doalloc = false) : Mapped g w k doalloc (.ok 0)
  | block (inside : k < 143) (mapped : g.blockAt k ≠ 0) : Mapped g w k doalloc (.ok (g.blockAt k))

theorem BmapExit.mapped {r : Except Errno UInt32} (h : f.Tree) (exits : BmapExit f w k doalloc r g n) :
    Mapped g w k doalloc r := by
  cases exits with
  | tooBig beyond => exact .tooBig beyond
  | unread _ inside _ fails => exact .trouble inside (.device 0 fails)
  | nothing entry inside absent look => exact .hole inside (File.blockAt_hole absent entry) look
  | found inside _ enough =>
    by_cases hole : f.blockAt k = 0
    · rw [hole]
      exact .hole inside hole (enough.resolve_left fun mapped => mapped hole)
    · exact .block inside hole
  | unmade entry inside absent _ refused =>
    exact .trouble inside (@Refused.trouble f g w k _ _ 0 refused (File.blockAt_hole absent entry))
  | unallocated inside hole _ hand refused =>
    exact .trouble inside (refused.trouble ((hand.blockAt k).trans hole))
  | lost _ inside _ _ _ _ _ fails => exact .trouble inside (.device _ fails)
  | gained inside hole _ hand fresh =>
    have gap := hand.gap inside hole
    have new := gain_blockAt (hand.tree h) fresh gap k
    rw [if_pos rfl] at new
    have block := @Mapped.block _ w k doalloc inside (by rw [new]; exact fresh.nonzero)
    rwa [new] at block

/-- A lookup changes nothing. -/
theorem BmapExit.look {r : Except Errno UInt32} (exits : BmapExit f w k false r g n) : g = f := by
  cases exits with
  | tooBig => rfl
  | unread => rfl
  | nothing => rfl
  | found => rfl
  | unmade _ _ _ alloc => cases alloc
  | unallocated _ _ alloc => cases alloc
  | lost _ _ _ alloc => cases alloc
  | gained _ _ alloc => cases alloc

end Bmap

/-! ### Moving the data -/

section Moves

variable [DecidableEq Space] {copy : UserCopy User} {byte : User → Bytes} {s : FileIo Space User}
variable {base ptr n : Nat} {buf : Sector}

/-- A part of the `uio` gets into the buffer, or nothing is used up. -/
theorem moveBuf_write (sound : copy.Sound byte) (ready : s.uio.Ready s.memory base)
    (dir : s.uio.uioRw = .write) (inside : n ≤ s.uio.uioResid.toNat) :
    (s.uio.uioSegflg ≠ .sysspace ∧ ∀ w, moveBuf copy buf ptr n s w = .done (.error .efault, s, w)) ∨
    ∀ w, moveBuf copy buf ptr n s w = .done (.ok (((bufBytes buf).memmove ptr
      (s.memory.at byte s.uio.uioSegflg) base n).slice 0 512), s.withUio (s.uio.advance n), w) := by
  let t : Transfer Space User := ⟨fun i => bufBytes buf (ptr + i), s.memory, s.uio⟩
  unfold moveBuf
  rcases Nat.eq_zero_or_pos n with rfl | positive
  · right
    intro w
    have moves : t.uiomove copy 0 = .done (none, t) :=
      (Transfer.uiomove_eq ready.space).trans Transfer.moveBlocks_zero
    have same : (bufBytes buf).memmove ptr t.buf 0 0 = (bufBytes buf).memmove ptr
        (s.memory.at byte s.uio.uioSegflg) base 0 := by
      rw [Bytes.memmove_zero, Bytes.memmove_zero]
    rw [moves, ← same, Uio.advance_zero ready.nonempty]
    rfl
  have moves := @Transfer.uiomove_ready _ _ base _ copy t n ready positive inside
  rcases @Transfer.moveBlock_write _ _ base copy byte t 0 n sound dir with ⟨user, after, goes⟩ | goes
  · left
    refine ⟨user, fun w => ?_⟩
    rw [goes] at moves
    rw [moves]
    rfl
  · right
    intro w
    rw [goes] at moves
    have bytes : (bufBytes buf).memmove ptr
        (t.buf.memmove 0 (s.memory.at byte s.uio.uioSegflg) base n) 0 n =
        (bufBytes buf).memmove ptr (s.memory.at byte s.uio.uioSegflg) base n := by
      apply Bytes.memmove_congr
      intro i moved
      have place : base + (0 + i - 0) = base + i := by omega
      unfold Bytes.memmove
      rw [if_pos (by omega), place]
    rw [moves, ← bytes]
    rfl

/-- A part of the buffer gets to the caller, or the caller is at fault and nothing is used up. -/
theorem moveBuf_read (sound : copy.Sound byte) (ready : s.uio.Ready s.memory base)
    (dir : s.uio.uioRw = .read) (inside : n ≤ s.uio.uioResid.toNat) :
    (s.uio.uioSegflg ≠ .sysspace ∧ ∃ memory, ∀ w,
      moveBuf copy buf ptr n s w = .done (.error .efault, ⟨s.file, memory, s.uio⟩, w)) ∨
    ∃ buf' memory, memory.tAddrspace = s.memory.tAddrspace ∧ memory.at byte s.uio.uioSegflg =
        (s.memory.at byte s.uio.uioSegflg).memmove base (bufBytes buf) ptr n ∧ ∀ w,
      moveBuf copy buf ptr n s w = .done (.ok buf', ⟨s.file, memory, s.uio.advance n⟩, w) := by
  let t : Transfer Space User := ⟨fun i => bufBytes buf (ptr + i), s.memory, s.uio⟩
  unfold moveBuf
  rcases Nat.eq_zero_or_pos n with rfl | positive
  · right
    have moves : t.uiomove copy 0 = .done (none, t) :=
      (Transfer.uiomove_eq ready.space).trans Transfer.moveBlocks_zero
    refine ⟨((bufBytes buf).memmove ptr t.buf 0 0).slice 0 512, s.memory, rfl,
      Bytes.memmove_zero.symm, fun w => ?_⟩
    rw [moves, Uio.advance_zero ready.nonempty]
    rfl
  have moves := @Transfer.uiomove_ready _ _ base _ copy t n ready positive inside
  rcases @Transfer.moveBlock_read _ _ base copy byte t 0 n sound dir
    with ⟨user, after, goes⟩ | ⟨memory, same, bytes, goes⟩
  · left
    refine ⟨user, { s.memory with user := after }, fun w => ?_⟩
    rw [goes] at moves
    rw [moves]
    rfl
  · right
    rw [goes] at moves
    refine ⟨((bufBytes buf).memmove ptr t.buf 0 n).slice 0 512, memory, same, ?_, fun w => ?_⟩
    · rw [bytes]
      apply Bytes.memmove_congr
      intro i moved
      have place : ptr + (0 + i) = ptr + i := by omega
      exact congrArg (bufBytes buf) place
    · rw [moves]
      rfl

theorem uioSector_fails {block : UInt32} {err : Errno} {t : FileIo Space User} {w : Replies}
    (moves : moveBuf copy (s.file.fs.sfsDevice.blocks block) 0 512 s w = .done (.error err, t, w)) :
    uioSector copy block s w = .done (.error err, t, w) := by
  unfold uioSector
  rw [Fallible.get_bind]
  exact Fallible.bind_error moves

theorem uioSector_write {block : UInt32} {t : FileIo Space User} {w : Replies}
    (dir : s.uio.uioRw = .write)
    (moves : moveBuf copy (s.file.fs.sfsDevice.blocks block) 0 512 s w = .done (.ok buf, t, w)) :
    uioSector copy block s w =
      .done (.ok (), t.withFile (t.file.withFs (t.file.fs.withBlock block buf)), w) := by
  unfold uioSector
  rw [Fallible.get_bind, Fallible.bind_ok moves, if_pos dir]
  rfl

theorem uioSector_read {block : UInt32} {t : FileIo Space User} {w : Replies} {buf' : Sector}
    (dir : s.uio.uioRw = .read)
    (moves : moveBuf copy (s.file.fs.sfsDevice.blocks block) 0 512 s w = .done (.ok buf', t, w)) :
    uioSector copy block s w = .done (.ok (), t, w) := by
  have looks : ¬ s.uio.uioRw = .write := by
    rw [dir]
    nofun
  unfold uioSector
  rw [Fallible.get_bind, Fallible.bind_ok moves, if_neg looks]
  rfl

theorem deviceIo_eq {diskoff : Int} {r : Except Errno Unit} {t : FileIo Space User} {w v : Replies}
    (goes : sfsRwblock (devopIo (s.file.fs.sfsDevice.sector diskoff) (uioSector copy))
      (s.toDevice diskoff) w = .done (r, t, v)) :
    deviceIo copy diskoff s w =
      .done (r, t.fromDevice diskoff s.uio.uioOffset s.uio.uioResid, v) := by
  unfold deviceIo
  rw [Fallible.get_bind, Fallible.modify_bind]
  rw [Fallible.attempt_bind goes, Fallible.modify_bind]
  cases r <;> rfl

omit [DecidableEq Space] in
/-- An attempt that moves nothing leaves the `uio` as it was. -/
theorem toDevice_back {diskoff : Int} :
    (s.toDevice diskoff).fromDevice diskoff s.uio.uioOffset s.uio.uioResid = s := by
  have offset : diskoff - diskoff + s.uio.uioOffset = s.uio.uioOffset := by omega
  have resid : 512 - 512 + s.uio.uioResid = s.uio.uioResid := by grind
  unfold FileIo.toDevice FileIo.fromDevice FileIo.withUio
  dsimp only
  rw [offset, resid]

omit [DecidableEq Space] in
theorem advance_back {diskoff : Int} {file : File} {memory : Memory Space User} :
    FileIo.fromDevice diskoff s.uio.uioOffset s.uio.uioResid
      ⟨file, memory, (s.toDevice diskoff).uio.advance 512⟩ = ⟨file, memory, s.uio.advance 512⟩ := by
  have offset : diskoff + (512 : Nat) - diskoff + s.uio.uioOffset = s.uio.uioOffset + (512 : Nat) := by
    omega
  have resid : (512 : UInt32) - UInt32.ofNat 512 - 512 + s.uio.uioResid =
      s.uio.uioResid - UInt32.ofNat 512 := by
    have word : UInt32.ofNat 512 = 512 := rfl
    rw [word]
    grind
  unfold FileIo.toDevice FileIo.fromDevice FileIo.withUio Uio.advance
  dsimp only
  rw [offset, resid]

/-- `sfs_rwblock` on the caller's `uio` moves a whole block, or nothing. -/
theorem deviceIo_write (sound : copy.Sound byte) (ready : s.uio.Ready s.memory base)
    (dir : s.uio.uioRw = .write) (room : 512 ≤ s.uio.uioResid.toNat) {block : UInt32}
    (inside : block < s.file.fs.sfsDevice.dBlocks) (w : Replies) :
    (∃ err, w.nth 0 = some err ∧
      deviceIo copy (sfsuioOffset block) s w = .done (.error err, s, w.after 1)) ∨
    (s.uio.uioSegflg ≠ .sysspace ∧
      deviceIo copy (sfsuioOffset block) s w = .done (.error .efault, s, w.after 1)) ∨
    w.nth 0 = none ∧ deviceIo copy (sfsuioOffset block) s w = .done (.ok (),
      (s.withFile (s.file.withFs (s.file.fs.withBlock block
        (((bufBytes (s.file.fs.sfsDevice.blocks block)).memmove 0
          (s.memory.at byte s.uio.uioSegflg) base 512).slice 0 512)))).withUio (s.uio.advance 512),
      w.after 1) := by
  have sector := Device.sector_inside inside
  have ready' : (s.toDevice (sfsuioOffset block)).uio.Ready s.memory base := by
    obtain ⟨len, is, fits⟩ := ready.block
    exact ⟨⟨len, is, Nat.le_trans room fits⟩, ready.space⟩
  rcases @moveBuf_write _ _ _ copy byte (s.toDevice (sfsuioOffset block)) base 0 512
    (s.file.fs.sfsDevice.blocks block) sound ready' dir (Nat.le_refl 512)
    with ⟨user, moves⟩ | moves
  · have io := @sfsRwblock_cases _ _ _ _ block (uioSector copy) (.error .efault)
      (fun v => uioSector_fails (moves v)) ⟨nofun, nofun⟩ w
    rw [← sector] at io
    rcases io with ⟨err, fails, goes⟩ | ⟨-, goes⟩
    · left
      refine ⟨err, fails, ?_⟩
      rw [deviceIo_eq goes, toDevice_back]
    · right
      left
      refine ⟨user, ?_⟩
      rw [deviceIo_eq goes, toDevice_back]
  · have io := @sfsRwblock_cases _ _ _ _ block (uioSector copy) (.ok ())
      (fun v => @uioSector_write _ _ _ copy (s.toDevice (sfsuioOffset block)) _ block _ v dir (moves v)) final_ok w
    rw [← sector] at io
    rcases io with ⟨err, fails, goes⟩ | ⟨fine, goes⟩
    · left
      refine ⟨err, fails, ?_⟩
      rw [deviceIo_eq goes, toDevice_back]
    · right
      right
      refine ⟨fine, (deviceIo_eq goes).trans ?_⟩
      exact congrArg (fun t => Outcome.done (Except.ok (), t, w.after 1)) advance_back

omit [DecidableEq Space] in
theorem fault_back {diskoff : Int} {memory : Memory Space User} :
    FileIo.fromDevice diskoff s.uio.uioOffset s.uio.uioResid ⟨s.file, memory, (s.toDevice diskoff).uio⟩ =
      ⟨s.file, memory, s.uio⟩ :=
  congrArg (fun back : FileIo Space User => (⟨s.file, memory, back.uio⟩ : FileIo Space User)) toDevice_back

theorem deviceIo_read (sound : copy.Sound byte) (ready : s.uio.Ready s.memory base)
    (dir : s.uio.uioRw = .read) (room : 512 ≤ s.uio.uioResid.toNat) {block : UInt32}
    (inside : block < s.file.fs.sfsDevice.dBlocks) (w : Replies) :
    (∃ err, w.nth 0 = some err ∧
      deviceIo copy (sfsuioOffset block) s w = .done (.error err, s, w.after 1)) ∨
    (s.uio.uioSegflg ≠ .sysspace ∧ ∃ memory,
      deviceIo copy (sfsuioOffset block) s w =
        .done (.error .efault, ⟨s.file, memory, s.uio⟩, w.after 1)) ∨
    ∃ memory, w.nth 0 = none ∧ memory.tAddrspace = s.memory.tAddrspace ∧
      memory.at byte s.uio.uioSegflg = (s.memory.at byte s.uio.uioSegflg).memmove base
        (bufBytes (s.file.fs.sfsDevice.blocks block)) 0 512 ∧
      deviceIo copy (sfsuioOffset block) s w =
        .done (.ok (), ⟨s.file, memory, s.uio.advance 512⟩, w.after 1) := by
  have sector := Device.sector_inside inside
  have ready' : (s.toDevice (sfsuioOffset block)).uio.Ready s.memory base := by
    obtain ⟨len, is, fits⟩ := ready.block
    exact ⟨⟨len, is, Nat.le_trans room fits⟩, ready.space⟩
  rcases @moveBuf_read _ _ _ copy byte (s.toDevice (sfsuioOffset block)) base 0 512
    (s.file.fs.sfsDevice.blocks block) sound ready' dir (Nat.le_refl 512)
    with ⟨user, memory, moves⟩ | ⟨buf', memory, same, bytes, moves⟩
  · have io := @sfsRwblock_cases _ _ _ _ block (uioSector copy) (.error .efault)
      (fun v => uioSector_fails (moves v)) ⟨nofun, nofun⟩ w
    rw [← sector] at io
    rcases io with ⟨err, fails, goes⟩ | ⟨-, goes⟩
    · left
      refine ⟨err, fails, ?_⟩
      rw [deviceIo_eq goes, toDevice_back]
    · right
      left
      refine ⟨user, memory, (deviceIo_eq goes).trans ?_⟩
      exact congrArg (fun t => Outcome.done (Except.error Errno.efault, t, w.after 1)) fault_back
  · have io := @sfsRwblock_cases _ _ _ _ block (uioSector copy) (.ok ()) (fun v =>
      @uioSector_read _ _ _ copy (s.toDevice (sfsuioOffset block)) block _ v _ dir (moves v)) final_ok w
    rw [← sector] at io
    rcases io with ⟨err, fails, goes⟩ | ⟨fine, goes⟩
    · left
      refine ⟨err, fails, ?_⟩
      rw [deviceIo_eq goes, toDevice_back]
    · right
      right
      refine ⟨memory, fine, same, bytes, (deviceIo_eq goes).trans ?_⟩
      exact congrArg (fun t => Outcome.done (Except.ok (), t, w.after 1)) advance_back

end Moves

/-! ### Two paths to a block -/

section Paths

variable [DecidableEq Space] {copy : UserCopy User} {byte : User → Bytes} {s : FileIo Space User}
variable {base : Nat} {block : UInt32}

/-- The block that `sfs_blockio` comes to: the offset on the device has 32 bits. -/
def wholePath (block : UInt32) : UInt32 := UInt32.ofNat (block.toNat % 2 ^ 23)

theorem wholePath_toNat : (wholePath block).toNat = block.toNat % 2 ^ 23 := by
  unfold wholePath
  rw [UInt32.toNat_ofNat']
  omega

theorem blockOffset_eq : blockOffset block = sfsuioOffset (wholePath block) := by
  unfold blockOffset sfsuioOffset
  rw [UInt32.toNat_mul, wholePath_toNat]
  simp only [UInt32.reduceToNat]
  omega

theorem wholePath_low (low : block.toNat < 2 ^ 23) : wholePath block = block := by
  rw [← UInt32.toNat_inj, wholePath_toNat]
  exact Nat.mod_eq_of_lt low

/-- For a low block both offsets are the same. -/
theorem blockOffset_low (low : block.toNat < 2 ^ 23) : blockOffset block = sfsuioOffset block := by
  rw [blockOffset_eq, wholePath_low low]

/-- What goes to a block as a whole is what `sfs_writeblock` would have made of it, and what comes
from it as a whole is what `sfs_readblock` reads. -/
structure PathsAgree (copy : UserCopy User) (byte : User → Bytes) (f : File) (block : UInt32) : Prop where
  write : ∀ (s : FileIo Space User) base w t v, s.file = f → s.uio.Ready s.memory base →
    s.uio.uioRw = .write → 512 ≤ s.uio.uioResid.toNat →
    deviceIo copy (blockOffset block) s w = .done (.ok (), t, v) →
    sfsWriteblock block ((s.memory.at byte s.uio.uioSegflg).slice base 512) f.fs w =
      .done (.ok (), t.file.fs, v)
  read : ∀ (s : FileIo Space User) base w t v, s.file = f → s.uio.Ready s.memory base →
    s.uio.uioRw = .read → 512 ≤ s.uio.uioResid.toNat →
    deviceIo copy (blockOffset block) s w = .done (.ok (), t, v) →
    sfsReadblock block f.fs w =
      .done (.ok ((t.memory.at byte s.uio.uioSegflg).slice base 512), t.file.fs, v)

theorem bufBytes_memmove {buf : Sector} {src : Bytes} :
    ((bufBytes buf).memmove 0 src base 512).slice 0 512 = src.slice base 512 :=
  Bytes.memmove_slice

theorem bufBytes_slice {buf : Sector} : (bufBytes buf).slice 0 512 = buf := Bytes.fill_slice

/-- The two paths to a block agree as long as its byte offset has 32 bits. -/
theorem paths_agree_iff (sound : copy.Sound byte) (inside : block < s.file.fs.sfsDevice.dBlocks) :
    @PathsAgree Space User _ copy byte s.file block ↔ block.toNat < 2 ^ 23 := by
  constructor
  · intro agree
    by_contra high
    have other : block ≠ wholePath block := by
      intro same
      have number := congrArg UInt32.toNat same
      rw [wholePath_toNat] at number
      omega
    have there : wholePath block < s.file.fs.sfsDevice.dBlocks := by
      rw [UInt32.lt_iff_toNat_lt] at inside ⊢
      rw [wholePath_toNat]
      exact Nat.lt_of_le_of_lt (Nat.mod_le _ _) inside
    -- a block of bytes that differ from those the block has
    let byte' := s.file.fs.sfsDevice.blocks block 0 + 1
    let t : FileIo Space User := ⟨s.file, { s.memory with kernel := fun _ => byte' }, .kinit 0 512 0 .write⟩
    have ready : t.uio.Ready t.memory 0 := ⟨⟨512, rfl, Nat.le_refl _⟩, rfl⟩
    rcases @deviceIo_write _ _ _ copy byte t 0 sound ready rfl (Nat.le_refl _) _ there noErrors
      with ⟨err, fails, -⟩ | ⟨user, -⟩ | ⟨-, goes⟩
    · rw [noErrors_nth] at fails
      cases fails
    · exact user rfl
    · rw [← blockOffset_eq] at goes
      have writes := agree.write t 0 noErrors _ _ rfl ready rfl (Nat.le_refl _) goes
      have fine : noErrors.answer.1 = none := noErrors_nth 0
      rw [sfsWriteblock_ok inside fine] at writes
      have same := congrArg (fun fs : SfsFs => fs.sfsDevice.blocks block 0)
        (Prod.mk.inj (Prod.mk.inj (Outcome.done.inj writes)).2).1
      have new := congrFun (SfsFs.withBlock_self s.file.fs block (Bytes.slice (fun _ => byte') 0 512)) 0
      have old := congrFun (@SfsFs.withBlock_other s.file.fs _ _ other (((bufBytes
        (s.file.fs.sfsDevice.blocks (wholePath block))).memmove 0 (fun _ => byte') 0 512).slice 0 512)) 0
      have differ : s.file.fs.sfsDevice.blocks block 0 + 1 ≠ s.file.fs.sfsDevice.blocks block 0 := by
        grind
      exact differ (new.symm.trans (same.trans old))
  · intro low
    have offset := @blockOffset_low block low
    constructor
    · intro t base w u v is ready dir room goes
      rw [← is] at inside ⊢
      rw [offset] at goes
      rcases @deviceIo_write _ _ _ copy byte t base sound ready dir room _ inside w
        with ⟨err, -, goes'⟩ | ⟨-, goes'⟩ | ⟨fine, goes'⟩
      · rw [goes'] at goes
        cases goes
      · rw [goes'] at goes
        cases goes
      · rw [goes'] at goes
        cases goes
        rw [bufBytes_memmove]
        exact sfsWriteblock_ok inside fine
    · intro t base w u v is ready dir room goes
      rw [← is] at inside ⊢
      rw [offset] at goes
      rcases @deviceIo_read _ _ _ copy byte t base sound ready dir room _ inside w
        with ⟨err, -, goes'⟩ | ⟨-, memory, goes'⟩ | ⟨memory, fine, -, bytes, goes'⟩
      · rw [goes'] at goes
        cases goes
      · rw [goes'] at goes
        cases goes
      · rw [goes'] at goes
        cases goes
        dsimp only
        rw [bytes, Bytes.memmove_slice, bufBytes_slice]
        exact sfsReadblock_ok inside fine

end Paths

end Os161.Sfs
