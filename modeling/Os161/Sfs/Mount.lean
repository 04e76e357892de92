import Os161.Sfs.Volume

/-!
# Mounting SFS

`sfs_freemapio`, `sfs_fs_create` and `sfs_domount` of `sfs_fsops.c`. The size of the freemap comes from
a number on the disk, and is rounded up with numbers of 32 bits.
-/

namespace Os161.Sfs

/-- `SFS_FREEMAPBITS`. -/
def freemapbits (nblocks : UInt32) : UInt32 := (nblocks + 4096 - 1) / 4096 * 4096

/-- `SFS_FREEMAPBLOCKS`. -/
def freemapblocks (nblocks : UInt32) : UInt32 := freemapbits nblocks / 4096

/-- The 512 bytes of the bitmap from `ptr` on. -/
def loadBits (b : Bitmap) (ptr : Nat) : Outcome Sector :=
  if ptr + 512 ≤ b.words.toNat then return b.v.slice ptr 512 else .fault

def storeBits (b : Bitmap) (ptr : Nat) (data : Sector) : Outcome Bitmap :=
  if ptr + 512 ≤ b.words.toNat then return { b with v := b.v.fill ptr data } else .fault

/-- The loop of `sfs_freemapio` from `j` on, with the number of blocks that are left. -/
def freemapioFrom (rw : UioRw) (j : Nat) : Nat → Fallible Errno Replies SfsFs Unit
  | 0 => return
  | left + 1 => do
    let ptr := j * 512
    match rw with
    | .read => do
      let data ← sfsReadblock (2 + UInt32.ofNat j)
      .lift fun fs => do
        let freemap ← storeBits fs.sfsFreemap ptr data
        return ((), fs.withFreemap freemap)
    | .write => do
      let data ← .lift fun fs => do
        let data ← loadBits fs.sfsFreemap ptr
        return (data, fs)
      sfsWriteblock (2 + UInt32.ofNat j) data
    freemapioFrom rw (j + 1) left

def sfsFreemapio (rw : UioRw) : Fallible Errno Replies SfsFs Unit := do
  let fs ← .get
  freemapioFrom rw 0 (freemapblocks fs.sfsSb.sbNblocks).toNat

/-- The outcomes of the calls of `kmalloc` for a mount. -/
structure Mallocs where
  sfs : Bool
  vnodes : Bool
  bitmap : Bool
  bits : Bool

/-- `sfs_fs_create`, in memory that holds some superblock. A freemap without bits stands for none. -/
def sfsFsCreate (dev : Device) (mallocs : Mallocs) (sfsSb : Superblock) : Option SfsFs :=
  if mallocs.sfs && mallocs.vnodes then
    some ⟨sfsSb, false, dev, [], ⟨0, 0, fun _ => 0⟩, false⟩
  else none

/-- The superblock with a NUL at the end of the volume name. -/
def Superblock.terminated (sb : Superblock) : Superblock :=
  { sb with sbVolname := Function.update sb.sbVolname 31 0 }

/-- `sfs_domount` once there is an `sfs`. -/
def loadVolume (mallocs : Mallocs) : Fallible Errno Replies SfsFs Unit := do
  let data ← sfsReadblock 0
  .modify fun fs => fs.withSb (.ofSector data)
  if (← .get).sfsSb.sbMagic ≠ sfsMagic then .fail .einval
  else do
    -- ensure null termination of the volume name
    .modify fun fs => fs.withSb fs.sfsSb.terminated
    let freemap ← .lift fun fs => do
      let freemap ← Bitmap.bitmapCreate (freemapbits fs.sfsSb.sbNblocks) mallocs.bitmap mallocs.bits
      return (freemap, fs)
    match freemap with
    | none => .fail .enomem
    | some freemap => do
      .modify fun fs => fs.withFreemap freemap
      sfsFreemapio .read

def sfsDomount (dev : Device) (mallocs : Mallocs) (sfsSb : Superblock) (w : Replies) :
    Outcome (Except Errno SfsFs × Replies) :=
  if dev.dBlocksize ≠ 512 then return (.error .enxio, w)
  else
    match sfsFsCreate dev mallocs sfsSb with
    | none => return (.error .enomem, w)
    | some sfs => do
      let (result, sfs, w) ← loadVolume mallocs sfs w
      return (result.map fun _ => sfs, w)

/-! ### Transferring the freemap -/

section Freemapio

variable {fs : SfsFs} {w : Replies} {j left : Nat}

/-- The blocks of the freemap from `j` on. -/
structure FreemapInside (fs : SfsFs) (j left : Nat) : Prop where
  room : 512 * (j + left) ≤ fs.sfsFreemap.words.toNat
  device : ∀ k, j ≤ k → k < j + left → 2 + UInt32.ofNat k < fs.sfsDevice.dBlocks

def SfsFs.withBlocks (fs : SfsFs) (blocks : UInt32 → Sector) : SfsFs :=
  { fs with sfsDevice.blocks := blocks }

/-- The sectors with the freemap from its block `j` on. -/
def freemapWritten (fs : SfsFs) (j left : Nat) : UInt32 → Sector := fun b =>
  if 2 + j ≤ b.toNat ∧ b.toNat < 2 + j + left then fs.sfsFreemap.v.slice ((b.toNat - 2) * 512) 512
  else fs.sfsDevice.blocks b

theorem freemapNumber {k : Nat} (small : k < 2 ^ 23) : (2 + UInt32.ofNat k).toNat = 2 + k := by
  rw [UInt32.toNat_add, UInt32.toNat_ofNat']
  simp only [UInt32.reduceToNat]
  omega

theorem FreemapInside.small (h : FreemapInside fs j left) : j + left < 2 ^ 23 := by
  have limit := fs.sfsFreemap.words.toNat_lt
  have room := h.room
  omega

theorem FreemapInside.next {t : SfsFs} (h : FreemapInside fs j (left + 1))
    (words : t.sfsFreemap.words = fs.sfsFreemap.words)
    (device : t.sfsDevice.dBlocks = fs.sfsDevice.dBlocks) : FreemapInside t (j + 1) left := by
  constructor
  · have room := h.room
    rw [words]
    omega
  · intro k above below
    rw [device]
    exact h.device k (by omega) (by omega)

theorem freemapio_write (h : FreemapInside fs j left) (w : Replies) :
    ((∀ i, i < left → w.nth i = none) ∧ freemapioFrom .write j left fs w =
      .done (.ok (), fs.withBlocks (freemapWritten fs j left), w.after left)) ∨
    ((∃ i, i < left ∧ w.nth i ≠ none) ∧
      ∃ err t v, freemapioFrom .write j left fs w = .done (.error err, t, v)) := by
  induction left generalizing fs j w with
  | zero =>
    left
    refine ⟨fun i inside => by omega, ?_⟩
    have same : freemapWritten fs j 0 = fs.sfsDevice.blocks := by
      funext b
      exact if_neg (by omega)
    unfold freemapioFrom SfsFs.withBlocks
    rw [same]
    rfl
  | succ left ih =>
    have small := h.small
    have here := h.device j (Nat.le_refl _) (by omega)
    let data := fs.sfsFreemap.v.slice (j * 512) 512
    have loads : loadBits fs.sfsFreemap (j * 512) = .done data := by
      have room := h.room
      exact if_pos (by omega)
    have start : freemapioFrom .write j (left + 1) fs w =
        (sfsWriteblock (2 + UInt32.ofNat j) data >>= fun _ => freemapioFrom .write (j + 1) left) fs w := by
      rw [freemapioFrom]
      dsimp only
      rw [Fallible.lift_bind (a := data) (t := fs)]
      rw [loads]
      rfl
    cases answer : w.answer.1 with
    | none =>
      let t := fs.withBlock (2 + UInt32.ofNat j) data
      have later : FreemapInside t (j + 1) left := h.next rfl rfl
      have same : t.withBlocks (freemapWritten t (j + 1) left) =
          fs.withBlocks (freemapWritten fs j (left + 1)) := by
        have blocks : freemapWritten t (j + 1) left = freemapWritten fs j (left + 1) := by
          funext b
          have number := freemapNumber (k := j) (by omega)
          by_cases first : b = 2 + UInt32.ofNat j
          · subst first
            unfold freemapWritten
            rw [if_neg (by omega), if_pos (by omega), number, Nat.add_sub_cancel_left]
            exact Function.update_self ..
          · have other : b.toNat ≠ 2 + j := fun same =>
              first (UInt32.toNat_inj.mp (same.trans number.symm))
            by_cases inside : 2 + (j + 1) ≤ b.toNat ∧ b.toNat < 2 + (j + 1) + left
            · exact (if_pos inside).trans (if_pos (by omega)).symm
            · refine (if_neg inside).trans (Eq.trans ?_ (if_neg (by omega)).symm)
              exact Function.update_of_ne first ..
        unfold SfsFs.withBlocks
        rw [blocks]
        rfl
      rw [start, Fallible.bind_ok (sfsWriteblock_ok here answer)]
      rcases ih later w.answer.2 with ⟨answers, writes⟩ | ⟨⟨i, inside, fails⟩, failed⟩
      · left
        rw [writes, same]
        refine ⟨fun i inside => ?_, rfl⟩
        cases i with
        | zero => exact answer
        | succ i => exact answers i (by omega)
      · right
        exact ⟨⟨i + 1, by omega, fails⟩, failed⟩
    | some err =>
      right
      refine ⟨⟨0, by omega, ?_⟩, err, fs, w.answer.2, ?_⟩
      · unfold Replies.nth Replies.after
        rw [answer]
        simp
      · rw [start, Fallible.bind_error (sfsWriteblock_fails here answer)]

/-- The bytes of the freemap with the sectors from its block `j` on. -/
def freemapRead (fs : SfsFs) (j left : Nat) : Bytes := fun k =>
  if j ≤ k / 512 ∧ k / 512 < j + left then
    fs.sfsDevice.blocks (2 + UInt32.ofNat (k / 512)) ⟨k % 512, byte_inside k⟩
  else fs.sfsFreemap.v k

theorem freemapRead_next (fs : SfsFs) (j left : Nat) :
    freemapRead (fs.withFreemap { fs.sfsFreemap with
      v := fs.sfsFreemap.v.fill (j * 512) (fs.sfsDevice.blocks (2 + UInt32.ofNat j)) }) (j + 1) left =
    freemapRead fs j (left + 1) := by
  funext k
  unfold freemapRead
  by_cases first : j * 512 ≤ k ∧ k < j * 512 + 512
  · have block : k / 512 = j := by omega
    rw [if_neg (by omega), if_pos (by omega), block]
    refine (dif_pos first).trans ?_
    congr 1
    apply Fin.ext
    change k - j * 512 = k % 512
    omega
  · by_cases inside : j + 1 ≤ k / 512 ∧ k / 512 < j + 1 + left
    · rw [if_pos inside, if_pos (by omega)]
      rfl
    · rw [if_neg inside, if_neg (by omega)]
      exact dif_neg first

theorem freemapio_read (room : 512 * (j + left) ≤ fs.sfsFreemap.words.toNat) (w : Replies) :
    freemapioFrom .read j left fs w ≠ .fault ∧
      ∀ t v, freemapioFrom .read j left fs w = .done (.ok (), t, v) →
        FreemapInside fs j left ∧
          t = fs.withFreemap { fs.sfsFreemap with v := freemapRead fs j left } := by
  induction left generalizing fs j w with
  | zero =>
    refine ⟨nofun, fun t v reads => ?_⟩
    cases reads
    refine ⟨⟨room, fun k above below => by omega⟩, ?_⟩
    have same : freemapRead fs j 0 = fs.sfsFreemap.v := by
      funext k
      exact if_neg (by omega)
    rw [same]
    rfl
  | succ left ih =>
    let data := fs.sfsDevice.blocks (2 + UInt32.ofNat j)
    let t := fs.withFreemap { fs.sfsFreemap with v := fs.sfsFreemap.v.fill (j * 512) data }
    have stores : storeBits fs.sfsFreemap (j * 512) data =
        .done { fs.sfsFreemap with v := fs.sfsFreemap.v.fill (j * 512) data } := if_pos (by omega)
    by_cases inside : 2 + UInt32.ofNat j < fs.sfsDevice.dBlocks
    · cases answer : w.answer.1 with
      | none =>
        have start : freemapioFrom .read j (left + 1) fs w = freemapioFrom .read (j + 1) left t w.answer.2 := by
          rw [freemapioFrom]
          dsimp only
          rw [Fallible.bind_ok (sfsReadblock_ok inside answer), Fallible.lift_bind (a := ()) (t := t)]
          rw [stores]
          rfl
        have roomNext : 512 * (j + 1 + left) ≤ fs.sfsFreemap.words.toNat := by omega
        obtain ⟨safe, reads⟩ := @ih t (j + 1) roomNext w.answer.2
        rw [start]
        refine ⟨safe, fun u v goes => ?_⟩
        obtain ⟨rest, same⟩ := reads u v goes
        refine ⟨⟨room, fun k above below => ?_⟩, ?_⟩
        · by_cases first : k = j
          · subst first
            exact inside
          · exact rest.device k (by omega) (by omega)
        · rw [same, freemapRead_next]
          rfl
      | some err =>
        have fails : freemapioFrom .read j (left + 1) fs w = .done (.error err, fs, w.answer.2) := by
          rw [freemapioFrom]
          dsimp only
          rw [Fallible.bind_error (sfsReadblock_fails inside answer)]
        rw [fails]
        exact ⟨nofun, nofun⟩
    · have panics : freemapioFrom .read j (left + 1) fs w = .panic := by
        rw [freemapioFrom]
        dsimp only
        rw [Fallible.bind_panic (sfsReadblock_outside inside)]
      rw [panics]
      exact ⟨nofun, nofun⟩


end Freemapio

/-! ### The size of the bitmap -/

theorem freemapbits_toNat (n : UInt32) : (freemapbits n).toNat = 4096 * (((n.toNat + 4095) % 2 ^ 32) / 4096) := by
  have range := n.toNat_lt
  unfold freemapbits
  rw [UInt32.toNat_mul, UInt32.toNat_div, UInt32.toNat_sub, UInt32.toNat_add]
  simp only [UInt32.reduceToNat]
  omega

theorem freemapblocks_toNat (n : UInt32) : 4096 * (freemapblocks n).toNat = (freemapbits n).toNat := by
  unfold freemapblocks
  rw [UInt32.toNat_div, freemapbits_toNat]
  simp only [UInt32.reduceToNat]
  omega

/-- The rounded number is large enough just when it does not wrap. -/
theorem freemapbits_covers (n : UInt32) : n ≤ freemapbits n ↔ n.toNat ≤ 2 ^ 32 - 4096 := by
  have range := n.toNat_lt
  rw [UInt32.le_iff_toNat_le, freemapbits_toNat]
  omega

theorem bitmapCreate_freemap (n : UInt32) (kmallocB kmallocV : Bool) {b : Bitmap}
    (creates : Bitmap.bitmapCreate (freemapbits n) kmallocB kmallocV = .done (some b)) :
    b.nbits = freemapbits n ∧ b.words.toNat = 512 * (freemapblocks n).toNat := by
  have blocks := freemapblocks_toNat n
  have range := (freemapbits n).toNat_lt
  have words : (divroundup (freemapbits n) 8).toNat = 512 * (freemapblocks n).toNat := by
    unfold divroundup
    rw [UInt32.toNat_div, UInt32.toNat_sub, UInt32.toNat_add]
    simp only [UInt32.reduceToNat]
    omega
  have even : ¬ freemapbits n / 8 < divroundup (freemapbits n) 8 := by
    rw [UInt32.lt_iff_toNat_lt, words, UInt32.toNat_div]
    simp only [UInt32.reduceToNat]
    omega
  unfold Bitmap.bitmapCreate at creates
  dsimp only at creates
  rw [if_neg even] at creates
  split at creates
  · cases creates
  · split at creates
    · cases creates
    · cases creates
      exact ⟨rfl, words⟩

/-- A mounted volume has the sizes that the number on the disk gives, and the whole freemap is on
the device. -/
theorem loadVolume_ok {mallocs : Mallocs} {fs t : SfsFs} {w v : Replies}
    (loads : loadVolume mallocs fs w = .done (.ok (), t, v)) :
    t.sfsSb.sbNblocks = sectorWords (fs.sfsDevice.blocks 0) 1 ∧
      t.sfsFreemap.nbits = freemapbits t.sfsSb.sbNblocks ∧
      t.sfsFreemap.words.toNat = 512 * (freemapblocks t.sfsSb.sbNblocks).toNat ∧
      FreemapInside t 0 (freemapblocks t.sfsSb.sbNblocks).toNat := by
  unfold loadVolume at loads
  obtain ⟨data, u, w₁, reads, loads⟩ := Fallible.of_bind_ok loads
  by_cases inside : 0 < fs.sfsDevice.dBlocks
  · rw [sfsReadblock_eq inside] at reads
    split at reads
    · cases reads
      rw [Fallible.modify_bind, Fallible.get_bind] at loads
      split at loads
      · cases loads
      · rw [Fallible.modify_bind] at loads
        obtain ⟨freemap, u, w₂, creates, loads⟩ := Fallible.of_bind_ok loads
        obtain ⟨made, rfl⟩ := Fallible.of_lift_ok creates
        change (Bitmap.bitmapCreate _ _ _ >>= _) = _ at made
        obtain ⟨_, create, pair⟩ := Outcome.bind_done.mp made
        cases pair
        cases freemap with
        | none => cases loads
        | some freemap =>
          obtain ⟨bits, words⟩ := bitmapCreate_freemap _ _ _ create
          dsimp only at loads
          rw [Fallible.modify_bind] at loads
          unfold sfsFreemapio at loads
          rw [Fallible.get_bind] at loads
          obtain ⟨inside, rfl⟩ := (freemapio_read (by rw [Nat.zero_add]; exact words.ge) _).2 _ _ loads
          exact ⟨rfl, bits, words, ⟨inside.room, inside.device⟩⟩
    · cases reads
  · rw [sfsReadblock_outside inside] at reads
    cases reads

/-- What stays as it is while a volume is mounted. -/
structure SameSizes (fs t : SfsFs) : Prop where
  nblocks : t.sfsSb.sbNblocks = fs.sfsSb.sbNblocks
  nbits : t.sfsFreemap.nbits = fs.sfsFreemap.nbits
  words : t.sfsFreemap.words = fs.sfsFreemap.words
  dBlocks : t.sfsDevice.dBlocks = fs.sfsDevice.dBlocks

/-- The bitmap is as large as the volume needs it, in this state and later. -/
structure FreemapFits (fs : SfsFs) : Prop where
  bits : ∀ i, i < fs.sfsSb.sbNblocks → i < fs.sfsFreemap.nbits ∧ i / 8 < fs.sfsFreemap.words
  writes : ∀ t, SameSizes fs t → ∀ w u v, sfsFreemapio .write t w = .done (.ok (), u, v) →
    ∀ b, u.sfsDevice.blocks b =
      if 2 ≤ b.toNat ∧ 512 * (b.toNat - 2) < fs.sfsFreemap.words.toNat then
        t.sfsFreemap.v.slice ((b.toNat - 2) * 512) 512
      else t.sfsDevice.blocks b
  reads : ∀ t, SameSizes fs t → ∀ w u v, sfsFreemapio .read t w = .done (.ok (), u, v) →
    ∀ k, u.sfsFreemap.v k =
      if k < fs.sfsFreemap.words.toNat then
        t.sfsDevice.blocks (2 + UInt32.ofNat (k / 512)) ⟨k % 512, byte_inside k⟩
      else t.sfsFreemap.v k
  transfers : ∀ t, SameSizes fs t → ∀ rw w, sfsFreemapio rw t w ≠ .fault
  balloc : ∀ t, SameSizes fs t → ∀ w, sfsBalloc t w ≠ .fault
  bfree : ∀ t, SameSizes fs t → ∀ block, block < fs.sfsSb.sbNblocks → ∀ w, sfsBfree block t w ≠ .fault
  bused : ∀ t, SameSizes fs t → ∀ block, block < fs.sfsSb.sbNblocks → ∀ w, sfsBused block t w ≠ .fault

section Fits

variable {fs t : SfsFs} {w : Replies} {block : UInt32}

/-- The bitmap of a volume that is not too large. -/
structure Fitting (fs : SfsFs) : Prop where
  covers : fs.sfsSb.sbNblocks ≤ fs.sfsFreemap.nbits
  whole : fs.sfsFreemap.Whole
  words : fs.sfsFreemap.words.toNat = 512 * (freemapblocks fs.sfsSb.sbNblocks).toNat
  inside : FreemapInside fs 0 (freemapblocks fs.sfsSb.sbNblocks).toNat

theorem Fitting.same (h : Fitting fs) (same : SameSizes fs t) : Fitting t := by
  have inside := h.inside
  refine ⟨?_, ⟨?_, ?_⟩, ?_, ⟨?_, ?_⟩⟩
  · rw [same.nblocks, same.nbits]
    exact h.covers
  · rw [same.words, same.nbits]
    exact h.whole.words
  · rw [same.nbits]
    exact h.whole.even
  · rw [same.words, same.nblocks]
    exact h.words
  · rw [same.words, same.nblocks]
    exact inside.room
  · rw [same.nblocks, same.dBlocks]
    exact inside.device

theorem Fitting.bused (h : Fitting fs) (inside : block < fs.sfsSb.sbNblocks) :
    sfsBused block fs w ≠ .fault := by
  unfold sfsBused
  rw [Fallible.get_bind, if_neg (UInt32.not_le.mpr inside)]
  rw [Fallible.lift_eq (a := fs.sfsFreemap.bit block) (t := fs)]
  · nofun
  · rw [h.whole.isset (UInt32.lt_of_lt_of_le inside h.covers)]
    rfl

theorem Fitting.bfree (h : Fitting fs) (inside : block < fs.sfsSb.sbNblocks) :
    sfsBfree block fs w ≠ .fault := by
  have below := UInt32.lt_of_lt_of_le inside h.covers
  unfold sfsBfree unmarkBlock
  cases marked : fs.sfsFreemap.bit block with
  | true =>
    rw [Fallible.lift_bind (a := ()) (t := fs.withFreemap (fs.sfsFreemap.unmark block))]
    · nofun
    · rw [h.whole.unmarks below marked]
      rfl
  | false =>
    rw [Fallible.bind_panic]
    · nofun
    · apply Fallible.lift_panic
      rw [h.whole.unmark_panics below marked]
      rfl

theorem sfsClearblock_cases (fs : SfsFs) (block : UInt32) (w : Replies) :
    sfsClearblock block fs w = .panic ∨ ∃ r v,
      sfsClearblock block fs w = .done (r, fs.withBlock block zeroSector, v) ∧ r = .ok () ∨
      ∃ err, sfsClearblock block fs w = .done (.error err, fs, v) := by
  by_cases inside : block < fs.sfsDevice.dBlocks
  · right
    cases answer : w.answer.1 with
    | none => exact ⟨_, _, .inl ⟨sfsWriteblock_ok inside answer, rfl⟩⟩
    | some err => exact ⟨.ok (), _, .inr ⟨err, sfsWriteblock_fails inside answer⟩⟩
  · exact .inl (sfsWriteblock_outside inside)

theorem Fitting.balloc (h : Fitting fs) (w : Replies) : sfsBalloc fs w ≠ .fault := by
  unfold sfsBalloc
  rcases h.whole.alloc with ⟨block, free, alloc⟩ | ⟨_, alloc⟩
  · let marked := (fs.withFreemap (fs.sfsFreemap.mark block)).freemapDirty
    rw [Fallible.lift_bind (a := some block) (t := fs.withFreemap (fs.sfsFreemap.mark block))]
    · dsimp only
      rw [Fallible.modify_bind, Fallible.get_bind]
      split
      · nofun
      · rename_i inside
        rcases sfsClearblock_cases marked block w with panics | ⟨_, v, ⟨clears, rfl⟩ | ⟨err, fails⟩⟩
        · rw [Fallible.bind_panic]
          · nofun
          · unfold Fallible.attempt
            rw [panics]
            rfl
        · rw [Fallible.attempt_bind clears]
          nofun
        · rw [Fallible.attempt_bind fails]
          dsimp only
          have below : block < fs.sfsFreemap.nbits := free.1
          have set : (fs.sfsFreemap.mark block).bit block = true := by simp [Bitmap.mark_bit]
          unfold unmarkBlock
          rw [Fallible.lift_bind (a := ()) (t := marked.withFreemap (marked.sfsFreemap.unmark block))]
          · nofun
          · have unmarks := h.whole.mark.unmarks (i := block) below set
            exact (congrArg (fun x => x >>= fun freemap => (pure ((), marked.withFreemap freemap))) unmarks)
    · rw [alloc]
      rfl
  · rw [Fallible.lift_bind (a := none) (t := fs)]
    · nofun
    · rw [alloc]
      rfl

theorem Fitting.writes (h : Fitting fs) {u : SfsFs} {v : Replies}
    (goes : sfsFreemapio .write fs w = .done (.ok (), u, v)) (b : UInt32) :
    u.sfsDevice.blocks b =
      if 2 ≤ b.toNat ∧ 512 * (b.toNat - 2) < fs.sfsFreemap.words.toNat then
        fs.sfsFreemap.v.slice ((b.toNat - 2) * 512) 512
      else fs.sfsDevice.blocks b := by
  unfold sfsFreemapio at goes
  rw [Fallible.get_bind] at goes
  rcases freemapio_write h.inside w with ⟨_, writes⟩ | ⟨_, err, t, v', fails⟩
  · rw [writes] at goes
    cases goes
    have words := h.words
    refine ite_congr (propext ?_) (fun _ => rfl) fun _ => rfl
    omega
  · rw [fails] at goes
    cases goes

theorem Fitting.reads (h : Fitting fs) {u : SfsFs} {v : Replies}
    (goes : sfsFreemapio .read fs w = .done (.ok (), u, v)) (k : Nat) :
    u.sfsFreemap.v k =
      if k < fs.sfsFreemap.words.toNat then
        fs.sfsDevice.blocks (2 + UInt32.ofNat (k / 512)) ⟨k % 512, byte_inside k⟩
      else fs.sfsFreemap.v k := by
  obtain ⟨_, rfl⟩ := (freemapio_read h.inside.room w).2 u v goes
  have words := h.words
  refine ite_congr (propext ?_) (fun _ => rfl) fun _ => rfl
  omega

theorem Fitting.transfers (h : Fitting fs) (rw : UioRw) (w : Replies) :
    sfsFreemapio rw fs w ≠ .fault := by
  cases rw with
  | read => exact (freemapio_read h.inside.room w).1
  | write =>
    rcases freemapio_write h.inside w with ⟨_, writes⟩ | ⟨_, err, t, v, fails⟩
    · unfold sfsFreemapio
      rw [Fallible.get_bind, writes]
      nofun
    · unfold sfsFreemapio
      rw [Fallible.get_bind, fails]
      nofun

theorem Fitting.fits (h : Fitting fs) : FreemapFits fs where
  bits i inside := by
    have below := UInt32.lt_of_lt_of_le inside h.covers
    exact ⟨below, h.whole.index below⟩
  writes t same w u v goes b := by
    rw [← same.words]
    exact (h.same same).writes goes b
  reads t same w u v goes k := by
    rw [← same.words]
    exact (h.same same).reads goes k
  transfers t same := (h.same same).transfers
  balloc t same := (h.same same).balloc
  bfree t same block inside w := (h.same same).bfree (same.nblocks ▸ inside)
  bused t same block inside w := (h.same same).bused (same.nblocks ▸ inside)

end Fits

/-- The freemap of a mounted volume has the size it needs just when rounding up the number of blocks
does not wrap. -/
theorem sfsDomount_freemap_iff {dev : Device} {mallocs : Mallocs} {sfsSb : Superblock} {w v : Replies}
    {fs : SfsFs} (mounts : sfsDomount dev mallocs sfsSb w = .done (.ok fs, v)) :
    FreemapFits fs ↔ (sectorWords (dev.blocks 0) 1).toNat ≤ 2 ^ 32 - 4096 := by
  unfold sfsDomount at mounts
  split at mounts
  · cases mounts
  · split at mounts
    · cases mounts
    · rename_i sfs created
      obtain ⟨⟨result, t, v'⟩, loads, same⟩ := Outcome.bind_done.mp mounts
      cases result with
      | error err => cases same
      | ok =>
        cases same
        obtain ⟨nblocks, bits, words, inside⟩ := loadVolume_ok loads
        have device : sfs.sfsDevice = dev := by
          unfold sfsFsCreate at created
          split at created
          · cases created
            rfl
          · cases created
        rw [device] at nblocks
        rw [← nblocks, ← freemapbits_covers]
        have blocks := freemapblocks_toNat t.sfsSb.sbNblocks
        constructor
        · intro fits
          rw [← UInt32.not_lt]
          intro small
          have below := (fits.bits _ small).1
          rw [bits] at below
          exact UInt32.lt_irrefl _ below
        · intro covers
          have whole : t.sfsFreemap.Whole := by
            constructor
            · rw [← UInt32.toNat_inj, words, UInt32.toNat_div, bits]
              simp only [UInt32.reduceToNat]
              omega
            · rw [← UInt32.toNat_inj, UInt32.toNat_mod, bits]
              simp only [UInt32.reduceToNat]
              omega
          exact Fitting.fits ⟨bits ▸ covers, whole, words, inside⟩

/-- All of `kmalloc` succeeds. -/
def plenty : Mallocs := ⟨true, true, true, true⟩

/-- A device of so many blocks that holds the superblock, and after it only ones. -/
def deviceOf (dBlocks nblocks : UInt32) : Device :=
  ⟨dBlocks, 512, fun b => if b = 0 then (superblockOf nblocks).toSector else fun _ => 0xff⟩

theorem sfsDomount_freemap_ten : ∃ fs v,
    sfsDomount (deviceOf 10 10) plenty (superblockOf 0) noErrors = .done (.ok fs, v) ∧
      (FreemapFits fs ↔ (sectorWords ((deviceOf 10 10).blocks 0) 1).toNat ≤ 2 ^ 32 - 4096) ∧
      FreemapFits fs := by
  have mounted : (sfsDomount (deviceOf 10 10) plenty (superblockOf 0) noErrors).passes
      (fun out => out.1.isOk) = true := by decide +kernel
  obtain ⟨⟨result, v⟩, mounts, ok⟩ := Outcome.passes_done mounted
  cases result with
  | error err => cases ok
  | ok fs =>
    have iff := sfsDomount_freemap_iff mounts
    exact ⟨fs, v, mounts, iff, iff.mpr (by decide +kernel)⟩

/-- A volume that says it has all block numbers is mounted with an empty bitmap, and the first look
at a block in use is past its end. -/
theorem sfsDomount_empty_freemap : ∃ fs v,
    sfsDomount (deviceOf 10 0xffffffff) plenty (superblockOf 0) noErrors = .done (.ok fs, v) ∧
      1 < fs.sfsSb.sbNblocks ∧ sfsBused 1 fs noErrors = .fault ∧ ¬ FreemapFits fs := by
  have mounted : (sfsDomount (deviceOf 10 0xffffffff) plenty (superblockOf 0) noErrors).passes
      (fun out => match out.1 with
        | .ok fs => decide (1 < fs.sfsSb.sbNblocks ∧ (match sfsBused 1 fs noErrors with
          | .fault => true
          | _ => false) = true)
        | .error _ => false) = true := by decide +kernel
  obtain ⟨⟨result, v⟩, mounts, test⟩ := Outcome.passes_done mounted
  cases result with
  | error err => cases test
  | ok fs =>
    obtain ⟨many, fault⟩ := of_decide_eq_true test
    have faults : sfsBused 1 fs noErrors = .fault := by
      split at fault
      · assumption
      · cases fault
    exact ⟨fs, v, mounts, many, faults,
      fun fits => fits.bused fs ⟨rfl, rfl, rfl, rfl⟩ 1 many noErrors faults⟩

end Os161.Sfs
