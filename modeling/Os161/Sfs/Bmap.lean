import Mathlib.Data.List.Nodup
import Os161.Sfs.Volume

/-!
# The blocks of a file

`sfs_bmap.c`: fifteen direct blocks in the inode, and one indirect block with the numbers of 128 more.
-/

namespace Os161.Sfs

namespace File

def setDirect (f : File) (i : Fin 15) (block : UInt32) : File :=
  f.withSv { f.sv with
    svI := { f.sv.svI with sfiDirect := Function.update f.sv.svI.sfiDirect i block }
    svDirty := true }

def setIndirect (f : File) (block : UInt32) : File :=
  f.withSv { f.sv with svI := { f.sv.svI with sfiIndirect := block }, svDirty := true }

def setSize (f : File) (size : UInt32) : File :=
  f.withSv { f.sv with svI := { f.sv.svI with sfiSize := size }, svDirty := true }

end File

/-- The end of `sfs_bmap`: a block that is handed back has to be in use. -/
def handBack (block : UInt32) : Fallible Errno Replies File UInt32 :=
  if block = 0 then return 0
  else do
    let used ← onFs (sfsBused block)
    if used then return block else .panic

def bmapDirect (fileblock : Fin 15) (doalloc : Bool) : Fallible Errno Replies File UInt32 := do
  let f ← .get
  let block := f.sv.svI.sfiDirect fileblock
  if block = 0 ∧ doalloc then do
    let block ← onFs sfsBalloc
    .modify fun f => f.setDirect fileblock block
    handBack block
  else handBack block

/-- `sfs_bmap` from where it has the indirect block in its buffer. -/
def bmapEntry (idblock : UInt32) (idbuf : Words) (idoff : Fin 128) (doalloc : Bool) :
    Fallible Errno Replies File UInt32 :=
  let block := idbuf idoff
  if block = 0 ∧ doalloc then do
    let block ← onFs sfsBalloc
    onFs (sfsWriteblock idblock (wordsSector (Function.update idbuf idoff block)))
    handBack block
  else handBack block

def bmapIndirect (idoff : Fin 128) (doalloc : Bool) : Fallible Errno Replies File UInt32 := do
  let f ← .get
  let idblock := f.sv.svI.sfiIndirect
  if idblock = 0 ∧ doalloc = false then return 0
  else if idblock = 0 then do
    let idblock ← onFs sfsBalloc
    .modify fun f => f.setIndirect idblock
    bmapEntry idblock (fun _ => 0) idoff doalloc
  else do
    let idbuf ← onFs (sfsReadblock idblock)
    bmapEntry idblock (sectorWords idbuf) idoff doalloc

def sfsBmap (fileblock : UInt32) (doalloc : Bool) : Fallible Errno Replies File UInt32 :=
  if direct : fileblock.toNat < 15 then bmapDirect ⟨fileblock.toNat, direct⟩ doalloc
  else
    let fileblock := fileblock - 15
    let idnum := fileblock / 128
    let idoff := fileblock % 128
    if 1 ≤ idnum then .fail .efbig
    else bmapIndirect ⟨idoff.toNat, by
      rw [UInt32.toNat_mod]
      exact Nat.mod_lt _ (by decide)⟩ doalloc

/-! ### The block tree -/

namespace File

/-- The numbers in the indirect block. -/
def entries (f : File) : Words := sectorWords (f.fs.sfsDevice.blocks f.sv.svI.sfiIndirect)

/-- The disk block of a file block, or 0 for a hole. -/
def blockAt (f : File) (k : Nat) : UInt32 :=
  if direct : k < 15 then f.sv.svI.sfiDirect ⟨k, direct⟩
  else if entry : k < 143 then
    if f.sv.svI.sfiIndirect = 0 then 0 else f.entries ⟨k - 15, by omega⟩
  else 0

/-- The blocks of a file are its own: they are in use, and each has one place in the file. -/
structure Tree (f : File) : Prop where
  sound : f.fs.Sound
  inside : ∀ k, f.blockAt k ≠ 0 → f.blockAt k < f.fs.sfsSb.sbNblocks
  marked : ∀ k, f.blockAt k ≠ 0 → f.fs.sfsFreemap.bit (f.blockAt k) = true
  distinct : ∀ j k, f.blockAt k ≠ 0 → f.blockAt j = f.blockAt k → j = k
  indirectInside : f.sv.svI.sfiIndirect ≠ 0 → f.sv.svI.sfiIndirect < f.fs.sfsSb.sbNblocks
  indirectMarked : f.sv.svI.sfiIndirect ≠ 0 → f.fs.sfsFreemap.bit f.sv.svI.sfiIndirect = true
  apart : ∀ k, f.blockAt k ≠ 0 → f.blockAt k ≠ f.sv.svI.sfiIndirect

theorem blockAt_direct (f : File) (i : Fin 15) : f.blockAt i = f.sv.svI.sfiDirect i := by
  unfold blockAt
  rw [dif_pos i.isLt]

theorem blockAt_entry {f : File} (there : f.sv.svI.sfiIndirect ≠ 0) (j : Fin 128) :
    f.blockAt (15 + j) = f.entries j := by
  have number : (⟨15 + j.val - 15, by omega⟩ : Fin 128) = j := by
    apply Fin.ext
    change 15 + j.val - 15 = j
    omega
  unfold blockAt
  rw [dif_neg (by omega), dif_pos (by omega), if_neg there, number]

theorem blockAt_hole {f : File} (absent : f.sv.svI.sfiIndirect = 0) {k : Nat} (entry : 15 ≤ k) :
    f.blockAt k = 0 := by
  unfold blockAt
  rw [dif_neg (by omega)]
  simp [absent]

theorem blockAt_beyond (f : File) {k : Nat} (beyond : 143 ≤ k) : f.blockAt k = 0 := by
  unfold blockAt
  rw [dif_neg (by omega), dif_neg (by omega)]

theorem setSize_blockAt (f : File) (size : UInt32) (k : Nat) :
    (f.setSize size).blockAt k = f.blockAt k := rfl

/-- Where a block number can come from. -/
theorem place_cases (k : Nat) :
    (∃ i : Fin 15, k = i) ∨ (∃ j : Fin 128, k = 15 + j) ∨ 143 ≤ k := by
  by_cases direct : k < 15
  · exact .inl ⟨⟨k, direct⟩, rfl⟩
  · by_cases entry : k < 143
    · refine .inr (.inl ⟨⟨k - 15, by omega⟩, ?_⟩)
      change k = 15 + (k - 15)
      omega
    · exact .inr (.inr (by omega))

end File

/-! ### A file that gets a block -/

namespace File

def gainDirect (f : File) (i : Fin 15) (block : UInt32) : File :=
  (f.withFs (f.fs.allocated block)).setDirect i block

def gainIndirect (f : File) (block : UInt32) : File :=
  (f.withFs (f.fs.allocated block)).setIndirect block

/-- The number is in the indirect block, and that is on the device. -/
def gainEntry (f : File) (j : Fin 128) (block : UInt32) : File :=
  f.withFs ((f.fs.allocated block).withBlock f.sv.svI.sfiIndirect
    (wordsSector (Function.update f.entries j block)))

def gain (f : File) (k : Nat) (block : UInt32) : File :=
  if direct : k < 15 then f.gainDirect ⟨k, direct⟩ block
  else if entry : k < 143 then f.gainEntry ⟨k - 15, by omega⟩ block
  else f

/-- What is in a block of the file. -/
def content (f : File) (k : Nat) : Sector :=
  if f.blockAt k = 0 then zeroSector else f.fs.sfsDevice.blocks (f.blockAt k)

end File

section Gain

variable {f g : File} {block x : UInt32} {k : Nat}

@[simp] theorem SfsFs.allocated_bit {fs : SfsFs} :
    (fs.allocated block).sfsFreemap.bit x = (fs.sfsFreemap.bit x || decide (block = x)) :=
  Bitmap.mark_bit

theorem SfsFs.allocated_self {fs : SfsFs} : (fs.allocated block).sfsDevice.blocks block = zeroSector :=
  SfsFs.withBlock_self ..

theorem SfsFs.allocated_other {fs : SfsFs} (other : x ≠ block) :
    (fs.allocated block).sfsDevice.blocks x = fs.sfsDevice.blocks x :=
  SfsFs.withBlock_other _ other _

theorem SfsFs.Sound.allocated {fs : SfsFs} (ok : fs.Sound) (block : UInt32) : (fs.allocated block).Sound where
  whole := ok.whole.mark
  covers := ok.covers
  device := ok.device
  beyond i past counted := by rw [SfsFs.allocated_bit, ok.beyond i past counted, Bool.true_or]
  super := by rw [SfsFs.allocated_bit, ok.super, Bool.true_or]

theorem SfsFs.Sound.withBlock {fs : SfsFs} (ok : fs.Sound) (data : Sector) : (fs.withBlock block data).Sound :=
  ⟨ok.whole, ok.covers, ok.device, ok.beyond, ok.super⟩

theorem SfsFs.Sound.dirty {fs : SfsFs} (ok : fs.Sound) : fs.freemapDirty.Sound :=
  ⟨ok.whole, ok.covers, ok.device, ok.beyond, ok.super⟩

/-- A fresh block is none of the file's. -/
theorem File.Tree.fresh (h : f.Tree) (fresh : f.fs.Fresh block) (k : Nat) : f.blockAt k ≠ block := by
  rintro rfl
  have marked := h.marked k fresh.nonzero
  rw [fresh.free] at marked
  cases marked

theorem File.Tree.fresh_indirect (h : f.Tree) (fresh : f.fs.Fresh block) : f.sv.svI.sfiIndirect ≠ block := by
  rintro rfl
  have marked := h.indirectMarked fresh.nonzero
  rw [fresh.free] at marked
  cases marked

/-- The inode refers to one more block, or the indirect block does. -/
structure Gains (f g : File) (block : UInt32) : Prop where
  sound : g.fs.Sound
  sb : g.fs.sfsSb = f.fs.sfsSb
  bits : ∀ x, g.fs.sfsFreemap.bit x = (f.fs.sfsFreemap.bit x || decide (block = x))

/-- The tree is still one when the new block has one place in it. -/
theorem File.Tree.gains (h : f.Tree) (fresh : f.fs.Fresh block) (gains : Gains f g block)
    (places : (g.sv.svI.sfiIndirect = f.sv.svI.sfiIndirect ∧
        ∃ k, ∀ j, g.blockAt j = if j = k then block else f.blockAt j) ∨
      f.sv.svI.sfiIndirect = 0 ∧ g.sv.svI.sfiIndirect = block ∧ ∀ j, g.blockAt j = f.blockAt j) :
    g.Tree := by
  have marked : g.fs.sfsFreemap.bit block = true := by
    rw [gains.bits, decide_eq_true rfl, Bool.or_true]
  have stays : ∀ {x}, f.fs.sfsFreemap.bit x = true → g.fs.sfsFreemap.bit x = true := by
    intro x marked
    rw [gains.bits, marked, Bool.true_or]
  rcases places with ⟨indirect, k, places⟩ | ⟨_, indirect, places⟩
  · have new : g.blockAt k = block := by rw [places, if_pos rfl]
    have old : ∀ {j}, j ≠ k → g.blockAt j = f.blockAt j := fun other => by rw [places, if_neg other]
    refine ⟨gains.sound, fun j mapped => ?_, fun j mapped => ?_, fun i j mapped same => ?_,
      fun there => ?_, fun there => ?_, fun j mapped => ?_⟩
    · rw [gains.sb]
      by_cases at_ : j = k
      · rw [at_, new]
        exact fresh.inside
      · rw [old at_] at mapped ⊢
        exact h.inside j mapped
    · by_cases at_ : j = k
      · rw [at_, new]
        exact marked
      · rw [old at_] at mapped ⊢
        exact stays (h.marked j mapped)
    · by_cases first : i = k <;> by_cases second : j = k
      · rw [first, second]
      · rw [first, new, old second] at same
        exact (h.fresh fresh j same.symm).elim
      · rw [second, new, old first] at same
        exact (h.fresh fresh i same).elim
      · rw [old first, old second] at same
        rw [old second] at mapped
        exact h.distinct i j mapped same
    · rw [gains.sb, indirect]
      exact h.indirectInside (indirect ▸ there)
    · rw [indirect]
      exact stays (h.indirectMarked (indirect ▸ there))
    · rw [indirect]
      by_cases at_ : j = k
      · rw [at_, new]
        exact (h.fresh_indirect fresh).symm
      · rw [old at_] at mapped ⊢
        exact h.apart j mapped
  · refine ⟨gains.sound, fun j mapped => ?_, fun j mapped => ?_, fun i j mapped same => ?_,
      fun _ => ?_, fun _ => ?_, fun j mapped => ?_⟩
    · rw [places] at mapped ⊢
      rw [gains.sb]
      exact h.inside j mapped
    · rw [places] at mapped ⊢
      exact stays (h.marked j mapped)
    · rw [places, places] at same
      rw [places] at mapped
      exact h.distinct i j mapped same
    · rw [gains.sb, indirect]
      exact fresh.inside
    · rw [indirect]
      exact marked
    · rw [places, indirect]
      exact h.fresh fresh j

theorem gainDirect_gains (h : f.Tree) (i : Fin 15) : Gains f (f.gainDirect i block) block :=
  ⟨h.sound.allocated block, rfl, fun _ => SfsFs.allocated_bit⟩

theorem gainIndirect_gains (h : f.Tree) : Gains f (f.gainIndirect block) block :=
  ⟨h.sound.allocated block, rfl, fun _ => SfsFs.allocated_bit⟩

theorem gainEntry_gains (h : f.Tree) (j : Fin 128) : Gains f (f.gainEntry j block) block :=
  ⟨(h.sound.allocated block).withBlock _, rfl, fun _ => SfsFs.allocated_bit⟩

/-- The entries of a file are in its indirect block. -/
theorem File.blockAt_congr (same : g.sv.svI.sfiIndirect = f.sv.svI.sfiIndirect)
    (block : g.fs.sfsDevice.blocks f.sv.svI.sfiIndirect = f.fs.sfsDevice.blocks f.sv.svI.sfiIndirect)
    {k : Nat} (entry : 15 ≤ k) : g.blockAt k = f.blockAt k := by
  have other : ¬ k < 15 := by omega
  unfold File.blockAt File.entries
  rw [dif_neg other, dif_neg other, same, block]

theorem gainDirect_blockAt (h : f.Tree) (fresh : f.fs.Fresh block) (i : Fin 15) (j : Nat) :
    (f.gainDirect i block).blockAt j = if j = i then block else f.blockAt j := by
  by_cases direct : j < 15
  · have place := File.blockAt_direct (f.gainDirect i block) ⟨j, direct⟩
    have inode : (f.gainDirect i block).sv.svI.sfiDirect = Function.update f.sv.svI.sfiDirect i block := rfl
    rw [inode] at place
    refine place.trans ?_
    by_cases at_ : j = i
    · have same : (⟨j, direct⟩ : Fin 15) = i := Fin.ext at_
      rw [same, Function.update_self, if_pos at_]
    · have other : (⟨j, direct⟩ : Fin 15) ≠ i := fun same => at_ (congrArg Fin.val same)
      rw [Function.update_of_ne other, if_neg at_]
      exact (f.blockAt_direct ⟨j, direct⟩).symm
  · have other : j ≠ i := by omega
    rw [if_neg other]
    exact @File.blockAt_congr f (f.gainDirect i block) rfl
      (SfsFs.allocated_other (h.fresh_indirect fresh)) j (by omega)

theorem gainEntry_blockAt (there : f.sv.svI.sfiIndirect ≠ 0) (i : Fin 128) (j : Nat) :
    (f.gainEntry i block).blockAt j = if j = 15 + i then block else f.blockAt j := by
  obtain ⟨d, rfl⟩ | ⟨e, rfl⟩ | beyond := File.place_cases j
  · have other : d.val ≠ 15 + i := by omega
    rw [if_neg other, File.blockAt_direct, File.blockAt_direct]
    rfl
  · have place := @File.blockAt_entry (f.gainEntry i block) there e
    have entries : (f.gainEntry i block).entries = Function.update f.entries i block := by
      unfold File.entries File.gainEntry File.withFs
      dsimp only
      rw [SfsFs.withBlock_self, sectorWords_wordsSector]
      rfl
    rw [place, entries]
    by_cases at_ : e = i
    · rw [at_, Function.update_self, if_pos rfl]
    · have other : 15 + e.val ≠ 15 + i := by omega
      rw [Function.update_of_ne at_, if_neg other, File.blockAt_entry there]
  · have other : j ≠ 15 + i := by omega
    rw [if_neg other, File.blockAt_beyond _ beyond, File.blockAt_beyond _ beyond]

theorem gainIndirect_blockAt (absent : f.sv.svI.sfiIndirect = 0) (fresh : f.fs.Fresh block) (j : Nat) :
    (f.gainIndirect block).blockAt j = f.blockAt j := by
  obtain ⟨d, rfl⟩ | ⟨e, rfl⟩ | beyond := File.place_cases j
  · rw [File.blockAt_direct, File.blockAt_direct]
    rfl
  · have place := @File.blockAt_entry (f.gainIndirect block) fresh.nonzero e
    have cleared : (f.gainIndirect block).fs.sfsDevice.blocks block = zeroSector := SfsFs.allocated_self
    have entries : (f.gainIndirect block).entries = fun _ => 0 :=
      (congrArg sectorWords cleared).trans sectorWords_zero
    rw [place, entries, File.blockAt_hole absent (by omega)]
  · rw [File.blockAt_beyond _ beyond, File.blockAt_beyond _ beyond]

theorem File.Tree.gainIndirect (h : f.Tree) (fresh : f.fs.Fresh block) (absent : f.sv.svI.sfiIndirect = 0) :
    (f.gainIndirect block).Tree :=
  h.gains fresh (gainIndirect_gains h) (.inr ⟨absent, rfl, gainIndirect_blockAt absent fresh⟩)

/-- The file can get a block at this place. -/
structure File.Gap (f : File) (k : Nat) : Prop where
  inside : k < 143
  indirect : 15 ≤ k → f.sv.svI.sfiIndirect ≠ 0
  hole : f.blockAt k = 0

theorem gain_blockAt (h : f.Tree) (fresh : f.fs.Fresh block) (gap : f.Gap k) (j : Nat) :
    (f.gain k block).blockAt j = if j = k then block else f.blockAt j := by
  unfold File.gain
  by_cases direct : k < 15
  · rw [dif_pos direct]
    exact gainDirect_blockAt h fresh ⟨k, direct⟩ j
  · rw [dif_neg direct, dif_pos gap.inside, gainEntry_blockAt (gap.indirect (by omega))]
    have place : 15 + (k - 15) = k := by omega
    rw [place]

theorem gain_gains (h : f.Tree) (gap : f.Gap k) : Gains f (f.gain k block) block := by
  unfold File.gain
  by_cases direct : k < 15
  · rw [dif_pos direct]
    exact gainDirect_gains h ⟨k, direct⟩
  · rw [dif_neg direct, dif_pos gap.inside]
    exact gainEntry_gains h _

theorem gain_indirect : (f.gain k block).sv.svI.sfiIndirect = f.sv.svI.sfiIndirect := by
  unfold File.gain
  split
  · rfl
  · split <;> rfl

theorem File.Tree.gain (h : f.Tree) (fresh : f.fs.Fresh block) (gap : f.Gap k) : (f.gain k block).Tree :=
  h.gains fresh (gain_gains h gap) (.inl ⟨gain_indirect, k, gain_blockAt h fresh gap⟩)

theorem gain_block (x : UInt32) (other : x ≠ block) (apart : x ≠ f.sv.svI.sfiIndirect) :
    (f.gain k block).fs.sfsDevice.blocks x = f.fs.sfsDevice.blocks x := by
  unfold File.gain
  split
  · exact SfsFs.allocated_other other
  · split
    · exact (SfsFs.withBlock_other _ apart _).trans (SfsFs.allocated_other other)
    · rfl

theorem gain_self (apart : f.sv.svI.sfiIndirect ≠ block) (gap : f.Gap k) :
    (f.gain k block).fs.sfsDevice.blocks block = zeroSector := by
  unfold File.gain
  split
  · exact SfsFs.allocated_self
  · rw [dif_pos gap.inside]
    exact (SfsFs.withBlock_other _ apart.symm _).trans SfsFs.allocated_self

/-- A new block reads as the hole it fills. -/
theorem gain_content (h : f.Tree) (fresh : f.fs.Fresh block) (gap : f.Gap k) (j : Nat) :
    (f.gain k block).content j = f.content j := by
  unfold File.content
  rw [gain_blockAt h fresh gap]
  by_cases at_ : j = k
  · rw [if_pos at_, if_neg fresh.nonzero, at_, if_pos gap.hole]
    exact gain_self (h.fresh_indirect fresh) gap
  · rw [if_neg at_]
    by_cases hole : f.blockAt j = 0
    · rw [if_pos hole, if_pos hole]
    · rw [if_neg hole, if_neg hole]
      exact gain_block _ (h.fresh fresh j) (h.apart j hole)

theorem gainIndirect_content (h : f.Tree) (fresh : f.fs.Fresh block) (absent : f.sv.svI.sfiIndirect = 0)
    (j : Nat) : (f.gainIndirect block).content j = f.content j := by
  unfold File.content
  rw [gainIndirect_blockAt absent fresh]
  by_cases hole : f.blockAt j = 0
  · rw [if_pos hole, if_pos hole]
  · rw [if_neg hole, if_neg hole]
    exact SfsFs.allocated_other (h.fresh fresh j)

end Gain

/-! ### Every way through `sfs_bmap` -/

/-- `sfs_balloc` has no block to give. -/
inductive Refused (f : File) (w : Replies) : Errno → File → Nat → Prop
  | full (full : ∀ i, i < f.fs.sfsSb.sbNblocks → f.fs.sfsFreemap.bit i = true) : Refused f w .enospc f 0
  | uncleared {block : UInt32} {err : { err : Errno // err ≠ .einval }} (fresh : f.fs.Fresh block)
      (fails : w.nth 0 = some err) : Refused f w err (f.withFs f.fs.freemapDirty) 1

/-- The file when the indirect block is in the buffer, if it is needed, and the number of block
operations that took. -/
inductive AtHand (f : File) (w : Replies) (k : Nat) : File → Nat → Prop
  | direct (direct : k < 15) : AtHand f w k f 0
  | read (entry : 15 ≤ k) (there : f.sv.svI.sfiIndirect ≠ 0) (read : w.nth 0 = none) : AtHand f w k f 1
  | made {block : UInt32} (entry : 15 ≤ k) (absent : f.sv.svI.sfiIndirect = 0) (fresh : f.fs.Fresh block)
      (cleared : w.nth 0 = none) : AtHand f w k (f.gainIndirect block) 1

inductive BmapExit (f : File) (w : Replies) (k : Nat) (doalloc : Bool) :
    Except Errno UInt32 → File → Nat → Prop
  | tooBig (beyond : 143 ≤ k) : BmapExit f w k doalloc (.error .efbig) f 0
  | unread {err : { err : Errno // err ≠ .einval }} (entry : 15 ≤ k) (inside : k < 143)
      (there : f.sv.svI.sfiIndirect ≠ 0) (fails : w.nth 0 = some err) :
      BmapExit f w k doalloc (.error err) f 1
  | nothing (entry : 15 ≤ k) (inside : k < 143) (absent : f.sv.svI.sfiIndirect = 0)
      (look : doalloc = false) : BmapExit f w k doalloc (.ok 0) f 0
  | unmade {err : Errno} {g : File} {n : Nat} (entry : 15 ≤ k) (inside : k < 143)
      (absent : f.sv.svI.sfiIndirect = 0) (alloc : doalloc = true) (refused : Refused f w err g n) :
      BmapExit f w k doalloc (.error err) g n
  | found {n : Nat} (inside : k < 143) (hand : AtHand f w k f n) (enough : f.blockAt k ≠ 0 ∨ doalloc = false) :
      BmapExit f w k doalloc (.ok (f.blockAt k)) f n
  | unallocated {err : Errno} {g g' : File} {n m : Nat} (inside : k < 143) (hole : f.blockAt k = 0)
      (alloc : doalloc = true) (hand : AtHand f w k g n) (refused : Refused g (w.after n) err g' m) :
      BmapExit f w k doalloc (.error err) g' (n + m)
  | lost {err : { err : Errno // err ≠ .einval }} {g : File} {n : Nat} {block : UInt32} (entry : 15 ≤ k)
      (inside : k < 143) (hole : f.blockAt k = 0) (alloc : doalloc = true) (hand : AtHand f w k g n)
      (fresh : g.fs.Fresh block) (cleared : w.nth n = none) (fails : w.nth (n + 1) = some err) :
      BmapExit f w k doalloc (.error err) (g.withFs (g.fs.allocated block)) (n + 2)
  | gained {g : File} {n m : Nat} {block : UInt32} (inside : k < 143) (hole : f.blockAt k = 0)
      (alloc : doalloc = true) (hand : AtHand f w k g n) (fresh : g.fs.Fresh block)
      (cleared : w.nth n = none) (written : 15 ≤ k → w.nth (n + 1) = none) :
      BmapExit f w k doalloc (.ok block) (g.gain k block) m

section Bmap

variable {f g : File} {w : Replies} {k n : Nat} {block : UInt32} {doalloc : Bool}

theorem AtHand.tree (h : f.Tree) (hand : AtHand f w k g n) : g.Tree := by
  cases hand with
  | direct => exact h
  | read => exact h
  | made _ absent fresh => exact h.gainIndirect fresh absent

theorem AtHand.blockAt (hand : AtHand f w k g n) (j : Nat) : g.blockAt j = f.blockAt j := by
  cases hand with
  | direct => rfl
  | read => rfl
  | made _ absent fresh => exact gainIndirect_blockAt absent fresh j

theorem AtHand.gap (hand : AtHand f w k g n) (inside : k < 143) (hole : f.blockAt k = 0) : g.Gap k := by
  refine ⟨inside, fun entry => ?_, (hand.blockAt k).trans hole⟩
  cases hand with
  | direct direct => omega
  | read _ there => exact there
  | made _ _ fresh => exact fresh.nonzero

theorem AtHand.content (h : f.Tree) (hand : AtHand f w k g n) (j : Nat) : g.content j = f.content j := by
  cases hand with
  | direct => rfl
  | read => rfl
  | made _ absent fresh => exact gainIndirect_content h fresh absent j

theorem Refused.tree {err : Errno} (h : f.Tree) (refused : Refused f w err g n) :
    g.Tree ∧ ∀ j, g.content j = f.content j := by
  cases refused with
  | full => exact ⟨h, fun _ => rfl⟩
  | uncleared => exact ⟨⟨h.sound.dirty, h.inside, h.marked, h.distinct, h.indirectInside, h.indirectMarked,
      h.apart⟩, fun _ => rfl⟩

theorem leak_blockAt (h : f.Tree) (fresh : f.fs.Fresh block) (j : Nat) :
    (f.withFs (f.fs.allocated block)).blockAt j = f.blockAt j := by
  by_cases direct : j < 15
  · exact (File.blockAt_direct _ ⟨j, direct⟩).trans (f.blockAt_direct ⟨j, direct⟩).symm
  · exact @File.blockAt_congr f (f.withFs (f.fs.allocated block)) rfl
      (SfsFs.allocated_other (h.fresh_indirect fresh)) j (by omega)

/-- A block that is marked and does not get into the file does it no harm. -/
theorem File.Tree.leak (h : f.Tree) (fresh : f.fs.Fresh block) :
    (f.withFs (f.fs.allocated block)).Tree ∧ ∀ j, (f.withFs (f.fs.allocated block)).content j = f.content j := by
  have places := leak_blockAt h fresh
  have stays : ∀ {x}, f.fs.sfsFreemap.bit x = true → (f.fs.allocated block).sfsFreemap.bit x = true := by
    intro x marked
    rw [SfsFs.allocated_bit, marked, Bool.true_or]
  refine ⟨⟨h.sound.allocated block, fun k mapped => ?_, fun k mapped => ?_, fun i k mapped same => ?_,
    h.indirectInside, fun there => stays (h.indirectMarked there), fun k mapped => ?_⟩, fun j => ?_⟩
  · rw [places] at mapped ⊢
    exact h.inside k mapped
  · rw [places] at mapped ⊢
    exact stays (h.marked k mapped)
  · rw [places] at mapped same
    rw [places] at same
    exact h.distinct i k mapped same
  · rw [places] at mapped ⊢
    exact h.apart k mapped
  · unfold File.content
    rw [places]
    by_cases hole : f.blockAt j = 0
    · rw [if_pos hole, if_pos hole]
    · rw [if_neg hole, if_neg hole]
      exact SfsFs.allocated_other (h.fresh fresh j)

/-- `sfs_balloc` for a file. -/
theorem File.Tree.balloc (h : f.Tree) (w : Replies) :
    (∃ err g n, Refused f w err g n ∧ onFs sfsBalloc f w = .done (.error err, g, w.after n)) ∨
    ∃ block, f.fs.Fresh block ∧ w.nth 0 = none ∧
      onFs sfsBalloc f w = .done (.ok block, f.withFs (f.fs.allocated block), w.after 1) := by
  rcases h.sound.balloc w with ⟨full, goes⟩ | ⟨block, fresh, ⟨cleared, goes⟩ | ⟨err, fails, goes⟩⟩
  · exact .inl ⟨_, _, 0, .full full, onFs_eq goes⟩
  · exact .inr ⟨block, fresh, cleared, onFs_eq goes⟩
  · exact .inl ⟨_, _, 1, .uncleared fresh fails, onFs_eq goes⟩

theorem handBack_eq (sound : f.fs.Sound) (inside : block < f.fs.sfsSb.sbNblocks)
    (marked : f.fs.sfsFreemap.bit block = true) : handBack block f w = .done (.ok block, f, w) := by
  unfold handBack
  by_cases zero : block = 0
  · rw [if_pos zero, zero]
    rfl
  · rw [if_neg zero]
    refine (Fallible.bind_ok (onFs_eq (sound.bused inside))).trans ?_
    rw [marked]
    rfl

theorem File.Tree.handBack (h : f.Tree) (k : Nat) (w : Replies) :
    handBack (f.blockAt k) f w = .done (.ok (f.blockAt k), f, w) := by
  by_cases hole : f.blockAt k = 0
  · unfold Sfs.handBack
    rw [if_pos hole, hole]
    rfl
  · exact handBack_eq h.sound (h.inside k hole) (h.marked k hole)

/-- A block that the file just got is in use. -/
theorem File.Tree.handBack_gain (h : f.Tree) (fresh : f.fs.Fresh block) (gap : f.Gap k) (w : Replies) :
    Sfs.handBack block (f.gain k block) w = .done (.ok block, f.gain k block, w) := by
  have new : (f.gain k block).blockAt k = block := by rw [gain_blockAt h fresh gap, if_pos rfl]
  have back := (h.gain fresh gap).handBack k w
  rwa [new] at back

theorem bmapEntry_exit (h : f.Tree) (hand : AtHand f w k g n) (j : Fin 128) (place : k = 15 + j)
    (there : g.sv.svI.sfiIndirect ≠ 0) (only : f.blockAt k ≠ 0 ∨ doalloc = false → g = f) :
    ∃ r g' m, bmapEntry g.sv.svI.sfiIndirect g.entries j doalloc g (w.after n) = .done (r, g', w.after m) ∧
      BmapExit f w k doalloc r g' m := by
  have tree := hand.tree h
  have inside : k < 143 := by omega
  have entry : g.entries j = f.blockAt k := by rw [← File.blockAt_entry there, ← place, hand.blockAt]
  unfold bmapEntry
  rw [entry]
  by_cases alloc : f.blockAt k = 0 ∧ doalloc = true
  · obtain ⟨hole, alloc⟩ := alloc
    have gap := hand.gap inside hole
    rw [if_pos ⟨hole, alloc⟩]
    rcases tree.balloc (w.after n) with ⟨err, g', m, refused, goes⟩ | ⟨block, fresh, cleared, goes⟩
    · refine ⟨_, _, n + m, ?_, .unallocated inside hole alloc hand refused⟩
      rw [Fallible.bind_error goes, Replies.after_add]
    · rw [Fallible.bind_ok goes, ← Replies.after_add]
      rw [← Replies.nth_add] at cleared
      have room : g.sv.svI.sfiIndirect < (g.withFs (g.fs.allocated block)).fs.sfsDevice.dBlocks :=
        UInt32.lt_of_lt_of_le (tree.indirectInside there) tree.sound.device
      have gain : g.gain k block = g.gainEntry j block := by
        have number : (⟨k - 15, by omega⟩ : Fin 128) = j := Fin.ext (by
          change k - 15 = j
          omega)
        unfold File.gain
        rw [dif_neg (by omega), dif_pos inside, number]
      cases write : w.nth (n + 1) with
      | some err =>
        refine ⟨_, _, n + 2, ?_, .lost (by omega) inside hole alloc hand fresh cleared write⟩
        rw [Fallible.bind_error (onFs_eq (sfsWriteblock_fails room write))]
        rw [Replies.after_add w n 2]
        rw [Replies.after_add w n 1]
        rfl
      | none =>
        refine ⟨_, _, n + 2, ?_, .gained inside hole alloc hand fresh cleared fun _ => write⟩
        rw [Fallible.bind_ok (onFs_eq (sfsWriteblock_ok room write))]
        have back := tree.handBack_gain fresh gap (w.after (n + 2))
        rw [gain] at back ⊢
        rw [Replies.after_add w n 2] at back ⊢
        rw [Replies.after_add w n 1]
        exact back
  · have enough : f.blockAt k ≠ 0 ∨ doalloc = false := by
      rwa [not_and_or, Bool.not_eq_true] at alloc
    obtain rfl := only enough
    rw [if_neg alloc]
    exact ⟨_, _, n, h.handBack k _, .found inside hand enough⟩

theorem bmapDirect_exit (h : f.Tree) (i : Fin 15) (doalloc : Bool) (w : Replies) :
    ∃ r g m, bmapDirect i doalloc f w = .done (r, g, w.after m) ∧ BmapExit f w i doalloc r g m := by
  have inside : i.val < 143 := by omega
  have hand : AtHand f w i f 0 := .direct i.isLt
  unfold bmapDirect
  rw [Fallible.get_bind]
  rw [← f.blockAt_direct]
  by_cases alloc : f.blockAt i = 0 ∧ doalloc = true
  · obtain ⟨hole, alloc⟩ := alloc
    have gap := hand.gap inside hole
    rw [if_pos ⟨hole, alloc⟩]
    rcases h.balloc w with ⟨err, g', m, refused, goes⟩ | ⟨block, fresh, cleared, goes⟩
    · refine ⟨_, _, 0 + m, ?_, .unallocated inside hole alloc hand refused⟩
      rw [Fallible.bind_error goes, Nat.zero_add]
    · have gain : f.gain i block = f.gainDirect i block := by
        unfold File.gain
        rw [dif_pos i.isLt]
      have back := h.handBack_gain fresh gap (w.after 1)
      rw [gain] at back
      refine ⟨_, _, 1, ?_, .gained inside hole alloc hand fresh cleared fun entry => by omega⟩
      rw [Fallible.bind_ok goes, gain]
      exact back
  · have enough : f.blockAt i ≠ 0 ∨ doalloc = false := by
      rwa [not_and_or, Bool.not_eq_true] at alloc
    rw [if_neg alloc]
    exact ⟨_, _, 0, h.handBack i w, .found inside hand enough⟩

theorem bmapIndirect_exit (h : f.Tree) (j : Fin 128) (doalloc : Bool) (w : Replies) (place : k = 15 + j) :
    ∃ r g m, bmapIndirect j doalloc f w = .done (r, g, w.after m) ∧ BmapExit f w k doalloc r g m := by
  have entry : 15 ≤ k := by omega
  have inside : k < 143 := by omega
  unfold bmapIndirect
  rw [Fallible.get_bind]
  by_cases absent : f.sv.svI.sfiIndirect = 0
  · cases alloc : doalloc with
    | false =>
      rw [if_pos ⟨absent, rfl⟩]
      exact ⟨_, _, 0, rfl, .nothing entry inside absent rfl⟩
    | true =>
      have allocates : ¬ (f.sv.svI.sfiIndirect = 0 ∧ true = false) := fun both => nomatch both.2
      rw [if_neg allocates, if_pos absent]
      rcases h.balloc w with ⟨err, g', m, refused, goes⟩ | ⟨block, fresh, cleared, goes⟩
      · exact ⟨_, _, m, Fallible.bind_error goes, .unmade entry inside absent rfl refused⟩
      · have hand : AtHand f w k (f.gainIndirect block) 1 := .made entry absent fresh cleared
        have cleared : (f.gainIndirect block).fs.sfsDevice.blocks block = zeroSector := SfsFs.allocated_self
        have entries : (f.gainIndirect block).entries = fun _ => 0 :=
          (congrArg sectorWords cleared).trans sectorWords_zero
        have hole : f.blockAt k = 0 := File.blockAt_hole absent entry
        obtain ⟨r, g, m, goes', exits⟩ := @bmapEntry_exit f _ w k 1 true h hand j place fresh.nonzero
          fun enough => by simp [hole] at enough
        rw [entries] at goes'
        exact ⟨r, g, m, (Fallible.bind_ok goes).trans goes', exits⟩
  · rw [if_neg fun both => absent both.1, if_neg absent]
    have room : f.sv.svI.sfiIndirect < f.fs.sfsDevice.dBlocks :=
      UInt32.lt_of_lt_of_le (h.indirectInside absent) h.sound.device
    cases read : w.nth 0 with
    | some err =>
      refine ⟨_, _, 1, Fallible.bind_error (onFs_eq (sfsReadblock_fails room read)), ?_⟩
      exact .unread entry inside absent read
    | none =>
      have hand : AtHand f w k f 1 := .read entry absent read
      obtain ⟨r, g, m, goes, exits⟩ := @bmapEntry_exit f f w k 1 doalloc h hand j place absent fun _ => rfl
      exact ⟨r, g, m, (Fallible.bind_ok (onFs_eq (sfsReadblock_ok room read))).trans goes, exits⟩

theorem File.Tree.bmap_exit (h : f.Tree) (fileblock : UInt32) (doalloc : Bool) (w : Replies) :
    ∃ r g m, sfsBmap fileblock doalloc f w = .done (r, g, w.after m) ∧
      BmapExit f w fileblock.toNat doalloc r g m := by
  unfold sfsBmap
  by_cases direct : fileblock.toNat < 15
  · rw [dif_pos direct]
    exact bmapDirect_exit h ⟨fileblock.toNat, direct⟩ doalloc w
  · have less : (fileblock - 15).toNat = fileblock.toNat - 15 := by
      apply UInt32.toNat_sub_of_le
      rw [UInt32.le_iff_toNat_le]
      exact Nat.not_lt.mp direct
    have idnum : 1 ≤ (fileblock - 15) / 128 ↔ 143 ≤ fileblock.toNat := by
      rw [UInt32.le_iff_toNat_le, UInt32.toNat_div, less]
      simp only [UInt32.reduceToNat]
      omega
    rw [dif_neg direct]
    by_cases beyond : 143 ≤ fileblock.toNat
    · rw [if_pos (idnum.mpr beyond)]
      exact ⟨_, _, 0, rfl, .tooBig beyond⟩
    · rw [if_neg fun big => beyond (idnum.mp big)]
      apply bmapIndirect_exit h
      change fileblock.toNat = 15 + ((fileblock - 15) % 128).toNat
      rw [UInt32.toNat_mod, less]
      simp only [UInt32.reduceToNat]
      omega

/-- Whatever becomes of `sfs_bmap`, the file has its tree and reads as before. -/
theorem BmapExit.tree {r : Except Errno UInt32} (h : f.Tree) (exits : BmapExit f w k doalloc r g n) :
    g.Tree ∧ ∀ j, g.content j = f.content j := by
  cases exits with
  | tooBig => exact ⟨h, fun _ => rfl⟩
  | unread => exact ⟨h, fun _ => rfl⟩
  | nothing => exact ⟨h, fun _ => rfl⟩
  | found => exact ⟨h, fun _ => rfl⟩
  | unmade _ _ _ _ refused => exact refused.tree h
  | unallocated _ _ _ hand refused =>
    obtain ⟨tree, content⟩ := refused.tree (hand.tree h)
    exact ⟨tree, fun j => (content j).trans (hand.content h j)⟩
  | lost _ _ _ _ hand fresh =>
    obtain ⟨tree, content⟩ := (hand.tree h).leak fresh
    exact ⟨tree, fun j => (content j).trans (hand.content h j)⟩
  | gained inside hole _ hand fresh =>
    have gap := hand.gap inside hole
    exact ⟨(hand.tree h).gain fresh gap,
      fun j => (gain_content (hand.tree h) fresh gap j).trans (hand.content h j)⟩

end Bmap

/-- A file on a volume of ten blocks, with the inode in block 5 and the indirect block in block 6. -/
def fileOf (direct : Fin 15 → UInt32) (entries : Words) (size : UInt32) : File where
  fs := (fullVolume fun _ => zeroSector).withBlock 6 (wordsSector entries)
  sv := ⟨1, 0, ⟨size, 1, 1, direct, 6, fun _ => 0⟩, 5, false⟩

section FileOf

variable {direct : Fin 15 → UInt32} {entries : Words} {size : UInt32}

/-- The block numbers of the file. -/
def placeOf (direct : Fin 15 → UInt32) (entries : Words) (k : Nat) : UInt32 :=
  if inode : k < 15 then direct ⟨k, inode⟩
  else if entry : k < 143 then entries ⟨k - 15, by omega⟩
  else 0

theorem fileOf_blockAt (k : Nat) : (fileOf direct entries size).blockAt k = placeOf direct entries k := by
  have there : (fileOf direct entries size).sv.svI.sfiIndirect ≠ 0 := (by decide : (6 : UInt32) ≠ 0)
  have block : (fileOf direct entries size).entries = entries := by
    unfold File.entries fileOf
    dsimp only
    rw [SfsFs.withBlock_self, sectorWords_wordsSector]
  unfold File.blockAt placeOf
  simp only [there, if_false, block]
  rfl

theorem fileOf_tree
    (inside : ∀ k : Fin 143, placeOf direct entries k < 10 ∧ placeOf direct entries k ≠ 6)
    (distinct : (((List.finRange 143).filter fun k : Fin 143 => placeOf direct entries k != 0).map
      fun k : Fin 143 => placeOf direct entries k).Nodup) : (fileOf direct entries size).Tree := by
  have mapped : ∀ {k}, placeOf direct entries k ≠ 0 → k < 143 := by
    intro k real
    by_contra beyond
    apply real
    unfold placeOf
    rw [dif_neg (by omega), dif_neg beyond]
  have member : ∀ {k} (real : placeOf direct entries k ≠ 0), (⟨k, mapped real⟩ : Fin 143) ∈
      (List.finRange 143).filter fun k : Fin 143 => placeOf direct entries k != 0 :=
    fun real => List.mem_filter.mpr ⟨List.mem_finRange _, bne_iff_ne.mpr real⟩
  refine ⟨fullVolume_sound _, fun k real => ?_, fun _ _ => fullVolume_bit _ _, fun j k real same => ?_,
    fun _ => (by decide : (6 : UInt32) < 10), fun _ => fullVolume_bit _ _, fun k real => ?_⟩
  · rw [fileOf_blockAt] at real ⊢
    exact (inside ⟨k, mapped real⟩).1
  · rw [fileOf_blockAt] at real same
    rw [fileOf_blockAt] at same
    have other : placeOf direct entries j ≠ 0 := by rwa [same]
    exact congrArg Fin.val (List.inj_on_of_nodup_map distinct (member other) (member real) same)
  · rw [fileOf_blockAt] at real ⊢
    exact (inside ⟨k, mapped real⟩).2

end FileOf

end Os161.Sfs
