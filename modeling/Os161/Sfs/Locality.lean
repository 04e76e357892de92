import Os161.Sfs.Consistency
import Os161.Sfs.FileWrite

/-!
# Calls that keep to their file

Without errors from the device, a call for one file leaves the blocks of everything else on the volume
as they are, marks no block in vain, and leaves none marked that it gives up.
-/

namespace Os161.Sfs

def File.size (f : File) : Nat := f.sv.svI.sfiSize.toNat

/-- The blocks in use that are not the file's. -/
def File.rest (f : File) (x : UInt32) : Prop := f.fs.sfsFreemap.bit x = true ∧ ¬ f.Refers x

/-- A freemap that is another one than before is marked as not on the disk yet. -/
structure Marked (fs fs' : SfsFs) : Prop where
  super : fs'.sfsSuperdirty = fs.sfsSuperdirty
  blocksize : fs'.sfsDevice.dBlocksize = fs.sfsDevice.dBlocksize
  words : fs'.sfsFreemap.words = fs.sfsFreemap.words
  nbits : fs'.sfsFreemap.nbits = fs.sfsFreemap.nbits
  freemap : fs'.sfsFreemapdirty = false → fs.sfsFreemapdirty = false ∧ fs'.sfsFreemap = fs.sfsFreemap

/-- What is not about the contents of a file: its counts and its type, and where the volume is. -/
structure SameFrame (f g : File) : Prop where
  sb : g.fs.sfsSb = f.fs.sfsSb
  vnodes : g.fs.sfsVnodes = f.fs.sfsVnodes
  dBlocks : g.fs.sfsDevice.dBlocks = f.fs.sfsDevice.dBlocks
  nbits : g.fs.sfsFreemap.nbits = f.fs.sfsFreemap.nbits
  ino : g.sv.svIno = f.sv.svIno
  refcount : g.sv.vnRefcount = f.sv.vnRefcount
  opencount : g.sv.vnOpencount = f.sv.vnOpencount
  type : g.sv.svI.sfiType = f.sv.svI.sfiType
  linkcount : g.sv.svI.sfiLinkcount = f.sv.svI.sfiLinkcount
  /-- What is in the inode is marked as not on the disk yet. -/
  clean : g.sv.svDirty = false → f.sv.svDirty = false ∧ g.sv.svI = f.sv.svI
  marked : Marked f.fs g.fs

theorem dirtied {p : Prop} (clean : true = false) : p := by cases clean

section Marked

variable {fs fs' fs'' : SfsFs} {block : UInt32}

theorem Marked.refl (fs : SfsFs) : Marked fs fs := ⟨rfl, rfl, rfl, rfl, fun clean => ⟨clean, rfl⟩⟩

theorem Marked.trans (first : Marked fs fs') (second : Marked fs' fs'') : Marked fs fs'' where
  super := second.super.trans first.super
  blocksize := second.blocksize.trans first.blocksize
  words := second.words.trans first.words
  nbits := second.nbits.trans first.nbits
  freemap clean := by
    obtain ⟨was, same⟩ := second.freemap clean
    obtain ⟨before, same'⟩ := first.freemap was
    exact ⟨before, same.trans same'⟩

theorem Marked.dirty (fs : SfsFs) : Marked fs fs.freemapDirty := ⟨rfl, rfl, rfl, rfl, dirtied⟩

theorem Marked.allocated (fs : SfsFs) (block : UInt32) : Marked fs (fs.allocated block) :=
  ⟨rfl, rfl, rfl, rfl, dirtied⟩

theorem Marked.freed (fs : SfsFs) (block : UInt32) : Marked fs (fs.freed block) := ⟨rfl, rfl, rfl, rfl, dirtied⟩

theorem Marked.freedAll (fs : SfsFs) (blocks : List UInt32) : Marked fs (fs.freedAll blocks) := by
  induction blocks generalizing fs with
  | nil => exact .refl fs
  | cons block rest ih => exact (Marked.freed fs block).trans (ih (fs.freed block))

theorem Marked.withBlock (fs : SfsFs) (block : UInt32) (data : Sector) : Marked fs (fs.withBlock block data) :=
  ⟨rfl, rfl, rfl, rfl, fun clean => ⟨clean, rfl⟩⟩

end Marked

/-- A call keeps to its file. -/
structure Local (f g : File) : Prop where
  frame : SameFrame f g
  books : Consistent f.rest g
  blocks : ∀ x, f.rest x → g.fs.sfsDevice.blocks x = f.fs.sfsDevice.blocks x

section Local

variable {f g h : File} {w : Replies} {k n : Nat} {block : UInt32} {err : Errno}

theorem SameFrame.refl (f : File) : SameFrame f f :=
  ⟨rfl, rfl, rfl, rfl, rfl, rfl, rfl, rfl, rfl, fun clean => ⟨clean, rfl⟩, .refl f.fs⟩

theorem SameFrame.trans (first : SameFrame f g) (second : SameFrame g h) : SameFrame f h where
  sb := second.sb.trans first.sb
  vnodes := second.vnodes.trans first.vnodes
  dBlocks := second.dBlocks.trans first.dBlocks
  nbits := second.nbits.trans first.nbits
  ino := second.ino.trans first.ino
  refcount := second.refcount.trans first.refcount
  opencount := second.opencount.trans first.opencount
  type := second.type.trans first.type
  linkcount := second.linkcount.trans first.linkcount
  clean clean := by
    obtain ⟨was, same⟩ := second.clean clean
    obtain ⟨before, same'⟩ := first.clean was
    exact ⟨before, same.trans same'⟩
  marked := first.marked.trans second.marked

theorem File.Tree.consistent (tree : f.Tree) : Consistent f.rest f where
  tree := tree
  used x _ marked := by
    by_cases refers : f.Refers x
    · exact .inl refers
    · exact .inr ⟨marked, refers⟩
  apart _ other := other

theorem Local.tree (keeps : Local f g) : g.Tree := keeps.books.tree

theorem Local.refl (tree : f.Tree) : Local f f := ⟨.refl f, tree.consistent, fun _ _ => rfl⟩

/-- What is not the first file's is not the second's. -/
theorem Local.rest (keeps : Local f g) {x : UInt32} (other : f.rest x) : g.rest x :=
  keeps.books.apart x other

theorem Local.trans (first : Local f g) (second : Local g h) : Local f h where
  frame := first.frame.trans second.frame
  books := by
    refine ⟨second.tree, fun x inside marked => ?_, fun x other => second.books.apart x (first.rest other)⟩
    obtain own | ⟨marked, foreign⟩ := second.books.used x inside marked
    · exact .inl own
    · have below : x < g.fs.sfsSb.sbNblocks := second.frame.sb ▸ inside
      exact .inr ((first.books.used x below marked).resolve_left foreign)
  blocks x other := (second.blocks x (first.rest other)).trans (first.blocks x other)

theorem Local.dirty (tree : f.Tree) : Local f (f.withFs f.fs.freemapDirty) :=
  ⟨⟨rfl, rfl, rfl, rfl, rfl, rfl, rfl, rfl, rfl, fun clean => ⟨clean, rfl⟩, .dirty f.fs⟩, tree.consistent.dirty,
    fun _ _ => rfl⟩

/-- A block in use is not one that is about to be allocated. -/
theorem SfsFs.Fresh.ne {fs : SfsFs} {x : UInt32} (fresh : fs.Fresh block)
    (marked : fs.sfsFreemap.bit x = true) : x ≠ block := by
  rintro rfl
  rw [fresh.free] at marked
  cases marked

theorem Local.gainIndirect (tree : f.Tree) (fresh : f.fs.Fresh block)
    (absent : f.sv.svI.sfiIndirect = 0) : Local f (f.gainIndirect block) :=
  ⟨⟨rfl, rfl, rfl, rfl, rfl, rfl, rfl, rfl, rfl, dirtied, .allocated f.fs block⟩,
    tree.consistent.gainIndirect fresh absent,
    fun _ other => SfsFs.allocated_other (fresh.ne other.1)⟩

theorem gain_frame : SameFrame f (f.gain k block) := by
  unfold File.gain
  split
  · exact ⟨rfl, rfl, rfl, rfl, rfl, rfl, rfl, rfl, rfl, dirtied, .allocated f.fs block⟩
  · split
    · exact ⟨rfl, rfl, rfl, rfl, rfl, rfl, rfl, rfl, rfl, fun clean => ⟨clean, rfl⟩,
        (Marked.allocated f.fs block).trans (.withBlock ..)⟩
    · exact .refl f

theorem gain_refers (tree : f.Tree) (fresh : f.fs.Fresh block) (gap : f.Gap k) (x : UInt32) :
    (f.gain k block).Refers x ↔ f.Refers x ∨ x = block := by
  unfold File.Refers
  simp only [gain_blockAt tree fresh gap, gain_indirect]
  constructor
  · rintro ⟨nonzero, ⟨j, is⟩ | is⟩
    · split at is
      · exact .inr is.symm
      · exact .inl ⟨nonzero, .inl ⟨j, is⟩⟩
    · exact .inl ⟨nonzero, .inr is⟩
  · rintro (⟨nonzero, ⟨j, is⟩ | is⟩ | rfl)
    · refine ⟨nonzero, .inl ⟨j, ?_⟩⟩
      rw [if_neg]
      · exact is
      · rintro rfl
        exact nonzero (is.symm.trans gap.hole)
    · exact ⟨nonzero, .inr is⟩
    · exact ⟨fresh.nonzero, .inl ⟨k, if_pos rfl⟩⟩

theorem File.rest.apart {x : UInt32} (other : f.rest x) (nonzero : x ≠ 0) :
    x ≠ f.sv.svI.sfiIndirect :=
  fun same => other.2 ⟨nonzero, .inr same.symm⟩

theorem gain_rest (fresh : f.fs.Fresh block) (gap : f.Gap k) {x : UInt32} (other : f.rest x) :
    (f.gain k block).fs.sfsDevice.blocks x = f.fs.sfsDevice.blocks x := by
  have apart := fresh.ne other.1
  unfold File.gain
  split
  · exact SfsFs.allocated_other apart
  · rename_i entry
    split
    · have foreign : x ≠ f.sv.svI.sfiIndirect := by
        intro same
        have there := gap.indirect (by omega)
        exact other.2 ⟨same ▸ there, .inr same.symm⟩
      refine (SfsFs.withBlock_other _ foreign _).trans ?_
      exact SfsFs.allocated_other apart
    · rfl

theorem Local.gain (tree : f.Tree) (fresh : f.fs.Fresh block) (gap : f.Gap k) :
    Local f (f.gain k block) where
  frame := gain_frame
  books := tree.consistent.grow fresh (tree.gain fresh gap) (gain_gains tree gap) (gain_refers tree fresh gap)
  blocks _ other := gain_rest fresh gap other

theorem Refused.local (tree : f.Tree) (refused : Refused f w err g n) : Local f g := by
  cases refused with
  | full => exact .refl tree
  | uncleared => exact .dirty tree

theorem AtHand.local (tree : f.Tree) (hand : AtHand f w k g n) : Local f g := by
  cases hand with
  | direct => exact .refl tree
  | read => exact .refl tree
  | made _ absent fresh => exact .gainIndirect tree fresh absent

/-- New data in a block of the file. -/
theorem Local.store (tree : f.Tree) {data : Sector} (mapped : f.blockAt k ≠ 0) :
    Local f (f.store k data) where
  frame := ⟨rfl, rfl, rfl, rfl, rfl, rfl, rfl, rfl, rfl, fun clean => ⟨clean, rfl⟩, .withBlock ..⟩
  books := by
    have refers : ∀ x, (f.store k data).Refers x ↔ f.Refers x := by
      intro x
      unfold File.Refers
      simp only [File.store_blockAt tree mapped]
      rfl
    refine ⟨tree.store mapped, fun x _ marked => ?_, fun x other => ⟨other.1, fun own => ?_⟩⟩
    · by_cases own : f.Refers x
      · exact .inl ((refers x).mpr own)
      · exact .inr ⟨marked, own⟩
    · exact other.2 ((refers x).mp own)
  blocks x other := by
    refine SfsFs.withBlock_other _ ?_ _
    rintro rfl
    exact other.2 ⟨mapped, .inl ⟨k, rfl⟩⟩

theorem Local.setSize (tree : f.Tree) (size : UInt32) : Local f (f.setSize size) where
  frame := ⟨rfl, rfl, rfl, rfl, rfl, rfl, rfl, rfl, rfl, dirtied, .refl f.fs⟩
  books := ⟨⟨tree.sound, tree.inside, tree.marked, tree.distinct, tree.indirectInside,
    tree.indirectMarked, tree.apart⟩, tree.consistent.used, tree.consistent.apart⟩
  blocks _ _ := rfl

end Local

theorem ofInt_toNat {n : Nat} (small : n < 2 ^ 32) : (UInt32.ofInt (n : Int)).toNat = n := by
  rw [Request.ofInt_natCast, UInt32.toNat_ofNat', Nat.mod_eq_of_lt small]

/-- The bytes of an object that does not cross the border of a block. -/
theorem File.bytes_block {f : File} {pos len i : Nat} (inside : pos % 512 + len ≤ 512) (below : i < len) :
    f.bytes (pos + i) = bufBytes (f.content (pos / 512)) (pos % 512 + i) := by
  have block : (pos + i) / 512 = pos / 512 := by omega
  have offset : (pos + i) % 512 = pos % 512 + i := by omega
  unfold File.bytes bufBytes Bytes.fill
  rw [dif_pos (by omega)]
  simp only [block, offset, Nat.sub_zero]

/-! ### `sfs_bmap` without errors from the device -/

/-- The answers of a device that has no errors. -/
def Fine (w : Replies) : Prop := ∀ i, w.nth i = none

section Bmap

variable {f g : File} {w : Replies} {k n : Nat}

theorem Fine.after (fine : Fine w) (n : Nat) : Fine (w.after n) := by
  intro i
  rw [← Replies.nth_add]
  exact fine (n + i)

theorem Fine.not_fails {p : Prop} {err : { err : Errno // err ≠ .einval }} (fine : Fine w)
    (fails : w.nth n = some err) : p := by
  rw [fine n] at fails
  cases fails

/-- A lookup finds the block, or a hole. -/
theorem File.Tree.bmap_look (tree : f.Tree) (fine : Fine w) {fileblock : UInt32}
    (inside : fileblock.toNat < 143) :
    ∃ n, sfsBmap fileblock false f w = .done (.ok (f.blockAt fileblock.toNat), f, w.after n) := by
  obtain ⟨r, g, n, goes, exits⟩ := tree.bmap_exit fileblock false w
  refine ⟨n, ?_⟩
  rw [goes]
  cases exits with
  | tooBig beyond => omega
  | unread _ _ _ fails => exact fine.not_fails fails
  | nothing entry _ absent => rw [File.blockAt_hole absent entry]
  | unmade _ _ _ alloc => cases alloc
  | found _ hand enough => rfl
  | unallocated _ _ alloc => cases alloc
  | lost _ _ _ alloc => cases alloc
  | gained _ _ alloc => cases alloc

/-- A file has no block behind its last one. -/
theorem File.Tree.bmap_beyond (tree : f.Tree) {fileblock : UInt32} (doalloc : Bool) (w : Replies)
    (beyond : 143 ≤ fileblock.toNat) : sfsBmap fileblock doalloc f w = .done (.error .efbig, f, w) := by
  obtain ⟨r, g, n, goes, exits⟩ := tree.bmap_exit fileblock doalloc w
  rw [goes]
  cases exits with
  | tooBig => rfl
  | _ => omega

/-- What `sfs_bmap` with `doalloc` does: the file has the block, or the volume is full. -/
structure Allocs (f g : File) (k : Nat) (r : Except Errno UInt32) : Prop where
  keeps : Local f g
  content : ∀ j, g.content j = f.content j
  grows : File.Grows f g
  result : r = .ok (g.blockAt k) ∧ g.blockAt k ≠ 0 ∨
    r = .error .enospc ∧ f.blockAt k = 0 ∧ g.blockAt k = 0 ∧
      ∀ i, i < g.fs.sfsSb.sbNblocks → g.fs.sfsFreemap.bit i = true

theorem Refused.isFull {err : Errno} (fine : Fine w) (refused : Refused f w err g n) :
    err = .enospc ∧ ∀ i, i < g.fs.sfsSb.sbNblocks → g.fs.sfsFreemap.bit i = true := by
  cases refused with
  | full full => exact ⟨rfl, full⟩
  | uncleared _ fails => exact fine.not_fails fails

theorem Refused.blockAt {err : Errno} (refused : Refused f w err g n) (j : Nat) :
    g.blockAt j = f.blockAt j := by
  cases refused with
  | full => rfl
  | uncleared => rfl

theorem File.Tree.bmap_alloc (tree : f.Tree) (fine : Fine w) {fileblock : UInt32}
    (inside : fileblock.toNat < 143) :
    ∃ r g n, sfsBmap fileblock true f w = .done (r, g, w.after n) ∧ Allocs f g fileblock.toNat r := by
  obtain ⟨r, g, n, goes, exits⟩ := tree.bmap_exit fileblock true w
  have same := (exits.tree tree).2
  have grows := exits.grows tree
  refine ⟨r, g, n, goes, ?_⟩
  cases exits with
  | tooBig beyond => omega
  | unread _ _ _ fails => exact fine.not_fails fails
  | nothing _ _ _ look => cases look
  | unmade entry _ absent _ refused =>
    obtain ⟨rfl, full⟩ := refused.isFull fine
    have hole := File.blockAt_hole absent entry
    exact ⟨refused.local tree, same, grows, .inr ⟨rfl, hole, (refused.blockAt _).trans hole, full⟩⟩
  | found _ hand enough =>
    have mapped := enough.resolve_right (by simp)
    rw [← hand.blockAt] at mapped ⊢
    exact ⟨hand.local tree, same, grows, .inl ⟨rfl, mapped⟩⟩
  | unallocated _ hole _ hand refused =>
    obtain ⟨rfl, full⟩ := refused.isFull (fine.after _)
    have left := (refused.blockAt fileblock.toNat).trans (hand.blockAt _)
    exact ⟨(hand.local tree).trans (refused.local (hand.tree tree)), same, grows,
      .inr ⟨rfl, hole, left.trans hole, full⟩⟩
  | lost _ _ _ _ hand _ _ fails => exact fine.not_fails fails
  | @gained h _ m block _ hole _ hand fresh =>
    have tree' := hand.tree tree
    have gap := hand.gap inside hole
    have at_ : (h.gain fileblock.toNat block).blockAt fileblock.toNat = block := by
      rw [gain_blockAt tree' fresh gap, if_pos rfl]
    refine ⟨(hand.local tree).trans (.gain tree' fresh gap), same, grows, .inl ?_⟩
    rw [at_]
    exact ⟨rfl, fresh.nonzero⟩

theorem File.bytes_congr (same : ∀ j, g.content j = f.content j) : g.bytes = f.bytes := by
  funext p
  unfold File.bytes
  rw [same]

end Bmap

/-! ### `sfs_itrunc` without errors from the device -/

section Itrunc

variable {f : File} {w : Replies} {b : UInt32}

theorem truncated_blocks {x : UInt32} (apart : f.sv.svI.sfiIndirect ≠ 0 → x ≠ f.sv.svI.sfiIndirect) :
    (f.truncated b).fs.sfsDevice.blocks x = f.fs.sfsDevice.blocks x := by
  have direct : (f.directCut b).fs.sfsDevice.blocks x = f.fs.sfsDevice.blocks x := by
    rw [directCut_device]
  have entries : (f.entriesCut b).fs.sfsDevice.blocks x = f.fs.sfsDevice.blocks x := by
    rw [entriesCut_device]
  unfold File.truncated
  split
  · rename_i reads
    split
    · split
      · exact entries
      · exact (SfsFs.withBlock_other _ (apart reads.2) _).trans entries
    · exact entries
  · exact direct

theorem truncated_type : (f.truncated b).sv.svI.sfiType = f.sv.svI.sfiType ∧
    (f.truncated b).sv.vnOpencount = f.sv.vnOpencount := by
  unfold File.truncated
  split
  · split
    · split
      · exact ⟨rfl, rfl⟩
      · exact ⟨rfl, rfl⟩
    · exact ⟨rfl, rfl⟩
  · exact ⟨rfl, rfl⟩

theorem truncated_marked : Marked f.fs (f.truncated b).fs := by
  have direct : Marked f.fs (f.directCut b).fs := .freedAll ..
  have entries : Marked f.fs (f.entriesCut b).fs := direct.trans (.freedAll ..)
  unfold File.truncated
  split
  · split
    · split
      · exact entries
      · exact entries.trans (.withBlock ..)
    · exact entries.trans (.freed ..)
  · exact direct

theorem Local.truncated (tree : f.Tree) (b size : UInt32) :
    Local f ((f.truncated b).setSize size) where
  frame := by
    obtain ⟨sb, vnodes, dBlocks, nbits, ino, refcount, linkcount⟩ := @truncated_same f b
    obtain ⟨type, opencount⟩ := @truncated_type f b
    exact ⟨sb, vnodes, dBlocks, nbits, ino, refcount, opencount, type, linkcount, dirtied, truncated_marked⟩
  books := by
    obtain ⟨tree, used, apart⟩ := tree.consistent.truncated b
    exact ⟨(Local.setSize tree size).tree, used, apart⟩
  blocks x other := by
    apply truncated_blocks
    rintro there rfl
    exact other.2 ⟨there, .inr rfl⟩

/-- A truncation keeps to its file, and keeps the blocks that begin before the new length. -/
theorem File.Tree.itrunc_fine (tree : f.Tree) (fine : Fine w) (len : Int) :
    ∃ g n, sfsItrunc len f w = .done (.ok (), g, w.after n) ∧ Local f g ∧
      g.sv.svI.sfiSize = UInt32.ofInt len ∧ g.sv.svDirty = true ∧
      ∀ k, g.content k = if keeps (truncBlocklen len) k then f.content k else zeroSector := by
  obtain ⟨n, goes⟩ := tree.itrunc_ok len fine
  refine ⟨_, n, goes, .truncated tree _ _, rfl, rfl, fun k => ?_⟩
  unfold File.content
  rw [setSize_blockAt, truncated_blockAt]
  by_cases kept : keeps (truncBlocklen len) k = true
  · rw [if_pos kept, if_pos kept]
    split
    · rfl
    · rename_i mapped
      exact truncated_blocks fun _ => tree.apart k mapped
  · rw [if_neg kept, if_neg kept, if_pos rfl]

end Itrunc

end Os161.Sfs
