import Os161.Base.Owners
import Os161.Sfs.Locality
import Os161.Sfs.Mount

/-!
# Who has the blocks of a volume

Every block in use is the superblock or one of the freemap, or holds an inode, or is in the tree of one
file. What a call does to one file leaves the others alone.
-/

namespace Os161.Sfs

/-- A file, for the inode of it. -/
def Dinode.on (inode : Dinode) (fs : SfsFs) : File := ⟨fs, ⟨0, 0, inode, 0, false⟩⟩

/-- What a block can be in use for. -/
inductive Owner where
  | system
  | inode (ino : UInt32)
  | file (ino : UInt32)

/-- The superblock, and the blocks of the freemap. -/
def SfsFs.System (fs : SfsFs) (x : UInt32) : Prop :=
  x = 0 ∨ ∃ j, j < (freemapblocks fs.sfsSb.sbNblocks).toNat ∧ x = 2 + UInt32.ofNat j

def SfsFs.Used (fs : SfsFs) (x : UInt32) : Prop := x < fs.sfsSb.sbNblocks ∧ fs.sfsFreemap.bit x = true

/-- The blocks of an owner, where `live` are the numbers of the inodes in use. -/
def Owns (fs : SfsFs) (live : UInt32 → Prop) (inode : UInt32 → Dinode) : Owner → UInt32 → Prop
  | .system, x => fs.System x
  | .inode i, x => live i ∧ x = i
  | .file i, x => live i ∧ ((inode i).on fs).Refers x

structure Layout (fs : SfsFs) (live : UInt32 → Prop) (inode : UInt32 → Dinode) : Prop where
  owned : Owned fs.Used (Owns fs live inode)
  trees : ∀ i, live i → ((inode i).on fs).Tree

/-- A file on a volume that has changed elsewhere. -/
structure SameFile (inode : Dinode) (fs fs' : SfsFs) : Prop where
  blockAt : ∀ k, (inode.on fs').blockAt k = (inode.on fs).blockAt k
  content : ∀ k, (inode.on fs').content k = (inode.on fs).content k

section Files

variable {fs fs' : SfsFs} {live : UInt32 → Prop} {inode : UInt32 → Dinode} {d : Dinode} {f g : File}
variable {i j x b : UInt32}

theorem owns_file : Owns fs live inode (.file j) x ↔ live j ∧ ((inode j).on fs).Refers x := Iff.rfl

theorem SameFile.refl (inode : Dinode) (fs : SfsFs) : SameFile inode fs fs := ⟨fun _ => rfl, fun _ => rfl⟩

theorem SameFile.trans {fs₁ fs₂ fs₃ : SfsFs} (first : SameFile d fs₁ fs₂) (second : SameFile d fs₂ fs₃) :
    SameFile d fs₁ fs₃ :=
  ⟨fun k => (second.blockAt k).trans (first.blockAt k), fun k => (second.content k).trans (first.content k)⟩

theorem SameFile.refers (same : SameFile d fs fs') (x : UInt32) :
    (d.on fs').Refers x ↔ (d.on fs).Refers x := by
  unfold File.Refers
  simp only [same.blockAt]
  exact Iff.rfl

/-- A file sees only its own blocks. -/
theorem sameFile (blocks : ∀ x, (d.on fs).Refers x → fs'.sfsDevice.blocks x = fs.sfsDevice.blocks x) :
    SameFile d fs fs' := by
  have blockAt (k : Nat) : (d.on fs').blockAt k = (d.on fs).blockAt k := by
    by_cases direct : k < 15
    · have place := File.blockAt_direct (d.on fs') ⟨k, direct⟩
      exact place.trans (File.blockAt_direct (d.on fs) ⟨k, direct⟩).symm
    · by_cases absent : d.sfiIndirect = 0
      · have hole := @File.blockAt_hole (d.on fs') absent k (by omega)
        exact hole.trans (File.blockAt_hole (f := d.on fs) absent (by omega)).symm
      · exact @File.blockAt_congr (d.on fs) (d.on fs') rfl (blocks _ ⟨absent, .inr rfl⟩) k (by omega)
  refine ⟨blockAt, fun k => ?_⟩
  unfold File.content
  rw [blockAt]
  split
  · rfl
  · rename_i mapped
    exact blocks _ ⟨mapped, .inl ⟨k, rfl⟩⟩

theorem SameFile.tree (same : SameFile d fs fs') (tree : (d.on fs).Tree) (sound : fs'.Sound)
    (sb : fs'.sfsSb = fs.sfsSb)
    (marks : ∀ x, (d.on fs).Refers x → fs'.sfsFreemap.bit x = true) : (d.on fs').Tree where
  sound := sound
  inside k mapped := by
    rw [same.blockAt] at mapped ⊢
    change _ < fs'.sfsSb.sbNblocks
    rw [sb]
    exact tree.inside k mapped
  marked k mapped := by
    rw [same.blockAt] at mapped ⊢
    exact marks _ ⟨mapped, .inl ⟨k, rfl⟩⟩
  distinct a b mapped is := by
    rw [same.blockAt] at mapped is
    rw [same.blockAt] at is
    exact tree.distinct a b mapped is
  indirectInside there := by
    change _ < fs'.sfsSb.sbNblocks
    rw [sb]
    exact tree.indirectInside there
  indirectMarked there := marks _ ⟨there, .inr rfl⟩
  apart k mapped := by
    rw [same.blockAt] at mapped ⊢
    exact tree.apart k mapped

theorem SameFile.bytes (same : SameFile d fs fs') : (d.on fs').bytes = (d.on fs).bytes :=
  File.bytes_congr same.content

/-- A file and the inode of it on its volume. -/
theorem File.tree_on : (f.sv.svI.on f.fs).Tree ↔ f.Tree :=
  ⟨fun h => ⟨h.sound, h.inside, h.marked, h.distinct, h.indirectInside, h.indirectMarked, h.apart⟩,
    fun h => ⟨h.sound, h.inside, h.marked, h.distinct, h.indirectInside, h.indirectMarked, h.apart⟩⟩

theorem Layout.used_lt (h : Layout fs live inode) {o : Owner} (owns : Owns fs live inode o x) :
    x < fs.sfsSb.sbNblocks ∧ fs.sfsFreemap.bit x = true := h.owned.used o x owns

/-- The block of an inode is not a block of a file. -/
theorem Layout.not_refers (h : Layout fs live inode) (here : live i) (there : live j) :
    ¬ ((inode j).on fs).Refers i := by
  intro refers
  have same := h.owned.apart (.inode i) (.file j) i ⟨here, rfl⟩ ⟨there, refers⟩
  cases same

theorem Layout.not_system (h : Layout fs live inode) (here : live i) : ¬ fs.System i := by
  intro system
  have same := h.owned.apart (.inode i) .system i ⟨here, rfl⟩ system
  cases same

/-- What belongs to something else is not the file's. -/
theorem Layout.rest (h : Layout fs live inode) (here : live i) {o : Owner} (other : o ≠ .file i)
    (owns : Owns fs live inode o x) : ((inode i).on fs).rest x :=
  ⟨(h.used_lt owns).2, fun refers => other (h.owned.apart o (.file i) x owns ⟨here, refers⟩)⟩

theorem File.Tree.refers_inside (tree : f.Tree) (refers : f.Refers x) : x < f.fs.sfsSb.sbNblocks := by
  obtain ⟨nonzero, ⟨k, rfl⟩ | rfl⟩ := refers
  · exact tree.inside k nonzero
  · exact tree.indirectInside nonzero

theorem SfsFs.system_congr (sb : fs'.sfsSb = fs.sfsSb) : fs'.System x ↔ fs.System x := by
  unfold SfsFs.System
  rw [sb]

/-- Only the inodes in use count. -/
theorem Layout.congr {live' : UInt32 → Prop} {inode' : UInt32 → Dinode} (h : Layout fs live inode)
    (lives : ∀ i, live' i ↔ live i) (inodes : ∀ i, live i → inode' i = inode i) : Layout fs live' inode' where
  owned := h.owned.congr (fun _ => Iff.rfl) fun o x => by
    cases o with
    | system => exact Iff.rfl
    | inode i => exact and_congr_left' (lives i)
    | file i =>
      refine (and_congr_left' (lives i)).trans (and_congr_right fun here => ?_)
      rw [inodes i here]
  trees i here := by
    have before := (lives i).mp here
    rw [inodes i before]
    exact h.trees i before

/-- Nothing changes for a file that no changed block belongs to. -/
theorem Layout.kept (h : Layout fs live inode) (here : live j) (sound : fs'.Sound) (sb : fs'.sfsSb = fs.sfsSb)
    (blocks : ∀ x, ((inode j).on fs).Refers x → fs'.sfsFreemap.bit x = true ∧
      fs'.sfsDevice.blocks x = fs.sfsDevice.blocks x) :
    SameFile (inode j) fs fs' ∧ ((inode j).on fs').Tree := by
  have same := sameFile fun x refers => (blocks x refers).2
  exact ⟨same, same.tree (h.trees j here) sound sb fun x refers => (blocks x refers).1⟩

/-- How a volume is kept on its device: what is not marked as changed is there. -/
structure Backed (fs : SfsFs) : Prop where
  super : fs.sfsSuperdirty = false
  loads : (Superblock.ofSector (fs.sfsDevice.blocks 0)).terminated = fs.sfsSb
  magic : fs.sfsSb.sbMagic = sfsMagic
  blocksize : fs.sfsDevice.dBlocksize = 512
  nbits : fs.sfsFreemap.nbits = freemapbits fs.sfsSb.sbNblocks
  inside : FreemapInside fs 0 (freemapblocks fs.sfsSb.sbNblocks).toNat
  freemap : fs.sfsFreemapdirty = false → ∀ j, j < (freemapblocks fs.sfsSb.sbNblocks).toNat →
    fs.sfsDevice.blocks (2 + UInt32.ofNat j) = fs.sfsFreemap.v.slice (j * 512) 512

theorem Backed.kept (h : Backed fs) (sb : fs'.sfsSb = fs.sfsSb)
    (dBlocks : fs'.sfsDevice.dBlocks = fs.sfsDevice.dBlocks) (marked : Marked fs fs')
    (system : ∀ x, fs.System x → fs'.sfsDevice.blocks x = fs.sfsDevice.blocks x) : Backed fs' where
  super := marked.super.trans h.super
  loads := by
    rw [system 0 (.inl rfl), sb]
    exact h.loads
  magic := sb ▸ h.magic
  blocksize := marked.blocksize.trans h.blocksize
  nbits := by rw [marked.nbits, sb, h.nbits]
  inside := by
    rw [sb]
    refine ⟨?_, fun k from_ below => ?_⟩
    · rw [marked.words]
      exact h.inside.room
    · rw [dBlocks]
      exact h.inside.device k from_ below
  freemap clean j below := by
    obtain ⟨was, same⟩ := marked.freemap clean
    rw [sb] at below
    rw [same, system _ (.inr ⟨j, below, rfl⟩)]
    exact h.freemap was j below

/-- What a call that keeps to its file does to the volume. -/
structure Elsewhere (fs fs' : SfsFs) (live : UInt32 → Prop) (inode : UInt32 → Dinode) (i : UInt32) : Prop where
  sb : fs'.sfsSb = fs.sfsSb
  vnodes : fs'.sfsVnodes = fs.sfsVnodes
  dBlocks : fs'.sfsDevice.dBlocks = fs.sfsDevice.dBlocks
  /-- The other files stay. -/
  files : ∀ j, live j → j ≠ i → SameFile (inode j) fs fs'
  /-- So do the inodes on the disk. -/
  inodes : ∀ j, live j → j ≠ i → fs'.sfsDevice.blocks j = fs.sfsDevice.blocks j
  system : ∀ x, fs.System x → fs'.sfsDevice.blocks x = fs.sfsDevice.blocks x
  marked : Marked fs fs'

theorem Layout.local (h : Layout f.fs live inode) (here : live i) (is : f.sv.svI = inode i)
    (keeps : Local f g) : Layout g.fs live (Function.update inode i g.sv.svI) ∧
      Elsewhere f.fs g.fs live inode i ∧ g.fs.sfsDevice.blocks i = f.fs.sfsDevice.blocks i := by
  have refers (x : UInt32) : ((inode i).on f.fs).Refers x ↔ f.Refers x := by
    rw [← is]
    exact Iff.rfl
  have rest {o : Owner} {x : UInt32} (other : o ≠ .file i) (owns : Owns f.fs live inode o x) : f.rest x := by
    obtain ⟨marked, foreign⟩ := h.rest here other owns
    exact ⟨marked, fun own => foreign ((refers x).mpr own)⟩
  have files (j : UInt32) (there : live j) (other : j ≠ i) :
      SameFile (inode j) f.fs g.fs ∧ ((inode j).on g.fs).Tree := by
    refine h.kept there keeps.tree.sound keeps.frame.sb fun x refers => ?_
    have foreign := rest (o := .file j) (by simpa using other) ⟨there, refers⟩
    exact ⟨(keeps.books.apart x foreign).1, keeps.blocks x foreign⟩
  have inodes (j : UInt32) (there : live j) : g.fs.sfsDevice.blocks j = f.fs.sfsDevice.blocks j :=
    keeps.blocks j (rest (o := .inode j) (by simp) ⟨there, rfl⟩)
  refine ⟨⟨?_, fun j there => ?_⟩, ⟨keeps.frame.sb, keeps.frame.vnodes, keeps.frame.dBlocks,
    fun j there other => (files j there other).1, fun j there _ => inodes j there,
    fun x system => keeps.blocks x (rest (o := .system) (by simp) system), keeps.frame.marked⟩, inodes i here⟩
  · refine h.owned.change (.file i) (fun o other x => ?_) (fun x => ?_) fun x owns used => ?_
    · cases o with
      | system => exact SfsFs.system_congr keeps.frame.sb
      | inode j => exact Iff.rfl
      | file j =>
        have different : j ≠ i := fun same => other (congrArg Owner.file same)
        refine and_congr_right fun there => ?_
        rw [Function.update_of_ne different]
        exact (files j there different).1.refers x
    · unfold SfsFs.Used
      rw [keeps.frame.sb]
      constructor
      · rintro ⟨inside, marked⟩
        obtain own | ⟨was, foreign⟩ := keeps.books.used x (by rw [keeps.frame.sb]; exact inside) marked
        · refine .inr ⟨here, ?_⟩
          rw [Function.update_self]
          exact own
        · exact .inl ⟨⟨inside, was⟩, fun owns => foreign ((refers x).mp owns.2)⟩
      · rintro (⟨⟨inside, marked⟩, foreign⟩ | ⟨-, own⟩)
        · have other : f.rest x := ⟨marked, fun own => foreign ⟨here, (refers x).mpr own⟩⟩
          exact ⟨inside, (keeps.books.apart x other).1⟩
        · rw [Function.update_self] at own
          have inside := keeps.tree.refers_inside own
          rw [keeps.frame.sb] at inside
          exact ⟨inside, keeps.tree.referred own⟩
    · obtain ⟨-, own⟩ := owns
      rw [Function.update_self] at own
      by_cases before : f.Refers x
      · exact ⟨here, (refers x).mpr before⟩
      · exact absurd own (keeps.books.apart x ⟨used.2, before⟩).2
  · by_cases same : j = i
    · subst same
      rw [Function.update_self]
      exact File.tree_on.mpr keeps.tree
    · rw [Function.update_of_ne same]
      exact (files j there same).2

/-- A block that no file has is written. -/
theorem Layout.write (h : Layout fs live inode) (here : live i) (data : Sector) :
    Layout (fs.withBlock i data) live inode ∧ Elsewhere fs (fs.withBlock i data) live inode i ∧
      SameFile (inode i) fs (fs.withBlock i data) := by
  have files (j : UInt32) (there : live j) :
      SameFile (inode j) fs (fs.withBlock i data) ∧ ((inode j).on (fs.withBlock i data)).Tree := by
    refine h.kept there ((h.trees j there).sound.withBlock data) rfl fun x refers =>
      ⟨(h.trees j there).referred refers, ?_⟩
    refine SfsFs.withBlock_other _ ?_ _
    rintro rfl
    exact h.not_refers here there refers
  refine ⟨⟨h.owned.congr (fun _ => Iff.rfl) fun o x => ?_, fun j there => (files j there).2⟩,
    ⟨rfl, rfl, rfl, fun j there _ => (files j there).1, fun j _ other => SfsFs.withBlock_other _ other _,
      fun x system => SfsFs.withBlock_other _ (fun same : x = i => h.not_system here (same ▸ system)) _,
      .withBlock ..⟩,
    (files i here).1⟩
  cases o with
  | system => exact Iff.rfl
  | inode j => exact Iff.rfl
  | file j => exact and_congr_right fun there => (files j there).1.refers x

/-- The number of an inode in use is not 0. -/
theorem Layout.nonzero (h : Layout fs live inode) (here : live i) : i ≠ 0 := by
  rintro rfl
  have same := h.owned.apart (.inode 0) .system 0 ⟨here, rfl⟩ (.inl rfl)
  cases same

/-- An inode that no block belongs to. -/
def Dinode.Empty (inode : Dinode) : Prop := inode.sfiDirect = (fun _ => 0) ∧ inode.sfiIndirect = 0

theorem Dinode.Empty.blockAt (empty : d.Empty) (k : Nat) : (d.on fs).blockAt k = 0 := by
  by_cases direct : k < 15
  · have place := File.blockAt_direct (d.on fs) ⟨k, direct⟩
    exact place.trans (congrFun empty.1 _)
  · exact @File.blockAt_hole (d.on fs) empty.2 k (by omega)

theorem Dinode.Empty.not_refers (empty : d.Empty) : ¬ (d.on fs).Refers x := by
  rintro ⟨nonzero, ⟨k, is⟩ | is⟩
  · exact nonzero (is.symm.trans (empty.blockAt k))
  · exact nonzero (is.symm.trans empty.2)

theorem Dinode.Empty.tree (empty : d.Empty) (sound : fs.Sound) : (d.on fs).Tree where
  sound := sound
  inside k mapped := absurd (empty.blockAt k) mapped
  marked k mapped := absurd (empty.blockAt k) mapped
  distinct _ b mapped := absurd (empty.blockAt b) mapped
  indirectInside there := absurd empty.2 there
  indirectMarked there := absurd empty.2 there
  apart k mapped := absurd (empty.blockAt k) mapped

theorem Layout.fresh (h : Layout fs live inode) (fresh : fs.Fresh b) : ¬ live b := by
  intro here
  have marked := (h.used_lt (o := .inode b) ⟨here, rfl⟩).2
  rw [fresh.free] at marked
  cases marked

/-- A block is allocated for a new inode. -/
theorem Layout.makes (h : Layout fs live inode) (ok : fs.Sound) (fresh : fs.Fresh b) (empty : d.Empty) :
    Layout (fs.allocated b) (fun j => live j ∨ j = b) (Function.update inode b d) ∧
      Elsewhere fs (fs.allocated b) live inode b := by
  have new := h.fresh fresh
  have files (j : UInt32) (there : live j) :
      SameFile (inode j) fs (fs.allocated b) ∧ ((inode j).on (fs.allocated b)).Tree := by
    refine h.kept there (ok.allocated b) rfl fun x refers => ?_
    have marked := (h.trees j there).referred refers
    refine ⟨?_, SfsFs.allocated_other (fresh.ne marked)⟩
    rw [SfsFs.allocated_bit]
    exact Bool.or_eq_true_iff.mpr (.inl marked)
  have inodes (j : UInt32) (there : live j) : (fs.allocated b).sfsDevice.blocks j = fs.sfsDevice.blocks j :=
    SfsFs.allocated_other fun same => new (same ▸ there)
  refine ⟨⟨?_, fun j there => ?_⟩, ⟨rfl, rfl, rfl, fun j there _ => (files j there).1,
    fun j there _ => inodes j there, fun x system => ?_, .allocated fs b⟩⟩
  · refine h.owned.change (.inode b) (fun o other x => ?_) (fun x => ?_) fun x owns used => ?_
    · cases o with
      | system => exact Iff.rfl
      | inode j =>
        have different : j ≠ b := fun same => other (congrArg Owner.inode same)
        exact and_congr_left' (or_iff_left different)
      | file j =>
        by_cases different : j = b
        · subst different
          rw [owns_file, owns_file, Function.update_self]
          exact iff_of_false (fun owns => empty.not_refers owns.2) fun owns => new owns.1
        · change (live j ∨ j = b) ∧ ((Function.update inode b d j).on (fs.allocated b)).Refers x ↔ _
          rw [owns_file, Function.update_of_ne different, or_iff_left different]
          exact and_congr_right fun there => (files j there).1.refers x
    · unfold SfsFs.Used
      rw [SfsFs.allocated_bit, Bool.or_eq_true_iff, decide_eq_true_iff]
      constructor
      · rintro ⟨inside, marked | rfl⟩
        · exact .inl ⟨⟨inside, marked⟩, fun owns => new (owns.2 ▸ owns.1)⟩
        · exact .inr ⟨.inr rfl, rfl⟩
      · rintro (⟨⟨inside, marked⟩, -⟩ | ⟨-, rfl⟩)
        · exact ⟨inside, .inl marked⟩
        · exact ⟨fresh.inside, .inr rfl⟩
    · obtain ⟨-, rfl⟩ := owns
      have free := fresh.free
      rw [used.2] at free
      cases free
  · by_cases same : j = b
    · subst same
      rw [Function.update_self]
      exact empty.tree (ok.allocated j)
    · rw [Function.update_of_ne same]
      exact (files j (there.resolve_right same)).2
  · exact SfsFs.allocated_other (fresh.ne (h.used_lt (o := .system) system).2)

/-- An inode without blocks is given up. -/
theorem Layout.erases (h : Layout fs live inode) (here : live i) (empty : ∀ x, ¬ ((inode i).on fs).Refers x) :
    Layout (fs.freed i) (fun j => live j ∧ j ≠ i) inode ∧ Elsewhere fs (fs.freed i) live inode i := by
  obtain ⟨inside, marked⟩ := h.used_lt (o := .inode i) ⟨here, rfl⟩
  have sound := (h.trees i here).sound.freed inside (h.nonzero here)
  have files (j : UInt32) (there : live j) :
      SameFile (inode j) fs (fs.freed i) ∧ ((inode j).on (fs.freed i)).Tree := by
    refine h.kept there sound rfl fun x refers => ⟨?_, rfl⟩
    have other : i ≠ x := by
      rintro rfl
      exact h.not_refers here there refers
    rw [SfsFs.freed_bit]
    exact Bool.and_eq_true_iff.mpr ⟨(h.trees j there).referred refers, decide_eq_true other⟩
  refine ⟨⟨?_, fun j there => (files j there.1).2⟩,
    ⟨rfl, rfl, rfl, fun j there _ => (files j there).1, fun _ _ _ => rfl, fun _ _ => rfl, .freed fs i⟩⟩
  refine h.owned.change (.inode i) (fun o other x => ?_) (fun x => ?_) fun x owns => ?_
  · cases o with
    | system => exact Iff.rfl
    | inode j =>
      have different : j ≠ i := fun same => other (congrArg Owner.inode same)
      exact and_congr_left' (and_iff_left different)
    | file j =>
      by_cases different : j = i
      · subst different
        exact iff_of_false (fun owns => owns.1.2 rfl) fun owns => empty x owns.2
      · change (live j ∧ j ≠ i) ∧ ((inode j).on (fs.freed i)).Refers x ↔ _
        rw [owns_file, and_iff_left different]
        exact and_congr_right fun there => (files j there).1.refers x
  · unfold SfsFs.Used
    rw [SfsFs.freed_bit, Bool.and_eq_true_iff, decide_eq_true_iff]
    constructor
    · rintro ⟨below, was, other⟩
      exact .inl ⟨⟨below, was⟩, fun owns => other owns.2.symm⟩
    · rintro (⟨⟨below, was⟩, foreign⟩ | ⟨⟨-, gone⟩, rfl⟩)
      · exact ⟨below, was, fun same => foreign ⟨here, same.symm⟩⟩
      · exact absurd rfl gone
  · obtain ⟨⟨-, gone⟩, rfl⟩ := owns
    exact absurd rfl gone

end Files

end Os161.Sfs
