import Os161.Sfs.Layout
import Os161.Sfs.Vnops

/-!
# The inodes in use of a volume

What is in an inode in use is what its vnode has, and else what is on the disk. The first part of this
module says what a volume looks like from outside: its names, the contents of its files, how many links
they have, and who refers to which vnode.
-/

namespace Os161.Sfs

/-- What a file is to its users; there are bytes past its end too. -/
structure Contents where
  size : Nat
  bytes : Bytes

def File.contents (f : File) : Contents := ⟨f.size, f.bytes⟩

namespace Volume

/-- The vnode of an inode, if it is in memory. -/
def loaded (s : Volume) (ino : UInt32) : Option SfsVnode :=
  s.fs.sfsVnodes.findSome? fun v => (s.vnode v).filter fun sv => sv.svIno = ino

def inode (s : Volume) (ino : UInt32) : Dinode :=
  (s.loaded ino).elim (.ofSector (s.fs.sfsDevice.blocks ino)) SfsVnode.svI

/-- The file with this inode. -/
def file (s : Volume) (ino : UInt32) : File := (s.inode ino).on s.fs

/-- The entries of the root directory. -/
def slots (s : Volume) : Slots Name UInt32 := (s.file sfsRootdirIno).slots

def contents (s : Volume) (ino : UInt32) : Contents := (s.file ino).contents

def links (s : Volume) (ino : UInt32) : UInt16 := (s.inode ino).sfiLinkcount

/-- The references to a vnode. -/
def refs (s : Volume) (v : Nat) : Int := (s.vnode v).elim 0 SfsVnode.vnRefcount

/-- The inode of a vnode. -/
def handle (s : Volume) (v : Nat) : Option UInt32 := (s.vnode v).map SfsVnode.svIno

/-- The volume with the vnode and the file system of a file. -/
def withFile (s : Volume) (v : Nat) (g : File) : Volume := (s.withFs g.fs).withVnode v g.sv

/-- A vnode in memory. -/
def Here (s : Volume) (v : Nat) (sv : SfsVnode) : Prop := v ∈ s.fs.sfsVnodes ∧ s.vnode v = some sv

end Volume

/-- The table of vnodes has the vnodes that there are, one for an inode, and somebody refers to each. -/
structure Tabled (s : Volume) : Prop where
  nodup : s.fs.sfsVnodes.Nodup
  there : ∀ v, v ∈ s.fs.sfsVnodes ↔ ∃ sv, s.vnode v = some sv
  apart : ∀ v v' sv sv', s.Here v sv → s.Here v' sv' → sv.svIno = sv'.svIno → v = v'
  refcount : ∀ v sv, s.Here v sv → 0 < sv.vnRefcount
  opencount : ∀ v sv, s.Here v sv → sv.vnOpencount = 0

/-- A volume whose inodes in use are those of `live`. -/
structure Books (s : Volume) (live : UInt32 → Prop) : Prop where
  table : Tabled s
  layout : Layout s.fs live s.inode
  small : s.fs.sfsSb.sbNblocks.toNat ≤ 2 ^ 23
  root : live sfsRootdirIno
  loaded : ∀ v sv, s.Here v sv → live sv.svIno
  named : ∀ i name ino, s.slots.At i name ino → live ino
  dir : (s.file sfsRootdirIno).Directory
  /-- There are no subdirectories, and the root directory has no name. -/
  files : ∀ i, live i → i ≠ sfsRootdirIno → (s.inode i).sfiType = sfsTypeFile
  rootless : ∀ i name, ¬ s.slots.At i name sfsRootdirIno
  rootLinks : s.links sfsRootdirIno ≠ 0
  /-- A clean inode is on the disk. -/
  saved : ∀ v sv, s.Here v sv → sv.svDirty = false → .ofSector (s.fs.sfsDevice.blocks sv.svIno) = sv.svI
  backed : Backed s.fs

/-- The files are the same, and have as many links. -/
structure Same (s t : Volume) (live : UInt32 → Prop) : Prop where
  contents : ∀ i, live i → i ≠ sfsRootdirIno → t.contents i = s.contents i
  links : ∀ i, live i → t.links i = s.links i

section Views

variable {s t : Volume} {live : UInt32 → Prop} {v u : Nat} {sv tv : SfsVnode} {i j : UInt32}

theorem Tabled.here (h : Tabled s) (there : s.vnode v = some sv) : s.Here v sv :=
  ⟨(h.there v).mpr ⟨sv, there⟩, there⟩

theorem Tabled.loaded_some (h : Tabled s) : s.loaded i = some sv ↔ ∃ v, s.Here v sv ∧ sv.svIno = i := by
  unfold Volume.loaded
  constructor
  · intro found
    obtain ⟨v, member, is⟩ := List.exists_of_findSome?_eq_some found
    obtain ⟨there, same⟩ := Option.filter_eq_some_iff.mp is
    exact ⟨v, ⟨member, there⟩, by simpa using same⟩
  · rintro ⟨v, ⟨member, there⟩, same⟩
    cases found : s.fs.sfsVnodes.findSome? fun v => (s.vnode v).filter fun sv => sv.svIno = i with
    | none =>
      have absent := List.findSome?_eq_none_iff.mp found v member
      rw [there, Option.filter_eq_none_iff] at absent
      exact absurd (decide_eq_true same) (absent sv rfl)
    | some tv =>
      obtain ⟨u, other, is⟩ := List.exists_of_findSome?_eq_some found
      obtain ⟨there', same'⟩ := Option.filter_eq_some_iff.mp is
      have ino : tv.svIno = i := by simpa using same'
      have one := h.apart v u sv tv ⟨member, there⟩ ⟨other, there'⟩ (same.trans ino.symm)
      rw [one, there'] at there
      exact there

theorem Tabled.loaded_none (h : Tabled s) : s.loaded i = none ↔ ∀ v sv, s.Here v sv → sv.svIno ≠ i := by
  rw [Option.eq_none_iff_forall_ne_some]
  constructor
  · intro absent v sv here same
    exact absent sv (h.loaded_some.mpr ⟨v, here, same⟩)
  · rintro absent sv found
    obtain ⟨v, here, same⟩ := h.loaded_some.mp found
    exact absent v sv here same

theorem Tabled.inode (h : Tabled s) (here : s.Here v sv) : s.inode sv.svIno = sv.svI := by
  unfold Volume.inode
  rw [h.loaded_some.mpr ⟨v, here, rfl⟩]
  rfl

theorem Tabled.inode_disk (h : Tabled s) (absent : ∀ v sv, s.Here v sv → sv.svIno ≠ i) :
    s.inode i = .ofSector (s.fs.sfsDevice.blocks i) := by
  unfold Volume.inode
  rw [h.loaded_none.mpr absent]
  rfl

/-- A vnode is in memory, or the inode is on the disk alone. -/
theorem Tabled.here_or (_ : Tabled s) (i : UInt32) :
    (∃ v sv, s.Here v sv ∧ sv.svIno = i) ∨ ∀ v sv, s.Here v sv → sv.svIno ≠ i := by
  by_cases here : ∃ v sv, s.Here v sv ∧ sv.svIno = i
  · exact .inl here
  · exact .inr fun v sv there same => here ⟨v, sv, there, same⟩

theorem Same.refl (s : Volume) (live : UInt32 → Prop) : Same s s live := ⟨fun _ _ _ => rfl, fun _ _ => rfl⟩

theorem Same.trans {r : Volume} (first : Same r s live) (second : Same s t live) : Same r t live :=
  ⟨fun i here other => (second.contents i here other).trans (first.contents i here other),
    fun i here => (second.links i here).trans (first.links i here)⟩

theorem Same.mono {live' : UInt32 → Prop} (same : Same s t live) (less : ∀ i, live' i → live i) :
    Same s t live' :=
  ⟨fun i here => same.contents i (less i here), fun i here => same.links i (less i here)⟩

theorem SameFile.contents {inode : Dinode} {fs fs' : SfsFs} (same : SameFile inode fs fs') :
    (inode.on fs').contents = (inode.on fs).contents := by
  unfold File.contents
  rw [same.bytes]
  rfl

theorem SameFile.slots {inode : Dinode} {fs fs' : SfsFs} (same : SameFile inode fs fs') :
    (inode.on fs').slots = (inode.on fs).slots := by
  unfold File.slots File.direntry
  rw [same.bytes]
  rfl

/-- A file with the same inode and the same blocks. -/
theorem same_file (inode : t.inode i = s.inode i) (same : SameFile (s.inode i) s.fs t.fs) :
    t.contents i = s.contents i ∧ t.links i = s.links i ∧ (t.file i).slots = (s.file i).slots := by
  unfold Volume.contents Volume.links Volume.file
  rw [inode]
  exact ⟨same.contents, rfl, same.slots⟩

end Views

/-! ### A call for one vnode -/

/-- What a call for one vnode leaves of a volume: the inode is that of `g`, and the rest stays. -/
structure Touch (s : Volume) (live : UInt32 → Prop) (sv : SfsVnode) (g : File) : Prop where
  ino : g.sv.svIno = sv.svIno
  refcount : g.sv.vnRefcount = sv.vnRefcount
  opencount : g.sv.vnOpencount = sv.vnOpencount
  type : g.sv.svI.sfiType = sv.svI.sfiType
  layout : Layout g.fs live (Function.update s.inode sv.svIno g.sv.svI)
  elsewhere : Elsewhere s.fs g.fs live s.inode sv.svIno
  saved : g.sv.svDirty = false → .ofSector (g.fs.sfsDevice.blocks sv.svIno) = g.sv.svI

/-- The volume after a call for the vnode of one inode. -/
structure Touched (s t : Volume) (live : UInt32 → Prop) (i : UInt32) : Prop where
  table : Tabled t
  layout : Layout t.fs live t.inode
  sb : t.fs.sfsSb = s.fs.sfsSb
  others : ∀ j, live j → j ≠ i → t.inode j = s.inode j ∧ SameFile (s.inode j) s.fs t.fs
  loaded : ∀ v sv, t.Here v sv → live sv.svIno
  saved : ∀ v sv, t.Here v sv → sv.svDirty = false → .ofSector (t.fs.sfsDevice.blocks sv.svIno) = sv.svI
  type : (t.inode i).sfiType = (s.inode i).sfiType
  refs : t.refs = s.refs
  handle : t.handle = s.handle
  backed : Backed t.fs

section Touch

variable {s t : Volume} {live : UInt32 → Prop} {v u : Nat} {sv tv : SfsVnode} {f g : File} {i j : UInt32}

theorem Volume.withVnode_vnode : (s.withVnode v sv).vnode u = if u = v then some sv else s.vnode u :=
  Function.update_apply ..

theorem Volume.withVnode_here (member : v ∈ s.fs.sfsVnodes) :
    (s.withVnode v sv).Here u tv ↔ u = v ∧ tv = sv ∨ u ≠ v ∧ s.Here u tv := by
  unfold Volume.Here
  rw [Volume.withVnode_vnode]
  by_cases same : u = v
  · subst same
    rw [if_pos rfl, Option.some_inj]
    constructor
    · rintro ⟨-, rfl⟩
      exact .inl ⟨rfl, rfl⟩
    · rintro (⟨-, rfl⟩ | ⟨other, -⟩)
      · exact ⟨member, rfl⟩
      · exact absurd rfl other
  · rw [if_neg same]
    constructor
    · intro there
      exact .inr ⟨same, there⟩
    · rintro (⟨is, -⟩ | ⟨-, there⟩)
      · exact absurd is same
      · exact there

theorem Touch.touched (h : Books s live) (here : s.Here v sv) (touch : Touch s live sv g) :
    Touched s (s.withFile v g) live sv.svIno ∧ (s.withFile v g).inode sv.svIno = g.sv.svI := by
  unfold Volume.withFile
  have vnodes := touch.elsewhere.vnodes
  have member : v ∈ (s.withFs g.fs).fs.sfsVnodes := vnodes ▸ here.1
  -- who is in memory
  have cases' {u : Nat} {tv : SfsVnode} (there : ((s.withFs g.fs).withVnode v g.sv).Here u tv) :
      u = v ∧ tv = g.sv ∨ u ≠ v ∧ s.Here u tv := by
    obtain same | ⟨other, member', there⟩ := (Volume.withVnode_here member).mp there
    · exact .inl same
    · exact .inr ⟨other, vnodes ▸ member', there⟩
  have self : ((s.withFs g.fs).withVnode v g.sv).Here v g.sv :=
    (Volume.withVnode_here member).mpr (.inl ⟨rfl, rfl⟩)
  have other {u : Nat} {tv : SfsVnode} (different : u ≠ v) (there : s.Here u tv) :
      ((s.withFs g.fs).withVnode v g.sv).Here u tv :=
    (Volume.withVnode_here member).mpr (.inr ⟨different, vnodes.symm ▸ there.1, there.2⟩)
  have before {u : Nat} {tv : SfsVnode} (there : ((s.withFs g.fs).withVnode v g.sv).Here u tv) :
      ∃ sv', s.Here u sv' ∧ tv.svIno = sv'.svIno ∧ tv.vnRefcount = sv'.vnRefcount ∧
        tv.vnOpencount = sv'.vnOpencount := by
    obtain ⟨rfl, rfl⟩ | ⟨-, there⟩ := cases' there
    · exact ⟨sv, here, touch.ino, touch.refcount, touch.opencount⟩
    · exact ⟨tv, there, rfl, rfl, rfl⟩
  have table : Tabled ((s.withFs g.fs).withVnode v g.sv) := by
    refine ⟨?_, fun u => ?_, fun a b sa sb first second same => ?_, fun u tv there => ?_, fun u tv there => ?_⟩
    · exact vnodes.symm ▸ h.table.nodup
    · change u ∈ g.fs.sfsVnodes ↔ _
      rw [vnodes, h.table.there]
      by_cases same : u = v
      · subst same
        exact iff_of_true ⟨sv, here.2⟩ ⟨g.sv, self.2⟩
      · rw [Volume.withVnode_vnode, if_neg same]
        rfl
    · obtain ⟨sa', first', ino, -⟩ := before first
      obtain ⟨sb', second', ino', -⟩ := before second
      exact h.table.apart a b sa' sb' first' second' (ino.symm.trans (same.trans ino'))
    · obtain ⟨sv', there', -, count, -⟩ := before there
      exact count ▸ h.table.refcount u sv' there'
    · obtain ⟨sv', there', -, -, count⟩ := before there
      exact count ▸ h.table.opencount u sv' there'
  have inode : ((s.withFs g.fs).withVnode v g.sv).inode sv.svIno = g.sv.svI := by
    rw [← touch.ino]
    exact table.inode self
  have inodes (j : UInt32) (there : live j) (different : j ≠ sv.svIno) :
      ((s.withFs g.fs).withVnode v g.sv).inode j = s.inode j := by
    obtain ⟨u, tv, there', same⟩ | absent := h.table.here_or j
    · have apart : u ≠ v := by
        rintro rfl
        have one := here.2.symm.trans there'.2
        cases one
        exact different same.symm
      rw [← same, h.table.inode there', table.inode (other apart there')]
    · rw [h.table.inode_disk absent, table.inode_disk]
      · exact congrArg Dinode.ofSector (touch.elsewhere.inodes j there different)
      · intro u tv there'
        obtain ⟨sv', there', ino, -⟩ := before there'
        exact ino ▸ absent u sv' there'
  refine ⟨⟨table, ?_, touch.elsewhere.sb, fun j there different =>
    ⟨inodes j there different, touch.elsewhere.files j there different⟩, fun u tv there => ?_,
    fun u tv there clean => ?_, ?_, ?_, ?_, ?_⟩, inode⟩
  · refine touch.layout.congr (fun _ => Iff.rfl) fun j there => ?_
    by_cases same : j = sv.svIno
    · rw [same, Function.update_self, inode]
    · rw [Function.update_of_ne same, inodes j there same]
  · obtain ⟨sv', there', ino, -⟩ := before there
    exact ino ▸ h.loaded u sv' there'
  · obtain ⟨rfl, rfl⟩ | ⟨different, there⟩ := cases' there
    · rw [touch.ino]
      exact touch.saved clean
    · have apart : tv.svIno ≠ sv.svIno := fun same => different (h.table.apart u v tv sv there here same)
      rw [← h.saved u tv there clean]
      exact congrArg Dinode.ofSector (touch.elsewhere.inodes _ (h.loaded u tv there) apart)
  · rw [inode, h.table.inode here]
    exact touch.type
  · funext u
    unfold Volume.refs
    rw [Volume.withVnode_vnode]
    split
    · rename_i same
      rw [same, here.2]
      exact touch.refcount
    · rfl
  · funext u
    unfold Volume.handle
    rw [Volume.withVnode_vnode]
    split
    · rename_i same
      rw [same, here.2]
      exact congrArg some touch.ino
    · rfl
  · exact h.backed.kept touch.elsewhere.sb touch.elsewhere.dBlocks touch.elsewhere.marked touch.elsewhere.system

end Touch

/-! ### Inodes on the disk -/

/-- The upper half of a word with two numbers in it. -/
theorem upperHalf (upper lower : UInt16) :
    ((upper.toUInt32 <<< 16 ||| lower.toUInt32) >>> 16).toUInt16 = upper := by
  apply UInt16.toBitVec_inj.mp
  apply BitVec.eq_of_getLsbD_eq
  intro i below
  simp only [UInt32.toBitVec_toUInt16, UInt32.toBitVec_shiftRight, UInt32.toBitVec_or,
    UInt32.toBitVec_shiftLeft, UInt16.toBitVec_toUInt32]
  simp [-BitVec.setWidth_eq, BitVec.getLsbD_setWidth, BitVec.getLsbD_shiftLeft]
  grind

theorem lowerHalf (upper lower : UInt16) : (upper.toUInt32 <<< 16 ||| lower.toUInt32).toUInt16 = lower := by
  apply UInt16.toBitVec_inj.mp
  apply BitVec.eq_of_getLsbD_eq
  intro i below
  simp only [UInt32.toBitVec_toUInt16, UInt32.toBitVec_or, UInt32.toBitVec_shiftLeft,
    UInt16.toBitVec_toUInt32]
  simp [-BitVec.setWidth_eq, BitVec.getLsbD_setWidth]
  grind

/-- What is written to the block of an inode is what is read from it. -/
theorem Dinode.ofSector_toSector (inode : Dinode) : .ofSector inode.toSector = inode := by
  have words : sectorWords inode.toSector = inode.words := sectorWords_wordsSector inode.words
  have direct : (fun i : Fin 15 => inode.words ⟨i + 2, by omega⟩) = inode.sfiDirect := by
    funext i
    unfold Dinode.words
    dsimp only
    rw [if_neg (by omega), if_neg (by omega), dif_pos (by omega)]
    exact congrArg inode.sfiDirect (Fin.ext (Nat.add_sub_cancel ..))
  have waste : (fun i : Fin 110 => inode.words ⟨i + 18, by omega⟩) = inode.sfiWaste := by
    funext i
    unfold Dinode.words
    dsimp only
    rw [if_neg (by omega), if_neg (by omega), dif_neg (by omega), if_neg (by omega)]
    exact congrArg inode.sfiWaste (Fin.ext (Nat.add_sub_cancel ..))
  have halves : inode.words 1 = inode.sfiType.toUInt32 <<< 16 ||| inode.sfiLinkcount.toUInt32 := rfl
  unfold Dinode.ofSector
  rw [words, direct, waste, halves, upperHalf, lowerHalf]
  rfl
section Touch

variable {s t : Volume} {live : UInt32 → Prop} {v u : Nat} {sv tv : SfsVnode} {f g : File} {i j : UInt32}

/-- A call that keeps to its file. -/
theorem Touch.local (h : Books s live) (here : s.Here v sv) (keeps : Local ⟨s.fs, sv⟩ g) : Touch s live sv g := by
  obtain ⟨layout, elsewhere, disk⟩ := h.layout.local (f := ⟨s.fs, sv⟩) (h.loaded v sv here)
    (h.table.inode here).symm keeps
  refine ⟨keeps.frame.ino, keeps.frame.refcount, keeps.frame.opencount, keeps.frame.type, layout, elsewhere,
    fun clean => ?_⟩
  obtain ⟨was, same⟩ := keeps.frame.clean clean
  rw [same, ← h.saved v sv here was]
  exact congrArg Dinode.ofSector disk

/-- Inodes with the same blocks. -/
theorem Layout.blocks {fs : SfsFs} {inode : UInt32 → Dinode} {d : Dinode} (h : Layout fs live inode)
    (direct : d.sfiDirect = (inode i).sfiDirect) (indirect : d.sfiIndirect = (inode i).sfiIndirect) :
    Layout fs live (Function.update inode i d) ∧ (d.on fs).content = ((inode i).on fs).content := by
  have blockAt : (d.on fs).blockAt = ((inode i).on fs).blockAt := by
    funext k
    unfold File.blockAt File.entries Dinode.on
    rw [direct, indirect]
  have refers (x : UInt32) : (d.on fs).Refers x ↔ ((inode i).on fs).Refers x := by
    unfold File.Refers
    rw [blockAt]
    exact and_congr_right' (or_congr_right (Eq.congr_left indirect))
  refine ⟨⟨h.owned.congr (fun _ => Iff.rfl) fun o x => ?_, fun j there => ?_⟩, ?_⟩
  · cases o with
    | system => exact Iff.rfl
    | inode j => exact Iff.rfl
    | file j =>
      rw [owns_file, owns_file]
      by_cases same : j = i
      · subst same
        rw [Function.update_self]
        exact and_congr_right' (refers x)
      · rw [Function.update_of_ne same]
  · by_cases same : j = i
    · subst same
      have tree := h.trees j there
      rw [Function.update_self]
      refine ⟨tree.sound, ?_, ?_, ?_, ?_, ?_, ?_⟩
      · rw [blockAt]
        exact tree.inside
      · rw [blockAt]
        exact tree.marked
      · rw [blockAt]
        exact tree.distinct
      · intro present
        exact indirect ▸ tree.indirectInside (indirect ▸ present)
      · intro present
        exact indirect ▸ tree.indirectMarked (indirect ▸ present)
      · rw [blockAt]
        intro k mapped
        exact indirect ▸ tree.apart k mapped
    · rw [Function.update_of_ne same]
      exact h.trees j there
  · funext k
    unfold File.content
    rw [blockAt]
    rfl

theorem Elsewhere.refl (fs : SfsFs) (live : UInt32 → Prop) (inode : UInt32 → Dinode) (i : UInt32) :
    Elsewhere fs fs live inode i :=
  ⟨rfl, rfl, rfl, fun j _ _ => .refl (inode j) fs, fun _ _ _ => rfl, fun _ _ => rfl, .refl fs⟩

/-- The number of links changes. -/
theorem Touch.links (h : Books s live) (here : s.Here v sv) (n : UInt16) :
    Touch s live sv ⟨s.fs, sv.withLinks n⟩ := by
  have inode := h.table.inode here
  refine ⟨rfl, rfl, rfl, rfl, ?_, .refl .., dirtied⟩
  exact (h.layout.blocks (by rw [inode]; rfl) (by rw [inode]; rfl)).1

/-- The inode is written to the disk. -/
theorem Touch.sync (h : Books s live) (here : s.Here v sv) :
    Touch s live sv ⟨s.fs.withBlock sv.svIno sv.svI.toSector, sv.clean⟩ := by
  obtain ⟨layout, elsewhere, -⟩ := h.layout.write (h.loaded v sv here) sv.svI.toSector
  refine ⟨rfl, rfl, rfl, rfl, layout.congr (fun _ => Iff.rfl) fun j there => ?_, elsewhere, fun _ => ?_⟩
  · by_cases same : j = sv.svIno
    · rw [same, Function.update_self]
      exact (h.table.inode here).symm
    · rw [Function.update_of_ne same]
  · dsimp only
    rw [SfsFs.withBlock_self, Dinode.ofSector_toSector]
    rfl

theorem Touched.tree (touched : Touched s t live i) (here : live j) : (t.file j).Tree :=
  touched.layout.trees j here

/-- A call for a file that is not the root directory. -/
theorem Touched.file (h : Books s live) (touched : Touched s t live i) (other : i ≠ sfsRootdirIno) :
    Books t live ∧ t.slots = s.slots ∧
      ∀ j, live j → j ≠ i → t.contents j = s.contents j ∧ t.links j = s.links j := by
  have views (j : UInt32) (there : live j) (different : j ≠ i) :
      t.contents j = s.contents j ∧ t.links j = s.links j ∧ (t.file j).slots = (s.file j).slots := by
    obtain ⟨inode, same⟩ := touched.others j there different
    exact same_file inode same
  have slots : t.slots = s.slots := (views _ h.root (Ne.symm other)).2.2
  obtain ⟨rootInode, rootSame⟩ := touched.others _ h.root (Ne.symm other)
  refine ⟨⟨touched.table, touched.layout, touched.sb ▸ h.small, h.root, touched.loaded, slots ▸ h.named, ?_,
    fun j there different => ?_, slots ▸ h.rootless, ?_, touched.saved, touched.backed⟩, slots,
    fun j there different => ⟨(views j there different).1, (views j there different).2.1⟩⟩
  · have size : (t.file sfsRootdirIno).size = (s.file sfsRootdirIno).size :=
      congrArg (fun d : Dinode => d.sfiSize.toNat) rootInode
    refine ⟨touched.tree h.root, (congrArg Dinode.sfiType rootInode).trans h.dir.type, ?_, ?_, ?_⟩
    · rw [size]
      exact h.dir.whole
    · rw [size]
      exact h.dir.inside
    · have unique := h.dir.unique
      rw [← (views _ h.root (Ne.symm other)).2.2] at unique
      exact unique
  · by_cases same : j = i
    · rw [same, touched.type, ← same]
      exact h.files j there different
    · rw [(touched.others j there same).1]
      exact h.files j there different
  · have links := (views _ h.root (Ne.symm other)).2.1
    rw [links]
    exact h.rootLinks

/-- A call for the root directory, that names only inodes in use. -/
theorem Touched.root (h : Books s live) (touched : Touched s t live sfsRootdirIno)
    (dir : (t.file sfsRootdirIno).Directory) (links : t.links sfsRootdirIno = s.links sfsRootdirIno)
    (named : ∀ i name ino, t.slots.At i name ino → live ino ∧ ino ≠ sfsRootdirIno) :
    Books t live ∧ ∀ j, live j → j ≠ sfsRootdirIno → t.contents j = s.contents j ∧ t.links j = s.links j := by
  refine ⟨⟨touched.table, touched.layout, touched.sb ▸ h.small, h.root, touched.loaded,
    fun i name ino is => (named i name ino is).1, dir, fun j there different => ?_,
    fun i name is => (named i name _ is).2 rfl, links ▸ h.rootLinks, touched.saved, touched.backed⟩,
    fun j there different => ?_⟩
  · rw [(touched.others j there different).1]
    exact h.files j there different
  · obtain ⟨inode, same⟩ := touched.others j there different
    obtain ⟨contents, links, -⟩ := same_file inode same
    exact ⟨contents, links⟩

end Touch

end Os161.Sfs
