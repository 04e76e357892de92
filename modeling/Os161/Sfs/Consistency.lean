import Os161.Sfs.Inode

/-!
# The freemap and the block tree when the device fails

What agrees on a volume is the freemap, the inode in memory and the indirect block on the device. After
an error they still have to.
-/

namespace Os161.Sfs

/-- The inode in memory or the indirect block on the device refers to a block. -/
def File.Refers (f : File) (x : UInt32) : Prop :=
  x ≠ 0 ∧ ((∃ k, f.blockAt k = x) ∨ f.sv.svI.sfiIndirect = x)

/-- The blocks in use are those of the file and those that something else on the volume has. -/
structure Consistent (others : UInt32 → Prop) (f : File) : Prop where
  tree : f.Tree
  used : ∀ x, x < f.fs.sfsSb.sbNblocks → f.fs.sfsFreemap.bit x = true → f.Refers x ∨ others x
  apart : ∀ x, others x → f.fs.sfsFreemap.bit x = true ∧ ¬ f.Refers x

/-- No block is referred to and free, no block is in use for nothing, and a later `sfs_bmap` does not
panic. -/
structure Agrees (others : UInt32 → Prop) (f : File) : Prop where
  referred : ∀ x, f.Refers x → f.fs.sfsFreemap.bit x = true
  used : ∀ x, x < f.fs.sfsSb.sbNblocks → f.fs.sfsFreemap.bit x = true → f.Refers x ∨ others x
  later : ∀ fileblock doalloc w, sfsBmap fileblock doalloc f w ≠ .panic

section Consistent

variable {others : UInt32 → Prop} {f g : File} {block : UInt32} {b : UInt32} {w : Replies} {k n : Nat}

theorem File.Tree.referred (h : f.Tree) {x : UInt32} (refers : f.Refers x) :
    f.fs.sfsFreemap.bit x = true := by
  obtain ⟨nonzero, ⟨k, rfl⟩ | rfl⟩ := refers
  · exact h.marked k nonzero
  · exact h.indirectMarked nonzero

theorem Consistent.agrees (h : Consistent others f) : Agrees others f where
  referred _ := h.tree.referred
  used := h.used
  later fileblock doalloc w panics := by
    obtain ⟨r, g, m, goes, _⟩ := h.tree.bmap_exit fileblock doalloc w
    rw [panics] at goes
    cases goes

theorem File.Tree.not_refers (h : f.Tree) (fresh : f.fs.Fresh block) : ¬ f.Refers block := by
  intro refers
  have marked := h.referred refers
  rw [fresh.free] at marked
  cases marked

/-- The file gives some of its blocks up. -/
theorem Consistent.shrink (h : Consistent others f) {drops : UInt32 → Prop} (tree : g.Tree)
    (sb : g.fs.sfsSb = f.fs.sfsSb) (own : ∀ x, drops x → f.Refers x)
    (bits : ∀ x, g.fs.sfsFreemap.bit x = true ↔ f.fs.sfsFreemap.bit x = true ∧ ¬ drops x)
    (refers : ∀ x, g.Refers x ↔ f.Refers x ∧ ¬ drops x) : Consistent others g where
  tree := tree
  used x inside marked := by
    rw [sb] at inside
    obtain ⟨marked, kept⟩ := (bits x).mp marked
    exact (h.used x inside marked).imp_left fun refers' => (refers x).mpr ⟨refers', kept⟩
  apart x other := by
    obtain ⟨marked, apart⟩ := h.apart x other
    exact ⟨(bits x).mpr ⟨marked, fun drop => apart (own x drop)⟩, fun refers' => apart ((refers x).mp refers').1⟩

/-- The file gets a block. -/
theorem Consistent.grow (h : Consistent others f) (fresh : f.fs.Fresh block) (tree : g.Tree)
    (gains : Gains f g block) (refers : ∀ x, g.Refers x ↔ f.Refers x ∨ x = block) :
    Consistent others g where
  tree := tree
  used x inside marked := by
    rw [gains.sb] at inside
    rw [gains.bits, Bool.or_eq_true, decide_eq_true_iff] at marked
    rcases marked with marked | rfl
    · exact (h.used x inside marked).imp_left fun refers' => (refers x).mpr (.inl refers')
    · exact .inl ((refers _).mpr (.inr rfl))
  apart x other := by
    obtain ⟨marked, apart⟩ := h.apart x other
    refine ⟨by rw [gains.bits, marked, Bool.true_or], fun refers' => ?_⟩
    rcases (refers x).mp refers' with refers' | rfl
    · exact apart refers'
    · rw [fresh.free] at marked
      cases marked

theorem Consistent.gainIndirect (h : Consistent others f) (fresh : f.fs.Fresh block)
    (absent : f.sv.svI.sfiIndirect = 0) : Consistent others (f.gainIndirect block) := by
  apply h.grow fresh (h.tree.gainIndirect fresh absent) (gainIndirect_gains h.tree)
  intro x
  unfold File.Refers
  simp only [gainIndirect_blockAt absent fresh]
  have inode : (f.gainIndirect block).sv.svI.sfiIndirect = block := rfl
  rw [inode, absent]
  constructor
  · rintro ⟨nonzero, place | rfl⟩
    · exact .inl ⟨nonzero, .inl place⟩
    · exact .inr rfl
  · rintro (⟨nonzero, place | rfl⟩ | rfl)
    · exact ⟨nonzero, .inl place⟩
    · exact (nonzero rfl).elim
    · exact ⟨fresh.nonzero, .inr rfl⟩

theorem Consistent.dirty (h : Consistent others f) : Consistent others (f.withFs f.fs.freemapDirty) where
  tree := ⟨h.tree.sound.dirty, h.tree.inside, h.tree.marked, h.tree.distinct, h.tree.indirectInside,
    h.tree.indirectMarked, h.tree.apart⟩
  used := h.used
  apart := h.apart

theorem Consistent.refused {err : Errno} (h : Consistent others f) (refused : Refused f w err g n) :
    Consistent others g := by
  cases refused with
  | full => exact h
  | uncleared => exact h.dirty

theorem Consistent.atHand (h : Consistent others f) (hand : AtHand f w k g n) : Consistent others g := by
  cases hand with
  | direct => exact h
  | read => exact h
  | made _ absent fresh => exact h.gainIndirect fresh absent

/-- Which blocks the file refers to when the direct blocks have been cut. -/
theorem directCut_refers (h : f.Tree) (x : UInt32) :
    (f.directCut b).Refers x ↔ f.Refers x ∧ x ∉ f.doomedDirect b := by
  unfold File.Refers
  rw [mem_doomedDirect, directCut_indirect]
  constructor
  · rintro ⟨nonzero, ⟨k, rfl⟩ | rfl⟩
    · rw [directCut_blockAt] at nonzero
      split at nonzero
      · exact (nonzero rfl).elim
      · rename_i stays
        rw [directCut_blockAt, if_neg stays]
        refine ⟨⟨nonzero, .inl ⟨k, rfl⟩⟩, fun ⟨_, j, direct, gone, same⟩ => ?_⟩
        obtain rfl := h.distinct j k nonzero same
        exact stays ⟨direct, gone⟩
    · exact ⟨⟨nonzero, .inr rfl⟩, fun ⟨_, k, _, _, same⟩ => h.apart k (same ▸ nonzero) same⟩
  · rintro ⟨⟨nonzero, ⟨k, rfl⟩ | rfl⟩, stays⟩
    · refine ⟨nonzero, .inl ⟨k, ?_⟩⟩
      rw [directCut_blockAt, if_neg fun gone => stays ⟨nonzero, k, gone.1, gone.2, rfl⟩]
    · exact ⟨nonzero, .inr rfl⟩

theorem File.Tree.directCut (h : f.Tree) (b : UInt32) : (f.directCut b).Tree := by
  have kept : ∀ x, (f.directCut b).Refers x → x ∉ f.doomedDirect b := fun x refers =>
    ((directCut_refers h x).mp refers).2
  apply @h.shrink _ _ (· ∈ f.doomedDirect b) (h.sound.freedAll (h.freeDirect b)) directCut_same.sb
  · exact fun x marked stays => (directCut_bit x).mpr ⟨marked, stays⟩
  · intro k mapped
    refine ⟨?_, kept _ ⟨mapped, .inl ⟨k, rfl⟩⟩⟩
    rw [directCut_blockAt] at mapped ⊢
    split
    · rename_i gone
      rw [if_pos gone] at mapped
      exact (mapped rfl).elim
    · rfl
  · exact fun there => ⟨rfl, kept _ ⟨there, .inr rfl⟩⟩

theorem Consistent.directCut (h : Consistent others f) (b : UInt32) : Consistent others (f.directCut b) := by
  apply @h.shrink _ _ _ (· ∈ f.doomedDirect b) (h.tree.directCut b) directCut_same.sb
  · intro x member
    obtain ⟨nonzero, k, _, _, at_⟩ := mem_doomedDirect.mp member
    exact ⟨nonzero, .inl ⟨k, at_⟩⟩
  · exact directCut_bit
  · exact directCut_refers h.tree

theorem truncated_refers (h : f.Tree) (x : UInt32) :
    (f.truncated b).Refers x ↔ f.Refers x ∧ ¬ f.Drops b x := by
  constructor
  · rintro ⟨nonzero, ⟨k, rfl⟩ | rfl⟩
    · refine ⟨⟨nonzero, .inl ⟨k, ?_⟩⟩, h.not_drops nonzero (.inl ⟨k, rfl⟩)⟩
      exact (truncated_kept nonzero).symm
    · exact ⟨⟨nonzero, .inr (truncated_stays nonzero).symm⟩, h.not_drops nonzero (.inr rfl)⟩
  · rintro ⟨⟨nonzero, ⟨k, rfl⟩ | rfl⟩, stays⟩
    · refine ⟨nonzero, .inl ⟨k, ?_⟩⟩
      rw [truncated_blockAt]
      split
      · rfl
      · rename_i gone
        exact (stays ⟨nonzero, .inl ⟨k, Bool.not_eq_true _ ▸ gone, rfl⟩⟩).elim
    · refine ⟨nonzero, .inr ?_⟩
      rw [truncated_indirect]
      split
      · rename_i gone
        exact (stays ⟨nonzero, .inr ⟨gone.1, gone.2, rfl⟩⟩).elim
      · rfl

theorem Consistent.truncated (h : Consistent others f) (b : UInt32) :
    Consistent others (f.truncated b) := by
  apply @h.shrink _ _ _ (f.Drops b) (h.tree.truncated b) truncated_same.sb
  · rintro x ⟨nonzero, ⟨k, _, at_⟩ | ⟨_, _, at_⟩⟩
    · exact ⟨nonzero, .inl ⟨k, at_⟩⟩
    · exact ⟨nonzero, .inr at_⟩
  · exact truncated_bit
  · exact truncated_refers h.tree

/-! ### The one way to go wrong in each call -/

/-- There are blocks for `sfs_bmap` to allocate: one, and one for an indirect block that is missing. -/
def File.Room (f : File) : Prop :=
  ∃ i, f.fs.Fresh i ∧ (f.sv.svI.sfiIndirect = 0 → ∃ j, j ≠ i ∧ f.fs.Fresh j)

/-- The new block is in use, and the write of the indirect block that is to refer to it fails. -/
structure LosesBlock (f : File) (w : Replies) (k : Nat) (doalloc : Bool) : Prop where
  alloc : doalloc = true
  entry : 15 ≤ k
  inside : k < 143
  hole : f.blockAt k = 0
  room : f.Room
  first : w.nth 0 = none
  second : w.nth 1 = none
  fails : w.nth 2 ≠ none

/-- A block that the indirect block is to refer to, but does not. -/
theorem Consistent.leaks (h : Consistent others f) (fresh : f.fs.Fresh block) :
    ¬ Agrees others (f.withFs (f.fs.allocated block)) := by
  intro agrees
  have marked : (f.fs.allocated block).sfsFreemap.bit block = true := by
    rw [SfsFs.allocated_bit, decide_eq_true rfl, Bool.or_true]
  rcases agrees.used block fresh.inside marked with ⟨nonzero, ⟨k, at_⟩ | at_⟩ | other
  · have same : (f.withFs (f.fs.allocated block)).blockAt k = f.blockAt k := leak_blockAt h.tree fresh k
    rw [same] at at_
    exact h.tree.fresh fresh k at_
  · exact h.tree.fresh_indirect fresh at_
  · have marked := (h.apart block other).1
    rw [fresh.free] at marked
    cases marked

theorem Refused.nth {err : Errno} (refused : Refused f w err g n) (fresh : f.fs.Fresh block) : w.nth 0 ≠ none := by
  cases refused with
  | full full =>
    have marked := full block fresh.inside
    rw [fresh.free] at marked
    cases marked
  | uncleared _ fails =>
    rw [fails]
    exact nofun

/-- A block that is free besides the one that was allocated. -/
theorem SfsFs.Fresh.other {fs : SfsFs} {i : UInt32} (fresh : fs.Fresh i) (other : i ≠ block) :
    (fs.allocated block).Fresh i := by
  refine ⟨fresh.inside, ?_, fresh.nonzero⟩
  rw [SfsFs.allocated_bit, fresh.free, Bool.false_or, decide_eq_false_iff_not]
  exact other.symm

theorem SfsFs.Fresh.of_allocated {fs : SfsFs} {i : UInt32} (fresh : (fs.allocated block).Fresh i) :
    fs.Fresh i ∧ i ≠ block := by
  have free := fresh.free
  rw [SfsFs.allocated_bit, Bool.or_eq_false_iff, decide_eq_false_iff_not] at free
  exact ⟨⟨fresh.inside, free.1, fresh.nonzero⟩, fun same => free.2 same.symm⟩

/-- When the indirect block is at hand there is a block left to allocate. -/
theorem AtHand.room (entry : 15 ≤ k) (hand : AtHand f w k g n) :
    n = 1 ∧ w.nth 0 = none ∧ (f.Room ↔ ∃ i, g.fs.Fresh i) := by
  cases hand with
  | direct direct => omega
  | read _ there read =>
    refine ⟨rfl, read, fun ⟨i, fresh, _⟩ => ⟨i, fresh⟩, fun ⟨i, fresh⟩ => ⟨i, fresh, fun absent => ?_⟩⟩
    exact (there absent).elim
  | @made block _ absent fresh cleared =>
    refine ⟨rfl, cleared, fun ⟨i, fresh', more⟩ => ?_, fun ⟨i, fresh'⟩ => ?_⟩
    · obtain ⟨j, other, fresh''⟩ := more absent
      by_cases same : i = block
      · exact ⟨j, fresh''.other (same ▸ other)⟩
      · exact ⟨i, fresh'.other same⟩
    · obtain ⟨old, other⟩ := fresh'.of_allocated
      exact ⟨i, old, fun _ => ⟨block, other.symm, fresh⟩⟩

theorem BmapExit.agrees_iff {err : Errno} (h : Consistent others f)
    {doalloc : Bool} (exits : BmapExit f w k doalloc (.error err) g n) :
    Agrees others g ↔ ¬ LosesBlock f w k doalloc := by
  cases exits with
  | tooBig beyond =>
    refine iff_of_true h.agrees fun loses => ?_
    have inside := loses.inside
    omega
  | unread _ _ _ fails =>
    refine iff_of_true h.agrees fun loses => ?_
    rw [loses.first] at fails
    cases fails
  | unmade entry _ absent _ refused =>
    refine iff_of_true (h.refused refused).agrees fun loses => ?_
    obtain ⟨i, fresh, _⟩ := loses.room
    exact refused.nth fresh loses.first
  | unallocated _ _ _ hand refused =>
    refine iff_of_true ((h.atHand hand).refused refused).agrees fun loses => ?_
    obtain ⟨rfl, _, room⟩ := hand.room loses.entry
    obtain ⟨i, fresh⟩ := room.mp loses.room
    have fails := refused.nth fresh
    rw [← Replies.nth_add] at fails
    exact fails loses.second
  | lost entry inside hole alloc hand fresh cleared fails =>
    obtain ⟨rfl, first, room⟩ := hand.room entry
    refine iff_of_false ((h.atHand hand).leaks fresh) (not_not.mpr ?_)
    refine ⟨alloc, entry, inside, hole, room.mpr ⟨_, fresh⟩, first, cleared, ?_⟩
    rw [fails]
    exact nofun

/-- When nothing is kept there is nothing to write back. -/
theorem not_rewrites_zero : ¬ f.Rewrites 0 := by
  rintro ⟨⟨_, there⟩, ⟨j, nonzero⟩, _⟩
  rw [keptEntries_eq there] at nonzero
  have gone : keeps 0 (15 + j) = false := by
    unfold keeps
    rw [if_neg (by omega)]
    simp
  rw [gone] at nonzero
  exact nonzero rfl

/-- Erasing a file keeps the books, whatever the device does. -/
theorem Consistent.eraseFile (h : Consistent others f) :
    eraseFile.Ensures f w fun _ g _ => Consistent others g := by
  apply Fallible.ensures_get_bind.mpr
  split
  · apply Fallible.ensures_of
    intro r g v goes
    have zero : truncBlocklen 0 = 0 := by decide
    rcases h.tree.itrunc_cases 0 w with ⟨err, _, _, goes'⟩ | ⟨err, rewrites, _⟩ | ⟨_, _, n, goes'⟩
    · rw [goes] at goes'
      cases goes'
      exact h.directCut _
    · rw [zero] at rewrites
      exact (not_rewrites_zero rewrites).elim
    · rw [goes] at goes'
      cases goes'
      have cut := h.truncated (truncBlocklen 0)
      exact ⟨⟨cut.tree.sound, cut.tree.inside, cut.tree.marked, cut.tree.distinct, cut.tree.indirectInside,
        cut.tree.indirectMarked, cut.tree.apart⟩, cut.used, cut.apart⟩
  · exact Fallible.ensures_pure.mpr h

/-- A failing reclaim has not written its inode. -/
theorem Consistent.reclaimFile (h : Consistent others f) :
    reclaimFile.Ensures f w fun r g _ => ∀ err, r = .error err → Consistent others g := by
  refine Fallible.Ensures.bind h.eraseFile ?_ fun _ _ _ consistent _ _ => consistent
  intro _ g v consistent
  refine Fallible.Ensures.bind (P := fun r k _ => ∀ err, r = .error err → Consistent others k) ?_ ?_
    fun err _ _ failed _ _ => failed err rfl
  · apply Fallible.ensures_get_bind.mpr
    split
    · apply Fallible.Ensures.bind (P := fun r k _ => ∀ err, r = .error err → k = g)
      · apply onFs_ensures
        apply Fallible.ensures_of
        intro r fs u goes err failed
        subst failed
        by_cases inside : g.sv.svIno < g.fs.sfsDevice.dBlocks
        · rw [sfsWriteblock_eq inside] at goes
          split at goes <;> cases goes
          rfl
        · rw [sfsWriteblock_outside inside] at goes
          cases goes
      · exact fun _ _ _ _ => Fallible.ensures_modify.mpr nofun
      · intro err k _ same _ _
        rw [same err rfl]
        exact consistent
    · exact Fallible.ensures_pure.mpr nofun
  · intro _ k u _
    apply (discardInode_ensures (f := k) (w := u)).mono
    rintro r _ _ ⟨rfl, _⟩
    exact nofun

end Consistent

/-! ### The calls on a volume -/

/-- The calls in which the device can fail. -/
inductive FileOp where
  | bmap (fileblock : UInt32) (doalloc : Bool)
  | itrunc (len : Int)
  | balloc
  | makeobj (type : UInt16) (mallocs : LoadMallocs)
  | reclaim

namespace FileOp

/-- The call, for the vnode at an address. -/
def run (v : Nat) : FileOp → Fallible Errno Replies Volume Unit
  | bmap fileblock doalloc => do
    let _ ← onVnode v (sfsBmap fileblock doalloc)
    return
  | itrunc len => onVnode v (sfsItrunc len)
  | balloc => do
    let _ ← onVolume sfsBalloc
    return
  | makeobj type mallocs => do
    let _ ← sfsMakeobj type mallocs
    return
  | reclaim => sfsReclaim v

end FileOp

section Volume

variable {others : UInt32 → Prop} {s t : Volume} {v : Nat} {sv : SfsVnode} {w u : Replies}

/-- A block that is allocated and freed again. -/
theorem Consistent.undone {f : File} {block : UInt32} (h : Consistent others f) (fresh : f.fs.Fresh block) :
    Consistent others (f.withFs ((f.fs.allocated block).freed block)) := by
  have bits : ∀ x, ((f.fs.allocated block).freed block).sfsFreemap.bit x = f.fs.sfsFreemap.bit x := by
    intro x
    rw [SfsFs.freed_bit, SfsFs.allocated_bit]
    by_cases same : block = x
    · rw [← same, fresh.free, decide_eq_false (not_not.mpr rfl), Bool.and_false]
    · rw [decide_eq_false same, decide_eq_true same, Bool.or_false, Bool.and_true]
  have places : ∀ k, (f.withFs ((f.fs.allocated block).freed block)).blockAt k = f.blockAt k :=
    leak_blockAt h.tree fresh
  have refers : ∀ x, (f.withFs ((f.fs.allocated block).freed block)).Refers x ↔ f.Refers x := by
    intro x
    unfold File.Refers
    simp only [places]
    rfl
  have tree : (f.withFs ((f.fs.allocated block).freed block)).Tree := by
    apply @h.tree.shrink _ (f.withFs ((f.fs.allocated block).freed block)) (fun _ => False) ((h.tree.sound.allocated block).freed fresh.inside fresh.nonzero) rfl
    · exact fun x marked _ => (bits x).trans marked
    · exact fun k _ => ⟨places k, id⟩
    · exact fun _ => ⟨rfl, id⟩
  apply @h.shrink _ _ (f.withFs ((f.fs.allocated block).freed block)) (fun _ => False) tree rfl nofun
  · exact fun x => by
      change ((f.fs.allocated block).freed block).sfsFreemap.bit x = true ↔ _
      rw [bits, not_false_eq_true, and_true]
  · exact fun x => by rw [refers, not_false_eq_true, and_true]

end Volume

end Os161.Sfs
