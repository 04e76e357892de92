import Os161.Sfs.Runs

/-!
# Syncing and mounting again

After `sfs_sync` the device holds all that a mount needs. A volume that is mounted from it has the names
and the files that were there, as long as every open file has a name.
-/

namespace Os161.Sfs

section Reload

variable {fs fs' : SfsFs} {live : UInt32 → Prop} {inode : UInt32 → Dinode} {s t : Volume} {i : UInt32}

/-- Another freemap with the same bits, and other blocks of the system. -/
theorem Layout.reload (h : Layout fs live inode) (sb : fs'.sfsSb = fs.sfsSb) (sound : fs'.Sound)
    (bits : ∀ x, x < fs.sfsSb.sbNblocks → fs'.sfsFreemap.bit x = fs.sfsFreemap.bit x)
    (blocks : ∀ x, ¬ fs.System x → fs'.sfsDevice.blocks x = fs.sfsDevice.blocks x) :
    Layout fs' live inode ∧ ∀ j, live j → SameFile (inode j) fs fs' := by
  have files (j : UInt32) (there : live j) : SameFile (inode j) fs fs' ∧ ((inode j).on fs').Tree := by
    refine h.kept there sound sb fun x refers => ⟨?_, blocks x fun system => ?_⟩
    · have used := h.used_lt (o := .file j) ⟨there, refers⟩
      rw [bits x used.1]
      exact used.2
    · have same := h.owned.apart (.file j) .system x ⟨there, refers⟩ system
      cases same
  refine ⟨⟨h.owned.congr (fun x => ?_) fun o x => ?_, fun j there => (files j there).2⟩,
    fun j there => (files j there).1⟩
  · unfold SfsFs.Used
    rw [sb]
    exact and_congr_right fun inside => by rw [bits x inside]
  · cases o with
    | system => exact SfsFs.system_congr sb
    | inode j => exact Iff.rfl
    | file j => exact and_congr_right fun there => (files j there).1.refers x

/-- The blocks of the system have been written. -/
theorem Books.written (h : Books s live) (sb : fs'.sfsSb = s.fs.sfsSb) (vnodes : fs'.sfsVnodes = s.fs.sfsVnodes)
    (freemap : fs'.sfsFreemap = s.fs.sfsFreemap) (dBlocks : fs'.sfsDevice.dBlocks = s.fs.sfsDevice.dBlocks)
    (blocks : ∀ x, ¬ s.fs.System x → fs'.sfsDevice.blocks x = s.fs.sfsDevice.blocks x) (backed : Backed fs') :
    Books (s.withFs fs') live ∧ (s.withFs fs').slots = s.slots ∧ Same s (s.withFs fs') live := by
  have sound : fs'.Sound := by
    obtain ⟨whole, covers, device, beyond, super⟩ := h.sound
    exact ⟨freemap ▸ whole, sb ▸ freemap ▸ covers, sb ▸ dBlocks ▸ device, sb ▸ freemap ▸ beyond, freemap ▸ super⟩
  obtain ⟨layout, files⟩ := h.layout.reload sb sound (fun x _ => by rw [freemap]) blocks
  have here {v : Nat} {sv : SfsVnode} : (s.withFs fs').Here v sv ↔ s.Here v sv := by
    unfold Volume.Here
    change v ∈ fs'.sfsVnodes ∧ _ ↔ _
    rw [vnodes]
    exact Iff.rfl
  have table : Tabled (s.withFs fs') := by
    refine ⟨?_, fun v => ?_, fun a b sa sb first second => ?_, fun v sv there => ?_, fun v sv there => ?_⟩
    · exact vnodes.symm ▸ h.table.nodup
    · change v ∈ fs'.sfsVnodes ↔ _
      rw [vnodes]
      exact h.table.there v
    · exact h.table.apart a b sa sb (here.mp first) (here.mp second)
    · exact h.table.refcount v sv (here.mp there)
    · exact h.table.opencount v sv (here.mp there)
  have disk (j : UInt32) (there : live j) : fs'.sfsDevice.blocks j = s.fs.sfsDevice.blocks j :=
    blocks j (h.layout.not_system there)
  have inodes (j : UInt32) (there : live j) : (s.withFs fs').inode j = s.inode j := by
    refine table.inode_eq (fun v sv there is => ?_) fun absent => ?_
    · rw [← is, h.table.inode (here.mp there)]
    · change Dinode.ofSector (fs'.sfsDevice.blocks j) = _
      rw [disk j there, h.table.inode_disk fun v sv there => absent v sv (here.mpr there)]
  obtain ⟨books, slots, same⟩ := h.rebuild table (layout.congr (fun _ => Iff.rfl) inodes) sb backed h.root
    (fun j there => .inl ⟨there, inodes j there, files j there⟩) (fun v sv there => h.loaded v sv (here.mp there))
    (fun v sv there clean => by
      rw [← h.saved v sv (here.mp there) clean]
      exact congrArg Dinode.ofSector (disk _ (h.loaded v sv (here.mp there))))
    h.named
  exact ⟨books, slots, same.mono fun _ there => ⟨there, there⟩⟩

end Reload

/-! ### `sfs_sync` -/

/-- A vnode whose inode is not on the disk yet. -/
def Volume.Dirty (s : Volume) (v : Nat) : Prop := ∃ sv, s.Here v sv ∧ sv.svDirty = true

section Sync

variable {s t : Volume} {live : UInt32 → Prop} {x : View} {v u : Nat} {ino : UInt32} {w : Replies}

theorem Good.fsync_clean (h : Good s live x) (fine : Fine w) (held : x.handle v = some ino) :
    Goes (vopFsync v) s w fun r t => r = .ok () ∧ Good t live x ∧ t.fs.sfsVnodes = s.fs.sfsVnodes ∧
      ∀ u, t.Dirty u → u ≠ v ∧ s.Dirty u := by
  obtain ⟨sv, here, -⟩ := h.looks.vnode held
  obtain ⟨g, n, goes, flushed, books, slots, same, refs, handle⟩ := h.looks.books.sync fine here
  refine .of_after fine (onVnode_eq here.2 ((Fallible.bind_ok (h.looks.books.vnodeCheck here w)).trans goes))
    ⟨rfl, ⟨⟨books, ?_, ?_, ?_, ?_, ?_⟩, h.linked, h.closed⟩, flushed.vnodes, ?_⟩
  · exact slots.trans h.looks.slots
  · exact fun i there => (same.links i there).trans (h.looks.links i there)
  · exact fun i there other => (same.contents i there other).trans (h.looks.contents i there other)
  · exact refs.trans h.looks.refs
  · exact handle.trans h.looks.handle
  · rintro u ⟨tv, there, dirty⟩
    have vnodes : g.fs.sfsVnodes = s.fs.sfsVnodes := flushed.vnodes
    have member : v ∈ (s.withFs g.fs).fs.sfsVnodes := vnodes ▸ here.1
    obtain ⟨rfl, rfl⟩ | ⟨other, listed, there⟩ := (Volume.withVnode_here member).mp there
    · rw [flushed.clean] at dirty
      cases dirty
    · exact ⟨other, tv, ⟨vnodes ▸ listed, there⟩, dirty⟩

/-- The loop leaves none of its vnodes dirty. -/
theorem Good.syncVnodes (h : Good s live x) (fine : Fine w) (l : List Nat) (each : ∀ v ∈ l, x.handle v ≠ none) :
    Goes (syncVnodes l) s w fun r t => r = .ok () ∧ Good t live x ∧ ∀ u, t.Dirty u → u ∉ l ∧ s.Dirty u := by
  induction l generalizing s w with
  | nil => exact goes_pure fine ⟨rfl, h, fun u dirty => ⟨List.not_mem_nil, dirty⟩⟩
  | cons v rest ih =>
    obtain ⟨ino, held⟩ := Option.ne_none_iff_exists'.mp (each v List.mem_cons_self)
    unfold Sfs.syncVnodes
    refine Goes.attempt (h.fsync_clean fine held) fun r t u fine' ends => ?_
    obtain ⟨-, good, -, less⟩ := ends
    refine (ih good fine' fun v member => each v (List.mem_cons_of_mem _ member)).mono fun r t' ends => ?_
    obtain ⟨rfl, good', less'⟩ := ends
    refine ⟨rfl, good', fun u dirty => ?_⟩
    obtain ⟨absent, before⟩ := less' u dirty
    obtain ⟨other, first⟩ := less u before
    exact ⟨fun member => (List.mem_cons.mp member).elim other absent, first⟩

/-- The freemap has been written. -/
theorem Good.freemapSynced (h : Good s live x) : Good (s.withFs s.fs.freemapSynced) live x ∧
    (s.withFs s.fs.freemapSynced).fs.sfsFreemapdirty = false := by
  have backed := h.looks.books.backed
  have inside := backed.inside
  have clean := @freemapSynced_clean s.fs
  obtain ⟨super, sb, dBlocks, freemap⟩ := @freemapSynced_super s.fs
  have vnodes : s.fs.freemapSynced.sfsVnodes = s.fs.sfsVnodes := by
    unfold SfsFs.freemapSynced
    split
    · rfl
    · rfl
  have blocksize : s.fs.freemapSynced.sfsDevice.dBlocksize = s.fs.sfsDevice.dBlocksize := by
    unfold SfsFs.freemapSynced
    split
    · rfl
    · rfl
  have away {y : UInt32} (other : ∀ j, j < (freemapblocks s.fs.sfsSb.sbNblocks).toNat → y ≠ 2 + UInt32.ofNat j) :=
    freemapSynced_blocks inside other
  have saved := (freemapSynced_saved inside).mpr fun was => ⟨was, backed.freemap was⟩
  have backed' : Backed s.fs.freemapSynced := by
    refine ⟨super.trans backed.super, ?_, sb ▸ backed.magic, blocksize.trans backed.blocksize,
      by rw [freemap, sb, backed.nbits], ?_, fun _ => saved.2⟩
    · rw [sb, away fun j below same => ?_]
      · exact backed.loads
      · have number := freemapNumber (k := j) (by have := inside.small; omega)
        rw [← same] at number
        have zero : (0 : UInt32).toNat = 0 := rfl
        omega
    · rw [sb]
      exact ⟨by rw [freemap]; exact inside.room, fun k above below => dBlocks ▸ inside.device k above below⟩
  obtain ⟨books, slots, same⟩ := h.looks.books.written sb vnodes freemap dBlocks
    (fun y system => away fun j below same => system (.inr ⟨j, below, same⟩)) backed'
  exact ⟨⟨⟨books, slots.trans h.looks.slots, fun i there => (same.links i there).trans (h.looks.links i there),
    fun i there other => (same.contents i there other).trans (h.looks.contents i there other), h.looks.refs,
    h.looks.handle⟩, h.linked, h.closed⟩, clean⟩

/-- `sfs_sync` leaves nothing dirty. -/
theorem Good.sync (h : Good s live x) (fine : Fine w) : Goes sfsSync s w fun r t => r = .ok () ∧ Good t live x ∧
    (∀ v, ¬ t.Dirty v) ∧ t.fs.sfsFreemapdirty = false := by
  have listed (v : Nat) (member : v ∈ s.fs.sfsVnodes) : x.handle v ≠ none := by
    obtain ⟨sv, there⟩ := (h.looks.books.table.there v).mp member
    rw [← h.looks.handle]
    unfold Volume.handle
    rw [there]
    simp
  have start : sfsSyncVnodes s w = Sfs.syncVnodes s.fs.sfsVnodes s w := Fallible.get_bind
  obtain ⟨r, t, u, goes, fine', rfl, good, less⟩ := h.syncVnodes fine s.fs.sfsVnodes listed
  rw [← start] at goes
  obtain ⟨good', clean⟩ := good.freemapSynced
  have nothing (v : Nat) : ¬ t.Dirty v := by
    intro dirty
    obtain ⟨absent, sv, there, -⟩ := less v dirty
    exact absent there.1
  have still (v : Nat) : ¬ (t.withFs t.fs.freemapSynced).Dirty v := by
    rintro ⟨sv, there, dirty⟩
    have here := (good.looks.books.table.here there.2)
    exact nothing v ⟨sv, here, dirty⟩
  unfold sfsSync Goes Fallible.Returns
  rw [Fallible.bind_ok goes]
  rcases sfsSyncFreemap_cases good.looks.books.backed.inside u with ⟨-, writes⟩ | ⟨⟨i, -, fails⟩, -⟩
  · rw [Fallible.bind_ok (onVolume_eq writes)]
    have super : sfsSyncSuperblock t.fs.freemapSynced (u.after (freemapWrites t.fs)) =
        .done (.ok (), t.fs.freemapSynced, u.after (freemapWrites t.fs)) := by
      unfold sfsSyncSuperblock
      have none : t.fs.freemapSynced.sfsSuperdirty = false := good'.looks.books.backed.super
      rw [Fallible.get_bind, none]
      rfl
    exact ⟨_, _, _, onVolume_eq super, fine'.after _, rfl, good', still, clean⟩
  · exact absurd (fine' i) fails

end Sync

/-! ### Mounting -/

section Mount

variable {s t : Volume} {live : UInt32 → Prop} {x : View} {a : Store} {fs : SfsFs} {j left : Nat} {w : Replies}

theorem freemapio_fine (h : FreemapInside fs j left) (fine : Fine w) : freemapioFrom .read j left fs w =
    .done (.ok (), fs.withFreemap { fs.sfsFreemap with v := freemapRead fs j left }, w.after left) := by
  obtain ⟨-, reads⟩ := freemapio_read h.room w
  have total : ∃ t v, freemapioFrom .read j left fs w = .done (.ok (), t, v) ∧ v = w.after left := by
    clear reads
    induction left generalizing fs j w with
    | zero => exact ⟨fs, w, rfl, rfl⟩
    | succ left ih =>
      have here := h.device j (Nat.le_refl _) (by omega)
      let data := fs.sfsDevice.blocks (2 + UInt32.ofNat j)
      let t := fs.withFreemap { fs.sfsFreemap with v := fs.sfsFreemap.v.fill (j * 512) data }
      have stores : storeBits fs.sfsFreemap (j * 512) data =
          .done { fs.sfsFreemap with v := fs.sfsFreemap.v.fill (j * 512) data } := by
        have room := h.room
        exact if_pos (by omega)
      have start : freemapioFrom .read j (left + 1) fs w = freemapioFrom .read (j + 1) left t w.answer.2 := by
        rw [freemapioFrom]
        dsimp only
        have answer : w.answer.1 = none := fine 0
        rw [Fallible.bind_ok (sfsReadblock_ok here answer), Fallible.lift_bind (a := ()) (t := t)]
        rw [stores]
        rfl
      obtain ⟨t', v, goes, is⟩ := ih (h.next (t := t) rfl rfl) (fine.after 1)
      refine ⟨t', v, start.trans goes, is.trans ?_⟩
      rw [Nat.add_comm, Replies.after_add]
  obtain ⟨t, v, goes, rfl⟩ := total
  obtain ⟨-, rfl⟩ := reads t _ goes
  exact goes

/-- The volume that a mount makes of a device. -/
def SfsFs.remounted (fs : SfsFs) : SfsFs where
  sfsSb := fs.sfsSb
  sfsSuperdirty := false
  sfsDevice := fs.sfsDevice
  sfsVnodes := []
  sfsFreemap := { fs.sfsFreemap with
    v := fun k => if k / 512 < (freemapblocks fs.sfsSb.sbNblocks).toNat then fs.sfsFreemap.v k else 0 }
  sfsFreemapdirty := false

theorem bitmapCreate_plenty (n : UInt32) : ∃ words, Bitmap.bitmapCreate (freemapbits n) true true =
    .done (some ⟨freemapbits n, words, fun _ => 0⟩) ∧ words.toNat = 512 * (freemapblocks n).toNat := by
  have blocks := freemapblocks_toNat n
  have range := (freemapbits n).toNat_lt
  have words : (divroundup (freemapbits n) 8).toNat = 512 * (freemapblocks n).toNat := by
    unfold divroundup
    rw [UInt32.toNat_div, UInt32.toNat_sub, UInt32.toNat_add]
    simp only [UInt32.reduceToNat]
    omega
  have even : ¬ freemapbits n / 8 < divroundup (freemapbits n) 8 := by
    rw [UInt32.lt_iff_toNat_lt, words, UInt32.toNat_div]
    simp only [UInt32.reduceToNat]
    omega
  refine ⟨_, ?_, words⟩
  unfold Bitmap.bitmapCreate
  dsimp only
  rw [if_neg (by simp), if_neg (by simp), if_neg even]
  rfl

theorem Good.mounts (h : Good s live x) (clean : s.fs.sfsFreemapdirty = false) (fine : Fine w)
    (sfsSb : Superblock) : ∃ v, sfsDomount s.fs.sfsDevice plenty sfsSb w = .done (.ok s.fs.remounted, v) := by
  have backed := h.looks.books.backed
  have sound := h.looks.books.sound
  have loads := backed.loads
  obtain ⟨words, creates, size⟩ := bitmapCreate_plenty s.fs.sfsSb.sbNblocks
  have bits : words = s.fs.sfsFreemap.words := by
    apply UInt32.toNat_inj.mp
    have blocks := freemapblocks_toNat s.fs.sfsSb.sbNblocks
    rw [size, sound.whole.words, UInt32.toNat_div, backed.nbits, ← blocks]
    simp only [UInt32.reduceToNat]
    omega
  have first : 0 < s.fs.sfsDevice.dBlocks :=
    UInt32.lt_of_lt_of_le (h.looks.books.layout.used_lt (o := .system) (.inl rfl)).1 sound.device
  let fs₀ : SfsFs := ⟨sfsSb, false, s.fs.sfsDevice, [], ⟨0, 0, fun _ => 0⟩, false⟩
  let fs₁ : SfsFs :=
    ⟨s.fs.sfsSb, false, s.fs.sfsDevice, [], ⟨freemapbits s.fs.sfsSb.sbNblocks, words, fun _ => 0⟩, false⟩
  have inside : FreemapInside fs₁ 0 (freemapblocks s.fs.sfsSb.sbNblocks).toNat :=
    ⟨by change _ ≤ words.toNat; omega, backed.inside.device⟩
  have magic : (fs₀.withSb (.ofSector (s.fs.sfsDevice.blocks 0))).sfsSb.sbMagic = sfsMagic :=
    (congrArg Superblock.sbMagic loads).trans backed.magic
  have answer : w.answer.1 = none := fine 0
  have reads : sfsReadblock 0 fs₀ w = .done (.ok (s.fs.sfsDevice.blocks 0), fs₀, w.answer.2) :=
    sfsReadblock_ok first answer
  have same : fs₁.withFreemap { fs₁.sfsFreemap with
      v := freemapRead fs₁ 0 (freemapblocks s.fs.sfsSb.sbNblocks).toNat } = s.fs.remounted := by
    have bytes : freemapRead fs₁ 0 (freemapblocks s.fs.sfsSb.sbNblocks).toNat = s.fs.remounted.sfsFreemap.v := by
      funext k
      unfold freemapRead SfsFs.remounted
      dsimp only
      rw [Nat.zero_add]
      by_cases below : k / 512 < (freemapblocks s.fs.sfsSb.sbNblocks).toNat
      · rw [if_pos ⟨Nat.zero_le _, below⟩, if_pos below]
        have place : k / 512 * 512 + k % 512 = k := by omega
        exact (congrFun (backed.freemap clean _ below) _).trans (congrArg s.fs.sfsFreemap.v place)
      · rw [if_neg fun both => below both.2, if_neg below]
    rw [bytes]
    unfold SfsFs.withFreemap SfsFs.remounted
    dsimp only [fs₁]
    rw [bits, backed.nbits]
  have goes : loadVolume plenty fs₀ w = .done (.ok (), s.fs.remounted,
      w.answer.2.after (freemapblocks s.fs.sfsSb.sbNblocks).toNat) := by
    unfold loadVolume
    rw [Fallible.bind_ok reads, Fallible.modify_bind, Fallible.get_bind, if_neg (not_not_intro magic),
      Fallible.modify_bind]
    have terminated : (fs₀.withSb (.ofSector (s.fs.sfsDevice.blocks 0))).withSb
        (fs₀.withSb (.ofSector (s.fs.sfsDevice.blocks 0))).sfsSb.terminated =
        { fs₀ with sfsSb := s.fs.sfsSb } := by
      rw [← loads]
      rfl
    rw [terminated, Fallible.lift_bind (a := some ⟨freemapbits s.fs.sfsSb.sbNblocks, words, fun _ => 0⟩)
      (t := { fs₀ with sfsSb := s.fs.sfsSb })]
    · dsimp only
      rw [Fallible.modify_bind]
      unfold sfsFreemapio
      rw [Fallible.get_bind, ← same]
      exact freemapio_fine inside (fine.after 1)
    · change (Bitmap.bitmapCreate (freemapbits s.fs.sfsSb.sbNblocks) true true >>= _) = _
      rw [creates]
      rfl
  refine ⟨w.answer.2.after (freemapblocks s.fs.sfsSb.sbNblocks).toNat, ?_⟩
  unfold sfsDomount
  rw [if_neg (not_not_intro backed.blocksize)]
  change (loadVolume plenty fs₀ w >>= _) = _
  rw [goes]
  rfl

/-- The volume after the mount, with no vnode in memory. -/
def Volume.mounted (fs : SfsFs) : Volume := ⟨fs, fun _ => none⟩

end Mount

/-! ### After a run -/

section Runs

variable {Space User : Type} [DecidableEq Space] {copy : UserCopy User} {byte : User → Bytes}
variable {s t : Volume} {a : Store} {ops : List (Call Space User × Replies)} {w w' : Replies}
variable {answers : List (Except Errno (Answer Space User))}

end Runs

end Os161.Sfs
