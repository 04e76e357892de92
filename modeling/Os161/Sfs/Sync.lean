import Os161.Sfs.Mount

/-!
# Syncing SFS

`sfs_sync_inode` of `sfs_inode.c`, and `sfs_sync` with its parts and `sfs_unmount` of `sfs_fsops.c`.
-/

namespace Os161.Sfs

/-- A volume and the vnodes of it at their addresses. -/
structure Volume where
  fs : SfsFs
  vnode : Nat → Option SfsVnode

def SfsVnode.clean (sv : SfsVnode) : SfsVnode := { sv with svDirty := false }

namespace Volume

def withFs (s : Volume) (fs : SfsFs) : Volume := { s with fs := fs }

def withVnode (s : Volume) (v : Nat) (sv : SfsVnode) : Volume :=
  { s with vnode := Function.update s.vnode v (some sv) }

end Volume

/-- A function of a vnode, given the vnode's address. -/
def onVnode {α : Type} (v : Nat) (x : Fallible Errno Replies File α) :
    Fallible Errno Replies Volume α := fun s w => do
  let sv ← Outcome.deref (s.vnode v)
  let (r, f, w) ← x ⟨s.fs, sv⟩ w
  return (r, (s.withFs f.fs).withVnode v f.sv, w)

/-- A function of `struct sfs_fs` in a function of the whole volume. -/
def onVolume {α : Type} (x : Fallible Errno Replies SfsFs α) : Fallible Errno Replies Volume α :=
  .within Volume.fs Volume.withFs x

def sfsSyncInode : Fallible Errno Replies File Unit := do
  let f ← .get
  if f.sv.svDirty then do
    onFs (sfsWriteblock f.sv.svIno f.sv.svI.toSector)
    .modify fun f => f.withSv f.sv.clean
  else return

/-- `vnode_check`, for all operations but `vop_reclaim`. -/
def vnodeCheck : Fallible Errno Replies File Unit := do
  let f ← .get
  .kassert (0 < f.sv.vnRefcount)
  .kassert (0 ≤ f.sv.vnOpencount)

/-- `VOP_FSYNC`, which is `sfs_fsync`. -/
def vopFsync (v : Nat) : Fallible Errno Replies Volume Unit :=
  onVnode v do
    vnodeCheck
    sfsSyncInode

/-- The loop of `sfs_sync_vnodes`, over the vnodes that are left. -/
def syncVnodes : List Nat → Fallible Errno Replies Volume Unit
  | [] => return
  | v :: rest => do
    let _ ← (vopFsync v).attempt
    syncVnodes rest

def sfsSyncVnodes : Fallible Errno Replies Volume Unit := do
  let s ← .get
  syncVnodes s.fs.sfsVnodes

def sfsSyncFreemap : Fallible Errno Replies SfsFs Unit := do
  let fs ← .get
  if fs.sfsFreemapdirty then do
    sfsFreemapio .write
    .modify fun fs => { fs with sfsFreemapdirty := false }
  else return

def sfsSyncSuperblock : Fallible Errno Replies SfsFs Unit := do
  let fs ← .get
  if fs.sfsSuperdirty then do
    sfsWriteblock 0 fs.sfsSb.toSector
    .modify fun fs => { fs with sfsSuperdirty := false }
  else return

def sfsSync : Fallible Errno Replies Volume Unit := do
  sfsSyncVnodes
  onVolume sfsSyncFreemap
  onVolume sfsSyncSuperblock

/-- `sfs_unmount` up to where it destroys the volume. -/
def sfsUnmount : Fallible Errno Replies Volume Unit := do
  let s ← .get
  if s.fs.sfsVnodes ≠ [] then .fail .ebusy
  else do
    .kassert (s.fs.sfsSuperdirty = false)
    .kassert (s.fs.sfsFreemapdirty = false)

/-! ### What is on the device -/

def FreemapSaved (fs : SfsFs) : Prop :=
  fs.sfsFreemapdirty = false ∧ ∀ j, j < (freemapblocks fs.sfsSb.sbNblocks).toNat →
    fs.sfsDevice.blocks (2 + UInt32.ofNat j) = fs.sfsFreemap.v.slice (j * 512) 512

def SuperSaved (fs : SfsFs) : Prop :=
  fs.sfsSuperdirty = false ∧ fs.sfsDevice.blocks 0 = fs.sfsSb.toSector

/-- A vnode that is loaded: it is in use, and its block is one that inodes can have. -/
structure Loaded (fs : SfsFs) (sv : SfsVnode) : Prop where
  refcount : 0 < sv.vnRefcount
  opencount : 0 ≤ sv.vnOpencount
  device : sv.svIno < fs.sfsDevice.dBlocks
  super : sv.svIno ≠ 0
  freemap : ∀ j, j < (freemapblocks fs.sfsSb.sbNblocks).toNat → sv.svIno ≠ 2 + UInt32.ofNat j

/-- A mounted volume with any set of loaded vnodes. -/
structure Mounted (s : Volume) : Prop where
  loaded : ∀ v ∈ s.fs.sfsVnodes, ∃ sv, s.vnode v = some sv ∧ Loaded s.fs sv
  distinct : s.fs.sfsVnodes.Nodup
  apart : ∀ v ∈ s.fs.sfsVnodes, ∀ v' ∈ s.fs.sfsVnodes, ∀ sv sv', s.vnode v = some sv →
    s.vnode v' = some sv' → sv.svIno = sv'.svIno → v = v'
  freemap : FreemapInside s.fs 0 (freemapblocks s.fs.sfsSb.sbNblocks).toNat
  super : 0 < s.fs.sfsDevice.dBlocks

/-! ### The vnodes -/

section Vnodes

variable {s t : Volume} {w : Replies} {v : Nat} {sv : SfsVnode} {l rest : List Nat}

theorem Volume.withVnode_self (here : s.vnode v = some sv) : s.withVnode v sv = s := by
  unfold Volume.withVnode
  rw [← here, Function.update_eq_self]

theorem vnodeCheck_loaded {f : File} (loaded : Loaded f.fs f.sv) (w : Replies) :
    vnodeCheck f w = .done (.ok (), f, w) := by
  unfold vnodeCheck
  rw [Fallible.get_bind, Fallible.kassert_bind loaded.refcount]
  exact if_pos loaded.opencount

/-- The volume after the inode of a dirty vnode has been written. -/
def Volume.inodeWritten (s : Volume) (v : Nat) (sv : SfsVnode) : Volume :=
  (s.withFs (s.fs.withBlock sv.svIno sv.svI.toSector)).withVnode v sv.clean

theorem onVolume_eq {α : Type} {x : Fallible Errno Replies SfsFs α} {r : Except Errno α} {fs : SfsFs}
    {y : Replies} (goes : x s.fs w = .done (r, fs, y)) : onVolume x s w = .done (r, s.withFs fs, y) :=
  Fallible.within_eq goes

theorem onVnode_eq {α : Type} {x : Fallible Errno Replies File α} {r : Except Errno α} {f : File}
    {y : Replies} (here : s.vnode v = some sv) (goes : x ⟨s.fs, sv⟩ w = .done (r, f, y)) :
    onVnode v x s w = .done (r, (s.withFs f.fs).withVnode v f.sv, y) := by
  unfold onVnode
  rw [Outcome.deref_bind here, goes]
  rfl

theorem sfsSyncInode_clean {f : File} (clean : f.sv.svDirty = false) :
    sfsSyncInode f w = .done (.ok (), f, w) := by
  unfold sfsSyncInode
  rw [Fallible.get_bind, clean]
  rfl

theorem sfsSyncInode_ok {f : File} (dirty : f.sv.svDirty = true) (inside : f.sv.svIno < f.fs.sfsDevice.dBlocks)
    (ok : w.answer.1 = none) : sfsSyncInode f w =
      .done (.ok (), ⟨f.fs.withBlock f.sv.svIno f.sv.svI.toSector, f.sv.clean⟩, w.answer.2) := by
  unfold sfsSyncInode
  rw [Fallible.get_bind, dirty, if_pos rfl]
  rw [Fallible.bind_ok (onFs_eq (sfsWriteblock_ok inside ok))]
  rfl

theorem sfsSyncInode_fails {f : File} {err : { err : Errno // err ≠ .einval }} (dirty : f.sv.svDirty = true)
    (inside : f.sv.svIno < f.fs.sfsDevice.dBlocks) (fails : w.answer.1 = some err) :
    sfsSyncInode f w = .done (.error err, f, w.answer.2) := by
  unfold sfsSyncInode
  rw [Fallible.get_bind, dirty, if_pos rfl]
  exact Fallible.bind_error (onFs_eq (sfsWriteblock_fails inside fails))

/-- `VOP_FSYNC` leaves a clean vnode alone, and writes a dirty one or fails. -/
theorem vopFsync_cases (here : s.vnode v = some sv) (loaded : Loaded s.fs sv) (w : Replies) :
    (sv.svDirty = false ∧ vopFsync v s w = .done (.ok (), s, w)) ∨
    (sv.svDirty = true ∧ w.answer.1 = none ∧
      vopFsync v s w = .done (.ok (), s.inodeWritten v sv, w.answer.2)) ∨
    (sv.svDirty = true ∧ ∃ err, w.answer.1 = some err ∧
      vopFsync v s w = .done (.error err, s, w.answer.2)) := by
  have check : vnodeCheck ⟨s.fs, sv⟩ w = .done (.ok (), ⟨s.fs, sv⟩, w) := vnodeCheck_loaded loaded w
  have same : (s.withFs s.fs).withVnode v sv = s := Volume.withVnode_self here
  cases dirty : sv.svDirty with
  | false =>
    left
    refine ⟨rfl, ?_⟩
    unfold vopFsync
    rw [onVnode_eq here ((Fallible.bind_ok check).trans (sfsSyncInode_clean dirty)), same]
  | true =>
    right
    cases answer : w.answer.1 with
    | none =>
      left
      refine ⟨rfl, rfl, ?_⟩
      unfold vopFsync
      rw [onVnode_eq here ((Fallible.bind_ok check).trans (sfsSyncInode_ok dirty loaded.device answer))]
      rfl
    | some err =>
      right
      refine ⟨rfl, err, rfl, ?_⟩
      unfold vopFsync
      rw [onVnode_eq here ((Fallible.bind_ok check).trans (sfsSyncInode_fails dirty loaded.device answer)),
        same]

/-- What `sfs_sync_vnodes` goes through. -/
structure Table (s : Volume) (l : List Nat) : Prop where
  loaded : ∀ v ∈ l, ∃ sv, s.vnode v = some sv ∧ Loaded s.fs sv
  distinct : l.Nodup
  apart : ∀ v ∈ l, ∀ v' ∈ l, ∀ sv sv', s.vnode v = some sv → s.vnode v' = some sv' →
    sv.svIno = sv'.svIno → v = v'

/-- What the loop over the vnodes of a list leaves. -/
structure Synced (s t : Volume) (l : List Nat) : Prop where
  fs : t.fs = s.fs.withBlocks t.fs.sfsDevice.blocks
  other : ∀ v, v ∉ l → t.vnode v = s.vnode v
  blocks : ∀ b, (∀ v ∈ l, ∀ sv, s.vnode v = some sv → sv.svDirty = true → sv.svIno ≠ b) →
    t.fs.sfsDevice.blocks b = s.fs.sfsDevice.blocks b
  each : ∀ v ∈ l, ∀ sv, s.vnode v = some sv → t.vnode v = some sv ∨
    (sv.svDirty = true ∧ t.vnode v = some sv.clean ∧ t.fs.sfsDevice.blocks sv.svIno = sv.svI.toSector)

/-- The dirty vnodes of a list. -/
def dirties (s : Volume) (l : List Nat) : Nat :=
  l.countP fun v => (s.vnode v).any SfsVnode.svDirty

theorem Loaded.frame {fs : SfsFs} {blocks : UInt32 → Sector} (h : Loaded fs sv) :
    Loaded (fs.withBlocks blocks) sv := ⟨h.refcount, h.opencount, h.device, h.super, h.freemap⟩

/-- A step that changes blocks and one vnode leaves the rest of the table. -/
theorem Table.tail {blocks : UInt32 → Sector} (h : Table s (v :: rest))
    (fs : t.fs = s.fs.withBlocks blocks) (others : ∀ v', v' ≠ v → t.vnode v' = s.vnode v') :
    Table t rest := by
  have distinct := List.nodup_cons.mp h.distinct
  have away : ∀ v' ∈ rest, v' ≠ v := fun v' member same => distinct.1 (same ▸ member)
  refine ⟨fun v' member => ?_, distinct.2, fun a ha b hb sv sv' first second same => ?_⟩
  · obtain ⟨sv, here, loaded⟩ := h.loaded v' (List.mem_cons_of_mem _ member)
    rw [others v' (away v' member), fs]
    exact ⟨sv, here, loaded.frame⟩
  · rw [others a (away a ha)] at first
    rw [others b (away b hb)] at second
    exact h.apart a (List.mem_cons_of_mem _ ha) b (List.mem_cons_of_mem _ hb) sv sv' first second same

theorem dirties_congr (same : ∀ v ∈ l, t.vnode v = s.vnode v) : dirties t l = dirties s l := by
  unfold dirties
  apply List.countP_congr
  intro v member
  rw [same v member]

/-- The loop always comes to its end. All are clean then when none of the writes failed. -/
theorem syncVnodes_goes (h : Table s l) (w : Replies) :
    ∃ t, syncVnodes l s w = .done (.ok (), t, w.after (dirties s l)) ∧ Synced s t l ∧
      ((∀ i, i < dirties s l → w.nth i = none) ↔
        ∀ v ∈ l, ∀ sv, t.vnode v = some sv → sv.svDirty = false) := by
  induction l generalizing s w with
  | nil => exact ⟨s, rfl, ⟨rfl, fun _ _ => rfl, fun _ _ => rfl, nofun⟩, fun _ => nofun, fun _ => nofun⟩
  | cons v rest ih =>
    obtain ⟨sv, here, loaded⟩ := h.loaded v List.mem_cons_self
    have distinct := List.nodup_cons.mp h.distinct
    have count : dirties s (v :: rest) = dirties s rest + if sv.svDirty then 1 else 0 := by
      unfold dirties
      rw [List.countP_cons, here]
      rfl
    rcases vopFsync_cases here loaded w with ⟨clean, goes⟩ | ⟨dirty, answer, goes⟩ | ⟨dirty, err, answer, goes⟩
    · -- nothing to write
      obtain ⟨t, syncs, synced, answers⟩ := ih (h.tail rfl fun _ _ => rfl) w
      have kept := synced.other v distinct.1
      rw [clean, if_neg (by decide), Nat.add_zero] at count
      refine ⟨t, ?_, ⟨synced.fs, fun v' away => ?_, fun b none => ?_, fun v' member sv' at_ => ?_⟩, ?_⟩
      · rw [syncVnodes, Fallible.attempt_bind goes, syncs, count]
      · exact synced.other v' fun member => away (List.mem_cons_of_mem _ member)
      · exact synced.blocks b fun v' member => none v' (List.mem_cons_of_mem _ member)
      · rcases List.mem_cons.mp member with rfl | member
        · exact .inl (kept.trans at_)
        · exact synced.each v' member sv' at_
      · rw [count, answers]
        constructor
        · intro all v' member sv' at_
          rcases List.mem_cons.mp member with rfl | member
          · rw [kept, here] at at_
            cases at_
            exact clean
          · exact all v' member sv' at_
        · exact fun all v' member => all v' (List.mem_cons_of_mem _ member)
    · -- the inode is written
      let u := s.inodeWritten v sv
      have others : ∀ v', v' ≠ v → u.vnode v' = s.vnode v' := fun v' other => Function.update_of_ne other ..
      have away : ∀ v' ∈ rest, v' ≠ v := fun v' member same => distinct.1 (same ▸ member)
      obtain ⟨t, syncs, synced, answers⟩ := ih (h.tail (t := u) rfl others) w.answer.2
      have kept : t.vnode v = some sv.clean := (synced.other v distinct.1).trans (Function.update_self ..)
      have block : t.fs.sfsDevice.blocks sv.svIno = sv.svI.toSector := by
        refine (synced.blocks _ fun v' member sv' at_ _ same => ?_).trans (Function.update_self ..)
        rw [others v' (away v' member)] at at_
        exact away v' member (h.apart v' (List.mem_cons_of_mem _ member) v List.mem_cons_self sv' sv at_ here same)
      rw [dirty, if_pos rfl] at count
      have later : dirties u rest = dirties s rest := dirties_congr fun v' member => others v' (away v' member)
      rw [later] at syncs answers
      refine ⟨t, ?_, ⟨synced.fs, fun v' away' => ?_, fun b none => ?_, fun v' member sv' at_ => ?_⟩, ?_⟩
      · rw [syncVnodes, Fallible.attempt_bind goes, syncs, count, Replies.after]
      · rw [List.mem_cons, not_or] at away'
        exact (synced.other v' away'.2).trans (others v' away'.1)
      · refine (synced.blocks b fun v' member sv' at_ => ?_).trans (Function.update_of_ne ?_ ..)
        · rw [others v' (away v' member)] at at_
          exact none v' (List.mem_cons_of_mem _ member) sv' at_
        · exact (none v List.mem_cons_self sv here dirty).symm
      · rcases List.mem_cons.mp member with rfl | member
        · rw [here] at at_
          cases at_
          exact .inr ⟨dirty, kept, block⟩
        · rw [← others v' (away v' member)] at at_
          exact synced.each v' member sv' at_
      · constructor
        · intro all v' member sv' at_
          rcases List.mem_cons.mp member with rfl | member
          · rw [kept] at at_
            cases at_
            rfl
          · refine answers.mp (fun i inside => ?_) v' member sv' at_
            exact all (i + 1) (by omega)
        · intro all i inside
          cases i with
          | zero => exact answer
          | succ i =>
            exact answers.mpr (fun v' member => all v' (List.mem_cons_of_mem _ member)) i (by omega)
    · -- the write fails and is forgotten
      obtain ⟨t, syncs, synced, _⟩ := ih (h.tail rfl fun _ _ => rfl) w.answer.2
      have kept := synced.other v distinct.1
      rw [dirty, if_pos rfl] at count
      refine ⟨t, ?_, ⟨synced.fs, fun v' away => ?_, fun b none => ?_, fun v' member sv' at_ => ?_⟩, ?_⟩
      · rw [syncVnodes, Fallible.attempt_bind goes, syncs, count, Replies.after]
      · exact synced.other v' fun member => away (List.mem_cons_of_mem _ member)
      · exact synced.blocks b fun v' member => none v' (List.mem_cons_of_mem _ member)
      · rcases List.mem_cons.mp member with rfl | member
        · exact .inl (kept.trans at_)
        · exact synced.each v' member sv' at_
      · constructor
        · intro all
          have first : w.answer.1 = none := all 0 (by omega)
          rw [answer] at first
          cases first
        · intro all
          have clean := all v List.mem_cons_self sv (kept.trans here)
          rw [dirty] at clean
          cases clean

end Vnodes

/-! ### The freemap and the superblock -/

section Rest

variable {fs : SfsFs} {s : Volume} {w : Replies}

/-- How many block operations it takes to write the freemap when it is dirty. -/
def freemapWrites (fs : SfsFs) : Nat :=
  if fs.sfsFreemapdirty then (freemapblocks fs.sfsSb.sbNblocks).toNat else 0

def superWrites (fs : SfsFs) : Nat := if fs.sfsSuperdirty then 1 else 0

/-- The volume with its freemap on the device. -/
def SfsFs.freemapSynced (fs : SfsFs) : SfsFs :=
  if fs.sfsFreemapdirty then
    { fs.withBlocks (freemapWritten fs 0 (freemapblocks fs.sfsSb.sbNblocks).toNat) with
      sfsFreemapdirty := false }
  else fs

def SfsFs.superSynced (fs : SfsFs) : SfsFs :=
  if fs.sfsSuperdirty then { fs.withBlock 0 fs.sfsSb.toSector with sfsSuperdirty := false } else fs

theorem sfsSyncFreemap_cases (h : FreemapInside fs 0 (freemapblocks fs.sfsSb.sbNblocks).toNat)
    (w : Replies) :
    ((∀ i, i < freemapWrites fs → w.nth i = none) ∧
      sfsSyncFreemap fs w = .done (.ok (), fs.freemapSynced, w.after (freemapWrites fs))) ∨
    ((∃ i, i < freemapWrites fs ∧ w.nth i ≠ none) ∧
      ∃ err t v, sfsSyncFreemap fs w = .done (.error err, t, v)) := by
  unfold sfsSyncFreemap freemapWrites SfsFs.freemapSynced
  rw [Fallible.get_bind]
  cases dirty : fs.sfsFreemapdirty with
  | false => exact .inl ⟨nofun, rfl⟩
  | true =>
    rw [if_pos rfl, if_pos rfl, if_pos rfl]
    have io : sfsFreemapio .write fs w =
        freemapioFrom .write 0 (freemapblocks fs.sfsSb.sbNblocks).toNat fs w := rfl
    rcases freemapio_write h w with ⟨answers, writes⟩ | ⟨fails, err, t, v, failed⟩
    · left
      rw [Fallible.bind_ok (io.trans writes)]
      exact ⟨answers, rfl⟩
    · right
      rw [Fallible.bind_error (io.trans failed)]
      exact ⟨fails, err, t, v, rfl⟩

theorem sfsSyncSuperblock_cases (inside : 0 < fs.sfsDevice.dBlocks) (w : Replies) :
    ((∀ i, i < superWrites fs → w.nth i = none) ∧
      sfsSyncSuperblock fs w = .done (.ok (), fs.superSynced, w.after (superWrites fs))) ∨
    ((∃ i, i < superWrites fs ∧ w.nth i ≠ none) ∧
      ∃ err t v, sfsSyncSuperblock fs w = .done (.error err, t, v)) := by
  unfold sfsSyncSuperblock superWrites SfsFs.superSynced
  rw [Fallible.get_bind]
  cases dirty : fs.sfsSuperdirty with
  | false => exact .inl ⟨nofun, rfl⟩
  | true =>
    rw [if_pos rfl, if_pos rfl, if_pos rfl]
    cases answer : w.answer.1 with
    | none =>
      left
      rw [Fallible.bind_ok (sfsWriteblock_ok inside answer)]
      refine ⟨fun i first => ?_, rfl⟩
      obtain rfl : i = 0 := by omega
      exact answer
    | some err =>
      right
      rw [Fallible.bind_error (sfsWriteblock_fails inside answer)]
      refine ⟨⟨0, by omega, ?_⟩, err, fs, w.answer.2, rfl⟩
      intro ok
      have same : w.answer.1 = none := ok
      rw [answer] at same
      cases same

theorem FreemapInside.sameBlocks {blocks : UInt32 → Sector} {j left : Nat} (h : FreemapInside fs j left) :
    FreemapInside (fs.withBlocks blocks) j left := ⟨h.room, h.device⟩

theorem freemapSynced_blocks (h : FreemapInside fs 0 (freemapblocks fs.sfsSb.sbNblocks).toNat) {b : UInt32}
    (away : ∀ j, j < (freemapblocks fs.sfsSb.sbNblocks).toNat → b ≠ 2 + UInt32.ofNat j) :
    fs.freemapSynced.sfsDevice.blocks b = fs.sfsDevice.blocks b := by
  unfold SfsFs.freemapSynced
  split
  · refine if_neg fun inside => ?_
    have small := h.small
    refine away (b.toNat - 2) (by omega) ?_
    rw [← UInt32.toNat_inj, freemapNumber (by omega)]
    omega
  · rfl

/-- The freemap is saved after it was synced when it was before, or was dirty. -/
theorem freemapSynced_saved (h : FreemapInside fs 0 (freemapblocks fs.sfsSb.sbNblocks).toNat) :
    FreemapSaved fs.freemapSynced ↔ (fs.sfsFreemapdirty = false → FreemapSaved fs) := by
  cases dirty : fs.sfsFreemapdirty with
  | false =>
    unfold SfsFs.freemapSynced
    rw [dirty]
    simp
  | true =>
    refine ⟨fun _ => nofun, fun _ => ?_⟩
    unfold SfsFs.freemapSynced
    rw [dirty, if_pos rfl]
    refine ⟨rfl, fun j below => ?_⟩
    have small := h.small
    change freemapWritten fs 0 _ (2 + UInt32.ofNat j) = _
    have below : j < (freemapblocks fs.sfsSb.sbNblocks).toNat := below
    have number := freemapNumber (k := j) (by omega)
    unfold freemapWritten
    rw [number, if_pos (by omega), Nat.add_sub_cancel_left]
    rfl

theorem superSynced_freemap : fs.superSynced.sfsFreemap = fs.sfsFreemap ∧
    fs.superSynced.sfsFreemapdirty = fs.sfsFreemapdirty ∧ fs.superSynced.sfsSb = fs.sfsSb := by
  unfold SfsFs.superSynced
  split
  · exact ⟨rfl, rfl, rfl⟩
  · exact ⟨rfl, rfl, rfl⟩

theorem superSynced_clean : fs.superSynced.sfsSuperdirty = false := by
  unfold SfsFs.superSynced
  split
  · rfl
  · rename_i clean
    simpa using clean

theorem freemapSynced_clean : fs.freemapSynced.sfsFreemapdirty = false := by
  unfold SfsFs.freemapSynced
  split
  · rfl
  · rename_i clean
    simpa using clean

theorem freemapSynced_super : fs.freemapSynced.sfsSuperdirty = fs.sfsSuperdirty ∧
    fs.freemapSynced.sfsSb = fs.sfsSb ∧ fs.freemapSynced.sfsDevice.dBlocks = fs.sfsDevice.dBlocks ∧
    fs.freemapSynced.sfsFreemap = fs.sfsFreemap := by
  unfold SfsFs.freemapSynced
  split
  · exact ⟨rfl, rfl, rfl, rfl⟩
  · exact ⟨rfl, rfl, rfl, rfl⟩

/-- Whether the freemap is saved is a matter of its own blocks. -/
theorem FreemapSaved.congr {t : SfsFs} (freemap : t.sfsFreemap = fs.sfsFreemap)
    (dirty : t.sfsFreemapdirty = fs.sfsFreemapdirty) (sb : t.sfsSb = fs.sfsSb)
    (blocks : ∀ j, j < (freemapblocks fs.sfsSb.sbNblocks).toNat →
      t.sfsDevice.blocks (2 + UInt32.ofNat j) = fs.sfsDevice.blocks (2 + UInt32.ofNat j)) :
    FreemapSaved t ↔ FreemapSaved fs := by
  unfold FreemapSaved
  rw [freemap, dirty, sb]
  refine and_congr_right fun _ => forall_congr' fun j => forall_congr' fun below => ?_
  rw [blocks j below]

theorem SuperSaved.congr {t : SfsFs} (dirty : t.sfsSuperdirty = fs.sfsSuperdirty) (sb : t.sfsSb = fs.sfsSb)
    (block : t.sfsDevice.blocks 0 = fs.sfsDevice.blocks 0) : SuperSaved t ↔ SuperSaved fs := by
  unfold SuperSaved
  rw [dirty, sb, block]

end Rest

/-! ### `sfs_sync` -/

section Sync

variable {s t : Volume} {w : Replies}

theorem Mounted.table (h : Mounted s) : Table s s.fs.sfsVnodes := ⟨h.loaded, h.distinct, h.apart⟩

theorem sfsUnmount_clean {v : Replies} (super : t.fs.sfsSuperdirty = false)
    (freemap : t.fs.sfsFreemapdirty = false) :
    sfsUnmount t v = .done (if t.fs.sfsVnodes = [] then .ok () else .error .ebusy, t, v) := by
  unfold sfsUnmount
  rw [Fallible.get_bind]
  by_cases none : t.fs.sfsVnodes = []
  · rw [if_neg (not_not.mpr none), if_pos none, Fallible.kassert_bind super]
    exact if_pos freemap
  · rw [if_pos none, if_neg none]
    rfl

/-- Whatever became of the inodes, the assertions of `sfs_unmount` hold after a `sfs_sync` that
returned 0, and it refuses while a vnode is loaded. -/
theorem sfsUnmount_after_sync (h : Mounted s) {v : Replies} (syncs : sfsSync s w = .done (.ok (), t, v)) :
    sfsUnmount t v = .done (if t.fs.sfsVnodes = [] then .ok () else .error .ebusy, t, v) := by
  obtain ⟨t₁, vnodes, synced, _⟩ := syncVnodes_goes h.table w
  obtain ⟨_, u, w₁, first, rest⟩ := Fallible.of_bind_ok syncs
  have same : sfsSyncVnodes s w = .done (.ok (), t₁, w.after (dirties s s.fs.sfsVnodes)) := vnodes
  rw [same] at first
  cases first
  obtain ⟨_, u₂, w₂, second, third⟩ := Fallible.of_bind_ok rest
  have inside : FreemapInside t₁.fs 0 (freemapblocks t₁.fs.sfsSb.sbNblocks).toNat := by
    rw [synced.fs]
    exact h.freemap.sameBlocks
  rcases sfsSyncFreemap_cases inside (w.after (dirties s s.fs.sfsVnodes)) with
    ⟨_, goes⟩ | ⟨_, err, x, y, goes⟩
  · rw [onVolume_eq goes] at second
    cases second
    have super : 0 < t₁.fs.freemapSynced.sfsDevice.dBlocks := by
      rw [freemapSynced_super.2.2.1, synced.fs]
      exact h.super
    rcases sfsSyncSuperblock_cases super _ with ⟨_, goes⟩ | ⟨_, err, x, y, goes⟩
    · rw [onVolume_eq (s := t₁.withFs t₁.fs.freemapSynced) goes] at third
      cases third
      have freemap : t₁.fs.freemapSynced.superSynced.sfsFreemapdirty = false := by
        rw [superSynced_freemap.2.1]
        exact freemapSynced_clean
      exact sfsUnmount_clean superSynced_clean freemap
    · rw [onVolume_eq (s := t₁.withFs t₁.fs.freemapSynced) goes] at third
      cases third
  · rw [onVolume_eq goes] at second
    cases second

end Sync

end Os161.Sfs
