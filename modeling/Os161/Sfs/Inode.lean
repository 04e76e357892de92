import Os161.Base.Machine
import Os161.Sfs.Itrunc
import Os161.Sfs.Sync

/-!
# Inodes in memory

`sfs_inode.c`, and the reference counts of `vnode.c`. A vnode and the `struct sfs_vnode` around it have
one address.
-/

namespace Os161.Sfs

/-- What the allocations of `sfs_loadvnode` come to: the new vnode's address, and whether there is room
for it in the table. -/
structure LoadMallocs where
  vnode : Option Nat
  table : Bool

namespace SfsVnode

def addRefs (sv : SfsVnode) (n : Int) : SfsVnode := { sv with vnRefcount := sv.vnRefcount + n }

end SfsVnode

namespace Volume

def addVnode (s : Volume) (v : Nat) (sv : SfsVnode) : Volume :=
  (s.withFs { s.fs with sfsVnodes := s.fs.sfsVnodes ++ [v] }).withVnode v sv

/-- `vnodearray_remove`, and the `kfree` after it. -/
def removeVnode (s : Volume) (v : Nat) : Volume where
  fs := { s.fs with sfsVnodes := s.fs.sfsVnodes.erase v }
  vnode := Function.update s.vnode v none

end Volume

/-- The vnode at an address. -/
def vnodeAt (v : Nat) : Fallible Errno Replies Volume SfsVnode :=
  .lift fun s => do
    let sv ← Outcome.deref (s.vnode v)
    return (sv, s)

def addRefs (v : Nat) (n : Int) : Fallible Errno Replies Volume Unit := do
  let sv ← vnodeAt v
  .modify fun s => s.withVnode v (sv.addRefs n)

def vnodeIncref (v : Nat) : Fallible Errno Replies Volume Unit := addRefs v 1

/-- The loop of `sfs_loadvnode` over the vnodes that are left. -/
def findVnode (ino : UInt32) : List Nat → Fallible Errno Replies Volume (Option Nat)
  | [] => return none
  | v :: rest => do
    let sv ← vnodeAt v
    let used ← onVolume (sfsBused sv.svIno)
    -- every inode in memory must be in an allocated block
    if used = false then .panic
    else if sv.svIno = ino then return some v
    else findVnode ino rest

/-- The vnode that `sfs_loadvnode` makes of an inode. -/
def newVnode (ino : UInt32) (inode : Dinode) (forcetype : UInt16) : Fallible Errno Replies Volume SfsVnode :=
  if forcetype ≠ 0 then do
    .kassert (inode.sfiType = 0)
    return ⟨1, 0, { inode with sfiType := forcetype }, ino, true⟩
  else return ⟨1, 0, inode, ino, false⟩

def sfsLoadvnode (ino : UInt32) (forcetype : UInt16) (mallocs : LoadMallocs) :
    Fallible Errno Replies Volume Nat := do
  let s ← .get
  let found ← findVnode ino s.fs.sfsVnodes
  match found, mallocs.vnode with
  | some v, _ => do
    .kassert (forcetype = 0)
    vnodeIncref v
    return v
  | none, none => .fail .enomem
  | none, some v => do
    let used ← onVolume (sfsBused ino)
    if used = false then .panic
    else do
      let data ← onVolume (sfsReadblock ino)
      let sv ← newVnode ino (.ofSector data) forcetype
      -- a file or a directory
      if sv.svI.sfiType ≠ 1 ∧ sv.svI.sfiType ≠ 2 then .panic
      else if mallocs.table = false then .fail .enomem
      else do
        .modify fun s => s.addVnode v sv
        return v

/-- Erases a file without links, up to its inode. -/
def eraseFile : Fallible Errno Replies File Unit := do
  let f ← .get
  if f.sv.svI.sfiLinkcount = 0 then sfsItrunc 0 else return

def discardInode : Fallible Errno Replies File Unit := do
  let f ← .get
  if f.sv.svI.sfiLinkcount = 0 then onFs (sfsBfree f.sv.svIno) else return

/-- What `sfs_reclaim` does on the volume. -/
def reclaimFile : Fallible Errno Replies File Unit := do
  eraseFile
  sfsSyncInode
  discardInode

/-- The end of `sfs_reclaim`, with `vnode_cleanup`. -/
def dropVnode (v : Nat) : Fallible Errno Replies Volume Unit := do
  let s ← .get
  if v ∉ s.fs.sfsVnodes then .panic
  else do
    let sv ← vnodeAt v
    .kassert (sv.vnRefcount = 1)
    .kassert (sv.vnOpencount = 0)
    .modify fun s => s.removeVnode v

def sfsReclaim (v : Nat) : Fallible Errno Replies Volume Unit := do
  let sv ← vnodeAt v
  if sv.vnRefcount ≠ 1 then do
    -- consume the reference VOP_DECREF gave us
    .kassert (1 < sv.vnRefcount)
    addRefs v (-1)
    .fail .ebusy
  else do
    onVnode v reclaimFile
    dropVnode v

/-- `VOP_RECLAIM`, with its `vnode_check`. -/
def vopReclaim (v : Nat) : Fallible Errno Replies Volume Unit := do
  let sv ← vnodeAt v
  .kassert (0 ≤ sv.vnRefcount)
  .kassert (0 ≤ sv.vnOpencount)
  sfsReclaim v

/-- `vnode_decref`. An error of the reclaim is only printed. -/
def vnodeDecref (v : Nat) : Fallible Errno Replies Volume Unit := do
  let sv ← vnodeAt v
  .kassert (0 < sv.vnRefcount)
  if 1 < sv.vnRefcount then addRefs v (-1)
  else do
    let _ ← (vopReclaim v).attempt
    return

def sfsMakeobj (type : UInt16) (mallocs : LoadMallocs) : Fallible Errno Replies Volume Nat := do
  let ino ← onVolume sfsBalloc
  let result ← (sfsLoadvnode ino type mallocs).attempt
  match result with
  | .ok v => return v
  | .error err => do
    onVolume (sfsBfree ino)
    .fail err

/-! ### Clients -/

/-- A volume, and how many references to each vnode its clients hold. -/
structure Clients where
  volume : Volume
  held : Nat → Nat

inductive Action where
  | load (ino : UInt32) (forcetype : UInt16) (mallocs : LoadMallocs) (answers : Replies)
  | incref (v : Nat)
  | decref (v : Nat) (answers : Replies)
  /-- Other operations change what is on the volume and in the inodes. -/
  | change (fs : SfsFs) (inodes : Nat → Dinode) (dirty : Nat → Bool)

namespace Clients

def gets (c : Clients) (v : Nat) (volume : Volume) : Clients :=
  ⟨volume, Function.update c.held v (c.held v + 1)⟩

def drops (c : Clients) (v : Nat) (volume : Volume) : Clients :=
  ⟨volume, Function.update c.held v (c.held v - 1)⟩

end Clients

/-- The other operations leave the table of vnodes alone, and the counts and numbers of the vnodes. -/
def Volume.change (s : Volume) (fs : SfsFs) (inodes : Nat → Dinode) (dirty : Nat → Bool) : Volume where
  fs := { fs with sfsVnodes := s.fs.sfsVnodes }
  vnode v := (s.vnode v).map fun sv => { sv with svI := inodes v, svDirty := dirty v }

/-- Only a client that has a reference can make another one of it or drop it, and `kmalloc` returns an
address where nothing is. -/
def clientStep (c : Clients) : Action → Outcome Clients
  | .load ino forcetype mallocs answers => do
    Outcome.await (∀ v ∈ mallocs.vnode, (c.volume.vnode v).isNone)
    let (result, volume, _) ← sfsLoadvnode ino forcetype mallocs c.volume answers
    match result with
    | .ok v => return c.gets v volume
    | .error _ => return ⟨volume, c.held⟩
  | .incref v => do
    Outcome.await (0 < c.held v)
    let (_, volume, _) ← vnodeIncref v c.volume fun _ => none
    return c.gets v volume
  | .decref v answers => do
    Outcome.await (0 < c.held v)
    let (_, volume, _) ← vnodeDecref v c.volume answers
    return c.drops v volume
  | .change fs inodes dirty => return ⟨c.volume.change fs inodes dirty, c.held⟩

/-- The clients of a volume that has just been mounted. -/
def clients : Machine Clients Action where
  initial c := c.volume.fs.sfsVnodes = [] ∧ (∀ v, c.volume.vnode v = none) ∧ ∀ v, c.held v = 0
  step := clientStep

/-! ### What the calls change, if they come back -/

/-- What a call does to the volume and the inode of a vnode is not to change its counts and its link
count, nor the table. -/
structure SameCounts (f g : File) : Prop where
  vnodes : g.fs.sfsVnodes = f.fs.sfsVnodes
  refcount : g.sv.vnRefcount = f.sv.vnRefcount
  linkcount : g.sv.svI.sfiLinkcount = f.sv.svI.sfiLinkcount

theorem SameCounts.trans {f g h : File} (first : SameCounts f g) (later : SameCounts g h) :
    SameCounts f h :=
  ⟨later.vnodes.trans first.vnodes, later.refcount.trans first.refcount,
    later.linkcount.trans first.linkcount⟩

section Ensures

variable {fs : SfsFs} {f : File} {s : Volume} {w : Replies} {v : Nat} {ino block : UInt32}

theorem bfree_ensures {P : Except Errno Unit → SfsFs → Replies → Prop}
    (frees : ∀ freemap, P (.ok ()) (fs.withFreemap freemap).freemapDirty w) :
    (sfsBfree block).Ensures fs w P := by
  unfold sfsBfree
  refine Fallible.Ensures.bind (P := fun r t v => r = .ok () ∧ v = w ∧ ∃ freemap, t = fs.withFreemap freemap)
    ?_ ?_ nofun
  · apply Fallible.ensures_lift
    rintro ⟨_, t⟩ goes
    obtain ⟨freemap, _, rest⟩ := Outcome.bind_done.mp goes
    cases rest
    exact ⟨rfl, rfl, freemap, rfl⟩
  · rintro _ _ _ ⟨_, rfl, freemap, rfl⟩
    exact Fallible.ensures_modify.mpr (frees freemap)

theorem onFs_ensures {α : Type} {x : Fallible Errno Replies SfsFs α}
    {P : Except Errno α → File → Replies → Prop}
    (h : x.Ensures f.fs w fun r fs v => P r (f.withFs fs) v) : (onFs x).Ensures f w P :=
  Fallible.Ensures.within h

end Ensures

/-! ### A reclaim whose block operations succeed -/

/-- A call that succeeds, keeps the counts, and takes `n` block operations. -/
def Succeeds (f : File) (w : Replies) (n : Nat) (r : Except Errno Unit) (g : File) (v : Replies) : Prop :=
  r = .ok () ∧ v = w.after n ∧ SameCounts f g

namespace SfsVnode

end SfsVnode

section Reclaim

variable {f : File} {s : Volume} {w : Replies} {v : Nat} {sv : SfsVnode}

theorem discardInode_ensures : discardInode.Ensures f w (Succeeds f w 0) := by
  apply Fallible.ensures_get_bind.mpr
  split
  · exact onFs_ensures (bfree_ensures fun _ => ⟨rfl, rfl, ⟨rfl, rfl, rfl⟩⟩)
  · exact Fallible.ensures_pure.mpr ⟨rfl, rfl, ⟨rfl, rfl, rfl⟩⟩

end Reclaim

/-! ### Dropping a reference -/

section Decref

variable {s t : Volume} {w : Replies} {v : Nat} {sv : SfsVnode}

/-- The vnode is gone: from the table and from memory. -/
structure Dropped (s t : Volume) (v : Nat) : Prop where
  table : t.fs.sfsVnodes = s.fs.sfsVnodes.erase v
  vnode : t.vnode = Function.update s.vnode v none

end Decref

/-! ### Looking a vnode up -/

section Load

variable {s t : Volume} {w : Replies} {v : Nat} {sv : SfsVnode} {ino : UInt32}

/-- The search finds the vnode of an inode if there is one in the table. -/
def Found (s : Volume) (ino : UInt32) (l : List Nat) : Option Nat → Prop
  | some v => v ∈ l ∧ ∃ sv, s.vnode v = some sv ∧ sv.svIno = ino
  | none => ∀ v ∈ l, ∀ sv, s.vnode v = some sv → sv.svIno ≠ ino

end Load

/-! ### The counts over whole runs -/

/-- A vnode that can still be reclaimed: after a load of its inode and a release it can be gone. -/
def Reclaimable (s : Volume) (v : Nat) : Prop :=
  ∃ sv t u mallocs w x y z, s.vnode v = some sv ∧
    sfsLoadvnode sv.svIno 0 mallocs s w = .done (.ok v, t, x) ∧
    vnodeDecref v t y = .done (.ok (), u, z) ∧ v ∉ u.fs.sfsVnodes

/-- At most one vnode for an inode, exact counts, and no vnode stays without a holder unless it can
still be reclaimed. -/
structure Counted (c : Clients) : Prop where
  nodup : c.volume.fs.sfsVnodes.Nodup
  apart : ∀ v ∈ c.volume.fs.sfsVnodes, ∀ v' ∈ c.volume.fs.sfsVnodes, ∀ sv sv',
    c.volume.vnode v = some sv → c.volume.vnode v' = some sv' → sv.svIno = sv'.svIno → v = v'
  counts : ∀ v ∈ c.volume.fs.sfsVnodes, ∃ sv, c.volume.vnode v = some sv ∧ sv.vnRefcount = c.held v
  unheld : ∀ v, c.held v = 0 → v ∉ c.volume.fs.sfsVnodes ∨ Reclaimable c.volume v

/-- What a run keeps: every vnode in the table is held, and nothing else is. -/
structure Clients.Exact (c : Clients) : Prop where
  nodup : c.volume.fs.sfsVnodes.Nodup
  apart : ∀ v ∈ c.volume.fs.sfsVnodes, ∀ v' ∈ c.volume.fs.sfsVnodes, ∀ sv sv',
    c.volume.vnode v = some sv → c.volume.vnode v' = some sv' → sv.svIno = sv'.svIno → v = v'
  counts : ∀ v ∈ c.volume.fs.sfsVnodes, 0 < c.held v ∧
    ∃ sv, c.volume.vnode v = some sv ∧ sv.vnRefcount = c.held v
  others : ∀ v, v ∉ c.volume.fs.sfsVnodes → c.held v = 0 ∧ c.volume.vnode v = none

namespace Clients.Exact

variable {c : Clients} {v : Nat} {sv : SfsVnode} {t : Volume}

theorem counted (h : c.Exact) : Counted c where
  nodup := h.nodup
  apart := h.apart
  counts v member := (h.counts v member).2
  unheld v none := by
    left
    intro member
    have held := (h.counts v member).1
    omega

theorem member (h : c.Exact) (held : 0 < c.held v) : v ∈ c.volume.fs.sfsVnodes := by
  by_contra out
  have none := (h.others v out).1
  omega

/-- One vnode's count changes with what is held of it. -/
theorem recount (h : c.Exact) (member : v ∈ c.volume.fs.sfsVnodes) (here : c.volume.vnode v = some sv)
    {n : Nat} {k : Int} (positive : 0 < n) (count : sv.vnRefcount + k = n) :
    Clients.Exact ⟨c.volume.withVnode v (sv.addRefs k), Function.update c.held v n⟩ := by
  have table : ∀ {v' sv'}, (c.volume.withVnode v (sv.addRefs k)).vnode v' = some sv' →
      ∃ sv'', c.volume.vnode v' = some sv'' ∧ sv''.svIno = sv'.svIno := by
    intro v' sv' at_
    change Function.update c.volume.vnode v (some (sv.addRefs k)) v' = some sv' at at_
    by_cases same : v' = v
    · subst same
      rw [Function.update_self] at at_
      cases at_
      exact ⟨sv, here, rfl⟩
    · rw [Function.update_of_ne same] at at_
      exact ⟨sv', at_, rfl⟩
  refine ⟨h.nodup, fun v₁ m₁ v₂ m₂ sv₁ sv₂ at₁ at₂ same => ?_, fun v' member' => ?_, fun v' out => ?_⟩
  · obtain ⟨_, at₁', number₁⟩ := table at₁
    obtain ⟨_, at₂', number₂⟩ := table at₂
    exact h.apart v₁ m₁ v₂ m₂ _ _ at₁' at₂' (number₁.trans (same.trans number₂.symm))
  · change 0 < Function.update c.held v n v' ∧
      ∃ sv', Function.update c.volume.vnode v (some (sv.addRefs k)) v' = some sv' ∧
        sv'.vnRefcount = ((Function.update c.held v n v' : Nat) : Int)
    by_cases same : v' = v
    · subst same
      rw [Function.update_self, Function.update_self]
      exact ⟨positive, _, rfl, count⟩
    · rw [Function.update_of_ne same, Function.update_of_ne same]
      exact h.counts v' member'
  · have other : v' ≠ v := by
      rintro rfl
      exact out member
    obtain ⟨none, gone⟩ := h.others v' out
    exact ⟨(Function.update_of_ne other ..).trans none, (Function.update_of_ne other ..).trans gone⟩

/-- The last reference goes, and the vnode with it. -/
theorem dropped (h : c.Exact) (here : c.volume.vnode v = some sv) (last : c.held v = 1)
    (drops : Dropped c.volume t v) : (c.drops v t).Exact := by
  have table : ∀ {v'}, v' ∈ t.fs.sfsVnodes ↔ v' ≠ v ∧ v' ∈ c.volume.fs.sfsVnodes := by
    intro v'
    rw [drops.table]
    exact h.nodup.mem_erase_iff
  have vnode : ∀ {v'}, v' ≠ v → t.vnode v' = c.volume.vnode v' := fun other => by
    rw [drops.vnode, Function.update_of_ne other]
  have held : ∀ {v'}, v' ≠ v → (c.drops v t).held v' = c.held v' := fun other =>
    Function.update_of_ne other ..
  refine ⟨?_, fun v₁ m₁ v₂ m₂ sv₁ sv₂ at₁ at₂ same => ?_, fun v' member => ?_, fun v' out => ?_⟩
  · change t.fs.sfsVnodes.Nodup
    rw [drops.table]
    exact h.nodup.erase v
  · obtain ⟨other₁, m₁⟩ := table.mp m₁
    obtain ⟨other₂, m₂⟩ := table.mp m₂
    exact h.apart v₁ m₁ v₂ m₂ sv₁ sv₂ ((vnode other₁).symm.trans at₁) ((vnode other₂).symm.trans at₂) same
  · obtain ⟨other, member⟩ := table.mp member
    obtain ⟨positive, sv', at_, count⟩ := h.counts v' member
    rw [held other]
    exact ⟨positive, sv', (vnode other).trans at_, count⟩
  · by_cases same : v' = v
    · subst same
      have less : (c.drops v' t).held v' = c.held v' - 1 := Function.update_self ..
      refine ⟨by omega, ?_⟩
      change t.vnode v' = none
      rw [drops.vnode, Function.update_self]
    · have out : v' ∉ c.volume.fs.sfsVnodes := fun member => out (table.mpr ⟨same, member⟩)
      obtain ⟨none, gone⟩ := h.others v' out
      exact ⟨(held same).trans none, (vnode same).trans gone⟩

/-- A new vnode has one holder. -/
theorem added (h : c.Exact) (fresh : c.volume.vnode v = none) (one : sv.vnRefcount = 1)
    (new : Found c.volume sv.svIno c.volume.fs.sfsVnodes none) :
    (c.gets v (c.volume.addVnode v sv)).Exact := by
  have out : v ∉ c.volume.fs.sfsVnodes := by
    intro member
    obtain ⟨_, _, here, _⟩ := h.counts v member
    rw [fresh] at here
    cases here
  have none := (h.others v out).1
  have self : (c.volume.addVnode v sv).vnode v = some sv := Function.update_self ..
  have vnode : ∀ {v'}, v' ≠ v → (c.volume.addVnode v sv).vnode v' = c.volume.vnode v' := fun other =>
    Function.update_of_ne other ..
  have held : ∀ {v'}, v' ≠ v → (c.gets v (c.volume.addVnode v sv)).held v' = c.held v' := fun other =>
    Function.update_of_ne other ..
  have table : ∀ {v'}, v' ∈ (c.volume.addVnode v sv).fs.sfsVnodes ↔ v' ∈ c.volume.fs.sfsVnodes ∨ v' = v := by
    intro v'
    exact List.mem_append.trans (or_congr_right List.mem_singleton)
  refine ⟨?_, fun v₁ m₁ v₂ m₂ sv₁ sv₂ at₁ at₂ same => ?_, fun v' member => ?_, fun v' away => ?_⟩
  · exact List.Nodup.append h.nodup (List.nodup_singleton v) fun v' member single =>
      out (List.mem_singleton.mp single ▸ member)
  · have new₁ : ∀ {v' sv'}, v' ∈ c.volume.fs.sfsVnodes → (c.volume.addVnode v sv).vnode v' = some sv' →
        sv'.svIno ≠ sv.svIno := by
      intro v' sv' member at_
      have other : v' ≠ v := fun same => out (same ▸ member)
      exact new v' member sv' ((vnode other).symm.trans at_)
    rcases table.mp m₁ with old₁ | rfl <;> rcases table.mp m₂ with old₂ | rfl
    · have other₁ : v₁ ≠ v := fun same => out (same ▸ old₁)
      have other₂ : v₂ ≠ v := fun same => out (same ▸ old₂)
      exact h.apart v₁ old₁ v₂ old₂ sv₁ sv₂ ((vnode other₁).symm.trans at₁) ((vnode other₂).symm.trans at₂) same
    · cases self.symm.trans at₂
      exact (new₁ old₁ at₁ same).elim
    · cases self.symm.trans at₁
      exact (new₁ old₂ at₂ same.symm).elim
    · rfl
  · rcases table.mp member with member | rfl
    · have other : v' ≠ v := fun same => out (same ▸ member)
      obtain ⟨positive, sv', at_, count⟩ := h.counts v' member
      rw [held other]
      exact ⟨positive, sv', (vnode other).trans at_, count⟩
    · have got : (c.gets v' (c.volume.addVnode v' sv)).held v' = 1 := by
        change Function.update c.held v' (c.held v' + 1) v' = 1
        rw [Function.update_self, none]
      rw [got]
      exact ⟨Nat.one_pos, sv, self, one⟩
  · have other : v' ≠ v := fun same => away (table.mpr (.inr same))
    obtain ⟨none, gone⟩ := h.others v' fun member => away (table.mpr (.inl member))
    exact ⟨(held other).trans none, (vnode other).trans gone⟩

theorem changed (h : c.Exact) (fs : SfsFs) (inodes : Nat → Dinode) (dirty : Nat → Bool) :
    Clients.Exact ⟨c.volume.change fs inodes dirty, c.held⟩ := by
  have was : ∀ {v sv}, (c.volume.change fs inodes dirty).vnode v = some sv →
      ∃ sv', c.volume.vnode v = some sv' ∧ sv'.svIno = sv.svIno := by
    intro v sv at_
    obtain ⟨sv', here, rfl⟩ := Option.map_eq_some_iff.mp at_
    exact ⟨sv', here, rfl⟩
  refine ⟨h.nodup, fun v₁ m₁ v₂ m₂ sv₁ sv₂ at₁ at₂ same => ?_, fun v' member => ?_, fun v' out => ?_⟩
  · obtain ⟨_, at₁', number₁⟩ := was at₁
    obtain ⟨_, at₂', number₂⟩ := was at₂
    exact h.apart v₁ m₁ v₂ m₂ _ _ at₁' at₂' (number₁.trans (same.trans number₂.symm))
  · obtain ⟨positive, sv', at_, count⟩ := h.counts v' member
    exact ⟨positive, _, Option.map_eq_some_iff.mpr ⟨sv', at_, rfl⟩, count⟩
  · obtain ⟨none, gone⟩ := h.others v' out
    exact ⟨none, Option.map_eq_none_iff.mpr gone⟩

end Clients.Exact

end Os161.Sfs
