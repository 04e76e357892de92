import Os161.Sfs.Live

/-!
# Vnodes that come and go

`sfs_loadvnode`, `sfs_makeobj` and `vnode_decref` on a volume whose books are in order, without errors
from the device.
-/

namespace Os161.Sfs

/-! ### Calls without errors from the device -/

/-- The call comes back, and the device has no errors for what follows either. -/
def Goes {σ α : Type} (x : Fallible Errno Replies σ α) (s : σ) (w : Replies) (P : Except Errno α → σ → Prop) :
    Prop :=
  x.Returns s w fun r t v => Fine v ∧ P r t

section Goes

variable {σ α β : Type} {x : Fallible Errno Replies σ α} {f : α → Fallible Errno Replies σ β} {s t : σ}
variable {w : Replies} {P : Except Errno α → σ → Prop} {Q : Except Errno β → σ → Prop}

theorem Goes.of_after {r : Except Errno α} {n : Nat} (fine : Fine w) (goes : x s w = .done (r, t, w.after n))
    (holds : P r t) : Goes x s w P :=
  ⟨r, t, w.after n, goes, fine.after n, holds⟩

theorem Goes.bind (first : Goes x s w P)
    (rest : ∀ a t v, Fine v → P (.ok a) t → Goes (f a) t v Q)
    (failed : ∀ err t, P (.error err) t → Q (.error err) t) : Goes (x >>= f) s w Q :=
  Fallible.Returns.bind first (fun a t v holds => rest a t v holds.1 holds.2)
    fun err t _ holds => ⟨holds.1, failed err t holds.2⟩

theorem Goes.mono {P' : Except Errno α → σ → Prop} (h : Goes x s w P) (imp : ∀ r t, P r t → P' r t) :
    Goes x s w P' :=
  Fallible.Returns.mono h fun r t _ holds => ⟨holds.1, imp r t holds.2⟩

theorem goes_pure {a : α} (fine : Fine w) (holds : P (.ok a) s) : Goes (pure a) s w P :=
  ⟨_, _, _, rfl, fine, holds⟩

theorem goes_fail {err : Errno} (fine : Fine w) (holds : P (.error err) s) : Goes (.fail err) s w P :=
  ⟨_, _, _, rfl, fine, holds⟩

theorem goes_kassert {p : Prop} [Decidable p] {f : Unit → Fallible Errno Replies σ β} (holds : p)
    (rest : Goes (f ()) s w Q) : Goes (.kassert p >>= f) s w Q := by
  obtain ⟨r, t, v, goes, ends⟩ := rest
  exact ⟨r, t, v, (Fallible.kassert_bind holds).trans goes, ends⟩

theorem Goes.attempt {f : Except Errno α → Fallible Errno Replies σ β} (first : Goes x s w P)
    (rest : ∀ r t v, Fine v → P r t → Goes (f r) t v Q) : Goes (x.attempt >>= f) s w Q := by
  obtain ⟨r, t, v, goes, fine, holds⟩ := first
  obtain ⟨r', t', v', goes', ends⟩ := rest r t v fine holds
  exact ⟨r', t', v', (Fallible.attempt_bind goes).trans goes', ends⟩

end Goes

section Vnodes

variable {α : Type} {s : Volume} {w : Replies} {v : Nat} {sv : SfsVnode}

theorem vnodeAt_eq (there : s.vnode v = some sv) : vnodeAt v s w = .done (.ok sv, s, w) := by
  apply Fallible.lift_eq
  rw [there]
  rfl

theorem addRefs_eq {n : Int} (there : s.vnode v = some sv) :
    addRefs v n s w = .done (.ok (), s.withVnode v (sv.addRefs n), w) :=
  Fallible.bind_ok (vnodeAt_eq there)

end Vnodes

/-! ### The books of another volume -/

section Rebuild

variable {s t : Volume} {live live' : UInt32 → Prop} {v u : Nat} {sv tv : SfsVnode} {i j : UInt32}

theorem Tabled.inode_eq {d : Dinode} (h : Tabled s) (loaded : ∀ v sv, s.Here v sv → sv.svIno = i → sv.svI = d)
    (disk : (∀ v sv, s.Here v sv → sv.svIno ≠ i) → .ofSector (s.fs.sfsDevice.blocks i) = d) : s.inode i = d := by
  obtain ⟨v, sv, here, same⟩ | absent := h.here_or i
  · rw [← same, h.inode here]
    exact loaded v sv here same
  · rw [h.inode_disk absent]
    exact disk absent

/-- The books of a volume with other vnodes in memory, or other inodes in use. -/
theorem Books.rebuild (h : Books s live) (table : Tabled t) (layout : Layout t.fs live' t.inode)
    (sb : t.fs.sfsSb = s.fs.sfsSb) (backed : Backed t.fs) (root : live' sfsRootdirIno)
    (old : ∀ j, live' j → live j ∧ t.inode j = s.inode j ∧ SameFile (s.inode j) s.fs t.fs ∨
      ¬ live j ∧ (t.inode j).sfiType = sfsTypeFile)
    (loaded : ∀ v sv, t.Here v sv → live' sv.svIno)
    (saved : ∀ v sv, t.Here v sv → sv.svDirty = false → .ofSector (t.fs.sfsDevice.blocks sv.svIno) = sv.svI)
    (named : ∀ i name ino, s.slots.At i name ino → live' ino) :
    Books t live' ∧ t.slots = s.slots ∧ Same s t fun j => live j ∧ live' j := by
  have kept (j : UInt32) (there : live j) (stays : live' j) :
      t.inode j = s.inode j ∧ SameFile (s.inode j) s.fs t.fs := by
    obtain ⟨-, inode, same⟩ | ⟨absent, -⟩ := old j stays
    · exact ⟨inode, same⟩
    · exact absurd there absent
  obtain ⟨rootInode, rootSame⟩ := kept _ h.root root
  obtain ⟨-, links, slots⟩ := same_file rootInode rootSame
  have size : (t.file sfsRootdirIno).size = (s.file sfsRootdirIno).size :=
    congrArg (fun d : Dinode => d.sfiSize.toNat) rootInode
  have slots' : t.slots = s.slots := slots
  refine ⟨⟨table, layout, sb ▸ h.small, root, loaded, slots' ▸ named, ?_, fun j there different => ?_,
    slots' ▸ h.rootless, ?_, saved, backed⟩, slots', fun j there _ => ?_, fun j there => ?_⟩
  · refine ⟨layout.trees _ root, (congrArg Dinode.sfiType rootInode).trans h.dir.type, ?_, ?_, ?_⟩
    · rw [size]
      exact h.dir.whole
    · rw [size]
      exact h.dir.inside
    · have unique := h.dir.unique
      rw [← slots] at unique
      exact unique
  · obtain ⟨was, inode, -⟩ | ⟨-, type⟩ := old j there
    · rw [inode]
      exact h.files j was different
    · exact type
  · rw [links]
    exact h.rootLinks
  · obtain ⟨inode, same⟩ := kept j there.1 there.2
    exact (same_file inode same).1
  · obtain ⟨inode, same⟩ := kept j there.1 there.2
    exact (same_file inode same).2.1

/-- Only the table of vnodes is another one. -/
structure SameDisk (fs fs' : SfsFs) : Prop where
  sb : fs'.sfsSb = fs.sfsSb
  freemap : fs'.sfsFreemap = fs.sfsFreemap
  device : fs'.sfsDevice = fs.sfsDevice
  superdirty : fs'.sfsSuperdirty = fs.sfsSuperdirty
  freemapdirty : fs'.sfsFreemapdirty = fs.sfsFreemapdirty

theorem SameDisk.backed {fs fs' : SfsFs} (same : SameDisk fs fs') (h : Backed fs) : Backed fs' := by
  refine h.kept same.sb (congrArg Device.dBlocks same.device) ⟨same.superdirty, ?_, ?_, ?_, fun clean => ?_⟩
    fun x _ => ?_
  · rw [same.device]
  · rw [same.freemap]
  · rw [same.freemap]
  · exact ⟨same.freemapdirty.symm.trans clean, same.freemap⟩
  · rw [same.device]

theorem SameDisk.file {fs fs' : SfsFs} (same : SameDisk fs fs') (d : Dinode) : SameFile d fs fs' :=
  sameFile fun _ _ => by rw [same.device]

theorem SameDisk.layout {fs fs' : SfsFs} {inode : UInt32 → Dinode} (same : SameDisk fs fs')
    (h : Layout fs live inode) : Layout fs' live inode where
  owned := by
    refine h.owned.congr (fun x => ?_) fun o x => ?_
    · unfold SfsFs.Used
      rw [same.sb, same.freemap]
    · cases o with
      | system => exact SfsFs.system_congr same.sb
      | inode i => exact Iff.rfl
      | file i => exact and_congr_right fun _ => (same.file (inode i)).refers x
  trees i here := by
    have tree := h.trees i here
    have sound := tree.sound
    refine (same.file (inode i)).tree tree ?_ same.sb fun x refers => ?_
    · exact ⟨same.freemap ▸ sound.whole, same.sb ▸ same.freemap ▸ sound.covers,
        same.sb ▸ same.device ▸ sound.device, same.sb ▸ same.freemap ▸ sound.beyond, same.freemap ▸ sound.super⟩
    · rw [same.freemap]
      exact tree.referred refers

/-- Other vnodes are in memory. -/
theorem Books.retable (h : Books s live) (table : Tabled t) (disk : SameDisk s.fs t.fs)
    (inodes : ∀ j, live j → t.inode j = s.inode j) (loaded : ∀ v sv, t.Here v sv → live sv.svIno)
    (saved : ∀ v sv, t.Here v sv → sv.svDirty = false → .ofSector (t.fs.sfsDevice.blocks sv.svIno) = sv.svI) :
    Books t live ∧ t.slots = s.slots ∧ Same s t live := by
  have layout := (disk.layout h.layout).congr (fun _ => Iff.rfl) inodes
  obtain ⟨books, slots, same⟩ := h.rebuild table layout disk.sb (disk.backed h.backed) h.root
    (fun j here => .inl ⟨here, inodes j here, disk.file (s.inode j)⟩) loaded saved h.named
  exact ⟨books, slots, same.mono fun _ here => ⟨here, here⟩⟩

end Rebuild

/-! ### References -/

/-- Somebody has one more reference to a vnode of this inode. -/
structure Gets (s t : Volume) (live : UInt32 → Prop) (v : Nat) (ino : UInt32) : Prop where
  books : Books t live
  vnode : ∃ sv, t.Here v sv ∧ sv.svIno = ino
  slots : t.slots = s.slots
  same : Same s t live
  refs : t.refs = Function.update s.refs v (s.refs v + 1)
  handle : t.handle = Function.update s.handle v (some ino)
  was : s.handle v = none ∨ s.handle v = some ino

section References

variable {s t : Volume} {live : UInt32 → Prop} {v u : Nat} {sv tv : SfsVnode} {i j ino : UInt32} {w : Replies}

/-- The number of references to a vnode changes, and is not 0 then. -/
theorem Books.recount (h : Books s live) (here : s.Here v sv) {n : Int} (some : 0 < sv.vnRefcount + n) :
    Books (s.withVnode v (sv.addRefs n)) live ∧ (s.withVnode v (sv.addRefs n)).slots = s.slots ∧
      Same s (s.withVnode v (sv.addRefs n)) live ∧
      (s.withVnode v (sv.addRefs n)).refs = Function.update s.refs v (s.refs v + n) ∧
      (s.withVnode v (sv.addRefs n)).handle = s.handle := by
  have before {u : Nat} {tv : SfsVnode} (there : (s.withVnode v (sv.addRefs n)).Here u tv) :
      ∃ sv', s.Here u sv' ∧ tv.svIno = sv'.svIno ∧ tv.svI = sv'.svI ∧ tv.svDirty = sv'.svDirty ∧
        0 < tv.vnRefcount ∧ tv.vnOpencount = sv'.vnOpencount := by
    obtain ⟨rfl, rfl⟩ | ⟨-, there⟩ := (Volume.withVnode_here here.1).mp there
    · exact ⟨sv, here, rfl, rfl, rfl, some, rfl⟩
    · exact ⟨tv, there, rfl, rfl, rfl, h.table.refcount u tv there, rfl⟩
  have table : Tabled (s.withVnode v (sv.addRefs n)) := by
    refine ⟨h.table.nodup, fun u => ?_, fun a b sa sb first second same => ?_, fun u tv there => ?_,
      fun u tv there => ?_⟩
    · rw [Volume.withVnode_vnode]
      by_cases same : u = v
      · rw [if_pos same, same]
        exact iff_of_true here.1 ⟨_, rfl⟩
      · rw [if_neg same]
        exact h.table.there u
    · obtain ⟨sa', first', ino, -⟩ := before first
      obtain ⟨sb', second', ino', -⟩ := before second
      exact h.table.apart a b sa' sb' first' second' (ino.symm.trans (same.trans ino'))
    · obtain ⟨-, -, -, -, -, count, -⟩ := before there
      exact count
    · obtain ⟨sv', there', -, -, -, -, count⟩ := before there
      exact count ▸ h.table.opencount u sv' there'
  have inodes (j : UInt32) (_ : live j) : (s.withVnode v (sv.addRefs n)).inode j = s.inode j := by
    refine table.inode_eq (fun u tv there is => ?_) fun absent => ?_
    · obtain ⟨sv', before, ino, inode, -⟩ := before there
      rw [inode, ← is, ino, h.table.inode before]
    · refine (h.table.inode_disk fun u tv there same => ?_).symm
      by_cases is : u = v
      · subst is
        have one := here.2.symm.trans there.2
        cases one
        exact absent u (sv.addRefs n) ((Volume.withVnode_here here.1).mpr (.inl ⟨rfl, rfl⟩)) same
      · exact absent u tv ((Volume.withVnode_here here.1).mpr (.inr ⟨is, there⟩)) same
  have loaded (u : Nat) (tv : SfsVnode) (there : (s.withVnode v (sv.addRefs n)).Here u tv) : live tv.svIno := by
    obtain ⟨sv', before, ino, -⟩ := before there
    exact ino ▸ h.loaded u sv' before
  obtain ⟨books, slots, same⟩ := h.retable table ⟨rfl, rfl, rfl, rfl, rfl⟩ inodes loaded fun u tv there clean => by
    obtain ⟨sv', before, ino, inode, dirty, -⟩ := before there
    rw [ino, inode]
    exact h.saved u sv' before (dirty ▸ clean)
  refine ⟨books, slots, same, funext fun u => ?_, funext fun u => ?_⟩
  · unfold Volume.refs
    rw [Volume.withVnode_vnode, Function.update_apply]
    split
    · rw [here.2]
      rfl
    · rfl
  · unfold Volume.handle
    rw [Volume.withVnode_vnode]
    split
    · rename_i same
      rw [same, here.2]
      rfl
    · rfl

theorem Books.incref (h : Books s live) (here : s.Here v sv) :
    Gets s (s.withVnode v (sv.addRefs 1)) live v sv.svIno := by
  have count := h.table.refcount v sv here
  obtain ⟨books, slots, same, refs, handle⟩ := h.recount here (n := 1) (by omega)
  have known : s.handle v = some sv.svIno := congrArg (Option.map SfsVnode.svIno) here.2
  refine ⟨books, ⟨_, (Volume.withVnode_here here.1).mpr (.inl ⟨rfl, rfl⟩), rfl⟩, slots, same, refs, ?_, .inr known⟩
  rw [handle, ← known, Function.update_eq_self]

/-- The vnodes in memory when there is a new one. -/
theorem Volume.addVnode_here (fresh : s.vnode v = none) :
    (s.addVnode v sv).Here u tv ↔ u = v ∧ tv = sv ∨ s.Here u tv := by
  have member : v ∈ (s.addVnode v sv).fs.sfsVnodes := List.mem_append_right _ (List.mem_singleton_self v)
  have vnode : (s.addVnode v sv).vnode u = if u = v then some sv else s.vnode u := Function.update_apply ..
  unfold Volume.Here
  rw [vnode]
  by_cases same : u = v
  · subst same
    rw [if_pos rfl, Option.some_inj, fresh]
    constructor
    · rintro ⟨-, rfl⟩
      exact .inl ⟨rfl, rfl⟩
    · rintro (⟨-, rfl⟩ | ⟨-, absent⟩)
      · exact ⟨member, rfl⟩
      · cases absent
  · rw [if_neg same]
    have members : u ∈ (s.addVnode v sv).fs.sfsVnodes ↔ u ∈ s.fs.sfsVnodes :=
      List.mem_append.trans (or_iff_left fun other => same (List.mem_singleton.mp other))
    rw [members]
    constructor
    · exact .inr
    · rintro (⟨is, -⟩ | there)
      · exact absurd is same
      · exact there

/-- The table with a new vnode in it. -/
theorem Tabled.add (h : Tabled s) (fresh : s.vnode v = none) (one : sv.vnRefcount = 1) (shut : sv.vnOpencount = 0)
    (new : ∀ u tv, s.Here u tv → tv.svIno ≠ sv.svIno) : Tabled (s.addVnode v sv) := by
  have cases' {u : Nat} {tv : SfsVnode} := @Volume.addVnode_here s v u sv tv fresh
  have absent : v ∉ s.fs.sfsVnodes := by
    intro member
    obtain ⟨tv, there⟩ := (h.there v).mp member
    rw [fresh] at there
    cases there
  refine ⟨?_, fun u => ?_, fun a b sa sb first second same => ?_, fun u tv there => ?_, fun u tv there => ?_⟩
  · refine List.nodup_append.mpr ⟨h.nodup, List.nodup_singleton v, fun a member b last => ?_⟩
    rw [List.mem_singleton.mp last]
    rintro rfl
    exact absent member
  · have vnode : (s.addVnode v sv).vnode u = if u = v then some sv else s.vnode u := Function.update_apply ..
    rw [vnode]
    change u ∈ s.fs.sfsVnodes ++ [v] ↔ _
    rw [List.mem_append, List.mem_singleton]
    by_cases same : u = v
    · rw [if_pos same]
      exact iff_of_true (.inr same) ⟨_, rfl⟩
    · rw [if_neg same, or_iff_left same]
      exact h.there u
  · obtain ⟨rfl, rfl⟩ | first' := cases'.mp first
    · obtain ⟨rfl, rfl⟩ | second' := cases'.mp second
      · rfl
      · exact absurd same.symm (new b sb second')
    · obtain ⟨rfl, rfl⟩ | second' := cases'.mp second
      · exact absurd same (new a sa first')
      · exact h.apart a b sa sb first' second' same
  · obtain ⟨rfl, rfl⟩ | there := cases'.mp there
    · omega
    · exact h.refcount u tv there
  · obtain ⟨rfl, rfl⟩ | there := cases'.mp there
    · exact shut
    · exact h.opencount u tv there

theorem Volume.addVnode_refs (fresh : s.vnode v = none) :
    (s.addVnode v sv).refs = Function.update s.refs v sv.vnRefcount ∧
      (s.addVnode v sv).handle = Function.update s.handle v (some sv.svIno) ∧ s.refs v = 0 := by
  have vnode (u : Nat) : (s.addVnode v sv).vnode u = if u = v then some sv else s.vnode u :=
    Function.update_apply ..
  refine ⟨funext fun u => ?_, funext fun u => ?_, ?_⟩
  · unfold Volume.refs
    rw [vnode, Function.update_apply]
    split
    · rfl
    · rfl
  · unfold Volume.handle
    rw [vnode, Function.update_apply]
    split
    · rfl
    · rfl
  · unfold Volume.refs
    rw [fresh]
    rfl

/-- An inode in use gets a vnode. -/
theorem Books.add (h : Books s live) (here : live ino) (fresh : s.vnode v = none)
    (absent : ∀ u tv, s.Here u tv → tv.svIno ≠ ino) :
    Gets s (s.addVnode v ⟨1, 0, .ofSector (s.fs.sfsDevice.blocks ino), ino, false⟩) live v ino := by
  have cases' {u : Nat} {tv : SfsVnode} := @Volume.addVnode_here s v u
    ⟨1, 0, .ofSector (s.fs.sfsDevice.blocks ino), ino, false⟩ tv fresh
  have table := @Tabled.add s v ⟨1, 0, .ofSector (s.fs.sfsDevice.blocks ino), ino, false⟩ h.table fresh rfl rfl absent
  obtain ⟨refs, handle, zero⟩ := @Volume.addVnode_refs s v
    ⟨1, 0, .ofSector (s.fs.sfsDevice.blocks ino), ino, false⟩ fresh
  have inodes (j : UInt32) (_ : live j) :
      (s.addVnode v ⟨1, 0, .ofSector (s.fs.sfsDevice.blocks ino), ino, false⟩).inode j = s.inode j := by
    refine table.inode_eq (fun u tv there is => ?_) fun gone => ?_
    · obtain ⟨rfl, rfl⟩ | there := cases'.mp there
      · rw [← is]
        exact (h.table.inode_disk absent).symm
      · rw [← is]
        exact (h.table.inode there).symm
    · exact (h.table.inode_disk fun u tv there => gone u tv (cases'.mpr (.inr there))).symm
  obtain ⟨books, slots, same⟩ := h.retable table ⟨rfl, rfl, rfl, rfl, rfl⟩ inodes
    (fun u tv there => by
      obtain ⟨rfl, rfl⟩ | there := cases'.mp there
      · exact here
      · exact h.loaded u tv there)
    fun u tv there clean => by
      obtain ⟨rfl, rfl⟩ | there := cases'.mp there
      · rfl
      · exact h.saved u tv there clean
  refine ⟨books, ⟨_, cases'.mpr (.inl ⟨rfl, rfl⟩), rfl⟩, slots, same, ?_, handle,
    .inl (congrArg (Option.map SfsVnode.svIno) fresh)⟩
  rw [refs, zero]
  rfl

end References

/-! ### `sfs_loadvnode` -/

section Load

variable {s t : Volume} {live : UInt32 → Prop} {v : Nat} {sv : SfsVnode} {ino : UInt32} {w : Replies}
variable {mallocs : LoadMallocs}

/-- `kmalloc` returns an address where nothing is. -/
def FreshMalloc (s : Volume) (mallocs : LoadMallocs) : Prop := ∀ v, mallocs.vnode = some v → s.vnode v = none

/-- The search comes back when every inode in memory is in a block in use. -/
theorem findVnode_eq (sound : s.fs.Sound) (ino : UInt32) (l : List Nat)
    (each : ∀ v ∈ l, ∃ sv, s.vnode v = some sv ∧ s.fs.Used sv.svIno) :
    ∃ found, findVnode ino l s w = .done (.ok found, s, w) ∧ Found s ino l found := by
  induction l with
  | nil => exact ⟨none, rfl, by simp [Found]⟩
  | cons v rest ih =>
    obtain ⟨sv, there, inside, marked⟩ := each v List.mem_cons_self
    have used : onVolume (sfsBused sv.svIno) s w = .done (.ok true, s, w) := by
      have goes := sound.bused (w := w) inside
      rw [marked] at goes
      exact onVolume_eq goes
    unfold findVnode
    rw [Fallible.bind_ok (vnodeAt_eq there), Fallible.bind_ok used, if_neg (by simp)]
    by_cases same : sv.svIno = ino
    · rw [if_pos same]
      exact ⟨some v, rfl, List.mem_cons_self, sv, there, same⟩
    · rw [if_neg same]
      obtain ⟨found, goes, holds⟩ := ih fun u member => each u (List.mem_cons_of_mem v member)
      refine ⟨found, goes, ?_⟩
      cases found with
      | some u => exact ⟨List.mem_cons_of_mem v holds.1, holds.2⟩
      | none =>
        intro u member tv there'
        obtain rfl | member := List.mem_cons.mp member
        · rw [there] at there'
          cases there'
          exact same
        · exact holds u member tv there'

theorem Books.sound (h : Books s live) : s.fs.Sound := (h.layout.trees _ h.root).sound

theorem Books.used (h : Books s live) (here : live ino) : s.fs.Used ino :=
  h.layout.owned.used (.inode ino) ino ⟨here, rfl⟩

theorem Books.onDevice (h : Books s live) (here : live ino) : ino < s.fs.sfsDevice.dBlocks :=
  UInt32.lt_of_lt_of_le (h.used here).1 h.sound.device

theorem Books.each (h : Books s live) (v : Nat) (member : v ∈ s.fs.sfsVnodes) :
    ∃ sv, s.vnode v = some sv ∧ s.fs.Used sv.svIno := by
  obtain ⟨sv, there⟩ := (h.table.there v).mp member
  exact ⟨sv, there, h.used (h.loaded v sv ⟨member, there⟩)⟩

theorem Books.type (h : Books s live) (here : live ino) :
    (s.inode ino).sfiType = 1 ∨ (s.inode ino).sfiType = 2 := by
  by_cases root : ino = sfsRootdirIno
  · rw [root]
    exact .inr h.dir.type
  · exact .inl (h.files ino here root)

theorem readblock_volume (fine : Fine w) (there : ino < s.fs.sfsDevice.dBlocks) :
    onVolume (sfsReadblock ino) s w = .done (.ok (s.fs.sfsDevice.blocks ino), s, w.after 1) :=
  onVolume_eq (sfsReadblock_ok there (fine 0))

theorem bused_volume (h : s.fs.Sound) (used : s.fs.Used ino) :
    onVolume (sfsBused ino) s w = .done (.ok true, s, w) := by
  have goes := h.bused (w := w) used.1
  rw [used.2] at goes
  exact onVolume_eq goes

/-- The vnode of an inode in use is found or made, unless there is no memory. -/
theorem Books.loadvnode (h : Books s live) (fine : Fine w) (here : live ino) (fresh : FreshMalloc s mallocs) :
    Goes (sfsLoadvnode ino 0 mallocs) s w fun r t =>
      (∃ v, r = .ok v ∧ Gets s t live v ino) ∨ r = .error .enomem ∧ t = s := by
  obtain ⟨found, finds, holds⟩ := findVnode_eq (w := w) h.sound ino s.fs.sfsVnodes h.each
  unfold Goes Fallible.Returns sfsLoadvnode
  rw [Fallible.get_bind, Fallible.bind_ok finds]
  cases found with
  | some v =>
    obtain ⟨member, sv, there, rfl⟩ := holds
    dsimp only
    rw [Fallible.kassert_bind rfl]
    unfold vnodeIncref
    rw [Fallible.bind_ok (addRefs_eq there)]
    exact goes_pure fine (.inl ⟨v, rfl, h.incref ⟨member, there⟩⟩)
  | none =>
    have absent (u : Nat) (tv : SfsVnode) (there : s.Here u tv) : tv.svIno ≠ ino := holds u there.1 tv there.2
    cases malloc : mallocs.vnode with
    | none => exact goes_fail fine (.inr ⟨rfl, rfl⟩)
    | some v =>
      have inode := h.table.inode_disk absent
      have type := h.type here
      rw [inode] at type
      dsimp only
      rw [Fallible.bind_ok (bused_volume h.sound (h.used here)), if_neg (by simp),
        Fallible.bind_ok (readblock_volume fine (h.onDevice here))]
      have makes : newVnode ino (.ofSector (s.fs.sfsDevice.blocks ino)) 0 s (w.after 1) =
          .done (.ok ⟨1, 0, .ofSector (s.fs.sfsDevice.blocks ino), ino, false⟩, s, w.after 1) := rfl
      rw [Fallible.bind_ok makes, if_neg (by dsimp only; tauto)]
      by_cases room : mallocs.table = false
      · rw [if_pos room]
        exact goes_fail (fine.after 1) (.inr ⟨rfl, rfl⟩)
      · rw [if_neg room]
        exact ⟨_, _, _, rfl, fine.after 1, .inl ⟨v, rfl, h.add here (fresh v malloc) absent⟩⟩

end Load

/-! ### `vnode_decref` -/

section Release

variable {s t : Volume} {live : UInt32 → Prop} {v u : Nat} {sv tv : SfsVnode} {f : File} {i ino : UInt32}
variable {w : Replies}

theorem Volume.removeVnode_here : (s.removeVnode v).Here u tv ↔ u ≠ v ∧ s.Here u tv := by
  have vnode : (s.removeVnode v).vnode u = if u = v then none else s.vnode u := Function.update_apply ..
  unfold Volume.Here
  rw [vnode]
  by_cases same : u = v
  · rw [if_pos same]
    exact iff_of_false (by simp) fun there => there.1 same
  · rw [if_neg same]
    have members : u ∈ (s.removeVnode v).fs.sfsVnodes ↔ u ∈ s.fs.sfsVnodes := List.mem_erase_of_ne same
    rw [members]
    exact (and_iff_right same).symm

theorem Tabled.remove (h : Tabled s) (v : Nat) : Tabled (s.removeVnode v) := by
  have here {u : Nat} {tv : SfsVnode} := @Volume.removeVnode_here s v u tv
  refine ⟨h.nodup.erase v, fun u => ?_, fun a b sa sb first second => ?_, fun u tv there => ?_,
    fun u tv there => ?_⟩
  · have vnode : (s.removeVnode v).vnode u = if u = v then none else s.vnode u := Function.update_apply ..
    rw [vnode]
    by_cases same : u = v
    · rw [if_pos same, same]
      exact iff_of_false h.nodup.not_mem_erase (by simp)
    · rw [if_neg same]
      exact (List.mem_erase_of_ne same).trans (h.there u)
  · exact h.apart a b sa sb (here.mp first).2 (here.mp second).2
  · exact h.refcount u tv (here.mp there).2
  · exact h.opencount u tv (here.mp there).2

theorem Volume.removeVnode_refs : (s.removeVnode v).refs = Function.update s.refs v 0 ∧
    (s.removeVnode v).handle = Function.update s.handle v none := by
  have vnode (u : Nat) : (s.removeVnode v).vnode u = if u = v then none else s.vnode u := Function.update_apply ..
  refine ⟨funext fun u => ?_, funext fun u => ?_⟩
  · unfold Volume.refs
    rw [vnode, Function.update_apply]
    split
    · rfl
    · rfl
  · unfold Volume.handle
    rw [vnode, Function.update_apply]
    split
    · rfl
    · rfl

/-- The inode of a vnode that goes is on the disk. -/
theorem Books.remove (h : Books s live) (here : s.Here v sv) (clean : sv.svDirty = false) :
    Books (s.removeVnode v) live ∧ (s.removeVnode v).slots = s.slots ∧ Same s (s.removeVnode v) live := by
  have cases' {u : Nat} {tv : SfsVnode} := @Volume.removeVnode_here s v u tv
  have table := h.table.remove v
  refine h.retable table ⟨rfl, rfl, rfl, rfl, rfl⟩
    (fun j _ => table.inode_eq (fun u tv there is => ?_) fun gone => ?_)
    (fun u tv there => h.loaded u tv (cases'.mp there).2)
    fun u tv there clean => h.saved u tv (cases'.mp there).2 clean
  · rw [← is]
    exact (h.table.inode (cases'.mp there).2).symm
  · by_cases its : sv.svIno = j
    · rw [← its, h.table.inode here]
      exact h.saved v sv here clean
    · refine (h.table.inode_disk fun u tv there same => ?_).symm
      by_cases is : u = v
      · subst is
        have one := here.2.symm.trans there.2
        cases one
        exact its same
      · exact gone u tv (cases'.mpr ⟨is, there⟩) same

/-- The inode of a vnode that goes is given up. -/
theorem Books.discard (h : Books s live) (here : s.Here v sv) (other : sv.svIno ≠ sfsRootdirIno)
    (unnamed : ∀ i name, ¬ s.slots.At i name sv.svIno) (empty : ∀ x, ¬ (s.file sv.svIno).Refers x) :
    Books ((s.withFs (s.fs.freed sv.svIno)).removeVnode v) (fun j => live j ∧ j ≠ sv.svIno) ∧
      ((s.withFs (s.fs.freed sv.svIno)).removeVnode v).slots = s.slots ∧
      Same s ((s.withFs (s.fs.freed sv.svIno)).removeVnode v) fun j => live j ∧ j ≠ sv.svIno := by
  have freed : Tabled (s.withFs (s.fs.freed sv.svIno)) :=
    ⟨h.table.nodup, h.table.there, h.table.apart, h.table.refcount, h.table.opencount⟩
  have cases' {u : Nat} {tv : SfsVnode} := @Volume.removeVnode_here (s.withFs (s.fs.freed sv.svIno)) v u tv
  have table := freed.remove v
  obtain ⟨layout, elsewhere⟩ := h.layout.erases (h.loaded v sv here) empty
  have alone {u : Nat} {tv : SfsVnode} (there : s.Here u tv) (different : u ≠ v) : tv.svIno ≠ sv.svIno :=
    fun same => different (h.table.apart u v tv sv there here same)
  have inodes (j : UInt32) (different : j ≠ sv.svIno) :
      ((s.withFs (s.fs.freed sv.svIno)).removeVnode v).inode j = s.inode j := by
    refine table.inode_eq (fun u tv there is => ?_) fun gone => ?_
    · rw [← is]
      exact (h.table.inode (cases'.mp there).2).symm
    · refine (h.table.inode_disk fun u tv there same => ?_).symm
      by_cases is : u = v
      · subst is
        have one := here.2.symm.trans there.2
        cases one
        exact different same.symm
      · exact gone u tv (cases'.mpr ⟨is, there⟩) same
  have disk : SameDisk (s.fs.freed sv.svIno) ((s.withFs (s.fs.freed sv.svIno)).removeVnode v).fs :=
    ⟨rfl, rfl, rfl, rfl, rfl⟩
  obtain ⟨books, slots, same⟩ := h.rebuild table
    ((disk.layout layout).congr (fun _ => Iff.rfl) fun j there => inodes j there.2) rfl
    (disk.backed (h.backed.kept rfl rfl elsewhere.marked elsewhere.system)) ⟨h.root, other.symm⟩
    (fun j there => .inl ⟨there.1, inodes j there.2, (elsewhere.files j there.1 there.2).trans (disk.file _)⟩)
    (fun u tv there => ⟨h.loaded u tv (cases'.mp there).2, alone (cases'.mp there).2 (cases'.mp there).1⟩)
    (fun u tv there clean => h.saved u tv (cases'.mp there).2 clean)
    fun i name ino is => ⟨h.named i name ino is, fun same => unnamed i name (same ▸ is)⟩
  exact ⟨books, slots, same.mono fun j there => ⟨there.1, there⟩⟩

end Release

/-- Somebody gives a reference to a vnode up. When it is the last one to a file without links, the file
is gone. -/
structure Releases (s t : Volume) (live live' : UInt32 → Prop) (v : Nat) (sv : SfsVnode) : Prop where
  books : Books t live'
  same : Same s t live'
  less : ∀ i, live' i → live i
  gone : ∀ i, live i → live' i ∨ i = sv.svIno ∧ sv.svI.sfiLinkcount = 0 ∧ sv.vnRefcount = 1
  dead : sv.svI.sfiLinkcount = 0 → sv.vnRefcount = 1 → ¬ live' sv.svIno
  slots : t.slots = s.slots
  refs : t.refs = Function.update s.refs v (s.refs v - 1)
  handle : t.handle = if sv.vnRefcount = 1 then Function.update s.handle v none else s.handle

section Decref

variable {s t : Volume} {live : UInt32 → Prop} {v u : Nat} {sv tv : SfsVnode} {f g : File} {i ino : UInt32}
variable {w : Replies}

/-- A call that changes nothing about a file. -/
theorem Touched.still (h : Books s live) (touched : Touched s t live i) (inode : t.inode i = s.inode i)
    (same : SameFile (s.inode i) s.fs t.fs) : Books t live ∧ t.slots = s.slots ∧ Same s t live := by
  obtain ⟨books, slots, all⟩ := h.rebuild touched.table touched.layout touched.sb touched.backed h.root
    (fun j there => by
      by_cases is : j = i
      · exact .inl ⟨there, is ▸ inode, is ▸ same⟩
      · exact .inl ⟨there, touched.others j there is⟩) touched.loaded touched.saved h.named
  exact ⟨books, slots, all.mono fun _ there => ⟨there, there⟩⟩

theorem Volume.withFile_here (here : s.Here v sv) (vnodes : g.fs.sfsVnodes = s.fs.sfsVnodes) :
    (s.withFile v g).Here v g.sv :=
  (Volume.withVnode_here (s := s.withFs g.fs) (vnodes ▸ here.1)).mpr (.inl ⟨rfl, rfl⟩)

theorem Volume.withFile_withFile : (s.withFile v f).withFile v g = s.withFile v g := by
  unfold Volume.withFile Volume.withVnode Volume.withFs
  dsimp only
  rw [Function.update_idem]

/-- After `sfs_sync_inode` the inode is clean. -/
structure Flushed (f g : File) : Prop where
  clean : g.sv.svDirty = false
  inode : g.sv.svI = f.sv.svI
  ino : g.sv.svIno = f.sv.svIno
  refcount : g.sv.vnRefcount = f.sv.vnRefcount
  opencount : g.sv.vnOpencount = f.sv.vnOpencount
  vnodes : g.fs.sfsVnodes = f.fs.sfsVnodes

theorem Books.sync (h : Books s live) (fine : Fine w) (here : s.Here v sv) : ∃ g n,
    sfsSyncInode ⟨s.fs, sv⟩ w = .done (.ok (), g, w.after n) ∧ Flushed ⟨s.fs, sv⟩ g ∧
      Books (s.withFile v g) live ∧ (s.withFile v g).slots = s.slots ∧ Same s (s.withFile v g) live ∧
      (s.withFile v g).refs = s.refs ∧ (s.withFile v g).handle = s.handle := by
  cases dirty : sv.svDirty with
  | false =>
    have same : s.withFile v ⟨s.fs, sv⟩ = s := Volume.withVnode_self here.2
    refine ⟨⟨s.fs, sv⟩, 0, sfsSyncInode_clean dirty, ⟨dirty, rfl, rfl, rfl, rfl, rfl⟩, ?_⟩
    rw [same]
    exact ⟨h, rfl, .refl s live, rfl, rfl⟩
  | true =>
    obtain ⟨touched, inode⟩ := (Touch.sync h here).touched h here
    obtain ⟨-, -, same⟩ := h.layout.write (h.loaded v sv here) sv.svI.toSector
    obtain ⟨books, slots, all⟩ := touched.still h (inode.trans (h.table.inode here).symm) same
    exact ⟨_, 1, sfsSyncInode_ok dirty (h.onDevice (h.loaded v sv here)) (fine 0), ⟨rfl, rfl, rfl, rfl, rfl, rfl⟩,
      books, slots, all, touched.refs, touched.handle⟩

theorem dropVnode_eq (here : s.Here v sv) (last : sv.vnRefcount = 1) (shut : sv.vnOpencount = 0) :
    dropVnode v s w = .done (.ok (), s.removeVnode v, w) := by
  unfold dropVnode
  rw [Fallible.get_bind, if_neg (not_not_intro here.1), Fallible.bind_ok (vnodeAt_eq here.2),
    Fallible.kassert_bind last, Fallible.kassert_bind shut]
  rfl

/-- A truncation to nothing leaves no block. -/
theorem truncated_empty (f : File) (size : UInt32) : ((f.truncated 0).setSize size).sv.svI.Empty := by
  have gone (k : Nat) : keeps 0 k = false ∨ 15 ≤ k := by
    unfold keeps
    by_cases direct : k < 15
    · rw [if_pos direct]
      simp
    · exact .inr (by omega)
  refine ⟨funext fun i => ?_, ?_⟩
  · have place : (f.truncated 0).blockAt i = (f.truncated 0).sv.svI.sfiDirect i := File.blockAt_direct _ i
    change (f.truncated 0).sv.svI.sfiDirect i = 0
    rw [← place, truncated_blockAt, (gone i).resolve_right (by omega)]
    rfl
  · change (f.truncated 0).sv.svI.sfiIndirect = 0
    rw [truncated_indirect]
    by_cases there : f.sv.svI.sfiIndirect = 0
    · rw [there]
      exact ite_self 0
    · rw [if_pos]
      refine ⟨⟨by decide, there⟩, ?_⟩
      rintro ⟨j, nonzero⟩
      have entry : keeps 0 (15 + j) = false := by
        unfold keeps
        rw [if_neg (by omega)]
        simp
      rw [keptEntries_eq there, entry] at nonzero
      exact nonzero rfl

theorem Books.tree (h : Books s live) (here : s.Here v sv) : (⟨s.fs, sv⟩ : File).Tree := by
  have tree := h.layout.trees _ (h.loaded v sv here)
  rw [h.table.inode here] at tree
  exact File.tree_on.mp tree

/-- The last reference to a vnode goes. -/
theorem Books.reclaim (h : Books s live) (fine : Fine w) (here : s.Here v sv) (last : sv.vnRefcount = 1)
    (unnamed : sv.svI.sfiLinkcount = 0 → ∀ i name, ¬ s.slots.At i name sv.svIno) :
    Goes (sfsReclaim v) s w fun r t => r = .ok () ∧ ∃ live', Releases s t live live' v sv := by
  have shut := h.table.opencount v sv here
  have one : s.refs v - 1 = 0 := by
    unfold Volume.refs
    rw [here.2]
    exact Int.sub_eq_zero.mpr last
  unfold Goes Fallible.Returns sfsReclaim
  rw [Fallible.bind_ok (vnodeAt_eq here.2), if_neg (not_not_intro last)]
  by_cases unlinked : sv.svI.sfiLinkcount = 0
  · -- the file is erased
    have other : sv.svIno ≠ sfsRootdirIno := by
      intro root
      apply h.rootLinks
      unfold Volume.links
      rw [← root, h.table.inode here]
      exact unlinked
    let f := ((⟨s.fs, sv⟩ : File).truncated 0).setSize 0
    obtain ⟨n, cuts⟩ : ∃ n, sfsItrunc 0 ⟨s.fs, sv⟩ w = .done (.ok (), f, w.after n) :=
      (h.tree here).itrunc_ok 0 fine
    have keeps : Local ⟨s.fs, sv⟩ f := .truncated (h.tree here) 0 0
    obtain ⟨touched, inode⟩ := (Touch.local h here keeps).touched h here
    obtain ⟨cut, slots, others⟩ := touched.file h other
    have cutHere : (s.withFile v f).Here v f.sv := Volume.withFile_here here keeps.frame.vnodes
    obtain ⟨g, m, syncs, synced, books, slots', same, refs, handle⟩ := cut.sync (fine.after n) cutHere
    rw [Volume.withFile_withFile] at books slots' same refs handle
    have ino : g.sv.svIno = sv.svIno := synced.ino.trans keeps.frame.ino
    have links : g.sv.svI.sfiLinkcount = 0 := by rw [synced.inode, keeps.frame.linkcount, unlinked]
    have gHere : (s.withFile v g).Here v g.sv :=
      Volume.withFile_here here (synced.vnodes.trans keeps.frame.vnodes)
    have used := books.used (books.loaded v g.sv gHere)
    have frees : sfsBfree g.sv.svIno g.fs (w.after (n + m)) =
        .done (.ok (), g.fs.freed g.sv.svIno, w.after (n + m)) :=
      books.sound.bfree used.1 used.2
    have erases : reclaimFile ⟨s.fs, sv⟩ w =
        .done (.ok (), g.withFs (g.fs.freed g.sv.svIno), w.after (n + m)) := by
      change sfsSyncInode f (w.after n) = _ at syncs
      rw [← Replies.after_add] at syncs
      unfold reclaimFile eraseFile discardInode
      rw [Fallible.bind_ok (by rw [Fallible.get_bind, if_pos unlinked]; exact cuts), Fallible.bind_ok syncs,
        Fallible.get_bind, if_pos links]
      exact onFs_eq frees
    have goes : onVnode v reclaimFile s w = .done (.ok (), s.withFile v (g.withFs (g.fs.freed g.sv.svIno)),
      w.after (n + m)) := onVnode_eq here.2 erases
    have gone : (s.withFile v (g.withFs (g.fs.freed g.sv.svIno))).Here v g.sv :=
      Volume.withFile_here here (synced.vnodes.trans keeps.frame.vnodes)
    rw [Fallible.bind_ok goes, dropVnode_eq gone (synced.refcount.trans (keeps.frame.refcount.trans last))
      (synced.opencount.trans (keeps.frame.opencount.trans shut))]
    have empty (x : UInt32) : ¬ ((s.withFile v g).file g.sv.svIno).Refers x := by
      unfold Volume.file
      rw [books.table.inode gHere, synced.inode]
      exact (truncated_empty _ 0).not_refers
    have still : (s.withFile v g).slots = s.slots := slots'.trans slots
    obtain ⟨books', slots'', same'⟩ := books.discard gHere (ino ▸ other) (fun i name => by
      rw [still, ino]
      exact unnamed unlinked i name) empty
    obtain ⟨refs', handle'⟩ := @Volume.removeVnode_refs (s.withFile v (g.withFs (g.fs.freed g.sv.svIno))) v
    refine ⟨_, _, _, rfl, fine.after _, rfl, _, books', ⟨fun j there named => ?_, fun j there => ?_⟩,
      fun _ there => there.1, fun j there => ?_, fun _ _ there => there.2 ino.symm, slots''.trans still, ?_, ?_⟩
    · have different : j ≠ sv.svIno := ino ▸ there.2
      exact (same'.contents j there named).trans
        ((same.contents j there.1 named).trans (others j there.1 different).1)
    · have different : j ≠ sv.svIno := ino ▸ there.2
      exact (same'.links j there).trans ((same.links j there.1).trans (others j there.1 different).2)
    · by_cases its : j = sv.svIno
      · exact .inr ⟨its, unlinked, last⟩
      · exact .inl ⟨there, ino ▸ its⟩
    · rw [refs', one]
      exact congrArg (Function.update · v 0) (refs.trans touched.refs)
    · rw [handle', if_pos last]
      exact congrArg (Function.update · v none) (handle.trans touched.handle)
  · obtain ⟨g, n, syncs, synced, books, slots, same, refs, handle⟩ := h.sync fine here
    have here' := Volume.withFile_here here synced.vnodes
    have erases : reclaimFile ⟨s.fs, sv⟩ w = .done (.ok (), g, w.after n) := by
      unfold reclaimFile eraseFile discardInode
      rw [Fallible.bind_ok (by rw [Fallible.get_bind, if_neg unlinked]; rfl), Fallible.bind_ok syncs,
        Fallible.get_bind, if_neg (by rw [synced.inode]; exact unlinked)]
      rfl
    have goes : onVnode v reclaimFile s w = .done (.ok (), s.withFile v g, w.after n) := onVnode_eq here.2 erases
    rw [Fallible.bind_ok goes, dropVnode_eq here' (synced.refcount.trans last) (synced.opencount.trans shut)]
    obtain ⟨books', slots', same'⟩ := books.remove here' synced.clean
    obtain ⟨refs', handle'⟩ := @Volume.removeVnode_refs (s.withFile v g) v
    refine ⟨_, _, _, rfl, fine.after n, rfl, live, books', same.trans same', fun _ there => there,
      fun _ there => .inl there, fun none => absurd none unlinked, slots'.trans slots, ?_, ?_⟩
    · rw [refs', refs, one]
    · rw [handle', handle, if_pos last]

theorem Books.decref (h : Books s live) (fine : Fine w) (here : s.Here v sv)
    (unnamed : sv.svI.sfiLinkcount = 0 → ∀ i name, ¬ s.slots.At i name sv.svIno) :
    Goes (vnodeDecref v) s w fun r t => r = .ok () ∧ ∃ live', Releases s t live live' v sv := by
  have some := h.table.refcount v sv here
  have shut := h.table.opencount v sv here
  unfold Goes Fallible.Returns vnodeDecref
  rw [Fallible.bind_ok (vnodeAt_eq here.2), Fallible.kassert_bind some]
  by_cases more : 1 < sv.vnRefcount
  · rw [if_pos more, addRefs_eq here.2]
    obtain ⟨books, slots, same, refs, handle⟩ := h.recount here (n := -1) (by omega)
    refine ⟨_, _, _, rfl, fine, rfl, live, books, same, fun _ there => there, fun _ there => .inl there,
      fun _ last => absurd last (by omega), slots, refs, ?_⟩
    rw [handle, if_neg (by omega)]
  · rw [if_neg more]
    obtain ⟨r, t, u, goes, fine', rfl, releases⟩ := h.reclaim fine here (by omega) unnamed
    have reclaims : vopReclaim v s w = .done (.ok (), t, u) := by
      unfold vopReclaim
      rw [Fallible.bind_ok (vnodeAt_eq here.2), Fallible.kassert_bind (by omega), Fallible.kassert_bind (by omega)]
      exact goes
    exact ⟨_, t, u, Fallible.attempt_bind reclaims, fine', rfl, releases⟩

end Decref

/-! ### `sfs_makeobj` -/

/-- There is a new file, without names, and a vnode of it. -/
structure Makes (s t : Volume) (live : UInt32 → Prop) (v : Nat) (ino : UInt32) : Prop where
  new : ¬ live ino
  fresh : s.vnode v = none
  books : Books t fun j => live j ∨ j = ino
  vnode : ∃ sv, t.Here v sv ∧ sv.svIno = ino ∧ sv.svI.sfiType = sfsTypeFile
  empty : t.contents ino = ⟨0, fun _ => 0⟩
  links : t.links ino = 0
  slots : t.slots = s.slots
  same : Same s t live
  refs : t.refs = Function.update s.refs v (s.refs v + 1)
  handle : t.handle = Function.update s.handle v (some ino)

/-- Only the entries of the root directory may have changed. -/
structure Relists (s t : Volume) (live : UInt32 → Prop) (slots : Slots Name UInt32) : Prop where
  books : Books t live
  slots : t.slots = slots
  same : Same s t live
  refs : t.refs = s.refs
  handle : t.handle = s.handle

/-- Nothing that can be seen has changed. -/
abbrev Unseen (s t : Volume) (live : UInt32 → Prop) : Prop := Relists s t live s.slots

section Makeobj

variable {s t : Volume} {live : UInt32 → Prop} {v : Nat} {ino : UInt32} {w : Replies} {mallocs : LoadMallocs}

theorem Books.unseen (h : Books s live) : Unseen s s live := ⟨h, rfl, .refl s live, rfl, rfl⟩

/-- The inode in a block of zeros, with this type. -/
def newInode (type : UInt16) : Dinode := { Dinode.ofSector zeroSector with sfiType := type }

theorem newInode_empty (type : UInt16) : (newInode type).Empty := by
  have zeros := sectorWords_zero
  unfold newInode Dinode.Empty Dinode.ofSector
  dsimp only
  rw [zeros]
  exact ⟨rfl, rfl⟩

theorem newInode_fields (type : UInt16) : (newInode type).sfiSize = 0 ∧ (newInode type).sfiLinkcount = 0 := by
  have zeros := sectorWords_zero
  unfold newInode Dinode.ofSector
  dsimp only
  rw [zeros]
  exact ⟨rfl, rfl⟩

theorem zeroSector_type : (Dinode.ofSector zeroSector).sfiType = 0 := by
  have zeros := sectorWords_zero
  unfold Dinode.ofSector
  dsimp only
  rw [zeros]
  rfl

theorem Dinode.Empty.content {d : Dinode} (empty : d.Empty) (fs : SfsFs) (k : Nat) :
    (d.on fs).content k = zeroSector := if_pos (empty.blockAt k)

theorem Dinode.Empty.bytes {d : Dinode} (empty : d.Empty) (fs : SfsFs) : (d.on fs).bytes = fun _ => 0 := by
  funext p
  unfold File.bytes
  rw [empty.content]
  rfl

/-- A new vnode for a block that was just allocated. -/
theorem Books.make (h : Books s live) (fresh : s.fs.Fresh ino) (free : s.vnode v = none) :
    Makes s ((s.withFs (s.fs.allocated ino)).addVnode v ⟨1, 0, newInode sfsTypeFile, ino, true⟩) live v ino := by
  have new := h.layout.fresh fresh
  have table : Tabled (s.withFs (s.fs.allocated ino)) :=
    ⟨h.table.nodup, h.table.there, h.table.apart, h.table.refcount, h.table.opencount⟩
  have absent (u : Nat) (tv : SfsVnode) (there : s.Here u tv) : tv.svIno ≠ ino :=
    fun same => new (same ▸ h.loaded u tv there)
  have cases' {u : Nat} {tv : SfsVnode} := @Volume.addVnode_here (s.withFs (s.fs.allocated ino)) v u
    ⟨1, 0, newInode sfsTypeFile, ino, true⟩ tv free
  have table' := @Tabled.add _ v ⟨1, 0, newInode sfsTypeFile, ino, true⟩ table free rfl rfl absent
  obtain ⟨refs, handle, zero⟩ := @Volume.addVnode_refs (s.withFs (s.fs.allocated ino)) v
    ⟨1, 0, newInode sfsTypeFile, ino, true⟩ free
  have self := (cases' (u := v)).mpr (.inl ⟨rfl, rfl⟩)
  have inode : ((s.withFs (s.fs.allocated ino)).addVnode v ⟨1, 0, newInode sfsTypeFile, ino, true⟩).inode ino =
      newInode sfsTypeFile := table'.inode self
  obtain ⟨layout, elsewhere⟩ := h.layout.makes h.sound fresh (newInode_empty sfsTypeFile)
  have inodes (j : UInt32) (there : live j) :
      ((s.withFs (s.fs.allocated ino)).addVnode v ⟨1, 0, newInode sfsTypeFile, ino, true⟩).inode j = s.inode j := by
    have different : j ≠ ino := fun same => new (same ▸ there)
    refine table'.inode_eq (fun u tv there' is => ?_) fun gone => ?_
    · obtain ⟨rfl, rfl⟩ | there' := cases'.mp there'
      · exact absurd is.symm different
      · rw [← is]
        exact (h.table.inode there').symm
    · rw [h.table.inode_disk fun u tv there' => gone u tv (cases'.mpr (.inr there'))]
      exact congrArg Dinode.ofSector (elsewhere.inodes j there different)
  have disk : SameDisk (s.fs.allocated ino)
    ((s.withFs (s.fs.allocated ino)).addVnode v ⟨1, 0, newInode sfsTypeFile, ino, true⟩).fs :=
    ⟨rfl, rfl, rfl, rfl, rfl⟩
  obtain ⟨books, slots, same⟩ := h.rebuild table' ((disk.layout layout).congr (fun _ => Iff.rfl) fun j there => by
      by_cases its : j = ino
      · rw [its, Function.update_self, inode]
      · rw [Function.update_of_ne its, inodes j (there.resolve_right its)]) rfl
    (disk.backed (h.backed.kept rfl rfl elsewhere.marked elsewhere.system)) (.inl h.root)
    (fun j there => by
      by_cases its : j = ino
      · exact .inr ⟨its ▸ new, by rw [its, inode]; rfl⟩
      · have was := there.resolve_right its
        exact .inl ⟨was, inodes j was, (elsewhere.files j was its).trans (disk.file _)⟩)
    (fun u tv there => by
      obtain ⟨rfl, rfl⟩ | there := cases'.mp there
      · exact .inr rfl
      · exact .inl (h.loaded u tv there))
    (fun u tv there clean => by
      obtain ⟨rfl, rfl⟩ | there := cases'.mp there
      · cases clean
      · have different := absent u tv there
        rw [← h.saved u tv there clean]
        exact congrArg Dinode.ofSector (elsewhere.inodes _ (h.loaded u tv there) different))
    fun i name j is => .inl (h.named i name j is)
  refine ⟨new, free, books, ⟨_, self, rfl, rfl⟩, ?_, ?_, slots,
    same.mono fun j there => ⟨there, .inl there⟩, ?_, handle⟩
  · unfold Volume.contents Volume.file File.contents
    rw [inode, (newInode_empty sfsTypeFile).bytes]
    congr 1
  · unfold Volume.links
    rw [inode]
    exact (newInode_fields sfsTypeFile).2
  · rw [refs]
    exact congrArg (Function.update s.refs v) (congrArg (· + 1) zero).symm

/-- A block that is allocated and freed again. -/
theorem Books.undo (h : Books s live) (fresh : s.fs.Fresh ino) :
    Unseen s (s.withFs ((s.fs.allocated ino).freed ino)) live := by
  have new := h.layout.fresh fresh
  have table : Tabled (s.withFs ((s.fs.allocated ino).freed ino)) :=
    ⟨h.table.nodup, h.table.there, h.table.apart, h.table.refcount, h.table.opencount⟩
  obtain ⟨made, elsewhere⟩ := h.layout.makes h.sound fresh (newInode_empty sfsTypeFile)
  have empty (x : UInt32) :
      ¬ ((Function.update s.inode ino (newInode sfsTypeFile) ino).on (s.fs.allocated ino)).Refers x := by
    rw [Function.update_self]
    exact (newInode_empty sfsTypeFile).not_refers
  obtain ⟨layout, freed⟩ := made.erases (.inr rfl) empty
  have allocated : Backed (s.fs.allocated ino) := h.backed.kept rfl rfl elsewhere.marked elsewhere.system
  have apart {j : UInt32} (there : live j) : j ≠ ino := fun same => new (same ▸ there)
  have inodes (j : UInt32) (there : live j) :
      (s.withFs ((s.fs.allocated ino).freed ino)).inode j = s.inode j := by
    refine table.inode_eq (fun u tv there' is => ?_) fun gone => ?_
    · rw [← is]
      exact (h.table.inode there').symm
    · rw [h.table.inode_disk gone]
      exact congrArg Dinode.ofSector (elsewhere.inodes j there (apart there))
  have files (j : UInt32) (there : live j) : SameFile (s.inode j) s.fs ((s.fs.allocated ino).freed ino) := by
    have second := freed.files j (.inl there) (apart there)
    rw [Function.update_of_ne (apart there)] at second
    exact (elsewhere.files j there (apart there)).trans second
  obtain ⟨books, slots, same⟩ := h.rebuild table (layout.congr
      (fun j => ⟨fun there => ⟨.inl there, apart there⟩, fun there => there.1.resolve_right there.2⟩)
      fun j there => by rw [Function.update_of_ne there.2, inodes j (there.1.resolve_right there.2)]) rfl
    (allocated.kept rfl rfl freed.marked freed.system) h.root
    (fun j there => .inl ⟨there, inodes j there, files j there⟩) h.loaded
    (fun u tv there clean => by
      have was := h.loaded u tv there
      rw [← h.saved u tv there clean]
      exact congrArg Dinode.ofSector (elsewhere.inodes _ was (apart was)))
    h.named
  exact ⟨books, slots, same.mono fun j there => ⟨there, there⟩, rfl, rfl⟩

/-- `sfs_makeobj` for a file makes one, unless there is no room or no memory. -/
theorem Books.makeobj (h : Books s live) (fine : Fine w) (free : FreshMalloc s mallocs) :
    Goes (sfsMakeobj sfsTypeFile mallocs) s w fun r t =>
      (∃ v ino, r = .ok v ∧ Makes s t live v ino) ∨
      (r = .error .enospc ∨ r = .error .enomem) ∧ Unseen s t live := by
  rcases h.sound.balloc w with ⟨-, full⟩ | ⟨ino, fresh, ⟨-, allocates⟩ | ⟨err, fails, -⟩⟩
  · exact ⟨_, _, _, Fallible.bind_error (onVolume_eq full), fine, .inr ⟨.inl rfl, h.unseen⟩⟩
  · have fine' : Fine w.answer.2 := fine.after 1
    have new := h.layout.fresh fresh
    have sound := h.sound.allocated ino
    have self : (s.fs.allocated ino).Used ino := ⟨fresh.inside, by rw [SfsFs.allocated_bit]; simp⟩
    obtain ⟨found, finds, holds⟩ := @findVnode_eq (s.withFs (s.fs.allocated ino)) w.answer.2 sound ino
      (s.withFs (s.fs.allocated ino)).fs.sfsVnodes fun v member => by
        obtain ⟨sv, there, inside, marked⟩ := h.each v member
        refine ⟨sv, there, inside, ?_⟩
        change (s.fs.allocated ino).sfsFreemap.bit sv.svIno = true
        rw [SfsFs.allocated_bit, marked, Bool.true_or]
    have absent : found = none := by
      cases found with
      | none => rfl
      | some v =>
        obtain ⟨member, sv, there, same⟩ := holds
        exact absurd (same ▸ h.loaded v sv ⟨member, there⟩) new
    subst absent
    have lost {u : Replies} (fine : Fine u) (fails : sfsLoadvnode ino sfsTypeFile mallocs
        (s.withFs (s.fs.allocated ino)) w.answer.2 = .done (.error .enomem, s.withFs (s.fs.allocated ino), u)) :
        Goes (sfsMakeobj sfsTypeFile mallocs) s w fun r t => (∃ v ino, r = .ok v ∧ Makes s t live v ino) ∨
          (r = .error .enospc ∨ r = .error .enomem) ∧ Unseen s t live := by
      have frees : sfsBfree ino (s.fs.allocated ino) u = .done (.ok (), (s.fs.allocated ino).freed ino, u) :=
        sound.bfree self.1 self.2
      unfold Goes Fallible.Returns sfsMakeobj
      rw [Fallible.bind_ok (onVolume_eq allocates), Fallible.attempt_bind fails]
      exact ⟨_, _, u, Fallible.bind_ok (onVolume_eq frees), fine, .inr ⟨.inr rfl, h.undo fresh⟩⟩
    cases malloc : mallocs.vnode with
    | none =>
      refine lost fine' ?_
      unfold sfsLoadvnode
      rw [Fallible.get_bind, Fallible.bind_ok finds, malloc]
      rfl
    | some v =>
      have zeros : Dinode.ofSector ((s.fs.allocated ino).sfsDevice.blocks ino) = .ofSector zeroSector :=
        congrArg Dinode.ofSector SfsFs.allocated_self
      have makes : newVnode ino (.ofSector ((s.fs.allocated ino).sfsDevice.blocks ino)) sfsTypeFile
          (s.withFs (s.fs.allocated ino)) (w.answer.2.after 1) =
          .done (.ok ⟨1, 0, newInode sfsTypeFile, ino, true⟩, s.withFs (s.fs.allocated ino), w.answer.2.after 1) := by
        unfold newVnode
        rw [if_pos (by decide), zeros, Fallible.kassert_bind zeroSector_type]
        rfl
      have there : ino < (s.fs.allocated ino).sfsDevice.dBlocks := UInt32.lt_of_lt_of_le fresh.inside h.sound.device
      have reads : onVolume (sfsReadblock ino) (s.withFs (s.fs.allocated ino)) w.answer.2 =
          .done (.ok ((s.fs.allocated ino).sfsDevice.blocks ino), s.withFs (s.fs.allocated ino), w.answer.2.after 1) :=
        readblock_volume fine' there
      have loads (table : Bool) : sfsLoadvnode ino sfsTypeFile ⟨some v, table⟩ (s.withFs (s.fs.allocated ino))
          w.answer.2 = if table = false then
            .done (.error .enomem, s.withFs (s.fs.allocated ino), w.answer.2.after 1) else
            .done (.ok v, (s.withFs (s.fs.allocated ino)).addVnode v ⟨1, 0, newInode sfsTypeFile, ino, true⟩,
              w.answer.2.after 1) := by
        unfold sfsLoadvnode
        rw [Fallible.get_bind, Fallible.bind_ok finds]
        dsimp only
        rw [Fallible.bind_ok (bused_volume sound self), if_neg (by simp), Fallible.bind_ok reads,
          Fallible.bind_ok makes, if_neg fun bad => bad.1 rfl]
        split
        · rfl
        · rfl
      obtain ⟨vnode, table⟩ := mallocs
      cases malloc
      cases table with
      | false => exact lost (fine'.after 1) (loads false)
      | true =>
        unfold Goes Fallible.Returns sfsMakeobj
        rw [Fallible.bind_ok (onVolume_eq allocates), Fallible.attempt_bind (loads true)]
        exact ⟨_, _, _, rfl, fine'.after 1, .inl ⟨v, ino, rfl, h.make fresh (free v rfl)⟩⟩
  · exact fine.not_fails (n := 0) fails

end Makeobj

end Os161.Sfs
