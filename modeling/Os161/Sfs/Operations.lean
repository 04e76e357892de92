import Os161.Sfs.Loads
import Os161.Sfs.Store

/-!
# What can be seen of a volume

The parts that the operations of `sfs_vnops.c` are made of, each with what it changes of the names, the
files, their links and the references to the vnodes.
-/

namespace Os161.Sfs

/-- The entries of the root directory, the files and the vnodes. -/
structure View where
  slots : Slots Name UInt32
  links : UInt32 → UInt16
  contents : UInt32 → Contents
  refs : Nat → Int
  handle : Nat → Option UInt32

namespace View

/-- Somebody has one more reference to a vnode. -/
def get (x : View) (v : Nat) (ino : UInt32) : View :=
  { x with refs := Function.update x.refs v (x.refs v + 1), handle := Function.update x.handle v (some ino) }

/-- Somebody gives a reference up. -/
def drop (x : View) (v : Nat) : View :=
  { x with
    refs := Function.update x.refs v (x.refs v - 1)
    handle := if x.refs v = 1 then Function.update x.handle v none else x.handle }

def list (x : View) (slots : Slots Name UInt32) : View := { x with slots := slots }

def link (x : View) (ino : UInt32) (n : UInt16) : View := { x with links := Function.update x.links ino n }

def fill (x : View) (ino : UInt32) (c : Contents) : View :=
  { x with contents := Function.update x.contents ino c }

section

variable {x : View} {v : Nat} {ino i : UInt32} {n : UInt16} {c : Contents} {slots : Slots Name UInt32}

@[simp] theorem link_self : (x.link ino n).links ino = n := Function.update_self ..

@[simp] theorem fill_self : (x.fill ino c).contents ino = c := Function.update_self ..

theorem link_of_ne (other : i ≠ ino) : (x.link ino n).links i = x.links i := Function.update_of_ne other ..

theorem fill_of_ne (other : i ≠ ino) : (x.fill ino c).contents i = x.contents i := Function.update_of_ne other ..

@[simp] theorem get_handle : (x.get v ino).handle v = some ino := Function.update_self ..

@[simp] theorem get_refs : (x.get v ino).refs v = x.refs v + 1 := Function.update_self ..

@[simp] theorem get_slots : (x.get v ino).slots = x.slots := rfl

@[simp] theorem list_slots : (x.list slots).slots = slots := rfl

@[simp] theorem list_links : (x.list slots).links = x.links := rfl

@[simp] theorem link_slots : (x.link ino n).slots = x.slots := rfl

end

end View

/-- A volume whose books are in order, and what can be seen of it. -/
structure Looks (s : Volume) (live : UInt32 → Prop) (x : View) : Prop where
  books : Books s live
  slots : s.slots = x.slots
  links : ∀ i, live i → s.links i = x.links i
  contents : ∀ i, live i → i ≠ sfsRootdirIno → s.contents i = x.contents i
  refs : s.refs = x.refs
  handle : s.handle = x.handle

section Looks

variable {s t : Volume} {live live' : UInt32 → Prop} {x : View} {v d slot : Nat} {sv dv : SfsVnode}
variable {ino i : UInt32} {name : Name} {w : Replies} {slots : Slots Name UInt32}

theorem Books.handle_iff (h : Books s live) : s.handle v = some ino ↔ ∃ sv, s.Here v sv ∧ sv.svIno = ino := by
  unfold Volume.handle
  rw [Option.map_eq_some_iff]
  exact exists_congr fun sv => and_congr_left' ⟨h.table.here, fun here => here.2⟩

/-- What the vnode of a handle is. -/
theorem Looks.vnode (h : Looks s live x) (held : x.handle v = some ino) : ∃ sv, s.Here v sv ∧ sv.svIno = ino ∧
    live ino ∧ sv.vnRefcount = x.refs v ∧ sv.svI.sfiLinkcount = x.links ino ∧
    (sv.svI.sfiType = sfsTypeDir ↔ ino = sfsRootdirIno) ∧ sv.svI.sfiType = (s.inode ino).sfiType := by
  rw [← h.handle] at held
  obtain ⟨sv, here, rfl⟩ := h.books.handle_iff.mp held
  have there := h.books.loaded v sv here
  have inode := h.books.table.inode here
  refine ⟨sv, here, rfl, there, ?_, ?_, ?_, congrArg Dinode.sfiType inode.symm⟩
  · rw [← h.refs]
    unfold Volume.refs
    rw [here.2]
    rfl
  · rw [← h.links _ there]
    exact congrArg Dinode.sfiLinkcount inode.symm
  · rw [← inode]
    constructor
    · intro type
      by_contra other
      rw [h.books.files _ there other] at type
      cases type
    · intro root
      rw [root]
      exact h.books.dir.type

/-- No inode has two vnodes. -/
theorem Looks.apart (h : Looks s live x) {u : Nat} (first : x.handle u = some ino)
    (second : x.handle v = some ino) :
    u = v := by
  obtain ⟨su, hereU, isU, -⟩ := h.vnode first
  obtain ⟨sv, hereV, isV, -⟩ := h.vnode second
  exact h.books.table.apart u v su sv hereU hereV (isU.trans isV.symm)

theorem Looks.unique (h : Looks s live x) : x.slots.Unique := h.slots ▸ h.books.dir.unique

theorem Looks.named (h : Looks s live x) (is : x.slots.At slot name ino) : live ino ∧ ino ≠ sfsRootdirIno := by
  rw [← h.slots] at is
  refine ⟨h.books.named slot name ino is, ?_⟩
  rintro rfl
  exact h.books.rootless slot name is

theorem Looks.positive (h : Looks s live x) (held : x.handle v = some ino) : 0 < x.refs v := by
  obtain ⟨sv, here, -, -, count, -⟩ := h.vnode held
  rw [← count]
  exact h.books.table.refcount v sv here

theorem Looks.idle (h : Looks s live x) (v : Nat) : x.handle v = none ↔ x.refs v = 0 := by
  constructor
  · intro absent
    rw [← h.handle] at absent
    rw [← h.refs]
    unfold Volume.handle at absent
    unfold Volume.refs
    rw [Option.map_eq_none_iff.mp absent]
    rfl
  · intro zero
    cases held : x.handle v with
    | none => rfl
    | some ino =>
      have := h.positive held
      omega

/-- The directory has at most as many entries as it has room for. -/
theorem Looks.few (h : Looks s live x) : x.slots.length ≤ 143 * 8 := by
  rw [← h.slots]
  exact (File.slots_length (f := s.file sfsRootdirIno)).trans_le h.books.dir.few

/-! ### References -/

theorem Looks.got (h : Looks s live x) (gets : Gets s t live v ino) : Looks t live (x.get v ino) := by
  refine ⟨gets.books, gets.slots.trans h.slots, fun i there => (gets.same.links i there).trans (h.links i there),
    fun i there other => (gets.same.contents i there other).trans (h.contents i there other), ?_, ?_⟩
  · rw [gets.refs, h.refs]
    rfl
  · rw [gets.handle, h.handle]
    rfl

/-- What `sfs_loadvnode` comes to. -/
inductive LoadEnd (s t : Volume) (live : UInt32 → Prop) (x : View) (ino : UInt32) : Except Errno Nat → Prop
  | gets {v : Nat} (looks : Looks t live (x.get v ino)) (was : x.handle v = none ∨ x.handle v = some ino) :
      LoadEnd s t live x ino (.ok v)
  | noMemory (same : t = s) : LoadEnd s t live x ino (.error .enomem)

theorem Looks.loadvnode (h : Looks s live x) (fine : Fine w) (there : live ino) {mallocs : LoadMallocs}
    (fresh : FreshMalloc s mallocs) :
    Goes (sfsLoadvnode ino 0 mallocs) s w fun r t => LoadEnd s t live x ino r := by
  refine (h.books.loadvnode fine there fresh).mono fun r t ends => ?_
  obtain ⟨v, rfl, gets⟩ | ⟨rfl, same⟩ := ends
  · exact .gets (h.got gets) (h.handle ▸ gets.was)
  · exact .noMemory same

theorem Looks.incref (h : Looks s live x) (held : x.handle v = some ino) (w : Replies) : ∃ t,
    vnodeIncref v s w = .done (.ok (), t, w) ∧ Looks t live (x.get v ino) := by
  obtain ⟨sv, here, rfl, -⟩ := h.vnode held
  exact ⟨_, addRefs_eq here.2, h.got (h.books.incref here)⟩

/-- The inodes in use when a reference to one goes. -/
def View.remains (x : View) (live : UInt32 → Prop) (v : Nat) (ino : UInt32) (j : UInt32) : Prop :=
  live j ∧ ¬ (j = ino ∧ x.links ino = 0 ∧ x.refs v = 1)

theorem Looks.decref (h : Looks s live x) (fine : Fine w) (held : x.handle v = some ino)
    (unnamed : x.links ino = 0 → ∀ i name, ¬ x.slots.At i name ino) : Goes (vnodeDecref v) s w fun r t =>
      r = .ok () ∧ Looks t (x.remains live v ino) (x.drop v) := by
  obtain ⟨sv, here, rfl, -, count, links, -⟩ := h.vnode held
  refine (h.books.decref fine here (by rw [links, h.slots]; exact unnamed)).mono fun r t ends => ?_
  obtain ⟨rfl, live', releases⟩ := ends
  have remains : live' = x.remains live v sv.svIno := by
    funext j
    apply propext
    constructor
    · intro there
      refine ⟨releases.less j there, ?_⟩
      rintro ⟨rfl, unlinked, last⟩
      exact releases.dead (links.trans unlinked) (count.trans last) there
    · rintro ⟨there, stays⟩
      obtain still | ⟨is, unlinked, last⟩ := releases.gone j there
      · exact still
      · exact absurd ⟨is, links.symm.trans unlinked, count.symm.trans last⟩ stays
  subst remains
  refine ⟨rfl, releases.books, releases.slots.trans h.slots, fun i there => ?_, fun i there other => ?_, ?_, ?_⟩
  · exact (releases.same.links i there).trans (h.links i there.1)
  · exact (releases.same.contents i there other).trans (h.contents i there.1 other)
  · rw [releases.refs, h.refs]
    rfl
  · rw [releases.handle, h.handle, count]
    rfl

end Looks

/-! ### The root directory -/

section Directory

variable {s t : Volume} {live : UInt32 → Prop} {x : View} {v d slot : Nat} {sv dv : SfsVnode} {g : File}
variable {ino i : UInt32} {name : Name} {w : Replies}

theorem Books.dirFile (h : Books s live) (here : s.Here d dv) (root : dv.svIno = sfsRootdirIno) :
    (⟨s.fs, dv⟩ : File).Directory ∧ (⟨s.fs, dv⟩ : File).slots = s.slots := by
  have inode := h.table.inode here
  rw [root] at inode
  have dir := h.dir
  unfold Volume.slots
  unfold Volume.file at dir ⊢
  rw [inode] at dir ⊢
  exact ⟨⟨File.tree_on.mp dir.tree, dir.type, dir.whole, dir.inside, dir.unique⟩, rfl⟩

/-- What a search for a name finds. -/
inductive FindEnd (slots : Slots Name UInt32) (name : Name) :
    Except Errno (Except Errno (UInt32 × Nat) × Option Nat) → Prop
  | missing {free : Option Nat} (unbound : slots.lookup name = none) :
      FindEnd slots name (.ok (.error .enoent, free))
  | found {ino : UInt32} {slot : Nat} {free : Option Nat} (at_ : slots.At slot name ino) :
      FindEnd slots name (.ok (.ok (ino, slot), free))

theorem Looks.findname (h : Looks s live x) (fine : Fine w) (held : x.handle d = some sfsRootdirIno) (name : Name) :
    Goes (onVnode d (sfsDirFindname name)) s w fun r t => t = s ∧ FindEnd x.slots name r := by
  obtain ⟨dv, here, root, -⟩ := h.vnode held
  obtain ⟨dir, slots⟩ := h.books.dirFile here root
  obtain ⟨found, emptyslot, n, searched, finds⟩ := findname_fine dir fine name
  rw [← File.slots_length, slots, h.slots] at searched
  have same : (s.withFs s.fs).withVnode d dv = s := Volume.withVnode_self here.2
  refine .of_after fine (onVnode_eq here.2 finds) ⟨same, ?_⟩
  cases is : found with
  | none => exact .missing (searched.lookup.mp is)
  | some entry => exact .found (searched.hit entry.1 entry.2 is).2

/-- A call for the root directory that keeps to it, and names only files in use. -/
theorem Looks.relist (h : Looks s live x) (here : s.Here d dv) (root : dv.svIno = sfsRootdirIno)
    (keeps : Local ⟨s.fs, dv⟩ g) (dir : g.Directory)
    (named : ∀ i name ino, g.slots.At i name ino → live ino ∧ ino ≠ sfsRootdirIno) :
    Looks (s.withFile d g) live (x.list g.slots) := by
  obtain ⟨touched, inode⟩ := (Touch.local h.books here keeps).touched h.books here
  rw [root] at touched inode
  have slots : (s.withFile d g).slots = g.slots := by
    unfold Volume.slots Volume.file
    rw [inode]
    rfl
  have dir' : ((s.withFile d g).file sfsRootdirIno).Directory := by
    unfold Volume.file
    rw [inode]
    exact ⟨File.tree_on.mpr dir.tree, dir.type, dir.whole, dir.inside, dir.unique⟩
  have links : (s.withFile d g).links sfsRootdirIno = s.links sfsRootdirIno := by
    have before := h.books.table.inode here
    rw [root] at before
    unfold Volume.links
    rw [inode, before]
    exact keeps.frame.linkcount
  obtain ⟨books, others⟩ := touched.root h.books dir' links (slots ▸ named)
  refine ⟨books, slots, fun j there => ?_, fun j there other => ?_, touched.refs.trans h.refs,
    touched.handle.trans h.handle⟩
  · by_cases is : j = sfsRootdirIno
    · rw [is]
      exact links.trans (h.links _ h.books.root)
    · exact (others j there is).2.trans (h.links j there)
  · exact (others j there other).1.trans (h.contents j there other)

/-- What `sfs_dir_link` comes to. -/
inductive LinkEnd (t : Volume) (live : UInt32 → Prop) (x : View) (name : Name) (ino : UInt32) :
    Except Errno Nat → Prop
  | linked {i : Nat} (free : x.slots.Open i) (unbound : x.slots.lookup name = none)
      (short : name.val.length ≤ 59) (looks : Looks t live (x.list (x.slots.write i (some (name, ino))))) :
      LinkEnd t live x name ino (.ok i)
  | refused {err : Errno} (refuses : Refuses x.slots.lookup name err) (looks : Looks t live x) :
      LinkEnd t live x name ino (.error err)

theorem Looks.dirLink (h : Looks s live x) (fine : Fine w) (held : x.handle d = some sfsRootdirIno) (name : Name)
    (there : live ino) (other : ino ≠ sfsRootdirIno) :
    Goes (onVnode d (sfsDirLink name ino)) s w fun r t => LinkEnd t live x name ino r := by
  obtain ⟨dv, here, root, -⟩ := h.vnode held
  obtain ⟨dir, slots⟩ := h.books.dirFile here root
  rw [h.slots] at slots
  obtain ⟨r, g, n, goes, keeps, linked⟩ := dirLink_fine dir fine name (h.books.layout.nonzero there)
  refine .of_after fine (onVnode_eq here.2 goes) ?_
  have unseen (dir' : g.Directory) (same : g.slots = x.slots) : Looks (s.withFile d g) live x := by
    have relisted := h.relist here root keeps dir' fun i name ino is => h.named (same ▸ is)
    rw [same] at relisted
    exact relisted
  cases linked with
  | bound same bound =>
    subst same
    rw [slots] at bound
    exact .refused (.inl ⟨rfl, bound⟩) (unseen dir slots)
  | tooLong same unbound long =>
    subst same
    rw [slots] at unbound
    exact .refused (.inr ⟨unbound, .inl ⟨rfl, long⟩⟩) (unseen dir slots)
  | noRoom room unbound short dir' same =>
    rw [slots] at unbound same
    exact .refused (.inr ⟨unbound, .inr ⟨room, short⟩⟩) (unseen dir' same)
  | @linked i free unbound short dir' written =>
    rw [slots] at free unbound written
    refine .linked free unbound short ?_
    rw [← written]
    refine h.relist here root keeps dir' fun j name ino is => ?_
    rw [written, Slots.write_at free.le] at is
    split at is
    · cases is
      exact ⟨there, other⟩
    · exact h.named is

theorem Looks.dirUnlink (h : Looks s live x) (fine : Fine w) (held : x.handle d = some sfsRootdirIno)
    (at_ : x.slots.At slot name ino) : Goes (onVnode d (sfsDirUnlink slot)) s w fun r t =>
      r = .ok () ∧ Looks t live (x.list (x.slots.write slot none)) := by
  obtain ⟨dv, here, root, -⟩ := h.vnode held
  obtain ⟨dir, slots⟩ := h.books.dirFile here root
  rw [h.slots] at slots
  rw [← slots] at at_
  obtain ⟨g, n, goes, keeps, dir', written⟩ := dirUnlink_fine dir fine at_
  rw [slots] at at_ written
  refine .of_after fine (onVnode_eq here.2 goes) ⟨rfl, ?_⟩
  rw [← written]
  refine h.relist here root keeps dir' fun j name ino is => ?_
  rw [written, Slots.write_at (Nat.le_of_lt at_.lt)] at is
  split at is
  · cases is
  · exact h.named is

end Directory

/-! ### Files -/

section Files

variable {s t : Volume} {live : UInt32 → Prop} {x : View} {v : Nat} {sv : SfsVnode} {g : File} {ino i : UInt32}
variable {w : Replies}

/-- The inode of a file has another number of links. -/
theorem Looks.relink (h : Looks s live x) (here : s.Here v sv) (is : sv.svIno = ino) (other : ino ≠ sfsRootdirIno)
    (n : UInt16) : Looks (s.withVnode v (sv.withLinks n)) live (x.link ino n) := by
  subst is
  obtain ⟨touched, inode⟩ := (Touch.links h.books here n).touched h.books here
  obtain ⟨books, slots, others⟩ := touched.file h.books other
  have was := h.books.table.inode here
  refine ⟨books, slots.trans h.slots, fun j there => ?_, fun j there named => ?_, touched.refs.trans h.refs,
    touched.handle.trans h.handle⟩
  · by_cases is : j = sv.svIno
    · rw [is]
      exact (congrArg Dinode.sfiLinkcount inode).trans View.link_self.symm
    · exact ((others j there is).2.trans (h.links j there)).trans (View.link_of_ne is).symm
  · by_cases is : j = sv.svIno
    · refine Eq.trans ?_ (h.contents j there named)
      have content : ((sv.withLinks n).svI.on s.fs).content = ((s.inode sv.svIno).on s.fs).content :=
        (h.books.layout.blocks (i := sv.svIno) (by rw [was]; rfl) (by rw [was]; rfl)).2
      have bytes := File.bytes_congr fun k => congrFun content k
      rw [was] at bytes
      unfold Volume.contents Volume.file File.contents
      rw [is, was]
      change (⟨_, (((s.withFile v ⟨s.fs, sv.withLinks n⟩).inode sv.svIno).on s.fs).bytes⟩ : Contents) = _
      rw [inode, bytes]
      change (⟨(((s.withFile v ⟨s.fs, sv.withLinks n⟩).inode sv.svIno).on s.fs).size, _⟩ : Contents) = _
      rw [inode]
      rfl
    · exact (others j there is).1.trans (h.contents j there named)

theorem Looks.addLink (h : Looks s live x) (held : x.handle v = some ino) (other : ino ≠ sfsRootdirIno)
    (w : Replies) : ∃ t, addLink v s w = .done (.ok (), t, w) ∧ Looks t live (x.link ino (x.links ino + 1)) := by
  obtain ⟨sv, here, is, -, -, links, -⟩ := h.vnode held
  rw [← links]
  exact ⟨_, Fallible.bind_ok (vnodeAt_eq here.2), h.relink here is other _⟩

theorem Looks.dropLink (h : Looks s live x) (held : x.handle v = some ino) (other : ino ≠ sfsRootdirIno)
    (some : 0 < x.links ino) (w : Replies) : ∃ t, dropLink v s w = .done (.ok (), t, w) ∧
      Looks t live (x.link ino (x.links ino - 1)) := by
  obtain ⟨sv, here, is, -, -, links, -⟩ := h.vnode held
  rw [← links] at some ⊢
  refine ⟨_, ?_, h.relink here is other _⟩
  unfold Sfs.dropLink
  rw [Fallible.bind_ok (vnodeAt_eq here.2), Fallible.kassert_bind some]
  rfl

/-- A call that keeps to a file leaves the other ones. -/
theorem Looks.refill (h : Looks s live x) (here : s.Here v sv) (is : sv.svIno = ino) (other : ino ≠ sfsRootdirIno)
    (keeps : Local ⟨s.fs, sv⟩ g) : Looks (s.withFile v g) live (x.fill ino g.contents) := by
  subst is
  obtain ⟨touched, inode⟩ := (Touch.local h.books here keeps).touched h.books here
  obtain ⟨books, slots, others⟩ := touched.file h.books other
  have was := h.books.table.inode here
  refine ⟨books, slots.trans h.slots, fun j there => ?_, fun j there named => ?_, touched.refs.trans h.refs,
    touched.handle.trans h.handle⟩
  · refine Eq.trans ?_ (h.links j there)
    by_cases is : j = sv.svIno
    · rw [is]
      unfold Volume.links
      rw [inode, was]
      exact keeps.frame.linkcount
    · exact (others j there is).2
  · by_cases is : j = sv.svIno
    · rw [is, View.fill_self]
      unfold Volume.contents Volume.file
      rw [inode]
      rfl
    · exact ((others j there is).1.trans (h.contents j there named)).trans (View.fill_of_ne is).symm

/-- What `sfs_makeobj` comes to. -/
inductive MakeEnd (s t : Volume) (live : UInt32 → Prop) (x : View) : Except Errno Nat → Prop
  | made {v : Nat} {ino : UInt32} (new : ¬ live ino) (fresh : x.handle v = none)
      (looks : Looks t (fun j => live j ∨ j = ino) (((x.fill ino ⟨0, fun _ => 0⟩).link ino 0).get v ino)) :
      MakeEnd s t live x (.ok v)
  | refused {err : Errno} (room : err = .enospc ∨ err = .enomem) (looks : Looks t live x) :
      MakeEnd s t live x (.error err)

theorem Looks.makeobj (h : Looks s live x) (fine : Fine w) {mallocs : LoadMallocs} (fresh : FreshMalloc s mallocs) :
    Goes (sfsMakeobj sfsTypeFile mallocs) s w fun r t => MakeEnd s t live x r := by
  refine (h.books.makeobj fine fresh).mono fun r t ends => ?_
  obtain ⟨v, ino, rfl, makes⟩ | ⟨room, unseen⟩ := ends
  · have absent : x.handle v = none := by
      rw [← h.handle]
      exact congrArg (Option.map SfsVnode.svIno) makes.fresh
    refine .made makes.new absent ⟨makes.books, makes.slots.trans h.slots, fun j there => ?_,
      fun j there other => ?_,
      ?_, ?_⟩
    · by_cases is : j = ino
      · rw [is]
        exact makes.links.trans View.link_self.symm
      · have was := there.resolve_right is
        exact ((makes.same.links j was).trans (h.links j was)).trans (View.link_of_ne is).symm
    · by_cases is : j = ino
      · rw [is]
        exact makes.empty.trans View.fill_self.symm
      · have was := there.resolve_right is
        exact ((makes.same.contents j was other).trans (h.contents j was other)).trans (View.fill_of_ne is).symm
    · rw [makes.refs, h.refs]
      rfl
    · rw [makes.handle, h.handle]
      rfl
  · have looks : Looks t live x := ⟨unseen.books, unseen.slots.trans h.slots,
      fun j there => (unseen.same.links j there).trans (h.links j there),
      fun j there other => (unseen.same.contents j there other).trans (h.contents j there other),
      unseen.refs.trans h.refs, unseen.handle.trans h.handle⟩
    obtain rfl | rfl := room
    · exact .refused (.inl rfl) looks
    · exact .refused (.inr rfl) looks

end Files

/-! ### The store that a volume shows -/

/-- The names and the files that are seen. -/
def View.store (x : View) : Store := ⟨x.slots.lookup, x.contents, x.refs, x.handle⟩

/-- The inodes in use are those that have a name or a vnode, and the root directory; a file has as many
links as names. -/
structure Good (s : Volume) (live : UInt32 → Prop) (x : View) : Prop where
  looks : Looks s live x
  linked : ∀ i, live i → i ≠ sfsRootdirIno → (x.links i).toNat = x.slots.count i
  closed : ∀ i, live i → x.store.Exists i

section Good

variable {s t : Volume} {live : UInt32 → Prop} {x : View} {v slot : Nat} {ino i : UInt32} {name : Name}

theorem Looks.inUse (h : Looks s live x) (there : x.store.Exists ino) : live ino := by
  obtain rfl | ⟨name, bound⟩ | ⟨v, held⟩ := there
  · exact h.books.root
  · obtain ⟨slot, at_⟩ := Slots.lookup_at bound
    exact (h.named at_).1
  · obtain ⟨sv, -, -, there, -⟩ := h.vnode held
    exact there

/-- What has no links has no names. -/
theorem Good.unnamed (h : Good s live x) (there : live ino) (none : x.links ino = 0) (i : Nat) (name : Name) :
    ¬ x.slots.At i name ino := by
  intro at_
  have some := Slots.count_pos.mpr ⟨i, name, at_⟩
  rw [← h.linked ino there (h.looks.named at_).2, none] at some
  exact absurd some (by decide)

theorem Good.links_pos (h : Good s live x) (at_ : x.slots.At slot name ino) : 0 < x.links ino := by
  obtain ⟨there, -⟩ := h.looks.named at_
  rw [UInt16.pos_iff_ne_zero]
  intro none
  exact h.unnamed there none slot name at_

theorem Good.got (h : Good s live x) (was : x.handle v = none ∨ x.handle v = some ino)
    (looks : Looks t live (x.get v ino)) : Good t live (x.get v ino) := by
  refine ⟨looks, h.linked, fun i here => ?_⟩
  obtain root | named | ⟨u, held⟩ := h.closed i here
  · exact .inl root
  · exact .inr (.inl named)
  · refine .inr (.inr ⟨u, ?_⟩)
    by_cases same : u = v
    · subst same
      change x.handle u = some i at held
      obtain absent | known := was
      · rw [absent] at held
        cases held
      · rw [known] at held
        cases held
        exact View.get_handle
    · exact (Function.update_of_ne same ..).trans held

theorem Good.dropped (h : Good s live x) (held : x.handle v = some ino)
    (looks : Looks t (x.remains live v ino) (x.drop v)) : Good t (x.remains live v ino) (x.drop v) := by
  refine ⟨looks, fun i here => h.linked i here.1, fun i here => ?_⟩
  obtain root | named | ⟨u, known⟩ := h.closed i here.1
  · exact .inl root
  · exact .inr (.inl named)
  · change x.handle u = some i at known
    by_cases last : x.refs v = 1
    · by_cases same : u = v
      · -- the file has a name then
        subst same
        rw [held] at known
        cases known
        by_cases root : ino = sfsRootdirIno
        · exact .inl root
        · have linked : x.links ino ≠ 0 := fun none => here.2 ⟨rfl, none, last⟩
          have some : 0 < x.slots.count ino := by
            rw [← h.linked ino here.1 root, ← UInt16.toNat_zero, ← UInt16.lt_iff_toNat_lt]
            exact UInt16.pos_iff_ne_zero.mpr linked
          obtain ⟨k, name, at_⟩ := Slots.count_pos.mp some
          exact .inr (.inl ⟨name, h.looks.unique.lookup at_⟩)
      · refine .inr (.inr ⟨u, ?_⟩)
        change (if x.refs v = 1 then Function.update x.handle v none else x.handle) u = some i
        rw [if_pos last, Function.update_of_ne same]
        exact known
    · refine .inr (.inr ⟨u, ?_⟩)
      change (if x.refs v = 1 then Function.update x.handle v none else x.handle) u = some i
      rw [if_neg last]
      exact known

/-- A file gets a name and a link. -/
theorem Good.put (h : Good s live x) (there : live ino) (other : ino ≠ sfsRootdirIno) (free : x.slots.Open slot)
    (unbound : x.slots.lookup name = none)
    (looks : Looks t live ((x.list (x.slots.write slot (some (name, ino)))).link ino (x.links ino + 1))) :
    Good t live ((x.list (x.slots.write slot (some (name, ino)))).link ino (x.links ino + 1)) ∧
      ((x.list (x.slots.write slot (some (name, ino)))).link ino (x.links ino + 1)).store =
        x.store.bind name ino := by
  have names := Slots.lookup_put (v := ino) h.looks.unique free unbound
  have store : ((x.list (x.slots.write slot (some (name, ino)))).link ino (x.links ino + 1)).store =
      x.store.bind name ino := by
    unfold View.store Store.bind
    dsimp only [View.list, View.link]
    rw [names]
  have some := h.linked ino there other
  have most : x.slots.count ino ≤ x.slots.length := List.countP_le_length
  refine ⟨⟨looks, fun i here different => ?_, fun i here => ?_⟩, store⟩
  · rw [View.link_slots, View.list_slots, Slots.count_put free]
    by_cases is : i = ino
    · have fits : x.slots.length ≤ 143 * 8 := h.looks.few
      rw [is, View.link_self, if_pos rfl, ← some, UInt16.toNat_add]
      exact Nat.mod_eq_of_lt (by change _ + 1 < _; omega)
    · rw [View.link_of_ne is, if_neg (Ne.symm is)]
      exact h.linked i here different
  · rw [store]
    obtain root | ⟨other, bound⟩ | held := h.closed i here
    · exact .inl root
    · refine .inr (.inl ⟨other, ?_⟩)
      have different : other ≠ name := by
        rintro rfl
        change x.slots.lookup other = _ at bound
        rw [unbound] at bound
        cases bound
      exact (Function.update_of_ne different ..).trans bound
    · exact .inr (.inr held)

/-- A name goes, and a link of the file that had it. -/
theorem Good.clear (h : Good s live x) (at_ : x.slots.At slot name ino) (held : x.handle v = some ino)
    (looks : Looks t live ((x.list (x.slots.write slot none)).link ino (x.links ino - 1))) :
    Good t live ((x.list (x.slots.write slot none)).link ino (x.links ino - 1)) ∧
      ((x.list (x.slots.write slot none)).link ino (x.links ino - 1)).store = x.store.unbind name := by
  obtain ⟨there, other⟩ := h.looks.named at_
  have names := Slots.lookup_clear h.looks.unique at_
  have store : ((x.list (x.slots.write slot none)).link ino (x.links ino - 1)).store = x.store.unbind name := by
    unfold View.store Store.unbind
    dsimp only [View.list, View.link]
    rw [names]
  refine ⟨⟨looks, fun i here different => ?_, fun i here => ?_⟩, store⟩
  · rw [View.link_slots, View.list_slots]
    have count := Slots.count_clear at_ i
    have linked := h.linked i here different
    by_cases is : i = ino
    · have some := h.links_pos at_
      subst is
      rw [if_pos rfl] at count
      rw [View.link_self, UInt16.toNat_sub_of_le _ _ (by rw [UInt16.le_iff_toNat_le]; exact some)]
      change (x.links i).toNat - 1 = _
      omega
    · rw [View.link_of_ne is, View.list_links]
      rw [if_neg (Ne.symm is)] at count
      omega
  · rw [store]
    obtain root | ⟨another, bound⟩ | held' := h.closed i here
    · exact .inl root
    · by_cases same : another = name
      · have is : i = ino := by
          rw [same] at bound
          exact Option.some.inj (bound.symm.trans (h.looks.unique.lookup at_))
        exact .inr (.inr ⟨v, is ▸ held⟩)
      · exact .inr (.inl ⟨another, (Function.update_of_ne same ..).trans bound⟩)
    · exact .inr (.inr held')

end Good

end Os161.Sfs
