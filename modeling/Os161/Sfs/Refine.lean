import Os161.Sfs.Operations

/-!
# What the operations do to the store

Each operation of `sfs_vnops.c` on a volume whose books are in order, without errors from the device: it
comes back, and does to the store that the volume shows what it is for.
-/

namespace Os161.Sfs

/-- The call comes back, and the store that the volume shows is one that `P` allows for its result. -/
def Comes {α : Type} (call : Fallible Errno Replies Volume α) (s : Volume) (w : Replies)
    (P : Except Errno α → Store → Prop) : Prop :=
  Goes call s w fun r t => ∃ live x, Good t live x ∧ P r x.store

section Names

variable {s t : Volume} {live : UInt32 → Prop} {x : View} {v d slot : Nat} {ino i : UInt32} {name n1 n2 : Name}
variable {w : Replies} {mallocs : LoadMallocs}

theorem Good.loadvnode (h : Good s live x) (fine : Fine w) (there : live ino) (fresh : FreshMalloc s mallocs) :
    Comes (sfsLoadvnode ino 0 mallocs) s w (x.store.Loads ino) := by
  refine (h.looks.loadvnode fine there fresh).mono fun r t ends => ?_
  cases ends with
  | gets looks was => exact ⟨live, _, h.got was looks, .gets was⟩
  | noMemory same => exact ⟨live, x, same ▸ h, .noMemory⟩

theorem Good.getroot (h : Good s live x) (fine : Fine w) (fresh : FreshMalloc s mallocs) :
    Comes (sfsGetroot mallocs) s w (x.store.Loads sfsRootdirIno) := by
  refine Goes.bind (h.looks.loadvnode fine h.looks.books.root fresh) (fun v t u fine' ends => ?_)
    fun err t ends => ?_
  · cases ends with
    | gets looks was =>
      obtain ⟨sv, here, -, -, -, -, type, -⟩ := looks.vnode View.get_handle
      unfold Goes Fallible.Returns
      rw [Fallible.bind_ok (vnodeAt_eq here.2), if_neg (not_not_intro (type.mpr rfl))]
      exact ⟨_, t, u, rfl, fine', live, _, h.got was looks, .gets was⟩
  · cases ends with
    | noMemory same => exact ⟨live, x, same ▸ h, .noMemory⟩

/-- What `sfs_lookonce` comes to. -/
inductive LookEnd (t : Volume) (live : UInt32 → Prop) (x : View) (name : Name) : Except Errno (Nat × Nat) → Prop
  | missing (unbound : x.slots.lookup name = none) (good : Good t live x) : LookEnd t live x name (.error .enoent)
  | noMemory (bound : x.slots.lookup name ≠ none) (good : Good t live x) : LookEnd t live x name (.error .enomem)
  | found {v slot : Nat} {ino : UInt32} (at_ : x.slots.At slot name ino)
      (was : x.handle v = none ∨ x.handle v = some ino) (good : Good t live (x.get v ino)) :
      LookEnd t live x name (.ok (v, slot))

/-- A vnode stays one of its inode when another one is taken. -/
theorem Good.held_get (_ : Good s live x) (held : x.handle d = some i)
    (was : x.handle v = none ∨ x.handle v = some ino) : (x.get v ino).handle d = some i := by
  by_cases same : d = v
  · subst same
    obtain none | known := was
    · rw [held] at none
      cases none
    · rw [held] at known
      cases known
      exact View.get_handle
  · exact (Function.update_of_ne same ..).trans held

theorem Good.lookonce (h : Good s live x) (fine : Fine w) (held : x.handle d = some sfsRootdirIno) (name : Name)
    (fresh : FreshMalloc s mallocs) :
    Goes (sfsLookonce d name mallocs) s w fun r t => LookEnd t live x name r := by
  refine Goes.bind (h.looks.findname fine held name) (fun out t u fine' ends => ?_) fun err t ends => ?_
  · obtain ⟨rfl, found⟩ := ends
    cases found with
    | missing unbound => exact goes_fail fine' (.missing unbound h)
    | @found ino slot free at_ =>
      have bound := h.looks.unique.lookup at_
      refine Goes.bind (h.looks.loadvnode fine' (h.looks.named at_).1 fresh) (fun v t' u' fine'' ends => ?_)
        fun err t' ends => ?_
      · cases ends with
        | gets looks was =>
          have good := h.got was looks
          obtain ⟨sv, here, -, -, -, links, -⟩ := looks.vnode View.get_handle
          have some : sv.svI.sfiLinkcount ≠ 0 := by
            rw [links]
            exact UInt16.pos_iff_ne_zero.mp (good.links_pos at_)
          unfold Goes Fallible.Returns
          rw [Fallible.bind_ok (vnodeAt_eq here.2), if_neg some]
          exact ⟨_, t', u', rfl, fine'', .found at_ was good⟩
      · cases ends with
        | noMemory same =>
          refine .noMemory (fun none => ?_) (same ▸ h)
          rw [bound] at none
          cases none
  · obtain ⟨-, found⟩ := ends
    cases found

theorem Good.lookup (h : Good s live x) (fine : Fine w) (held : x.handle d = some sfsRootdirIno) (name : Name)
    (fresh : FreshMalloc s mallocs) : Comes (sfsLookup d name mallocs) s w (x.store.Lookup name) := by
  obtain ⟨dv, here, -, -, -, -, type, -⟩ := h.looks.vnode held
  unfold Comes Goes Fallible.Returns sfsLookup
  rw [Fallible.bind_ok (vnodeAt_eq here.2), if_neg (not_not_intro (type.mpr rfl))]
  refine Goes.bind (h.lookonce fine held name fresh) (fun out t u fine' ends => ?_) fun err t ends => ?_
  · cases ends with
    | found at_ was good =>
      exact goes_pure fine' ⟨live, _, good, .found (h.looks.unique.lookup at_) (.gets was)⟩
  · cases ends with
    | missing unbound good => exact ⟨live, x, good, .missing unbound⟩
    | noMemory bound good =>
      obtain ⟨ino, bound⟩ := Option.ne_none_iff_exists'.mp bound
      exact ⟨live, x, good, .found bound .noMemory⟩

theorem Good.lookparent (h : Good s live x) (fine : Fine w) (held : x.handle d = some sfsRootdirIno) (path : Name)
    (buflen : Nat) : Comes (sfsLookparent d path buflen) s w (x.store.Lookparent d path buflen) := by
  obtain ⟨dv, here, -, -, -, -, type, -⟩ := h.looks.vnode held
  unfold Comes Goes Fallible.Returns sfsLookparent
  rw [Fallible.bind_ok (vnodeAt_eq here.2), if_neg (not_not_intro (type.mpr rfl))]
  by_cases long : buflen < path.val.length + 1
  · rw [if_pos long]
    exact goes_fail fine ⟨live, x, h, .tooLong (by omega)⟩
  · rw [if_neg long]
    obtain ⟨t, goes, looks⟩ := h.looks.incref held w
    rw [Fallible.bind_ok goes]
    exact goes_pure fine ⟨live, _, h.got (.inr held) looks, .parent (by omega)⟩

/-- A new file, that has no name yet. -/
theorem Good.made (h : Good s live x) (new : ¬ live ino) (fresh : x.handle v = none)
    (looks : Looks t (fun j => live j ∨ j = ino) (((x.fill ino .empty).link ino 0).get v ino)) :
    Good t (fun j => live j ∨ j = ino) (((x.fill ino .empty).link ino 0).get v ino) := by
  refine ⟨looks, fun i here other => ?_, fun i here => ?_⟩
  · change (((x.fill ino .empty).link ino 0).links i).toNat = x.slots.count i
    by_cases is : i = ino
    · rw [is, View.link_self]
      by_contra some
      have some : 0 < x.slots.count ino := Nat.pos_of_ne_zero fun none => some none.symm
      obtain ⟨k, name, at_⟩ := Slots.count_pos.mp some
      exact new (h.looks.named at_).1
    · rw [View.link_of_ne is]
      exact h.linked i (here.resolve_right is) other
  · by_cases is : i = ino
    · exact .inr (.inr ⟨v, is ▸ View.get_handle⟩)
    · obtain root | named | ⟨u, held⟩ := h.closed i (here.resolve_right is)
      · exact .inl root
      · exact .inr (.inl named)
      · refine .inr (.inr ⟨u, (Function.update_of_ne ?_ ..).trans held⟩)
        rintro rfl
        change x.handle u = some i at held
        rw [fresh] at held
        cases held

end Names

section Creat

variable {s t : Volume} {live : UInt32 → Prop} {x : View} {v d slot : Nat} {ino i : UInt32} {name n1 n2 : Name}
variable {w : Replies} {mallocs : LoadMallocs}

/-- A file gets a name: the entry and then the link. -/
theorem Good.named (h : Good s live x) (fine : Fine w) (dir : x.handle d = some sfsRootdirIno)
    (held : x.handle v = some ino) (other : ino ≠ sfsRootdirIno) (name : Name) :
    Goes (onVnode d (sfsDirLink name ino)) s w fun r t =>
      (∃ slot, r = .ok slot ∧ x.slots.lookup name = none ∧ name.val.length ≤ 59 ∧
        ∀ w, ∃ u y, addLink v t w = .done (.ok (), u, w) ∧ Good u live y ∧ y.store = x.store.bind name ino ∧
          y.slots.At slot name ino ∧ (∀ i k j, x.slots.At i k j → y.slots.At i k j) ∧
          y.links ino = x.links ino + 1) ∨
      ∃ err, r = .error err ∧ Refuses x.slots.lookup name err ∧ Good t live x := by
  have there := h.looks.inUse (.inr (.inr ⟨v, held⟩))
  refine (h.looks.dirLink fine dir name there other).mono fun r t ends => ?_
  cases ends with
  | @linked slot free unbound short looks =>
    refine .inl ⟨slot, rfl, unbound, short, fun w => ?_⟩
    obtain ⟨u, goes, linked⟩ := looks.addLink held other w
    obtain ⟨good, store⟩ := h.put there other free unbound linked
    refine ⟨u, _, goes, good, store, ?_, fun i k j at_ => ?_, View.link_self⟩
    · exact (Slots.write_at free.le).mpr (if_pos rfl ▸ rfl)
    · refine (Slots.write_at free.le).mpr ?_
      rw [if_neg]
      · exact at_
      · rintro rfl
        exact Slots.not_at_open free at_
  | refused refuses looks => exact .inr ⟨_, rfl, refuses, looks, h.linked, h.closed⟩

/-- A new file that does not get its name goes again. -/
theorem Good.unmade (h : Good s live x) (fine : Fine w) (new : ¬ live ino) (fresh : x.handle v = none)
    (made : Good t (fun j => live j ∨ j = ino) (((x.fill ino .empty).link ino 0).get v ino)) :
    Goes (vnodeDecref v) t w fun r u => r = .ok () ∧ Good u live x := by
  have unlinked : (((x.fill ino .empty).link ino 0).get v ino).links ino = 0 := View.link_self
  have zero : x.refs v = 0 := by
    rw [← h.looks.handle] at fresh
    rw [← h.looks.refs]
    unfold Volume.handle at fresh
    unfold Volume.refs
    rw [Option.map_eq_none_iff.mp fresh]
    rfl
  have last : (((x.fill ino .empty).link ino 0).get v ino).refs v = 1 := by
    rw [View.get_refs]
    change x.refs v + 1 = 1
    rw [zero]
    rfl
  refine (made.looks.decref fine View.get_handle fun none => made.unnamed (.inr rfl) none).mono fun r u ends => ?_
  obtain ⟨rfl, looks⟩ := ends
  have remains : View.remains (((x.fill ino .empty).link ino 0).get v ino) (fun j => live j ∨ j = ino) v ino =
      live := by
    funext j
    apply propext
    constructor
    · rintro ⟨was | is, stays⟩
      · exact was
      · exact absurd ⟨is, unlinked, last⟩ stays
    · intro there
      exact ⟨.inl there, fun gone => new (gone.1 ▸ there)⟩
  rw [remains] at looks
  have apart {j : UInt32} (there : live j) : j ≠ ino := fun same => new (same ▸ there)
  refine ⟨rfl, ⟨looks.books, looks.slots, fun j there => ?_, fun j there other => ?_, ?_, ?_⟩, h.linked, h.closed⟩
  · exact (looks.links j there).trans (View.link_of_ne (apart there))
  · exact (looks.contents j there other).trans (View.fill_of_ne (apart there))
  · rw [looks.refs]
    change Function.update (Function.update x.refs v (x.refs v + 1)) v _ = _
    rw [Function.update_idem, Function.update_eq_self_iff, last, zero]
    rfl
  · rw [looks.handle]
    change (if _ = (1 : Int) then Function.update (Function.update x.handle v (some ino)) v none else _) = _
    rw [if_pos last, Function.update_idem, Function.update_eq_self_iff, fresh]

theorem Good.creat (h : Good s live x) (fine : Fine w) (held : x.handle d = some sfsRootdirIno) (name : Name)
    (excl : Bool) (fresh : FreshMalloc s mallocs) :
    Comes (sfsCreat d name excl mallocs) s w (x.store.Creat name excl) := by
  refine Goes.bind (h.looks.findname fine held name) (fun out t u fine' ends => ?_) fun err t ends => ?_
  · obtain ⟨rfl, found⟩ := ends
    cases found with
    | @found ino slot free at_ =>
      have bound := h.looks.unique.lookup at_
      cases excl with
      | true =>
        exact goes_fail fine' ⟨live, x, h, .taken rfl (Option.ne_none_iff_exists'.mpr ⟨ino, bound⟩)⟩
      | false =>
        refine (h.loadvnode fine' (h.looks.named at_).1 fresh).mono fun r t ends => ?_
        obtain ⟨live', y, good, loads⟩ := ends
        exact ⟨live', y, good, .found rfl bound loads⟩
    | missing unbound =>
      dsimp only
      rw [if_neg (not_not_intro rfl)]
      refine Goes.bind (h.looks.makeobj fine' fresh) (fun v t' u' fine'' ends => ?_) fun err t' ends => ?_
      · cases ends with
        | @made v ino new absent looks =>
          have made := h.made new absent looks
          obtain ⟨sv, here, rfl, -⟩ := looks.vnode View.get_handle
          have other : sv.svIno ≠ sfsRootdirIno := fun root => new (root ▸ h.looks.books.root)
          have dir : (((x.fill sv.svIno .empty).link sv.svIno 0).get v sv.svIno).handle d =
              some sfsRootdirIno := by
            refine (Function.update_of_ne ?_ ..).trans held
            rintro rfl
            rw [held] at absent
            cases absent
          unfold Goes Fallible.Returns
          rw [Fallible.bind_ok (vnodeAt_eq here.2)]
          refine Goes.attempt (made.named fine'' dir View.get_handle other name) fun r t'' u'' fine3 ends => ?_
          obtain ⟨slot, rfl, -, short, links⟩ | ⟨err, rfl, refuses, good⟩ := ends
          · obtain ⟨t3, y, goes, good, store, -⟩ := links u''
            dsimp only
            unfold Goes Fallible.Returns
            rw [Fallible.bind_ok goes]
            refine goes_pure fine3 ⟨_, y, good, ?_⟩
            rw [store]
            exact .made unbound short (fun exist => new (h.looks.inUse exist)) absent
          · refine Goes.bind (h.unmade fine3 new absent good) (fun _ t3 u3 fine4 ends => ?_) fun err' t3 ends => ?_
            · exact goes_fail fine4 ⟨live, x, ends.2, .refused unbound (.inl refuses)⟩
            · cases ends.1
      · cases ends with
        | refused room looks => exact ⟨live, x, ⟨looks, h.linked, h.closed⟩, .refused unbound (.inr room)⟩
  · obtain ⟨-, found⟩ := ends
    cases found

end Creat

section Links

variable {s t : Volume} {live : UInt32 → Prop} {x : View} {v d slot : Nat} {ino i : UInt32} {name n1 n2 : Name}
variable {w : Replies} {mallocs : LoadMallocs}

theorem Good.link (h : Good s live x) (fine : Fine w) (dir : x.handle d = some sfsRootdirIno) (name : Name)
    (held : x.handle v = some ino) : Comes (sfsLink d name v) s w (x.store.Link name ino) := by
  obtain ⟨sv, here, rfl, -, -, -, type, -⟩ := h.looks.vnode held
  unfold Comes Goes Fallible.Returns sfsLink
  rw [Fallible.bind_ok (vnodeAt_eq here.2)]
  by_cases root : sv.svI.sfiType = sfsTypeDir
  · rw [if_pos root]
    exact goes_fail fine ⟨live, x, h, .directory (type.mp root)⟩
  · have other : sv.svIno ≠ sfsRootdirIno := fun is => root (type.mpr is)
    rw [if_neg root]
    refine Goes.bind (h.named fine dir held other name) (fun slot t u fine' ends => ?_) fun err t ends => ?_
    · obtain ⟨slot, is, unbound, short, links⟩ | ⟨err, is, -⟩ := ends
      · obtain ⟨t', y, goes, good, store, -⟩ := links u
        exact ⟨_, t', u, goes, fine', live, y, good, by rw [store]; exact .linked other unbound short⟩
      · cases is
    · obtain ⟨slot, is, -⟩ | ⟨err', is, refuses, good⟩ := ends
      · cases is
      · cases is
        exact ⟨live, x, good, .refused other refuses⟩

/-- A name goes: the entry and then the link. -/
theorem Good.unnamed_goes (h : Good s live x) (fine : Fine w) (dir : x.handle d = some sfsRootdirIno)
    (held : x.handle v = some ino) (at_ : x.slots.At slot name ino) :
    Goes (onVnode d (sfsDirUnlink slot)) s w fun r t => r = .ok () ∧
      ∀ w, ∃ u y, dropLink v t w = .done (.ok (), u, w) ∧ Good u live y ∧ y.store = x.store.unbind name ∧
        y.refs = x.refs ∧ y.handle = x.handle := by
  refine (h.looks.dirUnlink fine dir at_).mono fun r t ends => ?_
  obtain ⟨rfl, looks⟩ := ends
  refine ⟨rfl, fun w => ?_⟩
  obtain ⟨u, goes, unlinked⟩ := looks.dropLink held (h.looks.named at_).2 (h.links_pos at_) w
  obtain ⟨good, store⟩ := h.clear at_ held unlinked
  exact ⟨u, _, goes, good, store, rfl, rfl⟩

/-- A reference that was taken for the call is given back. -/
theorem Good.giveBack (h : Good s live x) (fine : Fine w) (held : x.handle v = some ino) {a : Store}
    (was : a.handle v = none ∨ a.handle v = some ino) (count : a.handle v = none ↔ a.refs v = 0)
    (got : x.store = a.get v ino) :
    Goes (vnodeDecref v) s w fun r t => r = .ok () ∧ ∃ live' y, Good t live' y ∧ y.store = a := by
  have there := h.looks.inUse (.inr (.inr ⟨v, held⟩))
  refine (h.looks.decref fine held (h.unnamed there)).mono fun r t ends => ?_
  obtain ⟨rfl, looks⟩ := ends
  refine ⟨rfl, _, _, h.dropped held looks, ?_⟩
  have drops : (x.drop v).store = x.store.drop v := rfl
  rw [drops, got, Store.drop_get was count]

theorem Good.remove (h : Good s live x) (fine : Fine w) (held : x.handle d = some sfsRootdirIno) (name : Name)
    (fresh : FreshMalloc s mallocs) : Comes (sfsRemove d name mallocs) s w (x.store.Remove name) := by
  refine Goes.bind (h.lookonce fine held name fresh) (fun out t u fine' ends => ?_) fun err t ends => ?_
  · cases ends with
    | @found v slot ino at_ was good =>
      have bound : x.store.names name ≠ none := by
        intro none
        cases none.symm.trans (h.looks.unique.lookup at_)
      have dir : (x.get v ino).handle d = some sfsRootdirIno := h.held_get held was
      refine Goes.attempt (good.unnamed_goes fine' dir View.get_handle at_) fun r t' u' fine'' ends => ?_
      obtain ⟨rfl, unlinks⟩ := ends
      obtain ⟨t'', y, goes, good', store, -, handle⟩ := unlinks u'
      dsimp only
      unfold Goes Fallible.Returns
      rw [Fallible.bind_ok goes]
      have back := good'.giveBack (a := x.store.unbind name) fine'' (handle ▸ View.get_handle) was
        (h.looks.idle v) store
      refine back.mono fun r t ends => ?_
      obtain ⟨rfl, live', z, good, store⟩ := ends
      exact ⟨live', z, good, store ▸ .removed bound⟩
  · cases ends with
    | missing unbound good => exact ⟨live, x, good, .missing unbound⟩
    | noMemory bound good => exact ⟨live, x, good, .noMemory bound⟩

theorem Good.rename (h : Good s live x) (fine : Fine w) (held : x.handle d = some sfsRootdirIno) (n1 n2 : Name)
    (fresh : FreshMalloc s mallocs) : Comes (sfsRename d n1 d n2 mallocs) s w (x.store.Rename n1 n2) := by
  obtain ⟨dv, here, root, -⟩ := h.looks.vnode held
  unfold Comes sfsRename
  refine goes_kassert rfl ?_
  unfold Goes Fallible.Returns
  rw [Fallible.bind_ok (vnodeAt_eq here.2)]
  refine goes_kassert root ?_
  refine Goes.bind (h.lookonce fine held n1 fresh) (fun out t u fine' ends => ?_) fun err t ends => ?_
  · cases ends with
    | @found v slot ino at_ was good =>
      have bound := h.looks.unique.lookup at_
      have known : x.store.names n1 ≠ none := by
        intro none
        cases none.symm.trans bound
      have dir : (x.get v ino).handle d = some sfsRootdirIno := h.held_get held was
      obtain ⟨sv, here, rfl, -, -, -, type, is⟩ := good.looks.vnode View.get_handle
      have other := (h.looks.named at_).2
      have file : sv.svI.sfiType = sfsTypeFile := by
        rw [is]
        exact good.looks.books.files _ (good.looks.named at_).1 other
      dsimp only
      unfold Goes Fallible.Returns
      rw [Fallible.bind_ok (vnodeAt_eq here.2)]
      refine goes_kassert file ?_
      refine Goes.attempt (good.named fine' dir View.get_handle other n2) fun r t' u' fine'' ends => ?_
      obtain ⟨slot2, rfl, unbound, short, links⟩ | ⟨err, rfl, refuses, good'⟩ := ends
      · obtain ⟨t2, y, goes, named, store, -, kept, -⟩ := links u'
        have handle : y.handle = (x.get v sv.svIno).handle := congrArg Store.handle store
        dsimp only
        unfold Goes Fallible.Returns
        rw [Fallible.bind_ok goes]
        refine Goes.attempt (named.unnamed_goes fine'' (handle ▸ dir) (handle ▸ View.get_handle)
          (kept slot n1 sv.svIno at_)) fun r t3 u3 fine3 ends => ?_
        obtain ⟨rfl, unlinks⟩ := ends
        obtain ⟨t4, z, goes', unnamed, store', -, handle'⟩ := unlinks u3
        dsimp only
        unfold Goes Fallible.Returns
        rw [Fallible.bind_ok goes']
        rw [store] at store'
        have back := unnamed.giveBack (a := (x.store.bind n2 sv.svIno).unbind n1) fine3
          ((handle'.trans handle) ▸ View.get_handle) was (h.looks.idle v) store'
        refine back.mono fun r t ends => ?_
        obtain ⟨rfl, live', last, good, store⟩ := ends
        exact ⟨live', last, good, store ▸ .renamed bound unbound short⟩
      · refine Goes.bind (good'.giveBack (a := x.store) fine'' View.get_handle was (h.looks.idle v) rfl)
          (fun _ t2 u2 fine3 ends => ?_) fun err' t2 ends => ?_
        · obtain ⟨-, live', last, good, store⟩ := ends
          exact goes_fail fine3 ⟨live', last, good, by rw [store]; exact .refused known refuses⟩
        · cases ends.1
  · cases ends with
    | missing unbound good => exact ⟨live, x, good, .missing unbound⟩
    | noMemory bound good => exact ⟨live, x, good, .noMemory bound⟩

end Links

/-! ### Vnodes -/

section Vnodes

variable {s t : Volume} {live : UInt32 → Prop} {x : View} {v d slot : Nat} {sv : SfsVnode} {ino i : UInt32}
variable {name : Name} {w : Replies} {mallocs : LoadMallocs}

theorem Good.incref (h : Good s live x) (fine : Fine w) (held : x.handle v = some ino) :
    Comes (vnodeIncref v) s w fun r a => r = .ok () ∧ a = x.store.get v ino := by
  obtain ⟨t, goes, looks⟩ := h.looks.incref held w
  exact ⟨_, t, w, goes, fine, live, _, h.got (.inr held) looks, rfl, rfl⟩

theorem Good.decref (h : Good s live x) (fine : Fine w) (held : x.handle v = some ino) :
    Comes (vnodeDecref v) s w fun r a => r = .ok () ∧ a = x.store.drop v := by
  have there := h.looks.inUse (.inr (.inr ⟨v, held⟩))
  refine (h.looks.decref fine held (h.unnamed there)).mono fun r t ends => ?_
  exact ⟨_, _, h.dropped held ends.2, ends.1, rfl⟩

/-- What keeps the view keeps the store. -/
theorem Good.fill (h : Good s live x) {c : Contents} (looks : Looks t live (x.fill ino c)) :
    Good t live (x.fill ino c) :=
  ⟨looks, h.linked, h.closed⟩

theorem truncated_bytes {f g : File} {len : Int}
    (content : ∀ k, g.content k = if keeps (truncBlocklen len) k then f.content k else zeroSector) (p : Nat) :
    (g.bytes p = f.bytes p ∨ g.bytes p = 0) ∧ (len + 512 ≤ 2 ^ 41 → (p : Int) < len → g.bytes p = f.bytes p) := by
  unfold File.bytes
  rw [content]
  by_cases kept : keeps (truncBlocklen len) (p / 512) = true
  · rw [if_pos kept]
    exact ⟨.inl rfl, fun _ _ => rfl⟩
  · rw [if_neg kept]
    refine ⟨.inr rfl, fun short below => ?_⟩
    have blocks := @blocksOf_eq len (by omega)
    have exact := @truncBlocklen_toNat len (by omega) (by omega)
    unfold keeps at kept
    rw [exact] at kept
    split at kept
    · simp only [decide_eq_true_eq] at kept
      omega
    · simp only [decide_eq_true_eq] at kept
      omega

theorem Good.truncate (h : Good s live x) (fine : Fine w) (held : x.handle v = some ino)
    (other : ino ≠ sfsRootdirIno) (len : Int) :
    Comes (sfsTruncate v len) s w (x.store.Truncate ino len) := by
  obtain ⟨sv, here, is, there, -⟩ := h.looks.vnode held
  obtain ⟨g, n, goes, keeps, size, -, content⟩ := (h.looks.books.tree here).itrunc_fine fine len
  have looks := h.looks.refill here is other keeps
  refine .of_after fine (onVnode_eq here.2 goes) ⟨live, _, h.fill looks, ?_⟩
  have was : x.contents ino = File.contents ⟨s.fs, sv⟩ := by
    rw [← h.looks.contents ino there other, ← is]
    unfold Volume.contents Volume.file
    rw [h.looks.books.table.inode here]
    rfl
  have bytes (p : Nat) := truncated_bytes content p
  refine .cut (congrArg UInt32.toNat size) (fun p => ?_) fun short p below => ?_
  · change g.bytes p = (x.contents ino).bytes p ∨ _
    rw [was]
    exact (bytes p).1
  · change g.bytes p = (x.contents ino).bytes p
    rw [was]
    exact (bytes p).2 short below

theorem Books.vnodeCheck (h : Books s live) (here : s.Here v sv) (w : Replies) :
    vnodeCheck ⟨s.fs, sv⟩ w = .done (.ok (), ⟨s.fs, sv⟩, w) := by
  unfold Sfs.vnodeCheck
  rw [Fallible.get_bind, Fallible.kassert_bind (h.table.refcount v sv here)]
  exact if_pos (Int.le_of_eq (h.table.opencount v sv here).symm)

/-- An operation on a vnode that somebody has goes by the type of the file. -/
theorem Good.vop {α : Type} {file dir : Fallible Errno Replies Volume α} (h : Good s live x)
    (held : x.handle v = some ino) (w : Replies) :
    vop v file dir s w = if ino = sfsRootdirIno then dir s w else file s w := by
  obtain ⟨sv, here, -, -, -, -, type, -⟩ := h.looks.vnode held
  have checks := h.looks.books.vnodeCheck here w
  have same : (s.withFs s.fs).withVnode v sv = s := Volume.withVnode_self here.2
  unfold Sfs.vop
  rw [Fallible.bind_ok (onVnode_eq here.2 checks), same, Fallible.bind_ok (vnodeAt_eq here.2)]
  by_cases root : ino = sfsRootdirIno
  · rw [if_pos (type.mpr root), if_pos root]
  · rw [if_neg fun is => root (type.mp is), if_neg root]

theorem Good.gettype (h : Good s live x) (held : x.handle v = some ino) (w : Replies) :
    vopGettype v s w = .done (.ok (if ino = sfsRootdirIno then sIfdir else sIfreg), s, w) := by
  obtain ⟨sv, here, is, there, -, -, type, same⟩ := h.looks.vnode held
  unfold vopGettype
  rw [h.vop held w, ite_self]
  unfold sfsGettype
  rw [Fallible.bind_ok (vnodeAt_eq here.2)]
  by_cases root : ino = sfsRootdirIno
  · have dir := type.mpr root
    rw [if_neg (by rw [dir]; decide), if_pos dir, if_pos root]
    rfl
  · have file : sv.svI.sfiType = sfsTypeFile := by
      rw [same]
      exact h.looks.books.files _ there root
    rw [if_pos file, if_neg root]
    rfl

theorem Good.stat (h : Good s live x) (fine : Fine w) (held : x.handle v = some ino) :
    Comes (vopStat v) s w (x.store.Stats ino) := by
  obtain ⟨sv, here, is, there, -, links, type, same⟩ := h.looks.vnode held
  unfold Comes Goes Fallible.Returns vopStat
  rw [h.vop held w, ite_self]
  unfold sfsStat
  rw [Fallible.bind_ok (h.gettype held w), Fallible.bind_ok (vnodeAt_eq here.2)]
  refine ⟨_, s, w, rfl, fine, live, x, h, ?_⟩
  by_cases root : ino = sfsRootdirIno
  · exact .directory root (if_pos root)
  · refine .file root (if_neg root) ?_ ?_
    · change sv.svI.sfiSize.toNat = (x.contents ino).size
      rw [← h.looks.contents ino there root, ← is]
      unfold Volume.contents Volume.file
      rw [h.looks.books.table.inode here]
      rfl
    · dsimp only
      rw [links, h.linked ino there root, h.looks.unique.count_eq]
      rfl

theorem Good.fsync (h : Good s live x) (fine : Fine w) (held : x.handle v = some ino) :
    Comes (vopFsync v) s w fun r a => r = .ok () ∧ a = x.store := by
  obtain ⟨sv, here, -⟩ := h.looks.vnode held
  obtain ⟨g, n, goes, -, books, slots, same, refs, handle⟩ := h.looks.books.sync fine here
  refine .of_after fine (onVnode_eq here.2 ((Fallible.bind_ok (h.looks.books.vnodeCheck here w)).trans goes))
    ⟨live, x, ⟨⟨books, ?_, ?_, ?_, ?_, ?_⟩,
    h.linked, h.closed⟩, rfl, rfl⟩
  · exact slots.trans h.looks.slots
  · exact fun i there => (same.links i there).trans (h.looks.links i there)
  · exact fun i there other => (same.contents i there other).trans (h.looks.contents i there other)
  · exact refs.trans h.looks.refs
  · exact handle.trans h.looks.handle

end Vnodes

/-! ### Reading and writing -/

section Transfer

variable {Space User : Type} {copy : UserCopy User} {byte : User → Bytes} {a b u : FileIo Space User}
variable {base off n : Nat} {s : Volume} {live : UInt32 → Prop} {x : View} {v : Nat} {ino : UInt32} {w : Replies}

theorem adjustSize_frame (origresid : UInt32) (a : FileIo Space User) :
    (adjustSize origresid a).uio = a.uio ∧ (adjustSize origresid a).memory = a.memory := by
  unfold adjustSize
  split
  · exact ⟨rfl, rfl⟩
  · exact ⟨rfl, rfl⟩

/-- The size depends on the file and on how far the transfer has come. -/
theorem adjustSize_file (origresid : UInt32) (file : a.file = b.file) (uio : a.uio = b.uio) :
    (adjustSize origresid a).file = (adjustSize origresid b).file := by
  unfold adjustSize FileIo.size
  rw [file, uio]
  split
  · rfl
  · exact file

theorem adjustSize_local (origresid : UInt32) (tree : b.file.Tree) (keeps : Local a.file b.file) :
    Local a.file (adjustSize origresid b).file := by
  unfold adjustSize
  split
  · exact keeps.trans (.setSize tree _)
  · exact keeps

/-- The size after `n` bytes. -/
theorem Carried.size (carried : Carried byte a b base off n) (offset : a.uio.uioOffset = (off : Nat))
    (inside : n ≤ a.uio.uioResid.toNat) (fits : 0 < n → off + n ≤ 143 * 512) (write : a.uio.uioRw = .write) :
    (adjustSize a.uio.uioResid b).file.size = if 0 < n then max a.file.size (off + n) else a.file.size := by
  have left : b.uio.uioResid.toNat = a.uio.uioResid.toNat - n := by
    rw [carried.uio, Uio.advance_resid inside]
  have size : b.file.size = a.file.size := congrArg UInt32.toNat carried.grows.size
  have end_ : b.uio.uioOffset = (off + n : Nat) := by
    rw [carried.uio, Uio.advance_offset, offset, Nat.cast_add]
  have moved : b.uio.uioResid ≠ a.uio.uioResid ↔ 0 < n := by
    rw [Ne, ← UInt32.toNat_inj, left]
    omega
  have writes : b.uio.uioRw = .write := by
    rw [carried.uio, Uio.advance_rw, write]
  have behind : (b.size.toNat : Int) = b.file.size := rfl
  unfold adjustSize
  by_cases some : 0 < n
  · rw [if_pos some]
    by_cases longer : b.file.size < off + n
    · have limit := fits some
      rw [if_pos ⟨moved.mpr some, writes, by rw [end_, behind]; omega⟩, end_]
      refine (ofInt_toNat (by omega)).trans ?_
      omega
    · rw [if_neg fun both => longer (by rw [end_, behind] at both; omega)]
      omega
  · rw [if_neg some, if_neg fun both => some (moved.mp both.1)]
    exact size

theorem Carried.moved (carried : Carried byte a b base off n) (offset : a.uio.uioOffset = (off : Nat))
    (inside : n ≤ a.uio.uioResid.toNat) (fits : 0 < n → off + n ≤ 143 * 512) :
    Store.Moved byte a.file.contents (adjustSize a.uio.uioResid b).file.contents a.memory b.memory a.uio b.uio
      base off n := by
  have bytes : (adjustSize a.uio.uioResid b).file.bytes = b.file.bytes := by
    unfold adjustSize
    split
    · rfl
    · rfl
  refine ⟨carried.uio, carried.space, fun write => ?_, fun read => ?_⟩
  · obtain ⟨memory, stored⟩ := carried.stored write
    refine ⟨memory, ?_⟩
    unfold File.contents Contents.write
    rw [carried.size offset inside fits write, bytes, stored]
  · obtain ⟨same, loaded⟩ := carried.loaded read
    have reads : b.uio.uioRw = .read := by
      rw [carried.uio, Uio.advance_rw, read]
    refine ⟨?_, loaded⟩
    rw [adjustSize_read reads, same]

/-- A transfer for a file of the store. -/
theorem CarryEnd.transfers {r : Except Errno Unit} (ends : CarryEnd byte a base off (a.wanted off) b r)
    (offset : a.uio.uioOffset = (off : Nat)) :
    Store.Transfers byte a.file.contents (adjustSize a.uio.uioResid b).file.contents a.memory b.memory a.uio b.uio
      base off r ∧ Local a.file (adjustSize a.uio.uioResid b).file := by
  have most : a.wanted off ≤ a.uio.uioResid.toNat := by
    unfold FileIo.wanted
    split
    · exact min_le_left ..
    · exact le_refl _
  cases ends with
  | all carried fits =>
    exact ⟨.all (carried.moved offset most fits), adjustSize_local _ carried.keeps.tree carried.keeps⟩
  | @fault u n carried used fits user file uio =>
    have same := adjustSize_file a.uio.uioResid file uio
    rw [same, uio]
    exact ⟨.fault (carried.moved offset (by omega) fits) used user,
      adjustSize_local _ carried.keeps.tree carried.keeps⟩
  | @refused err n carried used fits refused =>
    refine ⟨?_, adjustSize_local _ carried.keeps.tree carried.keeps⟩
    have moved := carried.moved offset (by omega) fits
    obtain ⟨rfl, beyond⟩ | ⟨rfl, write, -⟩ := refused
    · exact .tooBig moved used (by omega)
    · exact .full moved used write

theorem Good.io [DecidableEq Space] {memory : Memory Space User} {uio : Uio Space} (h : Good s live x)
    (sound : copy.Sound byte) (fine : Fine w) (held : x.handle v = some ino) (other : ino ≠ sfsRootdirIno)
    (ready : uio.Ready memory base) (offset : uio.uioOffset = (off : Nat)) (short : off < 2 ^ 41) :
    Comes (ioVnode copy v memory uio) s w fun r b => ∃ e memory' uio' c, r = .ok (e, memory', uio') ∧
      b = x.store.fill ino c ∧
      Store.Transfers byte (x.contents ino) c memory memory' uio uio' base off e := by
  obtain ⟨sv, here, is, there, -⟩ := h.looks.vnode held
  have tree := h.looks.books.tree here
  have mover : Mover (⟨⟨s.fs, sv⟩, memory, uio⟩ : FileIo Space User) base off :=
    ⟨ready, offset, short, tree, tree.low h.looks.books.small⟩
  obtain ⟨r, t, k, goes, ends⟩ := mover.io sound fine
  obtain ⟨transfers, keeps⟩ := ends.transfers offset
  obtain ⟨uio', memory'⟩ := adjustSize_frame uio.uioResid t
  have looks := h.looks.refill here is other keeps
  have was : x.contents ino = File.contents ⟨s.fs, sv⟩ := by
    rw [← h.looks.contents ino there other, ← is]
    unfold Volume.contents Volume.file
    rw [h.looks.books.table.inode here]
    rfl
  refine .of_after fine (n := k) ?_ ⟨live, _, h.fill looks, r, _, _, _, rfl, rfl, was ▸ transfers⟩
  unfold ioVnode
  rw [here.2]
  change (sfsIo copy ⟨⟨s.fs, sv⟩, memory, uio⟩ w >>= _) = _
  rw [goes]
  change Outcome.done _ = Outcome.done _
  rw [uio', memory']
  rfl

end Transfer

end Os161.Sfs
