import Os161.Base.Fallible
import Os161.Semfs.Vnops

/-!
# Memory for a new semaphore

`semfs_creat` with every block of memory that it asks for, and the labels through which it gives them back.
-/

namespace Os161.Semfs.Creat

/-- `struct semfs_sem`: its own block, and those of its lock and its condition variable. -/
structure Sem where
  block : Nat
  semsLock : Nat
  semsCv : Nat
  semsCount : UInt32
  semsHasvnode : Bool
  semsLinked : Bool

/-- `struct semfs_direntry`: its own block, and that of its name. -/
structure Direntry where
  block : Nat
  nameBlock : Nat
  semdName : String
  semdSemnum : Nat

structure Vnode where
  block : Nat
  vnRefcount : Int
  semvSemnum : Nat

/-- `struct semfs` with what is in its arrays, and the blocks of kernel memory in use. -/
structure Store where
  semfsSems : List (Option Sem)
  semfsDents : List (Option Direntry)
  semfsVnodes : List Vnode
  semfsDirlock : Bool
  semfsTablelock : Bool
  blocks : List Nat
  next : Nat

/-- Whether there is memory, for each place that asks. -/
structure Room where
  sem : Bool
  semLock : Bool
  semCv : Bool
  semarray : Bool
  dent : Bool
  name : Bool
  direntryarray : Bool
  vnode : Bool
  vnodearray : Bool

abbrev M := Fallible Empty Room Store

/-- `kmalloc`, and the other constructors, with the answer for this place. -/
def kmalloc (place : Room → Bool) : M (Option Nat) := fun s room =>
  if place room then
    .done (.ok (some s.next), { s with blocks := s.next :: s.blocks, next := s.next + 1 }, room)
  else .done (.ok none, s, room)

def kfree (block : Nat) : M Unit := fun s room =>
  if block ∈ s.blocks then .done (.ok (), { s with blocks := s.blocks.erase block }, room) else .fault

/-- Whether an array has memory for one more. -/
def room (place : Room → Bool) : M Bool := fun s room => .done (.ok (place room), s, room)

def acquireDirlock : M Unit := do
  Fallible.kassert (!(← Fallible.get).semfsDirlock)
  Fallible.modify fun s => { s with semfsDirlock := true }

def releaseDirlock : M Unit := do
  Fallible.kassert (← Fallible.get).semfsDirlock
  Fallible.modify fun s => { s with semfsDirlock := false }

def acquireTablelock : M Unit := do
  Fallible.kassert (!(← Fallible.get).semfsTablelock)
  Fallible.modify fun s => { s with semfsTablelock := true }

def releaseTablelock : M Unit := do
  Fallible.kassert (← Fallible.get).semfsTablelock
  Fallible.modify fun s => { s with semfsTablelock := false }

def semarraySet (i : Nat) (o : Option Sem) : M Unit :=
  Fallible.modify fun s => { s with semfsSems := s.semfsSems.set i o }

def direntryarraySet (i : Nat) (o : Option Direntry) : M Unit :=
  Fallible.modify fun s => { s with semfsDents := s.semfsDents.set i o }

/-! ### semfs_obj.c -/

def semfsSemCreate : M (Option Sem) := do
  match ← kmalloc Room.sem with
  | none => return none
  | some block =>
    match ← kmalloc Room.semLock with
    | none => do
      kfree block
      return none
    | some lock =>
      match ← kmalloc Room.semCv with
      | none => do
        kfree lock
        kfree block
        return none
      | some cv => return some ⟨block, lock, cv, 0, false, false⟩

def semfsSemDestroy (sem : Sem) : M Unit := do
  kfree sem.semsCv
  kfree sem.semsLock
  kfree sem.block

def semfsSemInsert (sem : Sem) : M (Except Errno Nat) := do
  let s ← Fallible.get
  Fallible.kassert s.semfsTablelock
  if s.semfsSems.length = semfsRootdir then return .error .enospc
  else
    match s.semfsSems.findIdx? Option.isNone with
    | some i => do
      semarraySet i (some sem)
      return .ok i
    | none => do
      let more ← room Room.semarray
      if more then do
        Fallible.modify fun s => { s with semfsSems := s.semfsSems ++ [some sem] }
        return .ok s.semfsSems.length
      else return .error .enomem

def semfsDirentryCreate (name : String) (semnum : Nat) : M (Option Direntry) := do
  match ← kmalloc Room.dent with
  | none => return none
  | some block =>
    match ← kmalloc Room.name with
    | none => do
      kfree block
      return none
    | some nameBlock => return some ⟨block, nameBlock, name, semnum⟩

def semfsDirentryDestroy (dent : Direntry) : M Unit := do
  kfree dent.nameBlock
  kfree dent.block

/-! ### semfs_vnops.c -/

/-- Following the pointer in a slot of the table. -/
def modifySem (semnum : Nat) (f : Sem → Sem) : M Unit := do
  match (← Fallible.get).semfsSems[semnum]?.join with
  | none => Fallible.panic
  | some sem => semarraySet semnum (some (f sem))

def semfsVnodeCreate (semnum : Nat) : M (Option Vnode) := do
  match ← kmalloc Room.vnode with
  | none => return none
  | some block => return some ⟨block, 1, semnum⟩

/-- The assertion is that of `vnode_cleanup`. -/
def semfsVnodeDestroy (vn : Vnode) : M Unit := do
  Fallible.kassert (vn.vnRefcount = 1)
  kfree vn.block

def semfsGetvnode (semnum : Nat) : M (Except Errno Vnode) := do
  acquireTablelock
  match (← Fallible.get).semfsVnodes.findIdx? fun vn => vn.semvSemnum = semnum with
  | some i => do
    let vnodes := (← Fallible.get).semfsVnodes.modify i fun vn => { vn with vnRefcount := vn.vnRefcount + 1 }
    Fallible.modify fun s => { s with semfsVnodes := vnodes }
    releaseTablelock
    match vnodes[i]? with
    | none => Fallible.panic
    | some vn => return .ok vn
  | none => do
    match ← semfsVnodeCreate semnum with
    | none => do
      releaseTablelock
      return .error .enomem
    | some vn => do
      let more ← room Room.vnodearray
      if more then do
        Fallible.modify fun s => { s with semfsVnodes := s.semfsVnodes ++ [vn] }
        if semnum ≠ semfsRootdir then do
          let sem := (← Fallible.get).semfsSems[semnum]?.join
          Fallible.kassert (sem.any fun sem => !sem.semsHasvnode)
          modifySem semnum fun sem => { sem with semsHasvnode := true }
        releaseTablelock
        return .ok vn
      else do
        semfsVnodeDestroy vn
        releaseTablelock
        return .error .enomem

def failUnlock (result : Option Errno) : M (Option Errno × Option Vnode) := do
  releaseDirlock
  return (result, none)

def failUncreate (sem : Sem) (result : Option Errno) : M (Option Errno × Option Vnode) := do
  semfsSemDestroy sem
  failUnlock result

def failUninsert (sem : Sem) (semnum : Nat) (result : Option Errno) :
    M (Option Errno × Option Vnode) := do
  acquireTablelock
  semarraySet semnum none
  releaseTablelock
  failUncreate sem result

def failUndent (sem : Sem) (semnum : Nat) (dent : Direntry) (result : Option Errno) :
    M (Option Errno × Option Vnode) := do
  semfsDirentryDestroy dent
  failUninsert sem semnum result

def failUndir (sem : Sem) (semnum : Nat) (dent : Direntry) (empty : Nat) (result : Option Errno) :
    M (Option Errno × Option Vnode) := do
  direntryarraySet empty none
  failUndent sem semnum dent result

/-- `semfs_creat` once the entry is in the directory. -/
def creatVnode (sem : Sem) (semnum : Nat) (dent : Direntry) (empty : Nat) :
    M (Option Errno × Option Vnode) := do
  match ← semfsGetvnode semnum with
  | .error err => failUndir sem semnum dent empty (some err)
  | .ok vn => do
    modifySem semnum fun sem => { sem with semsLinked := true }
    releaseDirlock
    return (none, some vn)

/-- `semfs_creat` once the semaphore is in the table; `result` is what `semfs_sem_insert` has returned. -/
def creatDirentry (name : String) (sem : Sem) (semnum : Nat) (result : Option Errno) :
    M (Option Errno × Option Vnode) := do
  match ← semfsDirentryCreate name semnum with
  | none => failUninsert sem semnum result
  | some dent => do
    let dents := (← Fallible.get).semfsDents
    match dents.findIdx? Option.isNone with
    | some empty => do
      direntryarraySet empty (some dent)
      creatVnode sem semnum dent empty
    | none => do
      let more ← room Room.direntryarray
      if more then do
        Fallible.modify fun s => { s with semfsDents := s.semfsDents ++ [some dent] }
        creatVnode sem semnum dent dents.length
      else failUndent sem semnum dent (some .enomem)

/-- An errno or 0, and the vnode that is handed back. -/
def semfsCreat (name : String) (excl : Bool) : M (Option Errno × Option Vnode) := do
  if isDot name then return (some .eexist, none)
  else do
    acquireDirlock
    match (← Fallible.get).semfsDents.findSome? fun o => o.filter fun dent => dent.semdName == name with
    | some dent =>
      if excl then do
        releaseDirlock
        return (some .eexist, none)
      else do
        let result ← semfsGetvnode dent.semdSemnum
        releaseDirlock
        match result with
        | .error err => return (some err, none)
        | .ok vn => return (none, some vn)
    | none => do
      match ← semfsSemCreate with
      | none => failUnlock (some .enomem)
      | some sem => do
        acquireTablelock
        let inserted ← semfsSemInsert sem
        releaseTablelock
        match inserted with
        | .error err => failUncreate sem (some err)
        | .ok semnum => creatDirentry name sem semnum none

/-! ### The steps that can fail -/

/-- The slot that the first empty one is, or the one after the last. -/
def slot {α : Type} (l : List (Option α)) : Nat := (l.findIdx? Option.isNone).getD l.length

/-- A slot for one more needs memory. -/
def Full {α : Type} (l : List (Option α)) : Prop := l.findIdx? Option.isNone = none

def SemFails (w : Room) : Prop := ¬ (w.sem ∧ w.semLock ∧ w.semCv)

def InsertFails (s : Store) (w : Room) : Prop :=
  s.semfsSems.length = semfsRootdir ∨ (Full s.semfsSems ∧ w.semarray = false)

def DentFails (w : Room) : Prop := ¬ (w.dent ∧ w.name)

def DirFails (s : Store) (w : Room) : Prop := Full s.semfsDents ∧ w.direntryarray = false

def VnodeFails (s : Store) (w : Room) : Prop :=
  (∀ vn ∈ s.semfsVnodes, vn.semvSemnum ≠ slot s.semfsSems) ∧ ¬ (w.vnode ∧ w.vnodearray)

def Fails (s : Store) (w : Room) : Prop :=
  SemFails w ∨ InsertFails s w ∨ DentFails w ∨ DirFails s w ∨ VnodeFails s w

/-- `t` has what `s` had, and both locks are free. -/
structure Undone (s t : Store) : Prop where
  sems : ∀ i : Nat, t.semfsSems[i]?.join = s.semfsSems[i]?.join
  dents : ∀ i : Nat, t.semfsDents[i]?.join = s.semfsDents[i]?.join
  vnodes : t.semfsVnodes = s.semfsVnodes
  dirlock : t.semfsDirlock = false
  tablelock : t.semfsTablelock = false
  blocks : t.blocks = s.blocks

/-- From `t` the call comes back without a vnode, and all is as in `s`. -/
def Ends (x : M (Option Errno × Option Vnode)) (s t : Store) (w : Room) (result : Option Errno) : Prop :=
  ∃ u, x t w = .done (.ok (result, none), u, w) ∧ Undone s u

/-! ### Memory -/

section

variable {s t : Store} {w : Room} {α : Type}

theorem kmalloc_bind {place : Room → Bool} {f : Option Nat → M α} (enough : place w = true) :
    (kmalloc place >>= f) s w =
      f (some s.next) { s with blocks := s.next :: s.blocks, next := s.next + 1 } w := by
  apply Fallible.bind_ok
  unfold kmalloc
  rw [if_pos enough]

theorem acquireDirlock_bind {f : Unit → M α} (free : s.semfsDirlock = false) :
    (acquireDirlock >>= f) s w = f () { s with semfsDirlock := true } w := by
  apply Fallible.bind_ok
  unfold acquireDirlock
  rw [Fallible.get_bind, Fallible.kassert_bind (by simp [free])]
  rfl

theorem acquireTablelock_bind {f : Unit → M α} (free : s.semfsTablelock = false) :
    (acquireTablelock >>= f) s w = f () { s with semfsTablelock := true } w := by
  apply Fallible.bind_ok
  unfold acquireTablelock
  rw [Fallible.get_bind, Fallible.kassert_bind (by simp [free])]
  rfl

theorem releaseTablelock_bind {f : Unit → M α} (held : s.semfsTablelock = true) :
    (releaseTablelock >>= f) s w = f () { s with semfsTablelock := false } w := by
  apply Fallible.bind_ok
  unfold releaseTablelock
  rw [Fallible.get_bind, Fallible.kassert_bind held]
  rfl

def Sem.blocks (sem : Sem) : List Nat := [sem.semsCv, sem.semsLock, sem.block]

def Direntry.blocks (dent : Direntry) : List Nat := [dent.nameBlock, dent.block]

theorem semfsSemCreate_goes (goes : ¬ SemFails w) :
    ∃ sem n, semfsSemCreate s w =
      .done (.ok (some sem), { s with blocks := sem.blocks ++ s.blocks, next := n }, w) := by
  obtain ⟨one, two, three⟩ := not_not.mp goes
  refine ⟨⟨s.next, s.next + 1, s.next + 2, 0, false, false⟩, s.next + 3, ?_⟩
  unfold semfsSemCreate
  rw [kmalloc_bind one]
  dsimp only
  rw [kmalloc_bind two]
  dsimp only
  rw [kmalloc_bind three]
  rfl

theorem semfsDirentryCreate_goes (name : String) (semnum : Nat) (goes : ¬ DentFails w) :
    ∃ dent n, semfsDirentryCreate name semnum s w =
      .done (.ok (some dent), { s with blocks := dent.blocks ++ s.blocks, next := n }, w) := by
  obtain ⟨one, two⟩ := not_not.mp goes
  refine ⟨⟨s.next, s.next + 1, name, semnum⟩, s.next + 2, ?_⟩
  unfold semfsDirentryCreate
  rw [kmalloc_bind one]
  dsimp only
  rw [kmalloc_bind two]
  rfl

variable {l m : List (Option α)} {a : α} {i : Nat}

/-- `m` is `l` with something at `i`, where it had nothing. -/
def Filled (l m : List (Option α)) (i : Nat) : Prop := ∀ j : Nat, (m.set i none)[j]?.join = l[j]?.join

theorem full_or (l : List (Option α)) : Full l ∨ l.findIdx? Option.isNone = some (slot l) := by
  unfold Full slot
  cases l.findIdx? Option.isNone <;> simp

theorem Full.slot (full : Full l) : slot l = l.length := by
  unfold Creat.slot
  rw [full]
  rfl

theorem filled_hole (hole : l.findIdx? Option.isNone = some i) : Filled l (l.set i (some a)) i := by
  obtain ⟨inside, empty, -⟩ := List.findIdx?_eq_some_iff_getElem.mp hole
  intro j
  rw [List.set_set, List.getElem?_set]
  split
  · rename_i same
    subst same
    simp [inside, Option.isNone_iff_eq_none.mp empty]
  · rfl

theorem filled_end : Filled l (l ++ [some a]) l.length := by
  intro j
  rw [List.set_append_right _ _ (Nat.le_refl _), Nat.sub_self]
  obtain inside | outside := Nat.lt_or_ge j l.length
  · rw [List.getElem?_append_left inside]
  · rw [List.getElem?_append_right outside, List.getElem?_eq_none outside]
    cases j - l.length <;> rfl

theorem semfsSemInsert_goes (sem : Sem) (locked : s.semfsTablelock = true) (goes : ¬ InsertFails s w) :
    ∃ sems, Filled s.semfsSems sems (slot s.semfsSems) ∧
      semfsSemInsert sem s w = .done (.ok (.ok (slot s.semfsSems)), { s with semfsSems := sems }, w) := by
  obtain ⟨short, more⟩ := not_or.mp goes
  unfold semfsSemInsert
  rw [Fallible.get_bind, Fallible.kassert_bind locked, if_neg short]
  obtain full | hole := full_or s.semfsSems
  · have enough : w.semarray = true := by simpa [full] using more
    refine ⟨s.semfsSems ++ [some sem], by rw [full.slot]; exact filled_end, ?_⟩
    rw [full, full.slot]
    dsimp only
    rw [Fallible.bind_ok (a := w.semarray) rfl, if_pos enough]
    rfl
  · exact ⟨_, filled_hole hole, by rw [hole]; rfl⟩

/-- What the code has between the steps: the directory is locked, and these blocks are new. -/
structure Held (s t : Store) (blocks : List Nat) : Prop where
  dirlock : t.semfsDirlock = true
  tablelock : t.semfsTablelock = false
  vnodes : t.semfsVnodes = s.semfsVnodes
  blocks : t.blocks = blocks ++ s.blocks

variable {result : Option Errno} {sem : Sem} {dent : Direntry} {semnum empty : Nat}

/-- What comes of a sequence is what its last part gives. -/
theorem ensures_last {α β : Type} {x : M α} {f : α → M β} {P : Except Empty β → Store → Room → Prop}
    (rest : ∀ a u v, (f a).Ensures u v P) : (x >>= f).Ensures t w P := by
  refine Fallible.Ensures.bind (P := fun _ _ _ => True) (Fallible.ensures_of fun _ _ _ _ => trivial) ?_ ?_
  · intro a u v _
    exact rest a u v
  · intro e
    exact e.elim

/-- With a vnode in the table, or memory for one and a place for it, there is a vnode. -/
theorem semfsGetvnode_gives (free : t.semfsTablelock = false)
    (goes : (∃ vn ∈ t.semfsVnodes, vn.semvSemnum = semnum) ∨ (w.vnode = true ∧ w.vnodearray = true)) :
    (semfsGetvnode semnum).Ensures t w fun r _ _ => ∃ vn, r = .ok (.ok vn) := by
  have last : ∀ vn u v, (do releaseTablelock; return .ok vn : M (Except Errno Vnode)).Ensures u v
      fun r _ _ => ∃ vn, r = .ok (.ok vn) := by
    intro vn u v
    exact ensures_last fun _ _ _ => Fallible.ensures_pure.mpr ⟨_, rfl⟩
  unfold semfsGetvnode
  refine .of_eq (acquireTablelock_bind free) (Fallible.ensures_get_bind.mpr ?_)
  dsimp only
  cases search : t.semfsVnodes.findIdx? fun vn => decide (vn.semvSemnum = semnum) with
  | some i =>
    refine Fallible.ensures_get_bind.mpr (ensures_last fun _ _ _ => ensures_last fun _ _ _ => ?_)
    split
    · exact Fallible.ensures_panic
    · exact Fallible.ensures_pure.mpr ⟨_, rfl⟩
  | none =>
    have absent : ∀ vn ∈ t.semfsVnodes, vn.semvSemnum ≠ semnum := by
      simpa [List.findIdx?_eq_none_iff] using search
    obtain ⟨vn, mem, same⟩ | ⟨enough, more⟩ := goes
    · exact absurd same (absent vn mem)
    · dsimp only
      unfold semfsVnodeCreate
      refine .of_eq (Fallible.bind_ok (kmalloc_bind enough)) ?_
      dsimp only
      refine .of_eq (Fallible.bind_ok (a := w.vnodearray) rfl) ?_
      rw [if_pos more]
      refine ensures_last fun _ _ _ => ?_
      split
      · exact ensures_last fun _ _ _ => ensures_last fun _ _ _ => ensures_last fun _ _ _ => last _ _ _
      · exact last _ _ _

theorem creatVnode_gives (free : t.semfsTablelock = false)
    (goes : (∃ vn ∈ t.semfsVnodes, vn.semvSemnum = semnum) ∨ (w.vnode = true ∧ w.vnodearray = true)) :
    (creatVnode sem semnum dent empty).Ensures t w fun r _ _ => ∃ vn, r = .ok (none, some vn) := by
  refine Fallible.Ensures.bind (semfsGetvnode_gives free goes) ?_ ?_
  · rintro result u v ⟨vn, same⟩
    cases same
    exact ensures_last fun _ _ _ => ensures_last fun _ _ _ => Outcome.ensures_done.mpr ⟨_, rfl⟩
  · intro e
    exact e.elim

theorem creatDirentry_gives (free : t.semfsTablelock = false) (dent : ¬ DentFails w)
    (dir : Full t.semfsDents → w.direntryarray = true)
    (goes : (∃ vn ∈ t.semfsVnodes, vn.semvSemnum = semnum) ∨ (w.vnode = true ∧ w.vnodearray = true))
    (name : String) :
    (creatDirentry name sem semnum result).Ensures t w fun r _ _ => ∃ vn, r = .ok (none, some vn) := by
  obtain ⟨dent, n, made⟩ := semfsDirentryCreate_goes (s := t) name semnum dent
  unfold creatDirentry
  refine .of_eq (Fallible.bind_ok made) (Fallible.ensures_get_bind.mpr ?_)
  dsimp only
  obtain full | hole := full_or t.semfsDents
  · rw [full]
    refine .of_eq (Fallible.bind_ok (a := w.direntryarray) rfl) ?_
    rw [if_pos (dir full)]
    exact .of_eq (Fallible.bind_ok (a := ()) rfl) (creatVnode_gives free goes)
  · rw [hole]
    exact .of_eq (Fallible.bind_ok (a := ()) rfl) (creatVnode_gives free goes)

end

/-! ### semfs_creat -/

variable {name : String} {excl : Bool} {s : Store} {w : Room}

/-- What a new name is: no entry has it. -/
def New (s : Store) (name : String) : Prop :=
  isDot name = false ∧ ∀ dent, some dent ∈ s.semfsDents → dent.semdName ≠ name

theorem New.search (new : New s name) :
    (s.semfsDents.findSome? fun o => o.filter fun dent => dent.semdName == name) = none := by
  rw [List.findSome?_eq_none_iff]
  intro o mem
  cases o with
  | none => rfl
  | some dent => simpa using new.2 dent mem

/-- There are no other ways to fail: where no step fails, there is a vnode. -/
theorem semfsCreat_gives (new : New s name) (dirlock : s.semfsDirlock = false)
    (tablelock : s.semfsTablelock = false) (goes : ¬ Fails s w) :
    (semfsCreat name excl).Ensures s w fun r _ _ => ∃ vn, r = .ok (none, some vn) := by
  obtain ⟨someSem, someSlot, someDent, someDir, someVnode⟩ :
      ¬ SemFails w ∧ ¬ InsertFails s w ∧ ¬ DentFails w ∧ ¬ DirFails s w ∧ ¬ VnodeFails s w := by
    simpa [Fails] using goes
  unfold semfsCreat
  rw [if_neg (by simp [new.1])]
  refine .of_eq (acquireDirlock_bind dirlock) (Fallible.ensures_get_bind.mpr ?_)
  dsimp only
  rw [new.search]
  dsimp only
  obtain ⟨sem, n, made⟩ := semfsSemCreate_goes (s := { s with semfsDirlock := true }) someSem
  refine .of_eq (Fallible.bind_ok made) (.of_eq (acquireTablelock_bind tablelock) ?_)
  obtain ⟨sems, -, put⟩ := semfsSemInsert_goes (w := w)
    (s := { s with semfsDirlock := true, semfsTablelock := true, blocks := sem.blocks ++ s.blocks,
                   next := n }) sem rfl someSlot
  refine .of_eq (Fallible.bind_ok put) (.of_eq (releaseTablelock_bind rfl) ?_)
  refine creatDirentry_gives rfl someDent ?_ ?_ name
  · intro full
    simpa [DirFails, full] using someDir
  · by_cases found : ∃ vn ∈ s.semfsVnodes, vn.semvSemnum = slot s.semfsSems
    · exact .inl found
    · right
      by_contra short
      exact someVnode ⟨fun vn mem same => found ⟨vn, mem, same⟩, short⟩

end Os161.Semfs.Creat
