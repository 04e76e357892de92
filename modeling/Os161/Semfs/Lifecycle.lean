import Os161.Base.LockRun
import Os161.Semfs.Contents

/-!
# The life of a semaphore

Creating, looking up, removing and letting go, one operation after the other, and `semfs_unmount`.
-/

namespace Os161.Semfs

open Locks (Code Alone act acquire release destroy kassert deref look)

/-! ### semfs_fsops.c -/

/-- The loop of `semfs_destroy` over the table. -/
def semfsDestroySems : List (Option Nat) → K Unit
  | [] => return ()
  | o :: rest => do
    let ptr ← deref o
    semfsSemDestroy ptr
    semfsDestroySems rest

/-- The loop of `semfs_destroy` over the directory. -/
def semfsDestroyDents : List (Option SemfsDirentry) → K Unit
  | [] => return ()
  | o :: rest => do
    let _ ← deref o
    semfsDestroyDents rest

/-- The assertion is that of `vnodearray_destroy`. -/
def semfsDestroy : K Unit := do
  semfsDestroySems (← look).semfsSems
  act fun s => return { s with semfsSems := [] }
  semfsDestroyDents (← look).semfsDents
  act fun s => return { s with semfsDents := [] }
  destroy .semfsDirlock
  kassert ((← look).semfsVnodes = [])
  destroy .semfsTablelock

def semfsUnmount : K (Option Errno) := do
  acquire .semfsTablelock
  if 0 < (← look).semfsVnodes.length then do
    release .semfsTablelock
    return some .ebusy
  else do
    release .semfsTablelock
    semfsDestroy
    return none

/-- `semfs_getroot`, without the message. -/
def semfsGetroot : K (Except Errno Nat) := semfsGetvnode semfsRootdir

/-! ### One step at a time -/

/-- The two tables change only with `semfs_tablelock`. -/
def Locked (h : List Lock) (s t : Table) : Prop :=
  .semfsTablelock ∈ h ∨ t.semfsVnodes = s.semfsVnodes ∧ t.semfsSems = s.semfsSems

abbrev Does {α : Type} (c : K α) (s : Table) (h : List Lock) (P : α → Table → List Lock → Prop) : Prop :=
  c.Does recursive Locked s h P

section Steps

variable {s : Table} {h : List Lock} {vn n ptr : Nat}

theorem locked_refl : Locked h s s := .inr ⟨rfl, rfl⟩

def Table.withVnode (s : Table) (vn : Nat) (v : SemfsVnode) : Table :=
  { s with vnodes := Function.update s.vnodes vn (.live v) }

def Table.withSem (s : Table) (ptr : Nat) (a : SemfsSem) : Table :=
  { s with sems := Function.update s.sems ptr (.live a) }

theorem contents_withVnode {v : SemfsVnode} : (s.withVnode vn v).contents =
    { s.contents with vnode := Function.update s.contents.vnode vn (some v) } := by
  unfold Table.contents Table.withVnode
  simp only [Heap.value_update]
  rfl

theorem contents_withSem {a : SemfsSem} : (s.withSem ptr a).contents = s.contents.setSem ptr a := by
  unfold Table.contents Table.withSem Contents.setSem
  simp only [Heap.value_update]
  rfl

@[simp] theorem vnode_does {P : SemfsVnode → Table → List Lock → Prop} :
    Does (vnode vn) s h P ↔ ∃ v, s.contents.vnode vn = some v ∧ P v s h := by
  simp [Does, vnode, Table.contents]

@[simp] theorem sem_does {P : SemfsSem → Table → List Lock → Prop} :
    Does (sem ptr) s h P ↔ ∃ a, s.contents.sem ptr = some a ∧ P a s h := by
  simp [Does, sem, Table.contents]

@[simp] theorem addRefcount_does {k : Int} {P : Unit → Table → List Lock → Prop} :
    Does (addRefcount vn k) s h P ↔ ∃ v, s.contents.vnode vn = some v ∧
      P () (s.withVnode vn { v with vnRefcount := v.vnRefcount + k }) h := by
  simp [Does, addRefcount, setVnode, Table.contents, Table.withVnode, Locked]

@[simp] theorem setSem_does {g : SemfsSem → SemfsSem} {P : Unit → Table → List Lock → Prop} :
    Does (setSem ptr g) s h P ↔ ∃ a, s.contents.sem ptr = some a ∧ P () (s.withSem ptr (g a)) h := by
  simp [Does, setSem, Table.contents, Table.withSem, Locked]

@[simp] theorem semarrayGet_does {P : Nat → Table → List Lock → Prop} :
    Does (semarrayGet n) s h P ↔ ∃ ptr, s.contents.semAt n = some ptr ∧ P ptr s h := by
  simp [Does, semarrayGet, Table.contents]

@[simp] theorem vnodeIncref_does {P : Unit → Table → List Lock → Prop} :
    Does (vnodeIncref vn) s h P ↔ ∃ v, s.contents.vnode vn = some v ∧
      P () (s.withVnode vn { v with vnRefcount := v.vnRefcount + 1 }) h := by
  simp [Does, vnodeIncref, recursive]

@[simp] theorem allocVnode_does {v : SemfsVnode} {P : Unit → Table → List Lock → Prop} :
    Does (act fun s => do
      let vnodes ← s.vnodes.alloc vn v
      return { s with vnodes := vnodes }) s h P ↔ (s.vnodes vn = .unused → P () (s.withVnode vn v) h) := by
  simp [Does, Table.withVnode, Locked]

def Table.dropVnode (s : Table) (vn : Nat) : Table :=
  { s with vnodes := Function.update s.vnodes vn .freed }

theorem contents_dropVnode : (s.dropVnode vn).contents =
    { s.contents with vnode := Function.update s.contents.vnode vn none } := by
  unfold Table.contents Table.dropVnode
  simp only [Heap.value_update]
  rfl

theorem semfsVnodeDestroy_does {P : Unit → Table → List Lock → Prop} :
    Does (semfsVnodeDestroy vn) s h P ↔ ∃ v, s.contents.vnode vn = some v ∧ v.vnRefcount = 1 ∧
      P () (s.dropVnode vn) h := by
  simp only [Does, semfsVnodeDestroy, Locks.does_bind, vnode_does, Locks.does_kassert]
  refine exists_congr fun v => and_congr_right fun is => and_congr_right fun _ => ?_
  change (s.vnodes vn).value? = some v at is
  simp [is, Table.dropVnode, Locked]

/-- What becomes of the arrays when only what pointers point to changes. -/
def SameArrays (s t : Table) : Prop := t.semfsSems = s.semfsSems ∧ t.semfsDents = s.semfsDents

/-- What `semfs_getvnode` comes back with, and what it has done. -/
inductive Got (c : Contents) (n : Nat) : Except Errno Nat → Contents → Prop where
  | error (err : Errno) : Got c n (.error err) c
  | found (vn : Nat) (v : SemfsVnode) : vn ∈ c.vnodes → c.vnode vn = some v → v.semvSemnum = n →
      Got c n (.ok vn) (c.count vn v 1)
  | root (vn : Nat) : n = semfsRootdir → ¬ c.Opened n → c.vnode vn = none → Got c n (.ok vn) (c.addVnode vn n)
  | made (vn ptr : Nat) (a : SemfsSem) : n ≠ semfsRootdir → ¬ c.Opened n → c.vnode vn = none →
      c.semAt n = some ptr → c.sem ptr = some a →
      Got c n (.ok vn) ((c.addVnode vn n).setSem ptr { a with semsHasvnode := true })

theorem findVnode_some (search : findVnode s n = some vn) :
    vn ∈ s.contents.vnodes ∧ ∃ v, s.contents.vnode vn = some v ∧ v.semvSemnum = n := by
  have mem := List.mem_of_find?_eq_some search
  have test := List.find?_some search
  refine ⟨mem, ?_⟩
  change ∃ v, (s.vnodes vn).value? = some v ∧ _
  cases is : (s.vnodes vn).value? with
  | none => simp [is] at test
  | some v => exact ⟨v, rfl, by simpa [is] using test⟩

theorem findVnode_none (search : findVnode s n = none) : ¬ s.contents.Opened n := by
  rintro ⟨vn, mem, v, is, same⟩
  have test := List.find?_eq_none.mp search vn mem
  change (s.vnodes vn).value? = some v at is
  simp [is, same] at test

/-- A new vnode in the table. -/
theorem contents_addVnode : ({ s.withVnode vn ⟨1, n⟩ with semfsVnodes := s.semfsVnodes ++ [vn] } : Table).contents =
    s.contents.addVnode vn n := by
  have same : (s.withVnode vn ⟨1, n⟩).contents = _ := contents_withVnode
  exact congrArg (fun c : Contents => { c with vnodes := s.semfsVnodes ++ [vn] }) same

theorem semfsGetvnode_does {P : Except Errno Nat → Table → List Lock → Prop} (free : .semfsTablelock ∉ h)
    (ready : n = semfsRootdir ∨ ∃ ptr a, s.contents.semAt n = some ptr ∧ s.contents.sem ptr = some a ∧
      (a.semsHasvnode = true → s.contents.Opened n))
    (after : ∀ r t, Got s.contents n r t.contents → SameArrays s t → P r t h) :
    Does (semfsGetvnode n) s h P := by
  unfold semfsGetvnode
  simp only [Does, Locks.does_bind, Locks.does_acquire, Locks.does_look]
  refine ⟨fun held => absurd held free, ?_⟩
  cases search : findVnode s n with
  | some vn =>
    obtain ⟨mem, v, is, same⟩ := findVnode_some search
    simp only [Locks.does_bind, vnodeIncref_does, Locks.does_release, Locks.does_pure]
    refine ⟨v, is, List.mem_cons_self, ?_⟩
    rw [List.erase_cons_head]
    refine after _ _ ?_ ⟨rfl, rfl⟩
    rw [contents_withVnode]
    exact .found vn v mem is same
  | none =>
    have closed := findVnode_none search
    simp only [Locks.does_bind, Locks.does_choose]
    intro answer
    cases answer.room with
    | false =>
      simp
      exact after _ _ (.error _) ⟨rfl, rfl⟩
    | true =>
      simp only [if_true, Locks.does_bind, allocVnode_does, Locks.does_choose]
      intro unused more
      have new : s.contents.vnode answer.ptr = none := by simp [Table.contents, unused, Cell.value?]
      cases more.room with
      | false =>
        simp only [Bool.false_eq_true, if_false, Locks.does_bind, semfsVnodeDestroy_does, Locks.does_release,
          Locks.does_pure]
        refine ⟨⟨1, n⟩, by simp [contents_withVnode], rfl, List.mem_cons_self, ?_⟩
        rw [List.erase_cons_head]
        refine after _ _ ?_ ⟨rfl, rfl⟩
        rw [contents_dropVnode, contents_withVnode]
        simp only [Function.update_idem, ← new, Function.update_eq_self]
        exact .error _
      | true =>
        simp only [if_true, Locks.does_bind, Locks.does_act, Outcome.meets_pure]
        refine ⟨.inl List.mem_cons_self, ?_⟩
        by_cases root : n = semfsRootdir
        · rw [if_neg (not_not.mpr root)]
          simp only [Locks.does_bind, Locks.does_release, Locks.does_pure]
          refine ⟨List.mem_cons_self, ?_⟩
          rw [List.erase_cons_head]
          have got : Got s.contents n _ _ := .root answer.ptr root closed new
          rw [← contents_addVnode] at got
          exact after _ _ got ⟨rfl, rfl⟩
        · obtain ⟨ptr, a, at', is, flag⟩ := ready.resolve_left root
          rw [if_pos root]
          simp only [Locks.does_bind, semarrayGet_does, sem_does, Locks.does_kassert, setSem_does,
            Locks.does_release, Locks.does_pure]
          refine ⟨ptr, at', a, is, ?_, a, is, List.mem_cons_self, ?_⟩
          · cases open' : a.semsHasvnode with
            | false => rfl
            | true => exact absurd (flag open') closed
          · rw [List.erase_cons_head]
            have got : Got s.contents n _ _ := .made answer.ptr ptr a root closed new at' is
            rw [← contents_addVnode, ← contents_withSem] at got
            exact after _ _ got ⟨rfl, rfl⟩

/-! ### Slots -/

section Slots

variable {α : Type} {l : List (Option α)} {o : Option α}

theorem set_join (inside : n < l.length) :
    (fun j : Nat => (l.set n o)[j]?.join) = Function.update (fun j : Nat => l[j]?.join) n o := by
  funext j
  rw [Function.update_apply, List.getElem?_set]
  by_cases same : j = n
  · rw [if_pos same.symm, if_pos inside, if_pos same]
    rfl
  · rw [if_neg (Ne.symm same), if_neg same]

theorem clear_join : (fun j : Nat => (l.set n none)[j]?.join) = Function.update (fun j : Nat => l[j]?.join) n none := by
  obtain inside | outside := Nat.lt_or_ge n l.length
  · exact set_join inside
  · rw [List.set_eq_of_length_le outside]
    have empty : l[n]?.join = none := by rw [List.getElem?_eq_none outside]; rfl
    exact (Function.update_eq_self_iff.mpr empty.symm).symm

theorem append_join :
    (fun j : Nat => (l ++ [o])[j]?.join) = Function.update (fun j : Nat => l[j]?.join) l.length o := by
  funext j
  rw [Function.update_apply]
  split
  · rename_i same
    simp [same]
  · rename_i other
    rw [List.getElem?_append]
    split
    · rfl
    · rename_i outside
      rw [List.getElem?_eq_none (l := l) (Nat.le_of_not_lt outside), List.getElem?_eq_none]
      simp
      omega

theorem hole_join {i : Nat} (hole : l.findIdx? Option.isNone = some i) : i < l.length ∧ l[i]?.join = none := by
  obtain ⟨inside, empty, -⟩ := List.findIdx?_eq_some_iff_getElem.mp hole
  exact ⟨inside, by simp [inside, Option.isNone_iff_eq_none.mp empty]⟩

end Slots

theorem contents_sems {l : List (Option Nat)} {f : Nat → Option Nat} (is : (fun j : Nat => l[j]?.join) = f) :
    ({ s with semfsSems := l } : Table).contents = { s.contents with semAt := f } := by
  subst is
  rfl

theorem contents_dents {l : List (Option SemfsDirentry)} {f : Nat → Option SemfsDirentry}
    (is : (fun j : Nat => l[j]?.join) = f) :
    ({ s with semfsDents := l } : Table).contents = { s.contents with dentAt := f } := by
  subst is
  rfl

/-! ### semfs_creat -/

theorem semarraySet_does {o : Option Nat} {P : Unit → Table → List Lock → Prop} (held : .semfsTablelock ∈ h)
    (after : P () { s with semfsSems := s.semfsSems.set n o } h) : Does (semarraySet n o) s h P :=
  ⟨.inl held, after⟩

theorem direntryarraySet_does {o : Option SemfsDirentry} {P : Unit → Table → List Lock → Prop}
    (after : P () { s with semfsDents := s.semfsDents.set n o } h) : Does (direntryarraySet n o) s h P :=
  ⟨locked_refl, after⟩

def Table.dropSem (s : Table) (ptr : Nat) : Table := { s with sems := Function.update s.sems ptr .freed }

theorem contents_dropSem : (s.dropSem ptr).contents =
    { s.contents with sem := Function.update s.contents.sem ptr none } := by
  unfold Table.contents Table.dropSem
  simp only [Heap.value_update]
  rfl

theorem semfsSemDestroy_does {P : Unit → Table → List Lock → Prop} :
    Does (semfsSemDestroy ptr) s h P ↔ .semsLock ptr ∉ h ∧ ∃ a, s.contents.sem ptr = some a ∧
      P () (s.dropSem ptr) h := by
  simp [Does, semfsSemDestroy, Table.contents, Table.dropSem, Locked]

theorem semfsSemCreate_does {P : Option Nat → Table → List Lock → Prop} (none' : P none s h)
    (some' : ∀ ptr, s.contents.sem ptr = none → P (some ptr) (s.withSem ptr ⟨0, false, false⟩) h) :
    Does semfsSemCreate s h P := by
  unfold semfsSemCreate
  simp only [Does, Locks.does_bind, Locks.does_choose]
  intro answer
  split
  · have goes : s.sems answer.ptr = .unused → P (some answer.ptr) (s.withSem answer.ptr ⟨0, false, false⟩) h :=
      fun unused => some' answer.ptr (by simp [Table.contents, unused, Cell.value?])
    simpa [Table.withSem, Locked] using goes
  · exact none'

/-- `semfs_sem_insert`: an error changes nothing, and a number is one that nothing has. -/
theorem semfsSemInsert_does {P : Except Errno Nat → Table → List Lock → Prop} (held : .semfsTablelock ∈ h)
    (short : s.semfsSems.length ≤ semfsRootdir) (error : ∀ err, P (.error err) s h)
    (ok : ∀ i sems, s.contents.semAt i = none → i < semfsRootdir → sems.length ≤ semfsRootdir →
      (fun j : Nat => sems[j]?.join) = Function.update s.contents.semAt i (some ptr) →
      P (.ok i) { s with semfsSems := sems } h) : Does (semfsSemInsert ptr) s h P := by
  unfold semfsSemInsert
  simp only [Does, Locks.does_bind, Locks.does_look]
  split
  · exact error _
  · rename_i room
    split
    · rename_i i hole
      obtain ⟨inside, empty⟩ := hole_join hole
      rw [Locks.does_bind]
      refine semarraySet_does held (ok i _ empty ?_ ?_ (set_join inside))
      · omega
      · rwa [List.length_set]
    · simp only [Locks.does_bind, Locks.does_choose]
      intro answer
      split
      · simp only [Locks.does_bind, Locks.does_act, Outcome.meets_pure, Locks.does_pure]
        refine ⟨.inl held, ok _ _ ?_ ?_ ?_ append_join⟩
        · simp [Table.contents]
        · omega
        · rw [List.length_append, List.length_singleton]
          omega
      · exact error _

/-- While `semfs_creat` is under way: the semaphore `ptr` is in the table at `n`. -/
structure Making (c : Contents) (n ptr : Nat) (dentAt : Nat → Option SemfsDirentry) (t : Table) : Prop where
  contents : t.contents = { c with
    semAt := Function.update c.semAt n (some ptr)
    sem := Function.update c.sem ptr (some ⟨0, false, false⟩)
    dentAt := dentAt }
  short : t.semfsSems.length ≤ semfsRootdir

variable {c : Contents} {t : Table}

theorem uninsert_does {r : Except Errno (Option Nat)} {P : Except Errno (Option Nat) → Table → List Lock → Prop}
    (making : Making c n ptr c.dentAt t) (noSem : c.semAt n = none) (newSem : c.sem ptr = none)
    (after : ∀ u, u.contents = c → u.semfsSems.length ≤ semfsRootdir → P r u []) :
    Does (creatDirentry.uninsert ptr n r) t [.semfsDirlock] P := by
  unfold creatDirentry.uninsert
  simp only [Does, Locks.does_bind, Locks.does_acquire]
  refine ⟨by simp, semarraySet_does List.mem_cons_self ?_⟩
  simp only [Locks.does_release, semfsSemDestroy_does, Locks.does_pure]
  refine ⟨List.mem_cons_self, ?_⟩
  rw [List.erase_cons_head]
  refine ⟨by simp, ⟨0, false, false⟩, ?_, List.mem_cons_self, ?_⟩
  · change t.contents.sem ptr = _
    rw [making.contents]
    exact Function.update_self ..
  · rw [List.erase_cons_head]
    refine after _ ?_ (by simpa [Table.dropSem] using making.short)
    rw [contents_dropSem, contents_sems clear_join]
    change { t.contents with
      semAt := Function.update t.contents.semAt n none, sem := Function.update t.contents.sem ptr none } = c
    rw [making.contents]
    simp only [Function.update_idem, ← noSem, ← newSem, Function.update_eq_self]

/-- What a semfs is between two operations, as long as no vnode has been let go. -/
structure Table.Good (s : Table) : Prop where
  consistent : s.contents.Consistent
  short : s.semfsSems.length ≤ semfsRootdir
  opened : ∀ n ptr a, s.contents.semAt n = some ptr → s.contents.sem ptr = some a → a.semsHasvnode = true

theorem Table.Good.of_eq (good : s.Good) (same : t.contents = s.contents) (short : t.semfsSems.length ≤ semfsRootdir) :
    t.Good :=
  ⟨same ▸ good.consistent, short, same ▸ good.opened⟩

theorem link_does {i : Nat} {name : String} {P : Except Errno (Option Nat) → Table → List Lock → Prop}
    (good : s.Good) (noSem : s.contents.semAt n = none) (small : n < semfsRootdir)
    (newSem : s.contents.sem ptr = none) (noDent : s.contents.dentAt i = none)
    (newName : ∀ j dent, s.contents.dentAt j = some dent → dent.semdName ≠ name)
    (making : Making s.contents n ptr (Function.update s.contents.dentAt i (some ⟨name, n⟩)) t)
    (after : ∀ r u, u.Good → P r u []) :
    Does (creatDirentry.link ptr n i) t [.semfsDirlock] P := by
  have opened : ¬ t.contents.Opened n := by
    rw [making.contents]
    exact good.consistent.closed noSem small
  unfold creatDirentry.link
  rw [Does, Locks.does_bind]
  refine semfsGetvnode_does (by simp) (.inr ⟨ptr, ⟨0, false, false⟩, ?_, ?_, nofun⟩) ?_
  · rw [making.contents]
    exact Function.update_self ..
  · rw [making.contents]
    exact Function.update_self ..
  intro r u got arrays
  generalize is : u.contents = d at got
  cases got with
  | error err =>
    dsimp only
    rw [Locks.does_bind]
    refine direntryarraySet_does (uninsert_does ⟨?_, ?_⟩ noSem newSem fun v same short => ?_)
    · rw [contents_dents clear_join]
      change { u.contents with dentAt := Function.update u.contents.dentAt i none } = _
      rw [is, making.contents]
      simp only [Function.update_idem, ← noDent, Function.update_eq_self]
    · rw [arrays.1]
      exact making.short
    · exact after _ _ (good.of_eq same short)
  | found vn v mem is' number => exact absurd ⟨vn, mem, v, is', number⟩ opened
  | root vn root => exact absurd root (Nat.ne_of_lt small)
  | made vn p a _ _ new at' live =>
    rw [making.contents] at at' live
    obtain rfl : ptr = p := by simpa using at'
    obtain rfl : ⟨0, false, false⟩ = a := by simpa using live
    simp only [Locks.does_bind, setSem_does, Locks.does_release, Locks.does_pure]
    refine ⟨⟨0, true, false⟩, by rw [is]; exact Function.update_self .., List.mem_cons_self, ?_⟩
    rw [List.erase_cons_head]
    have new : s.contents.vnode vn = none := by simpa [making.contents] using new
    have final : (u.withSem ptr ⟨0, true, true⟩).contents =
        (s.contents.addSem n ptr i name ⟨0, true, true⟩).addVnode vn n := by
      rw [contents_withSem, is, making.contents]
      simp only [Contents.setSem, Contents.addVnode, Contents.addSem, Function.update_idem]
    refine after _ _ ⟨?_, ?_, ?_⟩
    · rw [final]
      exact good.consistent.creat noSem small newSem noDent newName new
    · change u.semfsSems.length ≤ _
      rw [arrays.1]
      exact making.short
    · rw [final]
      intro m p a at' live
      by_cases same : p = ptr
      · obtain rfl : ⟨0, true, true⟩ = a := by simpa [Contents.addSem, Contents.addVnode, same] using live
        rfl
      · have other : m ≠ n := by
          rintro rfl
          exact same (by simpa [Contents.addSem, Contents.addVnode] using at'.symm)
        exact good.opened m p a (by simpa [Contents.addSem, Contents.addVnode, other] using at')
          (by simpa [Contents.addSem, Contents.addVnode, same] using live)

theorem creatDirentry_does {name : String} {P : Except Errno (Option Nat) → Table → List Lock → Prop}
    (good : s.Good) (noSem : s.contents.semAt n = none) (small : n < semfsRootdir)
    (newSem : s.contents.sem ptr = none)
    (newName : ∀ j dent, s.contents.dentAt j = some dent → dent.semdName ≠ name)
    (making : Making s.contents n ptr s.contents.dentAt t) (dents : t.semfsDents = s.semfsDents)
    (after : ∀ r u, u.Good → P r u []) :
    Does (creatDirentry name ptr n ((s.semfsDents.findIdx? Option.isNone).getD s.semfsDents.length)) t
      [.semfsDirlock] P := by
  have undone : ∀ r u, u.contents = s.contents → u.semfsSems.length ≤ semfsRootdir → P r u [] :=
    fun r u same short => after r u (good.of_eq same short)
  have put : ∀ {l : List (Option SemfsDirentry)} {i : Nat},
      (fun j : Nat => l[j]?.join) = Function.update s.contents.dentAt i (some ⟨name, n⟩) →
      Making s.contents n ptr (Function.update s.contents.dentAt i (some ⟨name, n⟩)) { t with semfsDents := l } :=
    fun is => ⟨by rw [contents_dents is, making.contents], making.short⟩
  unfold creatDirentry
  simp only [Does, Locks.does_bind, Locks.does_choose]
  intro answer
  split
  · simp only [Locks.does_bind, Locks.does_look]
    rw [dents]
    cases hole : s.semfsDents.findIdx? Option.isNone with
    | some i =>
      obtain ⟨inside, empty⟩ := hole_join hole
      rw [Option.getD_some, if_pos inside, Locks.does_bind]
      refine direntryarraySet_does (link_does good noSem small newSem empty newName (put ?_) after)
      rw [dents]
      exact set_join inside
    | none =>
      rw [Option.getD_none, if_neg (Nat.lt_irrefl _), Locks.does_bind, Locks.does_choose]
      intro more
      split
      · simp only [Locks.does_bind, Locks.does_act, Outcome.meets_pure]
        refine ⟨locked_refl, link_does good noSem small newSem ?_ newName (put ?_) after⟩
        · simp [Table.contents]
        · rw [dents]
          exact append_join
      · exact uninsert_does making noSem newSem (undone _)
  · exact uninsert_does making noSem newSem (undone _)

/-! ### The other operations -/

theorem findName_some {name : String} {i : Nat} {dent : SemfsDirentry} (search : findName s name = some (i, dent)) :
    s.contents.dentAt i = some dent := by
  unfold findName at search
  simp only [Option.bind_eq_bind, Option.bind_eq_some_iff] at search
  obtain ⟨j, -, d, is, same⟩ := search
  cases same
  exact is

theorem findName_none {name : String} (search : findName s name = none) :
    ∀ j dent, s.contents.dentAt j = some dent → dent.semdName ≠ name := by
  intro j dent is same
  have here : some dent ∈ s.semfsDents := by
    change s.semfsDents[j]?.join = some dent at is
    rw [Option.join_eq_some_iff] at is
    exact List.mem_of_getElem? is
  unfold findName at search
  simp only [Option.bind_eq_bind, Option.bind_eq_none_iff] at search
  cases found : s.semfsDents.findIdx? fun o => o.any fun dent => dent.semdName == name with
  | none =>
    have none' := List.findIdx?_eq_none_iff.mp found (some dent) here
    simp [same] at none'
  | some i =>
    obtain ⟨inside, test, -⟩ := List.findIdx?_eq_some_iff_getElem.mp found
    cases slot : s.semfsDents[i] with
    | none => simp [slot] at test
    | some d => cases search i found d (by simp [inside, slot])

/-- What `semfs_getvnode` needs to know. -/
theorem Contents.Consistent.ready (h : c.Consistent) (named : n = semfsRootdir ∨ c.Named n) :
    n = semfsRootdir ∨ ∃ ptr a, c.semAt n = some ptr ∧ c.sem ptr = some a ∧ (a.semsHasvnode = true → c.Opened n) := by
  refine named.imp_right fun named => ?_
  obtain ⟨ptr, at'⟩ := (h.table n).mpr (.inl named)
  obtain ⟨a, live, flag, -⟩ := h.flags n ptr at'
  exact ⟨ptr, a, at', live, flag.mp⟩

theorem Table.Good.got {r : Except Errno Nat} (good : s.Good) (got : Got s.contents n r t.contents)
    (arrays : SameArrays s t) : t.Good := by
  refine ⟨?_, by rw [arrays.1]; exact good.short, ?_⟩
  · generalize t.contents = d at got
    cases got with
    | error => exact good.consistent
    | found vn v mem is =>
      obtain ⟨w, live, positive⟩ := good.consistent.counted vn mem
      obtain rfl : v = w := Option.some.inj (is.symm.trans live)
      exact good.consistent.count is (by omega)
    | root vn root closed new => exact root ▸ good.consistent.openRoot new (root ▸ closed)
    | made vn ptr a _ closed new at' is => exact good.consistent.openSem new closed at' is
  · intro m p a at' is
    generalize t.contents = d at got at' is
    cases got with
    | error => exact good.opened m p a at' is
    | found => exact good.opened m p a at' is
    | root => exact good.opened m p a at' is
    | made vn ptr b _ _ _ _ live =>
      by_cases same : p = ptr
      · obtain rfl : { b with semsHasvnode := true } = a := by simpa [Contents.setSem, same] using is
        rfl
      · exact good.opened m p a at' (by simpa [Contents.setSem, Contents.addVnode, same] using is)

/-- An operation comes back, holds no lock, and leaves a semfs as it should be. -/
abbrev Keeps {α : Type} (c : K α) (s : Table) : Prop := Does c s [] fun _ t h => t.Good ∧ h = []

theorem semfsCreat_keeps (good : s.Good) (name : String) (excl : Bool) : Keeps (semfsCreat name excl) s := by
  unfold semfsCreat
  split
  · exact ⟨good, rfl⟩
  · simp only [Keeps, Does, Locks.does_bind, Locks.does_acquire, Locks.does_look]
    refine ⟨by simp, ?_⟩
    split
    · rename_i i dent search
      split
      · simpa using good
      · rw [Locks.does_bind]
        have named : s.contents.Named dent.semdSemnum := ⟨i, dent, findName_some search, rfl⟩
        refine semfsGetvnode_does (by simp) (good.consistent.ready (.inr named)) fun r t got arrays => ?_
        simpa using good.got got arrays
    · rename_i search
      rw [Locks.does_bind, Locks.does_look, Locks.does_bind]
      refine semfsSemCreate_does (by simpa using good) fun ptr newSem => ?_
      simp only [Locks.does_bind, Locks.does_acquire]
      refine ⟨by simp, ?_⟩
      refine semfsSemInsert_does List.mem_cons_self good.short ?_ ?_
      · intro err
        simp only [Locks.does_release, Locks.does_bind, semfsSemDestroy_does, Locks.does_pure]
        refine ⟨List.mem_cons_self, ?_⟩
        rw [List.erase_cons_head]
        refine ⟨by simp, ⟨0, false, false⟩, ?_, List.mem_cons_self, good.of_eq ?_ good.short, List.erase_cons_head ..⟩
        · rw [contents_withSem]
          exact Function.update_self ..
        · rw [contents_dropSem, contents_withSem]
          simp only [Contents.setSem, Function.update_idem, ← newSem, Function.update_eq_self]
      · intro n sems noSem small short is
        simp only [Locks.does_release]
        refine ⟨List.mem_cons_self, ?_⟩
        rw [List.erase_cons_head]
        have making : Making s.contents n ptr s.contents.dentAt
            { s.withSem ptr ⟨0, false, false⟩ with semfsSems := sems } := by
          refine ⟨?_, short⟩
          rw [contents_sems is, contents_withSem]
          rfl
        exact creatDirentry_does good noSem small newSem (findName_none search) making rfl
          fun _ _ good => ⟨good, rfl⟩

theorem semfsGetroot_keeps (good : s.Good) : Keeps semfsGetroot s := by
  refine semfsGetvnode_does (by simp) (.inl rfl) fun r t got arrays => ?_
  exact ⟨good.got got arrays, rfl⟩

/-- One more reference, or one less that is not the last. -/
theorem Table.Good.count {v : SemfsVnode} {k : Int} (good : s.Good) (is : s.contents.vnode vn = some v)
    (positive : 1 ≤ v.vnRefcount + k) : (s.withVnode vn { v with vnRefcount := v.vnRefcount + k }).Good := by
  have same : (s.withVnode vn { v with vnRefcount := v.vnRefcount + k }).contents = s.contents.count vn v k :=
    contents_withVnode
  refine ⟨?_, good.short, ?_⟩
  · rw [same]
    exact good.consistent.count is positive
  · rw [same]
    exact good.opened

theorem semfsLookup_keeps (good : s.Good) (mem : vn ∈ s.semfsVnodes) (path : String) :
    Keeps (semfsLookup vn path) s := by
  obtain ⟨v, is, positive⟩ := good.consistent.counted vn mem
  unfold semfsLookup
  split
  · simp only [Keeps, Does, Locks.does_bind, vnodeIncref_does, Locks.does_pure]
    exact ⟨v, is, good.count is (by omega), trivial⟩
  · simp only [Keeps, Does, Locks.does_bind, Locks.does_acquire, Locks.does_look]
    refine ⟨by simp, ?_⟩
    split
    · rename_i i dent search
      have named : s.contents.Named dent.semdSemnum := ⟨i, dent, findName_some search, rfl⟩
      rw [Locks.does_bind]
      refine semfsGetvnode_does (by simp) (good.consistent.ready (.inr named)) fun r t got arrays => ?_
      simpa using good.got got arrays
    · simpa using good

/-- A reference that is not the last. -/
theorem vnodeDecref_keeps {v : SemfsVnode} (good : s.Good) (is : s.contents.vnode vn = some v)
    (more : 1 < v.vnRefcount) : Keeps (vnodeDecref vn) s := by
  unfold vnodeDecref
  simp only [Keeps, Does, Locks.does_bind, Locks.does_acquire, vnode_does, Locks.does_kassert]
  refine ⟨by simp, v, is, by omega, ?_⟩
  rw [if_pos more]
  simp only [Locks.does_bind, addRefcount_does, Locks.does_release]
  exact ⟨v, is, List.mem_cons_self, good.count is (by omega), List.erase_cons_head ..⟩

theorem semfsGetsembynum_does {P : Nat → Table → List Lock → Prop} (free : .semfsTablelock ∉ h)
    (at' : s.contents.semAt n = some ptr) (after : P ptr s h) : Does (semfsGetsembynum n) s h P := by
  unfold semfsGetsembynum
  simp only [Does, Locks.does_bind, Locks.does_acquire, semarrayGet_does, Locks.does_release, Locks.does_pure]
  refine ⟨fun held => absurd held free, ptr, at', List.mem_cons_self, ?_⟩
  rw [List.erase_cons_head]
  exact after

theorem Table.Good.unlink {i : Nat} {name : String} {a : SemfsSem} (good : s.Good)
    (dent : s.contents.dentAt i = some ⟨name, n⟩) (at' : s.contents.semAt n = some ptr)
    (is : s.contents.sem ptr = some a) (open' : a.semsHasvnode = true)
    (same : t.contents = (s.contents.setSem ptr { a with semsLinked := false }).dropDent i)
    (short : t.semfsSems.length ≤ semfsRootdir) : t.Good := by
  refine ⟨same ▸ good.consistent.unlink dent at' is open', short, ?_⟩
  rw [same]
  intro m p b atm live
  by_cases this : p = ptr
  · obtain rfl : { a with semsLinked := false } = b := by simpa [Contents.setSem, Contents.dropDent, this] using live
    exact open'
  · exact good.opened m p b atm (by simpa [Contents.setSem, Contents.dropDent, this] using live)

theorem Table.Good.remove {i : Nat} {name : String} {a : SemfsSem} (good : s.Good)
    (dent : s.contents.dentAt i = some ⟨name, n⟩) (at' : s.contents.semAt n = some ptr)
    (is : s.contents.sem ptr = some a) (closed : a.semsHasvnode = false)
    (same : t.contents = (s.contents.dropSem n ptr).dropDent i)
    (short : t.semfsSems.length ≤ semfsRootdir) : t.Good := by
  refine ⟨same ▸ good.consistent.remove dent at' is closed, short, ?_⟩
  rw [same]
  intro m p b atm live
  by_cases other : m = n
  · simp [Contents.dropSem, Contents.dropDent, other] at atm
  · by_cases this : p = ptr
    · simp [Contents.dropSem, Contents.dropDent, this] at live
    · exact good.opened m p b (by simpa [Contents.dropSem, Contents.dropDent, other] using atm)
        (by simpa [Contents.dropSem, Contents.dropDent, this] using live)

theorem semfsRemove_keeps (good : s.Good) (name : String) : Keeps (semfsRemove name) s := by
  unfold semfsRemove
  split
  · exact ⟨good, rfl⟩
  · simp only [Keeps, Does, Locks.does_bind, Locks.does_acquire, Locks.does_look]
    refine ⟨by simp, ?_⟩
    split
    · rename_i i dent search
      have here := findName_some search
      have named : s.contents.Named dent.semdSemnum := ⟨i, dent, here, rfl⟩
      obtain ⟨ptr, at'⟩ := (good.consistent.table _).mpr (.inl named)
      obtain ⟨a, is, flag, linked⟩ := good.consistent.flags _ ptr at'
      rw [Locks.does_bind]
      refine semfsGetsembynum_does (by simp) at' ?_
      simp only [Locks.does_bind, Locks.does_acquire, sem_does, Locks.does_kassert, setSem_does]
      refine ⟨by simp, a, is, linked.mpr named, a, is, { a with semsLinked := false }, ?_, ?_⟩
      · rw [contents_withSem]
        exact Function.update_self ..
      have unlinked : (s.withSem ptr { a with semsLinked := false }).contents =
          s.contents.setSem ptr { a with semsLinked := false } := contents_withSem
      split
      · rename_i closed
        simp only [Locks.does_bind, Locks.does_acquire]
        refine ⟨by simp, semarraySet_does List.mem_cons_self ?_⟩
        simp only [Locks.does_release, semfsSemDestroy_does]
        refine ⟨List.mem_cons_self, ?_⟩
        rw [List.erase_cons_head]
        refine ⟨List.mem_cons_self, ?_⟩
        rw [List.erase_cons_head]
        refine ⟨by simp, { a with semsLinked := false }, ?_, direntryarraySet_does ?_⟩
        · change (s.withSem ptr _).contents.sem ptr = _
          rw [unlinked]
          exact Function.update_self ..
        · refine ⟨List.mem_cons_self, good.remove here at' is closed ?_ ?_, List.erase_cons_head ..⟩
          · rw [contents_dents clear_join]
            change { ({ s.withSem ptr { a with semsLinked := false } with
                semfsSems := s.semfsSems.set dent.semdSemnum none } : Table).dropSem ptr |>.contents with
              dentAt := Function.update s.contents.dentAt i none } = _
            rw [contents_dropSem, contents_sems clear_join, unlinked]
            simp only [Contents.setSem, Contents.dropSem, Contents.dropDent, Function.update_idem]
            rfl
          · change (s.semfsSems.set dent.semdSemnum none).length ≤ _
            rw [List.length_set]
            exact good.short
      · rename_i open'
        simp only [Locks.does_bind, Locks.does_release]
        refine ⟨List.mem_cons_self, ?_⟩
        rw [List.erase_cons_head]
        refine direntryarraySet_does ⟨List.mem_cons_self, ?_, List.erase_cons_head ..⟩
        refine good.unlink here at' is (by simpa using open') ?_ good.short
        rw [contents_dents clear_join, unlinked]
        rfl
    · simpa using good

/-- Refused, or there is nothing to destroy. -/
theorem semfsUnmount_keeps (good : s.Good)
    (spares : s.semfsVnodes ≠ [] ∨ s.semfsSems = [] ∧ s.semfsDents = []) :
    Does semfsUnmount s [] fun r t h => (r.isSome → t.Good) ∧ h = [] := by
  unfold semfsUnmount
  simp only [Does, Locks.does_bind, Locks.does_acquire, Locks.does_look]
  refine ⟨by simp, ?_⟩
  split
  · simpa using good
  · rename_i zero
    have none' : s.semfsVnodes = [] := by simpa using zero
    obtain ⟨sems, dents⟩ := spares.resolve_left (not_not.mpr none')
    simp only [Locks.does_bind, Locks.does_release, semfsDestroy, Locks.does_look, sems, semfsDestroySems,
      Locks.does_pure, Locks.does_act, Outcome.meets_pure, dents, semfsDestroyDents, Locks.does_destroy,
      Locks.does_kassert, none']
    simp [Locked, sems, none']

end Steps

/-! ### The last reference, and empty slots -/

section Fails

variable {s : Table} {t : Alone Table Lock Kmalloc} {vn n ptr : Nat} {α : Type}

theorem alone_vnode {v : SemfsVnode} {f : SemfsVnode → K α} (is : t.data.contents.vnode vn = some v) :
    (vnode vn >>= f).alone recursive t = (f v).alone recursive t := by
  change (t.data.vnodes vn).value? = some v at is
  unfold vnode
  rw [Locks.alone_bind, Locks.alone_look, is]
  rfl

theorem alone_sem {a : SemfsSem} {f : SemfsSem → K α} (is : t.data.contents.sem ptr = some a) :
    (sem ptr >>= f).alone recursive t = (f a).alone recursive t := by
  change (t.data.sems ptr).value? = some a at is
  unfold sem
  rw [Locks.alone_bind, Locks.alone_look, is]
  rfl

theorem alone_semarrayGet {f : Nat → K α} (is : t.data.contents.semAt n = some ptr) :
    (semarrayGet n >>= f).alone recursive t = (f ptr).alone recursive t := by
  change t.data.semfsSems[n]?.join = some ptr at is
  unfold semarrayGet
  rw [Locks.alone_bind, Locks.alone_look, is]
  rfl

/-- The thread after a change of the data. -/
def changed (t : Alone Table Lock Kmalloc) (s : Table) : Alone Table Lock Kmalloc :=
  { t with data := s, changes := (t.held, t.data, s) :: t.changes }

theorem alone_setSem {a : SemfsSem} {g : SemfsSem → SemfsSem} {f : Unit → K α}
    (is : t.data.contents.sem ptr = some a) :
    (setSem ptr g >>= f).alone recursive t = (f ()).alone recursive (changed t (t.data.withSem ptr (g a))) := by
  change (t.data.sems ptr).value? = some a at is
  apply Locks.alone_act
  simp [Heap.modify, Heap.get, is, Outcome.deref, Table.withSem]
  rfl

theorem alone_semfsSemDestroy {a : SemfsSem} {f : Unit → K α} (free : .semsLock ptr ∉ t.held)
    (is : t.data.contents.sem ptr = some a) :
    (semfsSemDestroy ptr >>= f).alone recursive t = (f ()).alone recursive (changed t (t.data.dropSem ptr)) := by
  change (t.data.sems ptr).value? = some a at is
  apply Locks.alone_done
  unfold semfsSemDestroy
  rw [Locks.alone_destroy free]
  change (t.data.sems.free ptr >>= _) >>= _ = _
  simp [Heap.free, Heap.get, is, Outcome.deref]
  rfl

/-- The last reference: the second `lock_release` of `semfs_reclaim` finds that the lock is not held. -/
theorem semfsReclaim_panics {v : SemfsVnode} (good : t.data.Good) (mem : vn ∈ t.data.semfsVnodes)
    (is : t.data.contents.vnode vn = some v) (last : v.vnRefcount = 1) (held : t.held = [.vfsBiglock]) :
    (semfsReclaim vn).alone recursive t = .panic := by
  unfold semfsReclaim
  rw [Locks.alone_acquire (by simp [held]), alone_vnode (by exact is), if_neg (by omega),
    Locks.alone_release List.mem_cons_self, Locks.alone_change, alone_vnode (by exact is)]
  dsimp only
  rw [List.erase_cons_head]
  generalize after : Alone.mk _ _ _ _ = u
  have free : .semfsTablelock ∉ u.held := by
    rw [← after]
    simp [held]
  split
  · rename_i other
    obtain ⟨ptr, at'⟩ := (good.consistent.table _).mpr (.inr ⟨other, vn, mem, v, is, rfl⟩)
    obtain ⟨a, live, flag, -⟩ := good.consistent.flags _ ptr at'
    have at' : u.data.contents.semAt v.semvSemnum = some ptr := by
      rw [← after]
      exact at'
    have live : u.data.contents.sem ptr = some a := by
      rw [← after]
      exact live
    have left : (changed u (u.data.withSem ptr { a with semsHasvnode := false })).data.contents.sem ptr =
        some { a with semsHasvnode := false } := by
      change (u.data.withSem ptr _).contents.sem ptr = _
      rw [contents_withSem]
      exact Function.update_self ..
    rw [alone_semarrayGet at', alone_sem live, Locks.alone_kassert (flag.mpr ⟨vn, mem, v, is, rfl⟩),
      alone_setSem live, alone_sem left]
    split
    · have unlocked : .semsLock ptr ∉ u.held := by
        rw [← after]
        simp [held]
      unfold semarraySet
      rw [Locks.alone_change, alone_semfsSemDestroy (by exact unlocked) (by exact left)]
      exact Locks.alone_release_panic free
    · exact Locks.alone_release_panic free
  · exact Locks.alone_release_panic free

theorem alone_vnodeCheck {v : SemfsVnode} (is : t.data.contents.vnode vn = some v) (positive : 0 ≤ v.vnRefcount) :
    (vnodeCheck vn true).alone recursive t = .done ((), t) := by
  unfold vnodeCheck
  rw [Locks.alone_acquire fun _ => rfl, alone_vnode (by exact is), Locks.alone_kassert positive,
    Locks.alone_kassert (.inr rfl)]
  change (release .vfsBiglock >>= pure).alone recursive _ = _
  rw [Locks.alone_release List.mem_cons_self]
  simp only [List.erase_cons_head]
  rfl

theorem vnodeDecref_panics {v : SemfsVnode} (good : t.data.Good) (mem : vn ∈ t.data.semfsVnodes)
    (is : t.data.contents.vnode vn = some v) (last : v.vnRefcount = 1) (held : t.held = []) :
    (vnodeDecref vn).alone recursive t = .panic := by
  unfold vnodeDecref
  rw [Locks.alone_acquire (by simp [held]), alone_vnode (by exact is), Locks.alone_kassert (by omega),
    if_neg (by omega)]
  rw [Locks.alone_done (alone_vnodeCheck (by exact is) (by omega))]
  apply Locks.alone_panic
  exact semfsReclaim_panics (t := { t with held := .vfsBiglock :: t.held }) good mem is last (by rw [held])

theorem semfsUnmount_panics (good : t.data.Good) (none' : t.data.semfsVnodes = [])
    (slots : ¬ (t.data.semfsSems = [] ∧ t.data.semfsDents = [])) (held : t.held = []) :
    semfsUnmount.alone recursive t = .panic := by
  unfold semfsUnmount
  rw [Locks.alone_acquire (by simp [held]), Locks.alone_look, if_neg (by simp [none']),
    Locks.alone_release List.mem_cons_self]
  apply Locks.alone_panic
  unfold semfsDestroy
  rw [Locks.alone_look]
  have noSem : ∀ n ptr, t.data.contents.semAt n ≠ some ptr := by
    intro n ptr at'
    obtain ⟨a, live, flag, -⟩ := good.consistent.flags n ptr at'
    obtain ⟨vn, mem, -⟩ := flag.mp (good.opened n ptr a at' live)
    change vn ∈ t.data.semfsVnodes at mem
    rw [none'] at mem
    cases mem
  have noDent : ∀ i dent, t.data.contents.dentAt i ≠ some dent := by
    intro i dent is
    obtain ⟨ptr, at'⟩ := (good.consistent.table _).mpr (.inl ⟨i, dent, is, rfl⟩)
    exact noSem _ ptr at'
  dsimp only
  cases sems : t.data.semfsSems with
  | cons o rest =>
    cases o with
    | some ptr => exact absurd (by simp [Table.contents, sems]) (noSem 0 ptr)
    | none => rfl
  | nil =>
    cases dents : t.data.semfsDents with
    | nil => exact absurd ⟨sems, dents⟩ slots
    | cons o rest =>
      cases o with
      | some dent => exact absurd (by simp [Table.contents, dents]) (noDent 0 dent)
      | none =>
        rw [semfsDestroySems, Locks.alone_done rfl, Locks.alone_change, Locks.alone_look]
        dsimp only
        rw [dents]
        rfl

end Fails

/-! ### Sequences of operations -/

inductive Op where
  | creat (name : String) (excl : Bool)
  | lookup (dirvn : Nat) (path : String)
  | remove (name : String)
  /-- `VOP_DECREF`. -/
  | release (vn : Nat)
  | getroot
  | unmount

/-- The code of an operation, and whether the semfs is still there after it. -/
def Op.code : Op → K Bool
  | .creat name excl => do
    let _ ← semfsCreat name excl
    return true
  | .lookup dirvn path => do
    let _ ← semfsLookup dirvn path
    return true
  | .remove name => do
    let _ ← semfsRemove name
    return true
  | .release vn => do
    vnodeDecref vn
    return true
  | .getroot => do
    let _ ← semfsGetroot
    return true
  | .unmount => return (← semfsUnmount).isSome

/-- A semfs and the thread that works on it. -/
structure Volume where
  table : Table
  mounted : Bool
  held : List Lock
  changes : List (List Lock × Table × Table)

/-- What an operation is given is there: its caller has a reference to it. -/
def Volume.ready (s : Volume) : Op → Bool
  | .lookup dirvn _ => s.mounted && s.table.semfsVnodes.contains dirvn
  | .release vn => s.mounted && s.table.semfsVnodes.contains vn
  | _ => s.mounted

/-- One operation after the other, each with the answers to its requests for memory. -/
def volumes : Machine Volume (Op × List Kmalloc) where
  initial s := s = ⟨⟨[], [], [], fun _ => .unused, fun _ => .unused⟩, true, [], []⟩
  step s a := do
    Outcome.await (s.ready a.1 = true)
    let (mounted, t) ← a.1.code.alone recursive ⟨s.table, s.held, a.2, s.changes⟩
    return ⟨t.data, mounted, t.held, t.changes⟩

/-- What is promised of a semfs between two operations: no lock is held, the two tables have changed
only with `semfs_tablelock` held, and flags, tables and directory agree. -/
structure Volume.Kept (s : Volume) : Prop where
  held : s.held = []
  locked : ∀ change ∈ s.changes, Locked change.1 change.2.1 change.2.2
  consistent : s.mounted = true → s.table.contents.Consistent

/-- The operation does not let go of the last reference to a vnode, and does not destroy arrays that
have slots. -/
def Volume.Spares (s : Volume) : Op → Prop
  | .release vn => ∀ v, s.table.contents.vnode vn = some v → 1 < v.vnRefcount
  | .unmount => s.table.semfsVnodes ≠ [] ∨ s.table.semfsSems = [] ∧ s.table.semfsDents = []
  | _ => True

structure Volume.Running (s : Volume) : Prop where
  held : s.held = []
  locked : ∀ change ∈ s.changes, Locked change.1 change.2.1 change.2.2
  good : s.mounted = true → s.table.Good

theorem Volume.Running.kept {s : Volume} (h : s.Running) : s.Kept :=
  ⟨h.held, h.locked, fun mounted => (h.good mounted).consistent⟩

theorem Op.code_keeps {s : Volume} (h : s.Running) (op : Op) (ready : s.ready op = true) (spares : s.Spares op) :
    Does op.code s.table s.held fun mounted t k => (mounted = true → t.Good) ∧ k = [] := by
  have last : ∀ {α : Type} {c : K α}, Keeps c s.table →
      Does (do let _ ← c; return true) s.table s.held fun mounted t k => (mounted = true → t.Good) ∧ k = [] := by
    intro α c keeps
    rw [h.held, Does, Locks.does_bind]
    exact keeps.mono fun _ _ _ after => ⟨fun _ => after.1, after.2⟩
  cases op with
  | creat name excl => exact last (semfsCreat_keeps (h.good ready) name excl)
  | lookup dirvn path =>
    simp only [Volume.ready, Bool.and_eq_true, List.contains_iff_mem] at ready
    exact last (semfsLookup_keeps (h.good ready.1) ready.2 path)
  | remove name => exact last (semfsRemove_keeps (h.good ready) name)
  | release vn =>
    simp only [Volume.ready, Bool.and_eq_true, List.contains_iff_mem] at ready
    obtain ⟨v, is, -⟩ := (h.good ready.1).consistent.counted vn ready.2
    exact last (vnodeDecref_keeps (h.good ready.1) is (spares v is))
  | getroot => exact last (semfsGetroot_keeps (h.good ready))
  | unmount =>
    unfold Op.code
    rw [h.held, Does, Locks.does_bind]
    exact (semfsUnmount_keeps (h.good ready) spares).mono fun _ _ _ after => after

/-- The step lemma. -/
theorem Volume.Running.step {s : Volume} (h : s.Running) {op : Op} (choices : List Kmalloc)
    (spares : s.Spares op) : (volumes.step s (op, choices)).Meets Volume.Running := by
  refine Outcome.meets_bind.mpr (Outcome.meets_await.mpr fun ready => Outcome.meets_bind.mpr ?_)
  have run := (Op.code_keeps h op ready spares).alone (t := ⟨s.table, s.held, choices, s.changes⟩) h.locked
  refine run.mono fun out after => ?_
  exact ⟨after.1.2, after.2, after.1.1⟩

theorem volumes_running {s : Volume} (reached : volumes.ReachableBy (fun s a => s.Spares a.1) s) : s.Running := by
  refine volumes.invariant ?_ ?_ reached
  · rintro s rfl
    refine ⟨rfl, nofun, fun _ => ⟨?_, Nat.zero_le _, ?_⟩⟩
    · constructor <;> simp [Table.contents, Contents.Named, Contents.Opened, Cell.value?]
    · simp [Table.contents]
  · rintro s ⟨op, choices⟩ t h spares step
    exact (h.step choices spares).of_done step

/-- Without the condition the operation stops the machine. -/
theorem Op.code_panics {s : Volume} (h : s.Running) (op : Op) (ready : s.ready op = true) (not : ¬ s.Spares op)
    (choices : List Kmalloc) : op.code.alone recursive ⟨s.table, s.held, choices, s.changes⟩ = .panic := by
  cases op with
  | release vn =>
    simp only [Volume.ready, Bool.and_eq_true, List.contains_iff_mem] at ready
    obtain ⟨v, is, positive⟩ := (h.good ready.1).consistent.counted vn ready.2
    have last : v.vnRefcount = 1 := by
      by_contra more
      refine not fun w is' => ?_
      obtain rfl : v = w := Option.some.inj (is.symm.trans is')
      omega
    exact Locks.alone_panic (vnodeDecref_panics (t := ⟨s.table, s.held, choices, s.changes⟩) (h.good ready.1)
      ready.2 is last h.held)
  | unmount =>
    obtain ⟨some', slots⟩ := not_or.mp not
    exact Locks.alone_panic (semfsUnmount_panics (t := ⟨s.table, s.held, choices, s.changes⟩) (h.good ready)
      (not_not.mp some') slots h.held)
  | _ => exact absurd trivial not

/-- In every state of a run that spares the last references and the slots, no lock is held, the tables
have changed only with `semfs_tablelock`, flags, tables and directory agree, and an operation goes on
so exactly if it spares them, too. -/
theorem semfs_kept {s : Volume} (reached : volumes.ReachableBy (fun s a => s.Spares a.1) s) :
    s.Kept ∧ ∀ op, s.ready op = true →
      ((∀ choices, (volumes.step s (op, choices)).Meets Volume.Kept) ↔ s.Spares op) := by
  have running := volumes_running reached
  refine ⟨running.kept, fun op ready => ⟨fun goes => ?_, fun spares choices => ?_⟩⟩
  · by_contra not
    have fails : volumes.step s (op, []) = .panic := by
      change (Outcome.await (s.ready op = true) >>= fun _ => op.code.alone recursive _ >>= _) = _
      rw [Op.code_panics running op ready not []]
      unfold Outcome.await
      rw [if_pos ready]
      rfl
    exact (goes []).not_panic fails
  · exact (running.step choices spares).mono fun _ => Volume.Running.kept

def newVolume : Volume := ⟨⟨[], [], [], fun _ => .unused, fun _ => .unused⟩, true, [], []⟩

def answers : List Kmalloc := [⟨0, true⟩, ⟨1, true⟩, ⟨2, true⟩, ⟨3, true⟩, ⟨4, true⟩, ⟨5, true⟩]

/-- `a` is made, looked up and removed; it stays for its vnode. -/
theorem semfs_kept_remove : ∃ s : Volume, s.table.semfsDents = [none] ∧ s.table.semfsSems = [some 0] ∧ s.Kept := by
  have passes : (volumes.runIf (fun _ a => match a.1 with | .release _ => false | .unmount => false | _ => true)
      newVolume [(.creat "a" false, answers), (.getroot, answers), (.remove "a", answers)]).passes
      (fun s => s.table.semfsDents == [none] && s.table.semfsSems == [some 0]) = true := by
    decide +kernel
  obtain ⟨s, run, facts⟩ := Outcome.passes_done passes
  simp only [Bool.and_eq_true, beq_iff_eq] at facts
  have reached : volumes.ReachableBy (fun s a => s.Spares a.1) s := by
    refine .runIf _ _ (.initial rfl) (fun u a check => ?_) run
    obtain ⟨op, choices⟩ := a
    cases op with
    | release => cases check
    | unmount => cases check
    | _ => trivial
  exact ⟨s, facts.1, facts.2, (semfs_kept reached).1⟩

/-- The root is opened and closed. -/
theorem semfs_not_kept : ¬ ∀ s, volumes.Reachable s → ∀ op choices, s.ready op = true →
    (volumes.step s (op, choices)).Meets Volume.Kept := by
  intro kept
  have passes : (volumes.run newVolume [(.getroot, answers)]).passes
      (fun s => s.ready (.release 0) && (volumes.step s (.release 0, [])).panics) = true := by
    decide +kernel
  obtain ⟨s, run, facts⟩ := Outcome.passes_done passes
  simp only [Bool.and_eq_true] at facts
  have meets := kept s (.run _ (.initial rfl) run) (.release 0) [] facts.1
  rw [Outcome.eq_panic facts.2] at meets
  exact meets

end Os161.Semfs
