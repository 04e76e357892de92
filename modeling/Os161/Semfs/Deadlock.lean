import Os161.Base.LockOrder
import Os161.Semfs.Vnops

/-!
# Deadlock in semfs

`vfs_lookup` calls semfs with `vfs_biglock`, and `vfs_open` calls `semfs_creat` without. The vnodes
of semfs are counted with `vfs_biglock`, also where `semfs_creat` has `semfs_dirlock` and
`semfs_tablelock`. All other locks are taken in an order.
-/

set_option linter.unusedSectionVars false

namespace Os161.Semfs

open Locks (Code State obeys_bind look_obeys choose_obeys act_obeys kassert_obeys deref_obeys
  acquire_obeys release_obeys destroy_obeys)

variable {T : Type} [DecidableEq T] {h : List Lock} {α : Type}

def rank : Lock → Nat
  | .vfsBiglock => 0
  | .semfsDirlock => 1
  | .semsLock _ => 2
  | .semfsTablelock => 3

/-- The locks below some rank. -/
def Below (h : List Lock) (n : Nat) : Prop := ∀ l ∈ h, rank l < n

/-- Locks are asked for in order, but for `vfs_biglock` with `semfs_tablelock` held. -/
def MayAsk (h : List Lock) (l : Lock) : Prop :=
  Below h (rank l) ∨ l = .vfsBiglock ∧ .semfsTablelock ∈ h

/-- `vfs_biglock` is asked for first, or held. -/
def Big (h : List Lock) : Prop := .vfsBiglock ∉ h → MayAsk h .vfsBiglock

theorem Below.mono {n m : Nat} (below : Below h n) (le : n ≤ m) : Below h m :=
  fun l member => Nat.lt_of_lt_of_le (below l member) le

theorem Below.cons {n : Nat} {l : Lock} (below : Below h n) (low : rank l < n) : Below (l :: h) n := by
  intro l' member
  rcases List.mem_cons.mp member with rfl | before
  · exact low
  · exact below l' before

theorem below_nil (n : Nat) : Below [] n := fun _ member => nomatch member

theorem big_nil : Big [] := fun _ => .inl (below_nil _)

theorem big_cons (h : List Lock) : Big (.vfsBiglock :: h) :=
  fun absent => absurd List.mem_cons_self absent

theorem big_table (h : List Lock) : Big (.semfsTablelock :: h) :=
  fun _ => .inr ⟨rfl, List.mem_cons_self⟩

theorem Below.asks {l : Lock} (below : Below h (rank l)) : l ∉ h → MayAsk h l := fun _ => .inl below

abbrev Runs (h : List Lock) (c : K α) (post : List Lock → α → Prop) : Prop :=
  c.Obeys recursive MayAsk h post

section Steps

variable {post : List Lock → Unit → Prop} {vn ptr semnum : Nat}

theorem vnode_runs {post : List Lock → SemfsVnode → Prop} (after : ∀ v, post h v) :
    Runs h (vnode vn) post := by
  unfold vnode
  rw [Runs, obeys_bind]
  apply look_obeys
  exact fun s => deref_obeys after

theorem sem_runs {post : List Lock → SemfsSem → Prop} (after : ∀ v, post h v) :
    Runs h (sem ptr) post := by
  unfold sem
  rw [Runs, obeys_bind]
  apply look_obeys
  exact fun s => deref_obeys after

theorem semarrayGet_runs {post : List Lock → Nat → Prop} (after : ∀ ptr, post h ptr) :
    Runs h (semarrayGet semnum) post := by
  unfold semarrayGet
  rw [Runs, obeys_bind]
  apply look_obeys
  exact fun s => deref_obeys after

theorem addRefcount_runs {n : Int} (after : post h ()) : Runs h (addRefcount vn n) post := after

theorem setSem_runs {g : SemfsSem → SemfsSem} (after : post h ()) : Runs h (setSem ptr g) post := after

theorem semarraySet_runs {o : Option Nat} (after : post h ()) : Runs h (semarraySet semnum o) post :=
  after

theorem direntryarraySet_runs {i : Nat} {o : Option SemfsDirentry} (after : post h ()) :
    Runs h (direntryarraySet i o) post := after

theorem vnodeCheck_runs {reclaim : Bool} (big : Big h) (after : post h ()) :
    Runs h (vnodeCheck vn reclaim) post := by
  unfold vnodeCheck
  simp only [Runs, obeys_bind]
  apply acquire_obeys big
  apply vnode_runs
  intro v
  apply kassert_obeys
  apply kassert_obeys
  exact release_obeys after

theorem vnodeIncref_runs (big : Big h) (after : post h ()) : Runs h (vnodeIncref vn) post := by
  unfold vnodeIncref
  simp only [Runs, obeys_bind]
  apply acquire_obeys big
  apply addRefcount_runs
  exact release_obeys after

theorem semfsSemCreate_runs {post : List Lock → Option Nat → Prop} (after : ∀ o, post h o) :
    Runs h semfsSemCreate post := by
  unfold semfsSemCreate
  rw [Runs, obeys_bind]
  apply choose_obeys
  intro answer
  split
  · rw [obeys_bind]
    apply act_obeys
    exact after _
  · exact after _

theorem semfsSemDestroy_runs (after : post h ()) : Runs h (semfsSemDestroy ptr) post := by
  unfold semfsSemDestroy
  rw [Runs, obeys_bind]
  apply destroy_obeys
  exact act_obeys after

theorem semfsSemInsert_runs {post : List Lock → Except Errno Nat → Prop}
    (after : ∀ result, post h result) : Runs h (semfsSemInsert ptr) post := by
  unfold semfsSemInsert
  rw [Runs, obeys_bind]
  apply look_obeys
  intro s
  dsimp only
  split
  · exact after _
  · split
    · rw [obeys_bind]
      apply semarraySet_runs
      exact after _
    · rw [obeys_bind]
      apply choose_obeys
      intro answer
      split
      · rw [obeys_bind]
        apply act_obeys
        exact after _
      · exact after _

theorem semfsVnodeDestroy_runs (after : post h ()) : Runs h (semfsVnodeDestroy vn) post := by
  unfold semfsVnodeDestroy
  simp only [Runs, obeys_bind]
  apply vnode_runs
  intro v
  apply kassert_obeys
  exact act_obeys after

/-- The machine stops at the second release of `semfs_tablelock`. -/
theorem semfsReclaim_runs {post : List Lock → Option Errno → Prop} (below : Below h 3)
    (after : ∀ result, post h result) : Runs h (semfsReclaim vn) post := by
  have absent : Lock.semfsTablelock ∉ h := fun member => Nat.lt_irrefl 3 (below _ member)
  have twice : ∀ {post : List Lock → Unit → Prop},
      Runs h (Locks.release .semfsTablelock) post := fun member => absurd member absent
  unfold semfsReclaim
  simp only [Runs, obeys_bind]
  apply acquire_obeys below.asks
  apply vnode_runs
  intro v
  split
  · simp only [obeys_bind]
    apply addRefcount_runs
    apply release_obeys
    exact after _
  · simp only [obeys_bind]
    apply release_obeys
    apply act_obeys
    apply vnode_runs
    intro v
    split
    · simp only [obeys_bind]
      apply semarrayGet_runs
      intro ptr
      apply sem_runs
      intro v
      apply kassert_obeys
      apply setSem_runs
      apply sem_runs
      intro v
      split
      · simp only [obeys_bind]
        apply semarraySet_runs
        apply semfsSemDestroy_runs
        exact twice
      · rw [obeys_bind]
        exact twice
    · rw [obeys_bind]
      exact twice

theorem vnodeDecref_runs (big : Big h) (below : Below h 3) (after : post h ()) :
    Runs h (vnodeDecref vn) post := by
  unfold vnodeDecref
  simp only [Runs, obeys_bind]
  apply acquire_obeys big
  apply vnode_runs
  intro v
  apply kassert_obeys
  split
  · rw [obeys_bind]
    apply addRefcount_runs
    exact release_obeys after
  · simp only [obeys_bind]
    apply vnodeCheck_runs (big_cons h)
    apply semfsReclaim_runs (below.cons (l := .vfsBiglock) (Nat.succ_pos 2))
    intro _
    exact release_obeys after

theorem semfsGetvnode_runs {post : List Lock → Except Errno Nat → Prop} (below : Below h 3)
    (after : ∀ result, post h result) : Runs h (semfsGetvnode semnum) post := by
  unfold semfsGetvnode
  simp only [Runs, obeys_bind]
  apply acquire_obeys below.asks
  apply look_obeys
  intro s
  split
  · simp only [obeys_bind]
    apply vnodeIncref_runs (big_table h)
    apply release_obeys
    exact after _
  · rw [obeys_bind]
    apply choose_obeys
    intro answer
    split
    · simp only [obeys_bind]
      apply act_obeys
      apply choose_obeys
      intro grown
      split
      · rw [obeys_bind]
        apply act_obeys
        split
        · simp only [obeys_bind]
          apply semarrayGet_runs
          intro ptr
          apply sem_runs
          intro v
          apply kassert_obeys
          apply setSem_runs
          apply release_obeys
          exact after _
        · rw [obeys_bind]
          apply release_obeys
          exact after _
      · simp only [obeys_bind]
        apply semfsVnodeDestroy_runs
        apply release_obeys
        exact after _
    · rw [obeys_bind]
      apply release_obeys
      exact after _

end Steps

section Names

variable {post : List Lock → Unit → Prop} {vn : Nat}

theorem semfsEachopen_runs {post : List Lock → Option Errno → Prop} {openflags : UInt32}
    (after : ∀ result, post h result) : Runs h (semfsEachopen vn openflags) post := by
  unfold semfsEachopen
  rw [Runs, obeys_bind]
  apply vnode_runs
  intro v
  split
  · split
    · exact after _
    · split
      · exact after _
      · exact after _
  · exact after _

theorem semfsGetsembynum_runs {post : List Lock → Nat → Prop} {semnum : Nat} (below : Below h 3)
    (after : ∀ ptr, post h ptr) : Runs h (semfsGetsembynum semnum) post := by
  unfold semfsGetsembynum
  simp only [Runs, obeys_bind]
  apply acquire_obeys below.asks
  apply semarrayGet_runs
  intro ptr
  apply release_obeys
  exact after _

theorem semfsTruncate_runs {post : List Lock → Option Errno → Prop} (below : Below h 2)
    (after : ∀ result, post h result) : Runs h (semfsTruncate vn) post := by
  unfold semfsTruncate
  rw [Runs, obeys_bind]
  apply vnode_runs
  intro v
  dsimp only
  split
  · exact after _
  · simp only [obeys_bind]
    apply semfsGetsembynum_runs (below.mono (by omega))
    intro ptr
    apply acquire_obeys below.asks
    apply setSem_runs
    apply release_obeys
    exact after _

theorem uninsert_runs {post : List Lock → Except Errno (Option Nat) → Prop} {ptr semnum : Nat}
    {result : Except Errno (Option Nat)} (below : Below h 1) (after : ∀ result, post h result) :
    Runs (.semfsDirlock :: h) (creatDirentry.uninsert ptr semnum result) post := by
  have wide : Below (.semfsDirlock :: h) 3 :=
    (below.mono (by omega)).cons (l := .semfsDirlock) (Nat.lt_of_sub_eq_succ rfl)
  unfold creatDirentry.uninsert
  simp only [Runs, obeys_bind]
  apply acquire_obeys wide.asks
  apply semarraySet_runs
  apply release_obeys
  apply semfsSemDestroy_runs
  apply release_obeys
  exact after _

theorem link_runs {post : List Lock → Except Errno (Option Nat) → Prop} {ptr semnum empty : Nat}
    (below : Below h 1) (after : ∀ result, post h result) :
    Runs (.semfsDirlock :: h) (creatDirentry.link ptr semnum empty) post := by
  have wide : Below (.semfsDirlock :: h) 3 :=
    (below.mono (by omega)).cons (l := .semfsDirlock) (Nat.lt_of_sub_eq_succ rfl)
  unfold creatDirentry.link
  rw [Runs, obeys_bind]
  apply semfsGetvnode_runs wide
  intro result
  split
  · rw [obeys_bind]
    apply direntryarraySet_runs
    exact uninsert_runs below after
  · simp only [obeys_bind]
    apply setSem_runs
    apply release_obeys
    exact after _

theorem creatDirentry_runs {post : List Lock → Except Errno (Option Nat) → Prop} {name : String}
    {ptr semnum empty : Nat} (below : Below h 1) (after : ∀ result, post h result) :
    Runs (.semfsDirlock :: h) (creatDirentry name ptr semnum empty) post := by
  unfold creatDirentry
  rw [Runs, obeys_bind]
  apply choose_obeys
  intro answer
  split
  · simp only [obeys_bind]
    apply look_obeys
    intro s
    split
    · rw [obeys_bind]
      apply direntryarraySet_runs
      exact link_runs below after
    · rw [obeys_bind]
      apply choose_obeys
      intro grown
      split
      · rw [obeys_bind]
        apply act_obeys
        exact link_runs below after
      · exact uninsert_runs below after
  · exact uninsert_runs below after

/-- `semfs_creat` may be called without `vfs_biglock`. -/
theorem semfsCreat_runs {post : List Lock → Except Errno (Option Nat) → Prop} {name : String}
    {excl : Bool} (below : Below h 1) (after : ∀ result, post h result) :
    Runs h (semfsCreat name excl) post := by
  have wide : Below (.semfsDirlock :: h) 3 :=
    (below.mono (by omega)).cons (l := .semfsDirlock) (Nat.lt_of_sub_eq_succ rfl)
  unfold semfsCreat
  split
  · exact after _
  · simp only [Runs, obeys_bind]
    apply acquire_obeys below.asks
    apply look_obeys
    intro s
    split
    · split
      · rw [obeys_bind]
        apply release_obeys
        exact after _
      · simp only [obeys_bind]
        apply semfsGetvnode_runs wide
        intro result
        apply release_obeys
        exact after _
    · simp only [obeys_bind]
      apply look_obeys
      intro s
      apply semfsSemCreate_runs
      intro created
      split
      · rw [obeys_bind]
        apply release_obeys
        exact after _
      · simp only [obeys_bind]
        apply acquire_obeys wide.asks
        apply semfsSemInsert_runs
        intro inserted
        apply release_obeys
        split
        · simp only [obeys_bind]
          apply semfsSemDestroy_runs
          apply release_obeys
          exact after _
        · exact creatDirentry_runs below after

theorem semfsRemove_runs {post : List Lock → Option Errno → Prop} {name : String}
    (below : Below h 1) (after : ∀ result, post h result) : Runs h (semfsRemove name) post := by
  have mid : Below (.semfsDirlock :: h) 2 :=
    (below.mono (by omega)).cons (l := .semfsDirlock) (Nat.lt_succ_self 1)
  unfold semfsRemove
  split
  · exact after _
  · simp only [Runs, obeys_bind]
    apply acquire_obeys below.asks
    apply look_obeys
    intro s
    split
    · rename_i i dent
      simp only [obeys_bind]
      apply semfsGetsembynum_runs (mid.mono (by omega))
      intro ptr
      have wide : Below (.semsLock ptr :: .semfsDirlock :: h) 3 :=
        (mid.mono (by omega)).cons (l := .semsLock ptr) (Nat.lt_succ_self 2)
      apply acquire_obeys mid.asks
      apply sem_runs
      intro v
      apply kassert_obeys
      apply setSem_runs
      apply sem_runs
      intro v
      split
      · simp only [obeys_bind]
        apply acquire_obeys wide.asks
        apply semarraySet_runs
        apply release_obeys
        apply release_obeys
        apply semfsSemDestroy_runs
        apply direntryarraySet_runs
        apply release_obeys
        exact after _
      · simp only [obeys_bind]
        apply release_obeys
        apply direntryarraySet_runs
        apply release_obeys
        exact after _
    · rw [obeys_bind]
      apply release_obeys
      exact after _

theorem semfsLookup_runs {post : List Lock → Except Errno Nat → Prop} {path : String} (big : Big h)
    (below : Below h 1) (after : ∀ result, post h result) : Runs h (semfsLookup vn path) post := by
  have wide : Below (.semfsDirlock :: h) 3 :=
    (below.mono (by omega)).cons (l := .semfsDirlock) (Nat.lt_of_sub_eq_succ rfl)
  unfold semfsLookup
  split
  · rw [Runs, obeys_bind]
    exact vnodeIncref_runs big (after _)
  · simp only [Runs, obeys_bind]
    apply acquire_obeys below.asks
    apply look_obeys
    intro s
    split
    · simp only [obeys_bind]
      apply semfsGetvnode_runs wide
      intro result
      apply release_obeys
      exact after _
    · rw [obeys_bind]
      apply release_obeys
      exact after _

theorem semfsLookparent_runs {post : List Lock → Except Errno (Nat × String) → Prop} {path : String}
    (big : Big h) (after : ∀ result, post h result) : Runs h (semfsLookparent vn path) post := by
  unfold semfsLookparent
  split
  · exact after _
  · rw [Runs, obeys_bind]
    exact vnodeIncref_runs big (after _)

/-! ### vfslookup.c and vfspath.c -/

theorem below_big (n : Nat) : Below [.vfsBiglock] (n + 1) :=
  (below_nil _).cons (l := .vfsBiglock) (Nat.succ_pos n)

theorem vfsLookparent_runs {post : List Lock → Except Errno (Nat × String) → Prop} {path : String}
    (after : ∀ result, post [] result) : Runs [] (vfsLookparent path) post := by
  unfold vfsLookparent
  simp only [Runs, obeys_bind]
  apply acquire_obeys big_nil
  apply semfsGetvnode_runs (below_big 2)
  intro result
  split
  · rw [obeys_bind]
    apply release_obeys
    exact after _
  · rename_i startvn
    simp only [obeys_bind]
    have rest : ∀ result, Runs [.vfsBiglock] (vnodeDecref startvn) fun h' _ =>
        Code.Obeys recursive MayAsk (Locks.release .vfsBiglock : K Unit) h' fun h' _ =>
          (pure result : K (Except Errno (Nat × String))).Obeys recursive MayAsk h' post := by
      intro result
      apply vnodeDecref_runs (big_cons []) (below_big 2)
      apply release_obeys
      exact after _
    unfold vfsLookparent.lookIn
    split
    · exact rest _
    · rw [obeys_bind]
      apply vnodeCheck_runs (big_cons [])
      exact semfsLookparent_runs (big_cons []) rest

theorem vfsLookup_runs {post : List Lock → Except Errno Nat → Prop} {path : String}
    (after : ∀ result, post [] result) : Runs [] (vfsLookup path) post := by
  unfold vfsLookup
  simp only [Runs, obeys_bind]
  apply acquire_obeys big_nil
  apply semfsGetvnode_runs (below_big 2)
  intro result
  split
  · rw [obeys_bind]
    apply release_obeys
    exact after _
  · split
    · rw [obeys_bind]
      apply release_obeys
      exact after _
    · simp only [obeys_bind]
      apply vnodeCheck_runs (big_cons [])
      apply semfsLookup_runs (big_cons []) (below_big 0)
      intro result
      apply vnodeDecref_runs (big_cons []) (below_big 2)
      apply release_obeys
      exact after _

theorem decref_runs (after : post [] ()) : Runs [] (vnodeDecref vn) post :=
  vnodeDecref_runs big_nil (below_nil 3) after

theorem vfsFind_runs {post : List Lock → Except Errno (Option Nat) → Prop} {path : String}
    {openflags : UInt32} (after : ∀ result, post [] result) :
    Runs [] (vfsFind path openflags) post := by
  unfold vfsFind
  split
  · rw [Runs, obeys_bind]
    apply vfsLookparent_runs
    intro result
    split
    · exact after _
    · simp only [obeys_bind]
      apply vnodeCheck_runs big_nil
      apply semfsCreat_runs (below_nil 1)
      intro result
      apply decref_runs
      exact after _
  · rw [Runs, obeys_bind]
    apply vfsLookup_runs
    exact fun result => after _

theorem vfsTruncate_runs {post : List Lock → Option Errno → Prop} {how : UInt32}
    (after : ∀ result, post [] result) : Runs [] (vfsTruncate vn how) post := by
  unfold vfsTruncate
  split
  · exact after _
  · rw [Runs, obeys_bind]
    apply vnodeCheck_runs big_nil
    exact semfsTruncate_runs (below_nil 2) after

theorem vfsOpen_runs {post : List Lock → Except Errno Nat → Prop} (path : String)
    (openflags : UInt32) (after : ∀ result, post [] result) :
    Runs [] (vfsOpen path openflags) post := by
  unfold vfsOpen
  dsimp only
  split
  · exact after _
  · rw [Runs, obeys_bind]
    apply vfsFind_runs
    intro result
    split
    · exact after _
    · simp only [obeys_bind]
      apply deref_obeys
      intro vn
      apply vnodeCheck_runs big_nil
      apply semfsEachopen_runs
      intro result
      split
      · rw [obeys_bind]
        apply decref_runs
        exact after _
      · split
        · rw [obeys_bind]
          apply vfsTruncate_runs
          intro result
          split
          · rw [obeys_bind]
            apply decref_runs
            exact after _
          · exact after _
        · exact after _

theorem vfsRemove_runs {post : List Lock → Option Errno → Prop} (path : String)
    (after : ∀ result, post [] result) : Runs [] (vfsRemove path) post := by
  unfold vfsRemove
  rw [Runs, obeys_bind]
  apply vfsLookparent_runs
  intro result
  split
  · exact after _
  · simp only [obeys_bind]
    apply vnodeCheck_runs big_nil
    apply semfsRemove_runs (below_nil 1)
    intro result
    apply decref_runs
    exact after _

end Names

/-! ### Runs -/

section Runs

variable {s : Locks.State Table T Lock Kmalloc}

theorem code_runs (call : Call) : Runs [] (code call) fun h _ => h = [] := by
  cases call with
  | vfsOpen path openflags =>
    rw [code, Runs, obeys_bind]
    exact vfsOpen_runs path openflags fun _ => rfl
  | vfsLookup path =>
    rw [code, Runs, obeys_bind]
    exact vfsLookup_runs fun _ => rfl
  | vfsClose vn => exact decref_runs rfl
  | vfsRemove path =>
    rw [code, Runs, obeys_bind]
    exact vfsRemove_runs path fun _ => rfl

theorem system_obeys : (system T).Obeys fun _ => MayAsk := fun _ call => code_runs call

/-- The thread asks for `vfs_biglock` with `semfs_tablelock`, and another thread has it. -/
def AsksLate (s : Locks.State Table T Lock Kmalloc) (t : T) : Prop :=
  (∃ next, s.status t = .running (.acquire .vfsBiglock next)) ∧ s.Holds t .semfsTablelock ∧
    ∃ u n, u ≠ t ∧ s.locks .vfsBiglock = some (u, n)

/-- No thread goes on to `vfs_biglock` late. -/
def Prompt (s : Locks.State Table T Lock Kmalloc) : Locks.Action T Call Kmalloc → Prop
  | .call _ _ => True
  | .step t _ => ¬ AsksLate s t

/-- A thread is prompt where `vfs_biglock` is free or its own, or where it has no `semfs_tablelock`. -/
def isPrompt (s : Locks.State Table T Lock Kmalloc) : Locks.Action T Call Kmalloc → Bool
  | .call _ _ => true
  | .step t _ => s.times t .semfsTablelock == 0 || (s.locks .vfsBiglock).all fun held => held.1 = t

theorem isPrompt_sound {action : Locks.Action T Call Kmalloc} (h : isPrompt s action = true) :
    Prompt s action := by
  cases action with
  | call t call => trivial
  | step t choice =>
    rintro ⟨_, table, u, n, other, big⟩
    simp only [isPrompt, big, Option.all_some, Bool.or_eq_true, beq_iff_eq, decide_eq_true_eq] at h
    rcases h with none | mine
    · exact table none
    · exact other mine

theorem prompt_inOrder (reached : (system T).machine.ReachableBy Prompt s) : s.InOrder rank := by
  refine Locks.inOrder_reachable system_obeys ?_ reached
  intro s t choice l next inv prompt running busy l' holds
  obtain ⟨h, fits, _, may⟩ := inv.asks running busy
  rcases may with below | ⟨rfl, table⟩
  · exact below l' (fits.mem_iff.mpr holds)
  · exact absurd ⟨⟨next, running⟩, fits.mem_iff.mp table, busy⟩ prompt

/-- Threads that wait for `vfs_biglock` only without `semfs_tablelock` wait in order. -/
theorem semfs_no_deadlock (reached : (system T).machine.ReachableBy Prompt s) (l : Lock) :
    ¬ Relation.TransGen s.Waits l l :=
  (prompt_inOrder reached).acyclic l

def waitsFor (s : Locks.State Table T Lock Kmalloc) (t : T) (l : Lock) : Bool :=
  match s.status t with
  | .waiting l' _ => l' = l
  | _ => false

theorem waits_of_waitsFor {t : T} {l l' : Lock} (holds : s.Holds t l) (h : waitsFor s t l' = true) :
    s.Waits l l' := by
  unfold waitsFor at h
  split at h
  · rename_i m next waiting
    obtain rfl := of_decide_eq_true h
    exact ⟨t, next, holds, waiting⟩
  · cases h

end Runs

def fresh : Locks.State Table (Fin 4) Lock Kmalloc :=
  ⟨⟨[], [], [], fun _ => .unused, fun _ => .unused⟩, fun _ => none, fun _ => .idle⟩

theorem fresh_initial : (system (Fin 4)).machine.initial fresh := ⟨rfl, fun _ => rfl, fun _ => rfl⟩

/-- One thread has the root open, and another makes a semaphore `a` and keeps it open. -/
def openA : List (Locks.Action (Fin 4) Call Kmalloc) :=
  .call 3 (.vfsOpen "" 0) :: List.replicate 14 (.step 3 ⟨0, true⟩) ++
    .call 0 (.vfsOpen "a" 6) :: List.replicate 56 (.step 0 ⟨1, true⟩)

/-- One thread looks up a name, and another waits for it. -/
theorem semfs_no_deadlock_four : ∃ s : Locks.State Table (Fin 4) Lock Kmalloc,
    s.Holds 1 .vfsBiglock ∧ waitsFor s 0 .vfsBiglock = true ∧
      ∀ l, ¬ Relation.TransGen s.Waits l l := by
  have passes : ((system (Fin 4)).machine.runIf isPrompt fresh (openA ++
      [.call 1 (.vfsLookup "a"), .step 1 ⟨2, true⟩, .call 0 (.vfsRemove "a"), .step 0 ⟨2, true⟩])).passes
        (fun s => s.times 1 .vfsBiglock == 1 && waitsFor s 0 .vfsBiglock) = true := by
    decide +kernel
  obtain ⟨s, run, facts⟩ := Outcome.passes_done passes
  simp only [Bool.and_eq_true, beq_iff_eq] at facts
  have reached : (system (Fin 4)).machine.ReachableBy Prompt s :=
    .runIf _ _ (.initial fresh_initial) (fun _ _ => isPrompt_sound) run
  refine ⟨s, ?_, facts.2, semfs_no_deadlock reached⟩
  rw [State.Holds, facts.1]
  exact one_ne_zero

/-- `semfs_creat` has `semfs_tablelock` and asks for `vfs_biglock`; `vfs_lookup` has `vfs_biglock` and
asks for `semfs_tablelock`. -/
theorem opens_deadlock : ¬ ∀ s : Locks.State Table (Fin 4) Lock Kmalloc,
    (system (Fin 4)).machine.Reachable s → ∀ l, ¬ Relation.TransGen s.Waits l l := by
  intro none
  have passes : ((system (Fin 4)).machine.run fresh (openA ++
      .call 1 (.vfsOpen "a" 6) :: List.replicate 25 (.step 1 ⟨2, true⟩) ++
        [.call 2 (.vfsOpen "a" 0), .step 2 ⟨2, true⟩, .step 2 ⟨2, true⟩, .step 1 ⟨2, true⟩])).passes
        (fun s => s.times 1 .semfsTablelock == 1 && waitsFor s 1 .vfsBiglock &&
          (s.times 2 .vfsBiglock == 1 && waitsFor s 2 .semfsTablelock)) = true := by
    decide +kernel
  obtain ⟨s, run, facts⟩ := Outcome.passes_done passes
  simp only [Bool.and_eq_true, beq_iff_eq] at facts
  obtain ⟨⟨table, waits⟩, big, waits'⟩ := facts
  have reached : (system (Fin 4)).machine.Reachable s :=
    .run _ (.initial fresh_initial) run
  have first : s.Waits .semfsTablelock .vfsBiglock := by
    apply waits_of_waitsFor (t := 1) _ waits
    rw [State.Holds, table]
    exact one_ne_zero
  have second : s.Waits .vfsBiglock .semfsTablelock := by
    apply waits_of_waitsFor (t := 2) _ waits'
    rw [State.Holds, big]
    exact one_ne_zero
  exact none s reached .vfsBiglock (.tail (.single second) first)

end Os161.Semfs
