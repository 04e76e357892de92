import Os161.Syscall.LockPaths

/-!
# No deadlock between processes

`fd_lk` is taken before `f_lk` by `get_file` and `file_copy`, and after it by `fd_attach` and
`fd_detach`. But nobody waits for `fd_lk`, since only the thread of its process takes it. The other
locks are taken in an order.
-/

set_option linter.unusedSectionVars false

namespace Os161.LockPaths

open Locks (Code obeys_bind)

variable {P F V W Path : Type} [DecidableEq P] [DecidableEq F]
variable {p q : P} {f : F} {h : List (Lock P F)} {α : Type} {i : Fin 8}

def rank : Lock P F → Nat
  | .lkAllproc | .lkExec => 0
  | .proc _ | .fdLk _ => 1
  | .fLk _ => 2
  | .vfsBiglock => 3

theorem rank_lkAllproc : rank (.lkAllproc : Lock P F) < 1 := Nat.lt_succ_self 0

theorem rank_lkExec : rank (.lkExec : Lock P F) < 3 := Nat.succ_pos 2

theorem rank_fdLk : rank (.fdLk p : Lock P F) < 2 := Nat.lt_succ_self 1

theorem rank_fLk : rank (.fLk f : Lock P F) < 3 := Nat.lt_succ_self 2

/-- What the thread of a process may ask for. -/
def MayAsk (p : P) (h : List (Lock P F)) : Lock P F → Prop
  | .fdLk q => q = p
  | l => ∀ l' ∈ h, rank l' < rank l

/-- The locks below some rank. -/
def Below (h : List (Lock P F)) (n : Nat) : Prop := ∀ l ∈ h, rank l < n

theorem Below.mono {n m : Nat} (below : Below h n) (le : n ≤ m) : Below h m :=
  fun l member => Nat.lt_of_lt_of_le (below l member) le

theorem Below.cons {n : Nat} {l : Lock P F} (below : Below h n) (low : rank l < n) :
    Below (l :: h) n := by
  intro l' member
  rcases List.mem_cons.mp member with rfl | before
  · exact low
  · exact below l' before

theorem below_nil (n : Nat) : Below ([] : List (Lock P F)) n := fun _ member => nomatch member

/-- The thread of `p` runs the code with the locks `h`. -/
abbrev Runs (p : P) (h : List (Lock P F)) (c : K P F V W α) (post : List (Lock P F) → α → Prop) :
    Prop :=
  c.Obeys recursive (MayAsk p) h post

/-! ### Data and single locks -/

section Steps

variable {post : List (Lock P F) → Unit → Prop}

theorem process_runs {post : List (Lock P F) → Proc P P (Filedesc F P) → Prop}
    (after : ∀ proc, post h proc) : Runs p h (process q : K P F V W _) post := by
  simp [Runs, process, after]

theorem fdesc_runs {post : List (Lock P F) → Filedesc F P → Prop} (after : ∀ fdesc, post h fdesc) :
    Runs p h (fdesc q : K P F V W _) post := by
  simp [Runs, fdesc, process, after]

theorem file_runs {post : List (Lock P F) → File V P → Prop} (after : ∀ file, post h file) :
    Runs p h (file f : K P F V W _) post := by
  simp [Runs, file, after]

theorem setProc_runs {g : Proc P P (Filedesc F P) → Outcome (Proc P P (Filedesc F P))}
    (after : post h ()) : Runs p h (setProc q g : K P F V W _) post := after

theorem setSlot_runs {o : Option F} (after : post h ()) :
    Runs p h (setSlot q i o : K P F V W _) post := after

theorem addNfiles_runs {n : UInt16} (after : post h ()) :
    Runs p h (addNfiles q n : K P F V W _) post := after

theorem setFile_runs {g : File V P → File V P} (after : post h ()) :
    Runs p h (setFile f g : K P F V W _) post := after

theorem addRefcount_runs {n : UInt16} (after : post h ()) :
    Runs p h (addRefcount f n : K P F V W _) post := after

/-- A thread takes its own `fd_lk` at any time. -/
theorem fdLock_runs (after : post (.fdLk p :: h) ()) : Runs p h (fdLock p : K P F V W _) post := by
  unfold fdLock
  rw [Runs, obeys_bind]
  apply fdesc_runs
  intro fdesc
  rw [obeys_bind, Locks.obeys_deref]
  exact fun _ _ => Locks.acquire_obeys (fun _ => rfl) after

theorem fLock_runs (below : Below h 2) (after : post (.fLk f :: h) ()) :
    Runs p h (fLock f : K P F V W _) post := by
  unfold fLock
  rw [Runs, obeys_bind]
  apply file_runs
  intro file
  rw [obeys_bind, Locks.obeys_deref]
  exact fun _ _ => Locks.acquire_obeys (fun _ => below) after

theorem procLock_runs (below : Below h 1) (after : post (.proc q :: h) ()) :
    Runs p h (procLock q : K P F V W _) post := by
  unfold procLock
  rw [Runs, obeys_bind]
  apply process_runs
  intro proc
  rw [obeys_bind, Locks.obeys_deref]
  exact fun _ _ => Locks.acquire_obeys (fun _ => below) after

/-- The vnode layer is called with any locks below `vfs_biglock`. -/
theorem vnode_runs {post : List (Lock P F) → α → Prop} (call : VnodeCall P F V W α)
    (below : Below h 3) (after : ∀ a, post h a) : Runs p h call.code post := by
  refine call.obeys (fun h' l big known free => ?_) after
  subst big
  intro l' member
  rcases known l' member with rfl | before
  · exact absurd member free
  · exact below l' before

end Steps

/-! ### Files -/

section Files

variable {post : List (Lock P F) → Unit → Prop}

theorem fdAttach_runs {post : List (Lock P F) → Except Errno (Fin 8) → Prop}
    (after : ∀ result, post h result) : Runs p h (fdAttach p f : K P F V W _) post := by
  unfold fdAttach
  simp only [Runs, obeys_bind]
  apply fdLock_runs
  apply fdesc_runs
  intro fdesc
  split
  · simp only [obeys_bind]
    apply setSlot_runs
    apply addNfiles_runs
    apply Locks.release_obeys
    exact after _
  · simp only [obeys_bind]
    apply Locks.release_obeys
    exact after _

theorem fdDetach_runs (after : post h ()) : Runs p h (fdDetach p i : K P F V W _) post := by
  unfold fdDetach
  simp only [Runs, obeys_bind]
  apply fdLock_runs
  apply setSlot_runs
  apply addNfiles_runs
  apply Locks.release_obeys
  exact after

theorem fdDestroy_runs (after : post h ()) : Runs p h (fdDestroy q : K P F V W _) post := by
  unfold fdDestroy
  simp only [Runs, obeys_bind]
  apply fdesc_runs
  intro fdesc
  apply Locks.kassert_obeys
  apply Locks.destroy_obeys
  exact setProc_runs after

variable (vnodes : Vnodes P F V W Path)

theorem copySlots_runs (below : Below h 2) (after : post h ()) (slots : List (Fin 8)) :
    Runs p h (copySlots vnodes p q slots) post := by
  induction slots with
  | nil => exact after
  | cons i rest ih =>
    unfold copySlots
    rw [Runs, obeys_bind]
    apply fdesc_runs
    intro fdesc
    split
    · exact ih
    · simp only [obeys_bind]
      apply fLock_runs below
      apply setSlot_runs
      apply addNfiles_runs
      apply addRefcount_runs
      apply file_runs
      intro file
      apply vnode_runs _ ((below.mono (by omega)).cons rank_fLk)
      intro _
      apply Locks.release_obeys
      exact ih

/-- `file_copy` takes `fd_lk` of the source, which is its own. -/
theorem fileCopy_runs (below : Below h 2) (after : post h ()) :
    Runs p h (fileCopy vnodes p q) post := by
  unfold fileCopy
  simp only [Runs, obeys_bind]
  apply fdLock_runs
  apply copySlots_runs vnodes (below.cons rank_fdLk)
  apply fdesc_runs
  intro fdesc
  apply fdesc_runs
  intro copy
  apply Locks.kassert_obeys
  apply Locks.release_obeys
  exact after

theorem desFile_runs (below : Below h 3) (after : post h ()) : Runs p h (desFile vnodes f) post := by
  unfold desFile
  simp only [Runs, obeys_bind]
  apply file_runs
  intro file
  apply Locks.kassert_obeys
  apply vnode_runs _ below
  intro _
  apply Locks.destroy_obeys
  exact Locks.act_obeys after

/-- `get_file` hands its caller the lock of the file. -/
theorem getFile_runs {post : List (Lock P F) → Except Errno F → Prop} (below : Below h 2) (fd : Int)
    (failed : ∀ err, post h (.error err)) (found : ∀ f, post (.fLk f :: h) (.ok f)) :
    Runs p h (getFile p fd : K P F V W _) post := by
  unfold getFile
  split
  · exact failed _
  · simp only [Runs, obeys_bind]
    apply fdLock_runs
    apply fdesc_runs
    intro fdesc
    split
    · simp only [obeys_bind]
      apply fLock_runs (below.cons rank_fdLk)
      apply Locks.release_under_obeys (by simp)
      exact found _
    · simp only [obeys_bind]
      apply Locks.release_obeys
      exact failed _

theorem desDescriptor_runs {post : List (Lock P F) → Option Errno → Prop} (below : Below h 2)
    (after : ∀ result, post h result) : Runs p h (desDescriptor vnodes p i) post := by
  unfold desDescriptor
  rw [Runs, obeys_bind]
  apply getFile_runs below
  · exact fun err => after _
  · intro f
    have locked : Below (Lock.fLk f :: h) 3 := (below.mono (by omega)).cons rank_fLk
    simp only [obeys_bind]
    apply file_runs
    intro file
    apply Locks.kassert_obeys
    apply fdDetach_runs
    apply addRefcount_runs
    apply file_runs
    intro file
    apply vnode_runs _ locked
    intro _
    apply file_runs
    intro file
    split
    · simp only [obeys_bind]
      apply Locks.release_obeys
      apply desFile_runs vnodes (below.mono (by omega))
      exact after _
    · simp only [obeys_bind]
      apply Locks.release_obeys
      exact after _

theorem closeSlots_runs {post : List (Lock P F) → Bool → Prop} (below : Below h 2)
    (after : ∀ result, post h result) (slots : List (Fin 8)) :
    Runs p (.fdLk p :: h) (closeSlots vnodes p slots) post := by
  induction slots with
  | nil =>
    unfold closeSlots
    simp only [Runs, obeys_bind]
    apply Locks.release_obeys
    exact after _
  | cons i rest ih =>
    unfold closeSlots
    rw [Runs, obeys_bind]
    apply fdesc_runs
    intro fdesc
    split
    · exact ih
    · simp only [obeys_bind]
      apply Locks.release_obeys
      apply desDescriptor_runs vnodes below
      intro result
      split
      · exact after _
      · rw [obeys_bind]
        exact fdLock_runs ih

theorem closeAllF_runs {post : List (Lock P F) → Bool → Prop} (below : Below h 2)
    (after : ∀ result, post h result) : Runs p h (closeAllF vnodes p) post := by
  unfold closeAllF
  rw [Runs, obeys_bind]
  exact fdLock_runs (closeSlots_runs vnodes below after _)

end Files

/-! ### The calls -/

section Calls

variable {post : List (Lock P F) → Unit → Prop}

theorem procFoundSpot_runs {post : List (Lock P F) → Except Errno (Fin 32) → Prop} {spot : Fin 32}
    (after : ∀ result, post h result) :
    Runs p (.lkAllproc :: h) (procFoundSpot spot : K P F V W _) post := by
  unfold procFoundSpot
  simp only [Runs, obeys_bind]
  apply Locks.look_obeys
  intro s
  apply Locks.kassert_obeys
  apply Locks.act_obeys
  apply Locks.release_obeys
  exact after _

theorem procAllocPid_runs {post : List (Lock P F) → Except Errno (Fin 32) → Prop} (none : Below h 0)
    (after : ∀ result, post h result) : Runs p h (procAllocPid : K P F V W _) post := by
  unfold procAllocPid
  simp only [Runs, obeys_bind]
  refine Locks.acquire_obeys (l := Lock.lkAllproc) (fun _ => none) ?_
  apply Locks.act_obeys
  apply Locks.look_obeys
  intro s
  split
  · exact procFoundSpot_runs after
  · split
    · exact procFoundSpot_runs after
    · simp only [obeys_bind]
      apply Locks.release_obeys
      exact after _

theorem procDeallocPid_runs {pid : Fin 32} (none : Below h 0) (after : post h ()) :
    Runs p h (procDeallocPid pid : K P F V W _) post := by
  unfold procDeallocPid
  simp only [Runs, obeys_bind]
  refine Locks.acquire_obeys (l := Lock.lkAllproc) (fun _ => none) ?_
  apply Locks.look_obeys
  intro s
  apply Locks.kassert_obeys
  apply Locks.act_obeys
  apply Locks.release_obeys
  exact after

theorem procCreate_runs {post : List (Lock P F) → Except Errno P → Prop} (none : Below h 0)
    (after : ∀ result, post h result) : Runs p h (procCreate : K P F V W _) post := by
  unfold procCreate procAddToAllproc
  rw [Runs, obeys_bind]
  apply procAllocPid_runs none
  intro result
  split
  · exact after _
  · simp only [obeys_bind]
    apply Locks.choose_obeys
    intro c
    apply Locks.act_obeys
    refine Locks.acquire_obeys (l := Lock.lkAllproc) (fun _ => none) ?_
    apply Locks.act_obeys
    apply Locks.release_obeys
    exact after _

theorem procDestroy_runs (none : Below h 0) (after : post h ()) :
    Runs p h (procDestroy q : K P F V W _) post := by
  unfold procDestroy
  simp only [Runs, obeys_bind]
  apply process_runs
  intro proc
  apply setProc_runs
  apply Locks.destroy_obeys
  apply setProc_runs
  apply fdDestroy_runs
  apply Locks.act_obeys
  exact procDeallocPid_runs none after

/-- `proc_get` hands its caller the lock of the process. -/
theorem procGet_runs {post : List (Lock P F) → Except Errno P → Prop} (none : Below h 0) (pid : Int)
    (failed : ∀ err, post h (.error err)) (found : ∀ q, post (.proc q :: h) (.ok q)) :
    Runs p h (procGet pid : K P F V W _) post := by
  unfold procGet
  split
  · simp only [Runs, obeys_bind]
    refine Locks.acquire_obeys (l := Lock.lkAllproc) (fun _ => none) ?_
    apply Locks.look_obeys
    intro s
    split
    · simp only [obeys_bind]
      apply procLock_runs ((none.mono (by omega)).cons rank_lkAllproc)
      apply Locks.release_under_obeys (by simp)
      exact found _
    · simp only [obeys_bind]
      apply Locks.release_obeys
      exact failed _
  · exact failed _

theorem waitpid_runs {post : List (Lock P F) → Except Errno (BitVec 32) → Prop} (none : Below h 0)
    (pid options : Int) (after : ∀ result, post h result) :
    Runs p h (waitpid p pid options : K P F V W _) post := by
  unfold waitpid
  split
  · exact after _
  · rw [Runs, obeys_bind]
    apply procGet_runs none
    · exact fun err => after _
    · intro q
      simp only [obeys_bind]
      apply process_runs
      intro proc
      split
      · simp only [obeys_bind]
        apply Locks.release_obeys
        exact after _
      · simp only [obeys_bind]
        apply process_runs
        intro proc
        split
        · simp only [obeys_bind]
          apply Locks.release_obeys
          exact after _
        · simp only [obeys_bind]
          apply Locks.release_obeys
          apply setProc_runs
          apply procLock_runs (none.mono (by omega))
          apply process_runs
          intro proc
          apply Locks.kassert_obeys
          apply Locks.release_obeys
          apply procDestroy_runs none
          exact after _

variable (vnodes : Vnodes P F V W Path)

theorem kOpenAttach_runs {post : List (Lock P F) → Except Errno (Fin 8) → Prop} {vn : V}
    (below : Below h 2) (after : ∀ result, post h result) :
    Runs p h (kOpenAttach vnodes p vn f) post := by
  have wide : Below h 3 := below.mono (by omega)
  unfold kOpenAttach
  simp only [Runs, obeys_bind]
  apply fLock_runs below
  apply fdAttach_runs
  intro result
  split
  · simp only [obeys_bind]
    apply Locks.release_obeys
    apply vnode_runs _ wide
    intro _
    apply desFile_runs vnodes wide
    exact after _
  · simp only [obeys_bind]
    apply addRefcount_runs
    apply file_runs
    intro file
    apply vnode_runs _ (wide.cons rank_fLk)
    intro _
    apply Locks.release_obeys
    exact after _

theorem kOpen_runs {post : List (Lock P F) → Except Errno (Fin 8) → Prop} (path : Path)
    (flags : UInt32) (below : Below h 2) (after : ∀ result, post h result) :
    Runs p h (kOpen vnodes p path flags) post := by
  have wide : Below h 3 := below.mono (by omega)
  unfold kOpen
  rw [Runs, obeys_bind]
  apply vnode_runs _ wide
  intro result
  split
  · exact after _
  · simp only [obeys_bind]
    apply Locks.choose_obeys
    intro c
    apply Locks.act_obeys
    split
    · rw [obeys_bind]
      apply vnode_runs _ wide
      intro result
      split
      · simp only [obeys_bind]
        apply vnode_runs _ wide
        intro _
        apply desFile_runs vnodes wide
        exact after _
      · rw [obeys_bind]
        apply setFile_runs
        exact kOpenAttach_runs vnodes below after
    · exact kOpenAttach_runs vnodes below after

theorem seekTo_runs {post : List (Lock P F) → Except Errno Int → Prop} {newOffset : Int}
    (below : Below h 2) (after : ∀ result, post h result) :
    Runs p (.fLk f :: h) (seekTo vnodes f newOffset) post := by
  unfold seekTo
  simp only [Runs, obeys_bind]
  apply file_runs
  intro file
  apply vnode_runs _ ((below.mono (by omega)).cons rank_fLk)
  intro result
  split
  · simp only [obeys_bind]
    apply Locks.release_obeys
    exact after _
  · simp only [obeys_bind]
    apply setFile_runs
    apply Locks.release_obeys
    exact after _

theorem sysLseek_runs {post : List (Lock P F) → Except Errno Int → Prop} (fd offset whence : Int)
    (below : Below h 2) (after : ∀ result, post h result) :
    Runs p h (sysLseek vnodes p fd offset whence) post := by
  unfold sysLseek
  rw [Runs, obeys_bind]
  apply getFile_runs below
  · exact fun err => after _
  · intro f
    dsimp only
    split
    · exact seekTo_runs vnodes below after
    split
    · rw [obeys_bind]
      apply file_runs
      intro file
      exact seekTo_runs vnodes below after
    split
    · simp only [obeys_bind]
      apply file_runs
      intro file
      apply vnode_runs _ ((below.mono (by omega)).cons rank_fLk)
      intro result
      split
      · simp only [obeys_bind]
        apply Locks.release_obeys
        exact after _
      · exact seekTo_runs vnodes below after
    · simp only [obeys_bind]
      apply Locks.release_obeys
      exact after _

theorem threadExit_runs (below : Below h 3) (after : post h ()) :
    Runs p h (threadExit vnodes p) post := by
  unfold threadExit
  simp only [Runs, obeys_bind]
  apply Locks.look_obeys
  intro s
  rw [Locks.obeys_deref]
  intro cwd _
  split
  · rw [obeys_bind]
    apply vnode_runs _ below
    exact fun _ => Locks.act_obeys after
  · exact after

theorem sysExit_runs {exitcode : BitVec 32} (none : Below h 0) (after : post h ()) :
    Runs p h (sysExit vnodes p exitcode) post := by
  have wide : Below h 3 := none.mono (by omega)
  unfold sysExit
  simp only [Runs, obeys_bind]
  apply closeAllF_runs vnodes (none.mono (by omega))
  intro closed
  apply Locks.kassert_obeys
  apply procLock_runs (none.mono (by omega))
  apply setProc_runs
  apply process_runs
  intro proc
  split
  · simp only [obeys_bind]
    apply Locks.release_obeys
    apply procDestroy_runs none
    exact threadExit_runs vnodes wide after
  · simp only [obeys_bind]
    apply setProc_runs
    apply Locks.release_obeys
    exact threadExit_runs vnodes wide after

theorem threadFork_runs (below : Below h 3) (after : post h ()) :
    Runs p h (threadFork vnodes p q) post := by
  unfold threadFork
  simp only [Runs, obeys_bind]
  apply Locks.look_obeys
  intro s
  rw [Locks.obeys_deref]
  intro cwd _
  split
  · rw [obeys_bind]
    apply vnode_runs _ below
    exact fun _ => Locks.act_obeys after
  · exact after

theorem sysFork_runs {post : List (Lock P F) → Fin 32 → Prop} (none : Below h 0)
    (after : ∀ pid, post h pid) : Runs p h (sysFork vnodes p) post := by
  unfold sysFork
  rw [Runs, obeys_bind]
  apply procCreate_runs none
  intro result
  split
  · trivial
  · simp only [obeys_bind]
    apply fileCopy_runs vnodes (none.mono (by omega))
    apply process_runs
    intro proc
    apply setProc_runs
    apply threadFork_runs vnodes (none.mono (by omega))
    exact after _

theorem loadElf_runs {post : List (Lock P F) → Option Errno → Prop} {vn : V} (below : Below h 3)
    (after : ∀ result, post h result) (reads : Nat) : Runs p h (loadElf vnodes vn reads) post := by
  induction reads with
  | zero =>
    unfold loadElf
    rw [Runs, obeys_bind]
    apply Locks.choose_obeys
    exact fun c => after _
  | succ n ih =>
    unfold loadElf
    rw [Runs, obeys_bind]
    apply vnode_runs _ below
    intro result
    split
    · exact after _
    · exact ih

theorem execFailed_runs {post : List (Lock P F) → Option Errno → Prop} {vn : V} {err : Errno}
    (below : Below h 3) (after : ∀ result, post h result) :
    Runs p (.lkExec :: h) (execFailed vnodes vn err) post := by
  unfold execFailed
  simp only [Runs, obeys_bind]
  apply vnode_runs _ (below.cons rank_lkExec)
  intro _
  apply Locks.release_obeys
  exact after _

theorem sysExecv_runs {post : List (Lock P F) → Option Errno → Prop} (path : Path)
    (none : Below h 0) (after : ∀ result, post h result) :
    Runs p h (sysExecv vnodes path) post := by
  have wide : Below h 3 := none.mono (by omega)
  have locked : Below (Lock.lkExec :: h) 3 := wide.cons rank_lkExec
  unfold sysExecv
  simp only [Runs, obeys_bind]
  refine Locks.acquire_obeys (l := Lock.lkExec) (fun _ => none) ?_
  apply Locks.choose_obeys
  intro c
  split
  · simp only [obeys_bind]
    apply Locks.release_obeys
    exact after _
  · rw [obeys_bind]
    apply vnode_runs _ locked
    intro result
    split
    · simp only [obeys_bind]
      apply Locks.release_obeys
      exact after _
    · rw [obeys_bind]
      apply Locks.choose_obeys
      intro c
      split
      · simp only [obeys_bind]
        apply Locks.release_obeys
        apply vnode_runs _ wide
        intro _
        exact after _
      · simp only [obeys_bind]
        apply Locks.choose_obeys
        intro c
        apply loadElf_runs vnodes locked
        intro result
        split
        · exact execFailed_runs vnodes wide after
        · rw [obeys_bind]
          apply Locks.choose_obeys
          intro c
          split
          · exact execFailed_runs vnodes wide after
          · simp only [obeys_bind]
            apply Locks.release_obeys
            apply vnode_runs _ wide
            intro _
            exact after _

end Calls

/-! ### Runs -/

section Runs

variable (vnodes : Vnodes P F V W Path)

theorem code_runs (p : P) (call : Call P Path) :
    Runs p [] (code vnodes p call) fun h _ => h = [] := by
  have none : Below ([] : List (Lock P F)) 0 := below_nil 0
  have few : Below ([] : List (Lock P F)) 2 := below_nil 2
  cases call with
  | kOpen path flags =>
    rw [code, Runs, obeys_bind]
    exact kOpen_runs vnodes path flags few fun _ => rfl
  | lseek fd offset whence =>
    rw [code, Runs, obeys_bind]
    exact sysLseek_runs vnodes fd offset whence few fun _ => rfl
  | fork =>
    rw [code, Runs, obeys_bind]
    exact sysFork_runs vnodes none fun _ => rfl
  | exit exitcode => exact sysExit_runs vnodes none rfl
  | waitpid pid options =>
    rw [code, Runs, obeys_bind]
    exact waitpid_runs none pid options fun _ => rfl
  | execv path =>
    rw [code, Runs, obeys_bind]
    exact sysExecv_runs vnodes path none fun _ => rfl

/-- Two threads that may ask for one lock ask for it in order. -/
theorem mayAsk_order {p q : P} {h h' : List (Lock P F)} {l : Lock P F} (differ : p ≠ q)
    (mine : MayAsk p h l) (theirs : MayAsk q h' l) : ∀ l' ∈ h, rank l' < rank l := by
  cases l with
  | fdLk r => exact absurd ((mine : r = p).symm.trans theirs) differ
  | _ => exact mine

variable {s : Locks.State (Data P F V W) P (Lock P F) (Choice P F)}

theorem waits_inOrder (reached : (system vnodes).machine.Reachable s) : s.InOrder rank :=
  Locks.inOrder_of_asks (M := system vnodes) (fun p call => code_runs vnodes p call)
    (fun _ _ _ _ _ differ mine theirs => mayAsk_order differ mine theirs) reached

/-- No processes wait for each other. A call ends without locks, and `get_file` and `proc_get` with
the lock that they hand over. -/
theorem processes_no_deadlock (reached : (system vnodes).machine.Reachable s) :
    (∀ l, ¬ Relation.TransGen s.Waits l l) ∧
      (∀ stuck : Finset P, stuck.Nonempty →
        ¬ ∀ p ∈ stuck, ∃ l next, s.status p = .waiting l next ∧ ∃ q ∈ stuck, s.Holds q l) ∧
      (∀ p, s.status p = .idle → ∀ l, ¬ s.Holds p l) ∧
      (∀ p fd, Runs p [] (getFile p fd : K P F V W (Except Errno F)) fun h result =>
        h = (result.toOption.map Lock.fLk).toList) ∧
      ∀ p pid, Runs p [] (procGet pid : K P F V W (Except Errno P)) fun h result =>
        h = (result.toOption.map Lock.proc).toList := by
  have ordered := waits_inOrder vnodes reached
  have inv : Locks.Inv (system vnodes) MayAsk s :=
    Locks.inv_reachable (fun p call => code_runs vnodes p call) reached
  refine ⟨ordered.acyclic, ordered.no_deadlock, fun p idle l => inv.idle_free idle l,
    fun p fd => ?_, fun p pid => ?_⟩
  · exact getFile_runs (below_nil 2) fd (fun _ => rfl) fun _ => rfl
  · exact procGet_runs (below_nil 0) pid (fun _ => rfl) fun _ => rfl

end Runs

/-- A vnode layer that takes its lock and does nothing. -/
def calm (answer : V) : Vnodes P F V W Path where
  vfsOpen _ _ := touch (.ok answer)
  vopIncref _ := touch ()
  vopDecref _ := touch ()
  vopStat _ := touch (.ok 0)
  vopTryseek _ _ := touch none
  vopRead _ := touch none
where
  touch {α : Type} (a : α) : VnodeCall P F V W α :=
    ⟨do
      Locks.acquire .vfsBiglock
      Locks.release .vfsBiglock
      return a, fun h => by simp⟩

/-- Two processes without files. -/
def boot : Locks.State (Data (Fin 2) Nat Unit Unit) (Fin 2) (Lock (Fin 2) Nat) (Choice (Fin 2) Nat) where
  data :=
    { procs := fun p => .live ⟨p.castLE (by decide), none, some none, some 0,
        some ⟨fun _ => none, some none, 0⟩, 0, false⟩
      pTable := fun pid => if inside : pid.val < 2 then some ⟨pid, inside⟩ else none
      nextPid := 2
      files := fun _ => .unused
      threads := fun _ => some none
      rest := () }
  locks _ := none
  status _ := .idle

/-- A process waits for the lock of the vnode layer. -/
def atBiglock : Locks.Status (Data (Fin 2) Nat Unit Unit) (Lock (Fin 2) Nat) (Choice (Fin 2) Nat) → Bool
  | .waiting .vfsBiglock _ => true
  | _ => false

/-- Both open a file; one is in the vnode layer, and the other waits for it. -/
theorem processes_no_deadlock_two :
    ∃ s : Locks.State (Data (Fin 2) Nat Unit Unit) (Fin 2) (Lock (Fin 2) Nat) (Choice (Fin 2) Nat),
      s.times 0 .vfsBiglock = 1 ∧ (∃ next, s.status 1 = .waiting .vfsBiglock next) ∧
        ∀ l, ¬ Relation.TransGen s.Waits l l := by
  let vnodes : Vnodes (Fin 2) Nat Unit Unit Unit := calm ()
  let choice : Choice (Fin 2) Nat := ⟨0, 0, none, 0⟩
  have passes : ((system vnodes).machine.run boot [.call 0 (.kOpen () 0), .step 0 choice,
      .call 1 (.kOpen () 0), .step 1 choice]).passes (fun s => s.times 0 .vfsBiglock == 1 &&
        atBiglock (s.status 1)) = true := by
    decide +kernel
  obtain ⟨s, run, facts⟩ := Outcome.passes_done passes
  simp only [Bool.and_eq_true, beq_iff_eq] at facts
  have reached : (system vnodes).machine.Reachable s :=
    .run _ (.initial ⟨trivial, fun _ => rfl, fun _ => rfl⟩) run
  refine ⟨s, facts.1, ?_, (processes_no_deadlock vnodes reached).1⟩
  have waits := facts.2
  unfold atBiglock at waits
  split at waits
  · rename_i next is
    exact ⟨next, is⟩
  · cases waits

end Os161.LockPaths
