import Os161.Errno
import Os161.Base.Sync
import Mathlib.Data.Fin.Tuple.Basic

/-!
# Processes and the process table

The data of `proc.c` and its functions as sequences of atomic steps: a section under `lk_allproc` is
one step, and so is each part of the teardown. Pointers are identities that `kmalloc` never gives
twice, so that a stale pointer is seen as one. What a pointer names is `none` once it is freed.
Sleep locks and semaphores are the atomic ones.
-/

namespace Os161

/-- `struct proc`. `Fd` is what is kept of the file descriptor table; where nothing but `fd_nfiles`
matters it is that number. -/
structure Proc (Id Thread Fd : Type) where
  pPid : Fin 32
  pProc : Option Id
  lock : Option (AtomicLock Thread)
  pSem : Option Nat
  pFd : Option Fd
  pRetval : BitVec 32
  pIsDead : Bool

variable {Id Thread Fd : Type}

namespace Proc

def lockAcquire [DecidableEq Thread] (p : Proc Id Thread Fd) (cur : Thread) :
    Outcome (Proc Id Thread Fd) := do
  let lock ← Outcome.deref p.lock
  let lock ← AtomicLock.acquire lock cur
  return { p with lock := some lock }

def lockRelease [DecidableEq Thread] (p : Proc Id Thread Fd) (cur : Thread) :
    Outcome (Proc Id Thread Fd) := do
  let lock ← Outcome.deref p.lock
  let lock ← AtomicLock.release lock cur
  return { p with lock := some lock }

/-- `P` on `p_sem`. -/
def semP (p : Proc Id Thread Fd) : Outcome (Proc Id Thread Fd) := do
  let count ← Outcome.deref p.pSem
  let count ← AtomicSem.acquire count
  return { p with pSem := some count }

/-- `V` on `p_sem`. -/
def semV (p : Proc Id Thread Fd) : Outcome (Proc Id Thread Fd) := do
  let count ← Outcome.deref p.pSem
  return { p with pSem := some (AtomicSem.release count) }

/-- `close_all_f` detaches every open file. -/
def closeAllF (p : Proc Id Thread Nat) : Outcome (Proc Id Thread Nat) := do
  let _ ← Outcome.deref p.pFd
  return { p with pFd := some 0 }

def semDestroy (p : Proc Id Thread Fd) : Outcome (Proc Id Thread Fd) := do
  let _ ← Outcome.deref p.pSem
  return { p with pSem := none }

def lockDestroy [DecidableEq Thread] (p : Proc Id Thread Fd) : Outcome (Proc Id Thread Fd) := do
  let lock ← Outcome.deref p.lock
  Outcome.kassert (lock = none)
  return { p with lock := none }

def fdDestroy (p : Proc Id Thread Nat) : Outcome (Proc Id Thread Nat) := do
  let nfiles ← Outcome.deref p.pFd
  Outcome.kassert (nfiles = 0)
  return { p with pFd := none }

theorem lockAcquire_free [DecidableEq Thread] {p : Proc Id Thread Fd} {cur : Thread}
    (free : p.lock = some none) : p.lockAcquire cur ≠ .blocked := by
  simp [lockAcquire, free]

theorem lockRelease_ne_blocked [DecidableEq Thread] {p : Proc Id Thread Fd} {cur : Thread} :
    p.lockRelease cur ≠ .blocked := by
  simp [lockRelease]

section Meets

variable {p : Proc Id Thread Fd} {P : Proc Id Thread Fd → Prop}

theorem lockAcquire_meets [DecidableEq Thread] {cur : Thread} : (p.lockAcquire cur).Meets P ↔
    ∃ l, p.lock = some l ∧ l ≠ some cur ∧ (l = none → P { p with lock := some (some cur) }) := by
  simp [lockAcquire]

theorem lockRelease_meets [DecidableEq Thread] {cur : Thread} : (p.lockRelease cur).Meets P ↔
    p.lock = some (some cur) ∧ P { p with lock := some none } := by
  simp [lockRelease]

theorem semP_meets : p.semP.Meets P ↔
    ∃ n, p.pSem = some n ∧ ∀ m, n = m + 1 → P { p with pSem := some m } := by
  simp [semP]

theorem semV_meets : p.semV.Meets P ↔
    ∃ n, p.pSem = some n ∧ P { p with pSem := some (n + 1) } := by
  simp [semV, AtomicSem.release]

theorem closeAllF_meets {p : Proc Id Thread Nat} {P : Proc Id Thread Nat → Prop} :
    p.closeAllF.Meets P ↔ (∃ n, p.pFd = some n) ∧ P { p with pFd := some 0 } := by
  simp [closeAllF]

theorem semDestroy_meets : p.semDestroy.Meets P ↔
    (∃ n, p.pSem = some n) ∧ P { p with pSem := none } := by
  simp [semDestroy]

theorem lockDestroy_meets [DecidableEq Thread] : p.lockDestroy.Meets P ↔
    p.lock = some none ∧ P { p with lock := none } := by
  simp [lockDestroy]

theorem fdDestroy_meets {p : Proc Id Thread Nat} {P : Proc Id Thread Nat → Prop} :
    p.fdDestroy.Meets P ↔ p.pFd = some 0 ∧ P { p with pFd := none } := by
  simp [fdDestroy]

end Meets

end Proc

/-- The same process with the lock in another state. -/
structure Proc.Alike (p q : Proc Id Thread Fd) : Prop where
  pid : q.pPid = p.pPid
  lock : q.lock = none ↔ p.lock = none
  sem : q.pSem = p.pSem
  fd : q.pFd = p.pFd

theorem Proc.Alike.refl (p : Proc Id Thread Fd) : p.Alike p := ⟨rfl, Iff.rfl, rfl, rfl⟩

/-- The allocated processes, and the globals of `proc.c`. -/
structure Kernel (Id Thread Fd : Type) where
  heap : Id → Option (Proc Id Thread Fd)
  pTable : Fin 32 → Option Id
  nextPid : Nat
  lkAllproc : AtomicLock Thread

namespace Kernel

/-- Follows a pointer to a process and changes what it points to. -/
def update [DecidableEq Id] (k : Kernel Id Thread Fd) (p : Id)
    (f : Proc Id Thread Fd → Outcome (Proc Id Thread Fd)) : Outcome (Kernel Id Thread Fd) := do
  let proc ← Outcome.deref (k.heap p)
  let proc ← f proc
  return { k with heap := Function.update k.heap p (some proc) }

/-- `kfree` of a process. -/
def free [DecidableEq Id] (k : Kernel Id Thread Fd) (p : Id) : Outcome (Kernel Id Thread Fd) := do
  let _ ← Outcome.deref (k.heap p)
  return { k with heap := Function.update k.heap p none }

def procFoundSpot (k : Kernel Id Thread Fd) (spot : Fin 32) :
    Outcome (Except Errno (Fin 32) × Kernel Id Thread Fd) := do
  Outcome.kassert (k.pTable spot = none)
  return (.ok spot, { k with nextPid := spot + 1 })

/-- Where the scan of `proc_alloc_pid` starts. -/
def scanStart (k : Kernel Id Thread Fd) : Nat := if 32 ≤ k.nextPid then 0 else k.nextPid

/-- `proc_alloc_pid`: the slots from `next_pid` on, then those before it. -/
def procAllocPid (k : Kernel Id Thread Fd) : Outcome (Except Errno (Fin 32) × Kernel Id Thread Fd) := do
  Outcome.await (k.lkAllproc = none)
  let next := k.scanStart
  match Fin.find? fun i => decide (next ≤ i.val) && (k.pTable i).isNone with
  | some i => procFoundSpot { k with nextPid := next } i
  | none =>
    match Fin.find? fun i => decide (i.val < next) && (k.pTable i).isNone with
    | some i => procFoundSpot { k with nextPid := next } i
    | none => return (.error .enproc, { k with nextPid := next })

def procDeallocPid (k : Kernel Id Thread Fd) (pid : Fin 32) : Outcome (Kernel Id Thread Fd) := do
  Outcome.await (k.lkAllproc = none)
  Outcome.kassert (k.pTable pid ≠ none)
  return { k with pTable := Function.update k.pTable pid none }

def procAddToAllproc (k : Kernel Id Thread Fd) (p : Id) (spot : Fin 32) :
    Outcome (Kernel Id Thread Fd) := do
  Outcome.await (k.lkAllproc = none)
  return { k with pTable := Function.update k.pTable spot (some p) }

end Kernel

/-- The parts of `proc_destroy` after it has copied the pid. -/
inductive Stage where
  | sem
  | lock
  | fd
  | free
  | pid
  deriving DecidableEq

def Stage.next : Stage → Option Stage
  | .sem => some .lock
  | .lock => some .fd
  | .fd => some .free
  | .free => some .pid
  | .pid => none

/-- Where a thread is in `proc_get`. -/
inductive GetPc (Id : Type) where
  /-- Before `lk_allproc`. -/
  | entering (pid : Fin 32)
  /-- With `lk_allproc` held, before the table. -/
  | looking (pid : Fin 32)
  /-- With `lk_allproc` held, waiting for the lock of the process it has found. -/
  | acquiring (p : Id)
  /-- With both locks held. -/
  | leaving (p : Id)
  deriving DecidableEq

/-- What a step of `proc_get` comes to. -/
inductive GetResult (Id : Type) where
  | more (pc : GetPc Id)
  | error (err : Errno)
  | found (p : Id)

namespace Kernel

variable [DecidableEq Id] [DecidableEq Thread]

def procDestroyStep (k : Kernel Id Thread Nat) (p : Id) (pid : Fin 32) :
    Stage → Outcome (Kernel Id Thread Nat)
  | .sem => k.update p Proc.semDestroy
  | .lock => k.update p Proc.lockDestroy
  | .fd => k.update p Proc.fdDestroy
  | .free => k.free p
  | .pid => k.procDeallocPid pid

theorem pid_inside {pid : Int} (inside : 0 < pid ∧ pid < 32) : pid.toNat < 32 := by omega

/-- The argument check of `proc_get`. -/
def procGetStart (pid : Int) : Except Errno (GetPc Id) :=
  if inside : 0 < pid ∧ pid < 32 then .ok (.entering ⟨pid.toNat, pid_inside inside⟩) else .error .einval

def procGetStep (k : Kernel Id Thread Fd) (cur : Thread) :
    GetPc Id → Outcome (GetResult Id × Kernel Id Thread Fd)
  | .entering pid => do
    let lkAllproc ← AtomicLock.acquire k.lkAllproc cur
    return (.more (.looking pid), { k with lkAllproc := lkAllproc })
  | .looking pid =>
    match k.pTable pid with
    | some p => do
      let _ ← Outcome.deref (k.heap p)
      return (.more (.acquiring p), k)
    | none => do
      let lkAllproc ← AtomicLock.release k.lkAllproc cur
      return (.error .esrch, { k with lkAllproc := lkAllproc })
  | .acquiring p => do
    let k ← k.update p fun proc => proc.lockAcquire cur
    return (.more (.leaving p), k)
  | .leaving p => do
    let lkAllproc ← AtomicLock.release k.lkAllproc cur
    return (.found p, { k with lkAllproc := lkAllproc })

/-! ### What the operations promise -/

omit [DecidableEq Thread] in
theorem update_ne_blocked {k : Kernel Id Thread Fd} {p : Id}
    {f : Proc Id Thread Fd → Outcome (Proc Id Thread Fd)}
    (ready : ∀ proc, k.heap p = some proc → f proc ≠ .blocked) : k.update p f ≠ .blocked := by
  simpa [update] using ready

omit [DecidableEq Id] in
theorem procGetStart_ok {pid : Int} {pc : GetPc Id} (h : procGetStart pid = .ok pc) :
    ∃ slot, pc = .entering slot ∧ (slot.val : Int) = pid := by
  unfold procGetStart at h
  split_ifs at h with inside
  obtain rfl := Except.ok.inj h
  exact ⟨_, rfl, Int.toNat_of_nonneg (by omega)⟩

variable {k : Kernel Id Thread Fd} {p : Id} {P : Kernel Id Thread Fd → Prop}

omit [DecidableEq Thread] in
theorem update_meets {f : Proc Id Thread Fd → Outcome (Proc Id Thread Fd)} :
    (k.update p f).Meets P ↔ ∃ proc, k.heap p = some proc ∧
      (f proc).Meets fun proc => P { k with heap := Function.update k.heap p (some proc) } := by
  simp [update]

omit [DecidableEq Thread] in
theorem free_meets : (k.free p).Meets P ↔ (∃ proc, k.heap p = some proc) ∧
    P { k with heap := Function.update k.heap p none } := by
  simp [free]

omit [DecidableEq Id] [DecidableEq Thread] in
theorem procDeallocPid_meets {pid : Fin 32} : (k.procDeallocPid pid).Meets P ↔
    (k.lkAllproc = none → k.pTable pid ≠ none ∧
      P { k with pTable := Function.update k.pTable pid none }) := by
  simp [procDeallocPid]

omit [DecidableEq Thread] in
theorem update_ensures {f : Proc Id Thread Fd → Outcome (Proc Id Thread Fd)} :
    (k.update p f).Ensures P ↔ ∀ proc, k.heap p = some proc →
      (f proc).Ensures fun proc => P { k with heap := Function.update k.heap p (some proc) } := by
  simp [update]

omit [DecidableEq Thread] in
theorem free_ensures : (k.free p).Ensures P ↔ ∀ proc, k.heap p = some proc →
    P { k with heap := Function.update k.heap p none } := by
  simp [free]

omit [DecidableEq Id] [DecidableEq Thread] in
theorem procDeallocPid_ensures {pid : Fin 32} : (k.procDeallocPid pid).Ensures P ↔
    (k.lkAllproc = none → k.pTable pid ≠ none →
      P { k with pTable := Function.update k.pTable pid none }) := by
  simp [procDeallocPid]

omit [DecidableEq Id] [DecidableEq Thread] in
theorem procAddToAllproc_ensures {pid : Fin 32} : (k.procAddToAllproc p pid).Ensures P ↔
    (k.lkAllproc = none → P { k with pTable := Function.update k.pTable pid (some p) }) := by
  simp [procAddToAllproc]

/-- The kernel after a step of `proc_destroy`: other processes stay, and the table until the last. -/
theorem procDestroyStep_ensures {k : Kernel Id Thread Nat} {pid : Fin 32} {stage : Stage} :
    (k.procDestroyStep p pid stage).Ensures fun next => (∀ q, q ≠ p → next.heap q = k.heap q) ∧
      next.pTable = if stage = .pid then Function.update k.pTable pid none else k.pTable := by
  have others : ∀ (new : Option (Proc Id Thread Nat)) q, q ≠ p →
      Function.update k.heap p new q = k.heap q := fun new q other => Function.update_of_ne other _ _
  cases stage with
  | sem =>
    refine update_ensures.mpr fun proc _ => ?_
    exact fun _ _ => ⟨others _, rfl⟩
  | lock =>
    refine update_ensures.mpr fun proc _ => ?_
    exact fun _ _ => ⟨others _, rfl⟩
  | fd =>
    refine update_ensures.mpr fun proc _ => ?_
    exact fun _ _ => ⟨others _, rfl⟩
  | free => exact free_ensures.mpr fun _ _ => ⟨others _, rfl⟩
  | pid => exact procDeallocPid_ensures.mpr fun _ _ => ⟨fun _ _ => rfl, rfl⟩

/-- How many slots the scan of `proc_alloc_pid` looks at before a slot. -/
def scanPos (k : Kernel Id Thread Fd) (i : Fin 32) : Nat :=
  if k.scanStart ≤ i then i - k.scanStart else i + 32 - k.scanStart

omit [DecidableEq Id] [DecidableEq Thread] in
/-- `proc_alloc_pid` takes no slot, and finds the first one of its scan that is empty. -/
theorem procAllocPid_ensures : k.procAllocPid.Ensures fun (result, next) =>
    (∃ n, next = { k with nextPid := n }) ∧ ∀ i, result = .ok i → k.pTable i = none ∧
      ∀ j, k.pTable j = none → k.scanPos i ≤ k.scanPos j := by
  have start : k.scanStart < 32 := by
    unfold scanStart
    split <;> omega
  simp only [procAllocPid, Outcome.ensures_bind, Outcome.ensures_await]
  intro _
  split
  · rename_i i first
    simp only [procFoundSpot, Outcome.ensures_bind, Outcome.ensures_kassert, Outcome.ensures_pure]
    intro empty
    refine ⟨⟨_, rfl⟩, fun spot same => ?_⟩
    obtain rfl := Except.ok.inj same
    refine ⟨empty, fun j free => ?_⟩
    have from' : k.scanStart ≤ i := by simpa [empty] using (Fin.find?_eq_some_iff.mp first).1
    have earlier := (Fin.find?_eq_some_iff.mp first).2 j
    simp only [free, Option.isNone_none, Bool.and_true, decide_eq_false_iff_not] at earlier
    unfold scanPos
    rw [if_pos from']
    split
    · by_contra before
      exact earlier (by omega) ‹_›
    · omega
  · rename_i none'
    have after := Fin.find?_eq_none_iff.mp none'
    split
    · rename_i i first
      simp only [procFoundSpot, Outcome.ensures_bind, Outcome.ensures_kassert, Outcome.ensures_pure]
      intro empty
      refine ⟨⟨_, rfl⟩, fun spot same => ?_⟩
      obtain rfl := Except.ok.inj same
      refine ⟨empty, fun j free => ?_⟩
      have before' : i < k.scanStart := by simpa [empty] using (Fin.find?_eq_some_iff.mp first).1
      have earlier := (Fin.find?_eq_some_iff.mp first).2 j
      have notAfter := after j
      simp only [free, Option.isNone_none, Bool.and_true, decide_eq_false_iff_not] at earlier notAfter
      unfold scanPos
      rw [if_neg (by omega), if_neg notAfter]
      by_contra less
      exact earlier (by omega) (by omega)
    · exact Outcome.ensures_pure.mpr ⟨⟨_, rfl⟩, by simp⟩

/-- The same table, and the same processes up to the state of their locks. -/
structure Alike (k next : Kernel Id Thread Fd) : Prop where
  table : next.pTable = k.pTable
  heap : ∀ p proc, k.heap p = some proc → ∃ proc', next.heap p = some proc' ∧ proc.Alike proc'

omit [DecidableEq Id] [DecidableEq Thread] in
theorem Alike.of_heap {next : Kernel Id Thread Fd} (table : next.pTable = k.pTable)
    (heap : next.heap = k.heap) : k.Alike next :=
  ⟨table, fun _ proc found => ⟨proc, by rw [heap]; exact found, .refl proc⟩⟩

omit [DecidableEq Thread] in
theorem update_alike {f : Proc Id Thread Fd → Outcome (Proc Id Thread Fd)}
    (alike : ∀ proc, (f proc).Ensures proc.Alike) : (k.update p f).Ensures k.Alike := by
  refine update_ensures.mpr fun proc found => (alike proc).mono fun new same => ⟨rfl, fun q old foundQ => ?_⟩
  by_cases eq : q = p
  · subst eq
    obtain rfl : proc = old := Option.some.inj (found.symm.trans foundQ)
    exact ⟨new, Function.update_self _ _ _, same⟩
  · exact ⟨old, by rw [← foundQ]; exact Function.update_of_ne eq _ _, .refl old⟩

theorem procGetStep_alike {cur : Thread} {pc : GetPc Id} :
    (k.procGetStep cur pc).Ensures fun (_, next) => k.Alike next := by
  have locked : ∀ proc : Proc Id Thread Fd, (proc.lockAcquire cur).Ensures proc.Alike := by
    intro proc
    simp only [Proc.lockAcquire, Outcome.ensures_bind, Outcome.ensures_deref,
      AtomicLock.acquire_ensures, Outcome.ensures_pure]
    intro lock found _
    exact ⟨rfl, by simp [found], rfl, rfl⟩
  cases pc with
  | entering pid =>
    refine Outcome.ensures_bind.mpr (AtomicLock.acquire_ensures.mpr fun _ => ?_)
    exact Outcome.ensures_pure.mpr (.of_heap rfl rfl)
  | looking pid =>
    dsimp only [procGetStep]
    split
    · refine Outcome.ensures_bind.mpr (Outcome.ensures_deref.mpr fun _ _ => ?_)
      exact Outcome.ensures_pure.mpr (.of_heap rfl rfl)
    · refine Outcome.ensures_bind.mpr (AtomicLock.release_ensures.mpr fun _ => ?_)
      exact Outcome.ensures_pure.mpr (.of_heap rfl rfl)
  | acquiring p =>
    refine Outcome.ensures_bind.mpr ((update_alike locked).mono fun next alike => ?_)
    exact Outcome.ensures_pure.mpr alike
  | leaving p =>
    refine Outcome.ensures_bind.mpr (AtomicLock.release_ensures.mpr fun _ => ?_)
    exact Outcome.ensures_pure.mpr (.of_heap rfl rfl)

/-- `proc_get` waits only for the lock of a process that it has found in the table. -/
theorem procGetStep_found {cur : Thread} {pc : GetPc Id} :
    (k.procGetStep cur pc).Ensures fun (result, _) => ∀ p, result = .more (.acquiring p) →
      ∃ pid, pc = .looking pid ∧ k.pTable pid = some p := by
  cases pc with
  | entering pid =>
    refine Outcome.ensures_bind.mpr (AtomicLock.acquire_ensures.mpr fun _ => ?_)
    exact Outcome.ensures_pure.mpr (by simp)
  | looking pid =>
    dsimp only [procGetStep]
    split
    · rename_i q named
      refine Outcome.ensures_bind.mpr (Outcome.ensures_deref.mpr fun _ _ => ?_)
      refine Outcome.ensures_pure.mpr fun p same => ?_
      obtain rfl : q = p := by simpa using same
      exact ⟨pid, rfl, named⟩
    · refine Outcome.ensures_bind.mpr (AtomicLock.release_ensures.mpr fun _ => ?_)
      exact Outcome.ensures_pure.mpr (by simp)
  | acquiring p =>
    refine Outcome.ensures_bind.mpr fun _ _ => ?_
    exact Outcome.ensures_pure.mpr (by simp)
  | leaving p =>
    refine Outcome.ensures_bind.mpr (AtomicLock.release_ensures.mpr fun _ => ?_)
    exact Outcome.ensures_pure.mpr (by simp)

theorem lockRelease_alike {cur : Thread} :
    (k.update p fun proc => proc.lockRelease cur).Ensures k.Alike := by
  refine update_alike fun proc => ?_
  simp only [Proc.lockRelease, Outcome.ensures_bind, Outcome.ensures_deref,
    AtomicLock.release_ensures, Outcome.ensures_pure]
  intro lock found _
  exact ⟨rfl, by simp [found], rfl, rfl⟩

end Kernel

end Os161
