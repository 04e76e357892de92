import Os161.Proc.Process

/-!
# Exit and wait

`sys_exit` in the children of one process against `___waitpid` in the process itself, which has a
single thread. Any number of children exit, in any order of the steps. The other processes of the
table stand still.
-/

namespace Os161.WaitExit

variable {Id : Type}

inductive Thread (Id : Type) where
  | parent
  | child (c : Id)
  deriving DecidableEq

/-- Where a child is: nowhere, in user mode, at a step of `sys_exit`, or in its `thread_exit`. -/
inductive ChildPc where
  | absent
  | running
  -- past close_all_f
  | closed (code : BitVec 32)
  -- with p->lock held, then past p_retval, past p_is_dead and past the V
  | locked (code : BitVec 32)
  | stored (code : BitVec 32)
  | dead (code : BitVec 32)
  | posted (code : BitVec 32)
  -- the branch without a parent, past its lock_release
  | orphan (code : BitVec 32)
  | destroying (code : BitVec 32) (pid : Fin 32) (stage : Stage)
  | exited (code : BitVec 32)
  deriving DecidableEq

/-- The branches of `___waitpid` under the first `p->lock`. -/
inductive Branch where
  | notChild
  | alive
  | wait
  deriving DecidableEq

/-- Where the parent is in `___waitpid`. -/
inductive ParentPc (Id : Type) where
  | running
  | getting (pc : GetPc Id)
  -- with the lock that proc_get has acquired
  | checking (p : Id)
  | releasing (p : Id) (branch : Branch)
  | waiting (p : Id)
  | taken (p : Id)
  | reading (p : Id)
  | unlocking (p : Id) (status : BitVec 32)
  -- in proc_destroy, before and after it copies the pid
  | unlocked (p : Id) (status : BitVec 32)
  | destroying (p : Id) (status : BitVec 32) (pid : Fin 32) (stage : Stage)
  deriving DecidableEq

/-- What a call of `___waitpid` returns: an error, 0 for a child that is alive, or 0 with the status
of the child that it has destroyed. -/
inductive Returned (Id : Type) where
  | error (err : Errno)
  | alive
  | reaped (c : Id) (status : BitVec 32)

structure Call (Id : Type) where
  pid : Int
  options : Int
  returned : Returned Id

structure State (Id : Type) where
  kernel : Kernel Id (Thread Id) Nat
  childPc : Id → ChildPc
  parentPc : ParentPc Id
  pid : Int
  options : Int
  calls : List (Call Id)

inductive Action (Id : Type) where
  | waitpid (pid options : Int)
  | parent
  | exit (c : Id) (code : BitVec 32)
  | child (c : Id)

def wnohang : Int := 1

/-- `_MKWAIT_EXIT`. -/
def mkwaitExit (code : BitVec 32) : BitVec 32 := code <<< 2 ||| 0

def State.finish (s : State Id) (returned : Returned Id) : State Id :=
  { s with parentPc := .running, calls := s.calls ++ [⟨s.pid, s.options, returned⟩] }

section Step

variable [DecidableEq Id]

def sysExit (s : State Id) (c : Id) (code : BitVec 32) : Outcome (State Id) := do
  Outcome.await (s.childPc c = .running)
  let kernel ← s.kernel.update c Proc.closeAllF
  return { s with kernel := kernel, childPc := Function.update s.childPc c (.closed code) }

def childStep (s : State Id) (c : Id) : Outcome (State Id) :=
  let goOn (kernel : Kernel Id (Thread Id) Nat) (pc : ChildPc) : State Id :=
    { s with kernel := kernel, childPc := Function.update s.childPc c pc }
  match s.childPc c with
  | .absent | .running | .exited _ => .blocked
  | .closed code => do
    return goOn (← s.kernel.update c fun p => p.lockAcquire (.child c)) (.locked code)
  | .locked code => do
    return goOn (← s.kernel.update c fun p => pure { p with pRetval := code }) (.stored code)
  | .stored code => do
    return goOn (← s.kernel.update c fun p => pure { p with pIsDead := true }) (.dead code)
  | .dead code => do
    let p ← Outcome.deref (s.kernel.heap c)
    if p.pProc = none then
      return goOn (← s.kernel.update c fun p => p.lockRelease (.child c)) (.orphan code)
    else
      return goOn (← s.kernel.update c Proc.semV) (.posted code)
  | .posted code => do
    return goOn (← s.kernel.update c fun p => p.lockRelease (.child c)) (.exited code)
  | .orphan code => do
    let p ← Outcome.deref (s.kernel.heap c)
    return goOn s.kernel (.destroying code p.pPid .sem)
  | .destroying code pid stage => do
    let kernel ← s.kernel.procDestroyStep c pid stage
    match stage.next with
    | some stage => return goOn kernel (.destroying code pid stage)
    | none => return goOn kernel (.exited code)

/-- `___waitpid` up to the argument checks of `proc_get`. -/
def waitpid (s : State Id) (pid options : Int) : Outcome (State Id) := do
  Outcome.await (s.parentPc = .running)
  let s := { s with pid := pid, options := options }
  if options ≠ 0 ∧ options ≠ wnohang then
    return s.finish (.error .einval)
  else
    match Kernel.procGetStart pid with
    | .error err => return s.finish (.error err)
    | .ok pc => return { s with parentPc := .getting pc }

def parentStep (par : Id) (s : State Id) : Outcome (State Id) :=
  let goOn (kernel : Kernel Id (Thread Id) Nat) (pc : ParentPc Id) : State Id :=
    { s with kernel := kernel, parentPc := pc }
  match s.parentPc with
  | .running => .blocked
  | .getting pc => do
    let (result, kernel) ← s.kernel.procGetStep .parent pc
    match result with
    | .more pc => return goOn kernel (.getting pc)
    | .error err => return { s with kernel := kernel }.finish (.error err)
    | .found p => return goOn kernel (.checking p)
  | .checking p => do
    let proc ← Outcome.deref (s.kernel.heap p)
    if proc.pProc ≠ some par then
      return goOn s.kernel (.releasing p .notChild)
    else if proc.pIsDead = false ∧ s.options = wnohang then
      return goOn s.kernel (.releasing p .alive)
    else
      return goOn s.kernel (.releasing p .wait)
  | .releasing p branch => do
    let kernel ← s.kernel.update p fun proc => proc.lockRelease .parent
    match branch with
    | .notChild => return { s with kernel := kernel }.finish (.error .echild)
    | .alive => return { s with kernel := kernel }.finish .alive
    | .wait => return goOn kernel (.waiting p)
  | .waiting p => do
    return goOn (← s.kernel.update p Proc.semP) (.taken p)
  | .taken p => do
    return goOn (← s.kernel.update p fun proc => proc.lockAcquire .parent) (.reading p)
  | .reading p => do
    let proc ← Outcome.deref (s.kernel.heap p)
    Outcome.kassert (proc.pIsDead = true)
    return goOn s.kernel (.unlocking p (mkwaitExit proc.pRetval))
  | .unlocking p status => do
    return goOn (← s.kernel.update p fun proc => proc.lockRelease .parent) (.unlocked p status)
  | .unlocked p status => do
    let proc ← Outcome.deref (s.kernel.heap p)
    return goOn s.kernel (.destroying p status proc.pPid .sem)
  | .destroying p status pid stage => do
    let kernel ← s.kernel.procDestroyStep p pid stage
    match stage.next with
    | some stage => return goOn kernel (.destroying p status pid stage)
    | none => return { s with kernel := kernel }.finish (.reaped p status)

def step (par : Id) (s : State Id) : Action Id → Outcome (State Id)
  | .waitpid pid options => waitpid s pid options
  | .parent => parentStep par s
  | .exit c code => sysExit s c code
  | .child c => childStep s c

/-- A parent and the pids of its children. -/
structure Family (Id : Type) where
  par : Id
  pidOf : Id → Fin 32

/-- The processes that can be waited for: the children are new and in user mode, every child in the
table is among them, and nobody is in a call. -/
structure Start (fam : Family Id) (s : State Id) : Prop where
  child : ∀ c, s.childPc c ≠ .absent → s.childPc c = .running ∧ ∃ p, s.kernel.heap c = some p ∧
    p.pPid = fam.pidOf c ∧ p.pProc = some fam.par ∧ p.lock = some none ∧ p.pSem = some 0 ∧
    p.pFd ≠ none ∧ p.pIsDead = false ∧ ∀ i, s.kernel.pTable i = some c ↔ i = p.pPid
  stranger : ∀ i c, s.kernel.pTable i = some c → s.childPc c = .absent →
    ∃ p, s.kernel.heap c = some p ∧ p.pProc ≠ some fam.par ∧ p.lock = some none
  idle : s.parentPc = .running ∧ s.kernel.lkAllproc = none ∧ s.calls = []

def machine (fam : Family Id) : Machine (State Id) (Action Id) where
  initial := Start fam
  step := step fam.par

end Step

/-! ### The invariant -/

/-- The child holds `p->lock`. -/
def ChildPc.holds : ChildPc → Bool
  | .locked _ | .stored _ | .dead _ | .posted _ => true
  | _ => false

/-- How often the child has posted `p_sem`. -/
def ChildPc.posts : ChildPc → Nat
  | .posted _ | .exited _ => 1
  | _ => 0

def ChildPc.isDead : ChildPc → Bool
  | .dead _ | .posted _ | .exited _ => true
  | _ => false

/-- The code in `p_retval`, once it is there. -/
def ChildPc.code : ChildPc → Option (BitVec 32)
  | .stored code | .dead code | .posted code | .exited code => some code
  | _ => none

/-- The child goes through the branch of `sys_exit` for a process with a parent. -/
def ChildPc.hasParent : ChildPc → Bool
  | .orphan _ | .destroying _ _ _ => false
  | _ => true

/-- The parent holds `lk_allproc`. -/
def ParentPc.inTable : ParentPc Id → Bool
  | .getting (.looking _) | .getting (.acquiring _) | .getting (.leaving _) => true
  | _ => false

/-- The process whose lock the parent holds. -/
def ParentPc.holds : ParentPc Id → Option Id
  | .getting (.leaving p) | .checking p | .releasing p _ | .reading p | .unlocking p _ => some p
  | _ => none

/-- The process whose semaphore the parent has taken, while that process is whole. -/
def ParentPc.took : ParentPc Id → Option Id
  | .taken p | .reading p | .unlocking p _ | .unlocked p _ => some p
  | _ => none

/-- The process that the parent takes apart. -/
def ParentPc.tears : ParentPc Id → Option Id
  | .destroying p _ _ _ => some p
  | _ => none

def Call.reaps (call : Call Id) : Option Id :=
  match call.returned with
  | .reaped c _ => some c
  | _ => none

/-- What is left of a process at a stage of its `proc_destroy`. -/
def Torn (p : Option (Proc Id (Thread Id) Nat)) : Stage → Prop
  | .sem => ∃ q n, p = some q ∧ q.pSem = some n ∧ q.lock = some none ∧ q.pFd = some 0
  | .lock => ∃ q, p = some q ∧ q.lock = some none ∧ q.pFd = some 0
  | .fd => ∃ q, p = some q ∧ q.pFd = some 0
  | .free => ∃ q, p = some q
  | .pid => p = none

/-- The child has executed `sys_exit` and the status is that of its code. -/
def Exited (s : State Id) (c : Id) (status : BitVec 32) : Prop :=
  ∃ code, s.childPc c = .exited code ∧ status = mkwaitExit code

def InTable (s : State Id) (p : Id) : Prop := ∃ i, s.kernel.pTable i = some p

/-- The table has the process at the slot that the call asks for. -/
def Named (s : State Id) (p : Id) : Prop :=
  ∃ i, s.kernel.pTable i = some p ∧ (i.val : Int) = s.pid

/-- What the parent knows at its place. -/
def Knows (fam : Family Id) (s : State Id) : ParentPc Id → Prop
  | .running => True
  | .getting (.entering pid) | .getting (.looking pid) => (pid.val : Int) = s.pid
  | .getting (.acquiring p) | .getting (.leaving p) | .checking p => Named s p
  | .releasing p branch => Named s p ∧ (branch = .wait → s.childPc p ≠ .absent) ∧
      (branch = .alive → s.options = wnohang)
  | .waiting p | .taken p | .reading p => Named s p ∧ s.childPc p ≠ .absent
  | .unlocking p status | .unlocked p status => Named s p ∧ Exited s p status
  | .destroying p status pid stage => ((pid.val : Int) = s.pid ∧ pid = fam.pidOf p ∧
      ∀ i, s.kernel.pTable i = some p ↔ i = pid) ∧ Exited s p status ∧ Torn (s.kernel.heap p) stage

variable [DecidableEq Id]

/-- A child that nobody has begun to destroy, seen with the places of the child and the parent. -/
structure Whole (fam : Family Id) (pTable : Fin 32 → Option Id) (pc : ChildPc) (parentPc : ParentPc Id)
    (c : Id) (p : Proc Id (Thread Id) Nat) : Prop where
  parent : p.pProc = some fam.par
  pid : p.pPid = fam.pidOf c
  table : ∀ i, pTable i = some c ↔ i = p.pPid
  lock : p.lock = some (if pc.holds then some (.child c)
    else if parentPc.holds = some c then some .parent else none)
  apart : pc.holds = true → parentPc.holds ≠ some c
  sem : ∃ n, p.pSem = some n ∧ n + (if parentPc.took = some c then 1 else 0) = pc.posts
  fd : ∃ n, p.pFd = some n ∧ (pc = .running ∨ n = 0)
  dead : p.pIsDead = pc.isDead
  retval : ∀ code, pc.code = some code → p.pRetval = code
  hasParent : pc.hasParent = true

structure Inv (fam : Family Id) (s : State Id) : Prop where
  whole : ∀ c p, s.childPc c ≠ .absent → s.kernel.heap c = some p → s.parentPc.tears ≠ some c →
    Whole fam s.kernel.pTable (s.childPc c) s.parentPc c p
  stranger : ∀ c, InTable s c → s.childPc c = .absent → ∃ p, s.kernel.heap c = some p ∧
    p.pProc ≠ some fam.par ∧ p.lock = some (if s.parentPc.holds = some c then some .parent else none)
  /-- A child is freed after its `sys_exit`, and by the `___waitpid` that reaps it. -/
  freed : ∀ c, s.childPc c ≠ .absent → s.kernel.heap c = none →
    (∃ code, s.childPc c = .exited code) ∧
      (s.parentPc.tears = some c ∨ c ∈ s.calls.filterMap Call.reaps)
  allproc : s.kernel.lkAllproc = if s.parentPc.inTable then some .parent else none
  knows : Knows fam s s.parentPc
  reaped : ∀ call ∈ s.calls, ∀ c status, call.returned = .reaped c status →
    call.pid = fam.pidOf c ∧ Exited s c status ∧ s.kernel.heap c = none ∧ ¬ InTable s c
  once : (s.calls.filterMap Call.reaps).Nodup
  alive : ∀ call ∈ s.calls, call.returned = .alive → call.options = wnohang

variable {fam : Family Id} {s : State Id}

theorem start_inv (h : Start fam s) : Inv fam s := by
  obtain ⟨running, unlocked, noCalls⟩ := h.idle
  refine ⟨fun c p present found _ => ?_, fun c entry absent => ?_, fun c present gone => ?_,
    by simp [running, unlocked, ParentPc.inTable], by simp [running, Knows], by simp [noCalls],
    by simp [noCalls], by simp [noCalls]⟩
  · obtain ⟨pc, q, heap, pid, parent, lock, sem, fd, dead, table⟩ := h.child c present
    obtain rfl : q = p := Option.some.inj (heap.symm.trans found)
    obtain ⟨n, files⟩ := Option.ne_none_iff_exists'.mp fd
    exact ⟨parent, pid, table, by simp [lock, pc, running, ChildPc.holds, ParentPc.holds],
      by simp [pc, ChildPc.holds], ⟨0, by simp [sem, pc, running, ChildPc.posts, ParentPc.took]⟩,
      ⟨n, files, Or.inl pc⟩, by simp [dead, pc, ChildPc.isDead], by simp [pc, ChildPc.code],
      by simp [pc, ChildPc.hasParent]⟩
  · obtain ⟨i, found⟩ := entry
    obtain ⟨p, heap, parent, lock⟩ := h.stranger i c found absent
    exact ⟨p, heap, parent, by simp [lock, running, ParentPc.holds]⟩
  · obtain ⟨_, p, heap, _⟩ := h.child c present
    rw [gone] at heap
    cases heap

/-- A step of a child that has not finished its `sys_exit`. -/
theorem Inv.childMove (h : Inv fam s) {c : Id} {p : Proc Id (Thread Id) Nat} {pc : ChildPc}
    (present : s.childPc c ≠ .absent) (unfinished : ∀ code, s.childPc c ≠ .exited code)
    (notAbsent : pc ≠ .absent) (whole : Whole fam s.kernel.pTable pc s.parentPc c p) :
    Inv fam { s with
      kernel := { s.kernel with heap := Function.update s.kernel.heap c (some p) }
      childPc := Function.update s.childPc c pc } := by
  -- whoever has exited is not the child that moves
  have exited : ∀ d status, Exited s d status → d ≠ c := by
    intro d status exited same
    obtain ⟨code, atExit, _⟩ := exited
    exact unfinished code (same ▸ atExit)
  have kept : ∀ d status, Exited s d status → Exited { s with
      kernel := { s.kernel with heap := Function.update s.kernel.heap c (some p) }
      childPc := Function.update s.childPc c pc } d status := by
    intro d status was
    have other := exited d status was
    obtain ⟨code, atExit, value⟩ := was
    exact ⟨code, by simpa [other] using atExit, value⟩
  have stays : ∀ d, s.childPc d ≠ .absent → Function.update s.childPc c pc d ≠ .absent := by
    intro d was
    by_cases same : d = c
    · simpa [same] using notAbsent
    · simpa [same] using was
  refine ⟨fun d q presentD found notTorn => ?_, fun d entry absent => ?_, fun d presentD gone => ?_,
    h.allproc, ?_, fun call member d status returned => ?_, h.once, h.alive⟩
  · dsimp only at *
    by_cases same : d = c
    · subst same
      rw [Function.update_self] at found ⊢
      obtain rfl := Option.some.inj found
      exact whole
    · rw [Function.update_of_ne same] at presentD found ⊢
      exact h.whole d q presentD found notTorn
  · dsimp only at *
    have other : d ≠ c := by
      intro same
      rw [same, Function.update_self] at absent
      exact notAbsent absent
    rw [Function.update_of_ne other] at absent ⊢
    exact h.stranger d entry absent
  · dsimp only at *
    have other : d ≠ c := by
      intro same
      rw [same, Function.update_self] at gone
      cases gone
    rw [Function.update_of_ne other] at presentD gone ⊢
    exact h.freed d presentD gone
  · have knows := h.knows
    dsimp only
    cases place : s.parentPc with
    | running => trivial
    | getting pc' =>
      rw [place] at knows
      cases pc' <;> exact knows
    | checking q => rw [place] at knows; exact knows
    | releasing q branch =>
      rw [place] at knows
      exact ⟨knows.1, fun wait => stays q (knows.2.1 wait), knows.2.2⟩
    | waiting q => rw [place] at knows; exact ⟨knows.1, stays q knows.2⟩
    | taken q => rw [place] at knows; exact ⟨knows.1, stays q knows.2⟩
    | reading q => rw [place] at knows; exact ⟨knows.1, stays q knows.2⟩
    | unlocking q status => rw [place] at knows; exact ⟨knows.1, kept q status knows.2⟩
    | unlocked q status => rw [place] at knows; exact ⟨knows.1, kept q status knows.2⟩
    | destroying q status pid stage =>
      rw [place] at knows
      have other := exited q status knows.2.1
      refine ⟨knows.1, kept q status knows.2.1, ?_⟩
      dsimp only
      rw [Function.update_of_ne other]
      exact knows.2.2
  · obtain ⟨pid, was, gone, away⟩ := h.reaped call member d status returned
    have other := exited d status was
    exact ⟨pid, kept d status was, by simpa [other] using gone, away⟩

/-- A child that has not finished its `sys_exit` is whole. -/
theorem Inv.atWork (h : Inv fam s) {c : Id} (present : s.childPc c ≠ .absent)
    (unfinished : ∀ code, s.childPc c ≠ .exited code) : ∃ p, s.kernel.heap c = some p ∧
      Whole fam s.kernel.pTable (s.childPc c) s.parentPc c p := by
  cases found : s.kernel.heap c with
  | none =>
    obtain ⟨⟨code, exited⟩, _⟩ := h.freed c present found
    exact (unfinished code exited).elim
  | some p =>
    refine ⟨p, rfl, h.whole c p present found fun tears => ?_⟩
    have knows := h.knows
    cases place : s.parentPc with
    | destroying q status pid stage =>
      rw [place] at knows tears
      obtain rfl : q = c := Option.some.inj tears
      obtain ⟨code, exited, _⟩ := knows.2.1
      exact unfinished code exited
    | _ => rw [place] at tears; cases tears

theorem sysExit_inv (h : Inv fam s) {c : Id} {code : BitVec 32} :
    (sysExit s c code).Meets (Inv fam) := by
  refine Outcome.meets_bind.mpr (Outcome.meets_await.mpr fun running => ?_)
  have present : s.childPc c ≠ .absent := by simp [running]
  have unfinished : ∀ code, s.childPc c ≠ .exited code := by simp [running]
  obtain ⟨p, found, whole⟩ := h.atWork present unfinished
  rw [running] at whole
  obtain ⟨n, files, _⟩ := whole.fd
  refine Outcome.meets_bind.mpr (Kernel.update_meets.mpr ⟨p, found,
    Proc.closeAllF_meets.mpr ⟨⟨n, files⟩, ?_⟩⟩)
  exact h.childMove present unfinished (by simp) { whole with fd := ⟨0, rfl, Or.inr rfl⟩ }

theorem childStep_inv (h : Inv fam s) {c : Id} : (childStep s c).Meets (Inv fam) := by
  by_cases present : s.childPc c = .absent
  · simp [childStep, present]
  by_cases finished : ∃ code, s.childPc c = .exited code
  · obtain ⟨code, finished⟩ := finished
    simp [childStep, finished]
  have unfinished : ∀ code, s.childPc c ≠ .exited code := fun code eq => finished ⟨code, eq⟩
  obtain ⟨p, found, whole⟩ := h.atWork present unfinished
  obtain ⟨n, sem, balance⟩ := whole.sem
  have closed : s.childPc c ≠ .running → p.pFd = some 0 := by
    intro working
    obtain ⟨n, files, none⟩ := whole.fd
    rw [files, none.resolve_left working]
  have move : ∀ (pc : ChildPc) (q : Proc Id (Thread Id) Nat), pc ≠ .absent →
      Whole fam s.kernel.pTable pc s.parentPc c q → Inv fam _ :=
    fun _ _ notAbsent whole => h.childMove present unfinished notAbsent whole
  unfold childStep
  cases pc : s.childPc c with
  | absent => trivial
  | running => trivial
  | exited code => trivial
  | closed code =>
    rw [pc] at whole closed balance
    refine Outcome.meets_bind.mpr (Kernel.update_meets.mpr ⟨p, found,
      Proc.lockAcquire_meets.mpr ⟨_, whole.lock, ?_, fun free => move _ _ (by simp) ?_⟩⟩)
    · split <;> simp_all [ChildPc.holds]
    · have notHeld : s.parentPc.holds ≠ some c := by
        intro held
        simp [ChildPc.holds, held] at free
      exact { whole with
        lock := by simp [ChildPc.holds]
        apart := fun _ => notHeld
        fd := ⟨0, closed (by simp), Or.inr rfl⟩
        retval := by simp [ChildPc.code] }
  | locked code =>
    rw [pc] at whole closed balance
    refine Outcome.meets_bind.mpr (Kernel.update_meets.mpr ⟨p, found, move _ _ (by simp) ?_⟩)
    exact { whole with
      fd := ⟨0, closed (by simp), Or.inr rfl⟩
      retval := by simp [ChildPc.code] }
  | stored code =>
    rw [pc] at whole closed balance
    refine Outcome.meets_bind.mpr (Kernel.update_meets.mpr ⟨p, found, move _ _ (by simp) ?_⟩)
    exact { whole with
      fd := ⟨0, closed (by simp), Or.inr rfl⟩
      dead := rfl }
  | dead code =>
    rw [pc] at whole closed balance
    have parent : p.pProc ≠ none := by simp [whole.parent]
    refine Outcome.meets_bind.mpr (Outcome.meets_deref.mpr ⟨p, found, ?_⟩)
    rw [if_neg parent]
    refine Outcome.meets_bind.mpr (Kernel.update_meets.mpr ⟨p, found,
      Proc.semV_meets.mpr ⟨n, sem, move _ _ (by simp) ?_⟩⟩)
    exact { whole with
      fd := ⟨0, closed (by simp), Or.inr rfl⟩
      sem := ⟨n + 1, rfl, by simp only [ChildPc.posts] at balance ⊢; omega⟩ }
  | posted code =>
    rw [pc] at whole closed balance
    refine Outcome.meets_bind.mpr (Kernel.update_meets.mpr ⟨p, found,
      Proc.lockRelease_meets.mpr ⟨by simp [whole.lock, ChildPc.holds], move _ _ (by simp) ?_⟩⟩)
    have notHeld := whole.apart rfl
    exact { whole with
      lock := by simp [ChildPc.holds, notHeld]
      apart := by simp [ChildPc.holds]
      fd := ⟨0, closed (by simp), Or.inr rfl⟩ }
  | orphan code =>
    rw [pc] at whole
    cases whole.hasParent
  | destroying code pid stage =>
    rw [pc] at whole
    cases whole.hasParent

/-- A step of the parent that changes no process. -/
theorem Inv.parentStays (h : Inv fam s) {lk : AtomicLock (Thread Id)} {pc : ParentPc Id}
    (notTearing : s.parentPc.tears = none ∧ pc.tears = none)
    (holds : pc.holds = s.parentPc.holds) (took : pc.took = s.parentPc.took)
    (allproc : lk = if pc.inTable then some .parent else none) (knows : Knows fam s pc) :
    Inv fam { s with kernel := { s.kernel with lkAllproc := lk }, parentPc := pc } where
  whole c p present found _ := by
    have whole := h.whole c p present found (by simp [notTearing])
    exact { whole with
      lock := by simpa [holds] using whole.lock
      apart := by simpa [holds] using whole.apart
      sem := by simpa [took] using whole.sem }
  stranger c entry absent := by simpa [holds] using h.stranger c entry absent
  freed c present gone := by
    obtain ⟨exited, torn | reaped⟩ := h.freed c present gone
    · rw [notTearing.1] at torn
      cases torn
    · exact ⟨exited, Or.inr reaped⟩
  allproc := allproc
  knows := by
    cases pc with
    | getting pc => cases pc <;> exact knows
    | _ => exact knows
  reaped := h.reaped
  once := h.once
  alive := h.alive

/-- A step of the parent that changes the process `p`. -/
theorem Inv.parentMoves (h : Inv fam s) {p : Id} {old new : Proc Id (Thread Id) Nat} {pc : ParentPc Id}
    (found : s.kernel.heap p = some old) (notTearing : s.parentPc.tears = none ∧ pc.tears = none)
    (others : ∀ c, c ≠ p → (s.parentPc.holds ≠ some c ∧ pc.holds ≠ some c) ∧
      s.parentPc.took ≠ some c ∧ pc.took ≠ some c)
    (allproc : pc.inTable = s.parentPc.inTable)
    (whole : s.childPc p ≠ .absent → Whole fam s.kernel.pTable (s.childPc p) pc p new)
    (stranger : s.childPc p = .absent → new.pProc = old.pProc ∧
      new.lock = some (if pc.holds = some p then some .parent else none)) (knows : Knows fam s pc) :
    Inv fam { s with
      kernel := { s.kernel with heap := Function.update s.kernel.heap p (some new) }
      parentPc := pc } where
  whole c q present foundC _ := by
    by_cases same : c = p
    · subst same
      obtain rfl : new = q := by simpa using foundC
      exact whole present
    · have before := h.whole c q present (by simpa [same] using foundC) (by simp [notTearing])
      obtain ⟨⟨held, holds⟩, taken, takes⟩ := others c same
      exact { before with
        lock := by simpa [held, holds] using before.lock
        apart := fun _ => holds
        sem := by simpa [taken, takes] using before.sem }
  stranger c entry absent := by
    obtain ⟨q, foundC, parent, lock⟩ := h.stranger c entry absent
    by_cases same : c = p
    · subst same
      obtain rfl : old = q := Option.some.inj (found.symm.trans foundC)
      obtain ⟨keeps, locked⟩ := stranger absent
      exact ⟨new, by simp, by rw [keeps]; exact parent, locked⟩
    · obtain ⟨⟨held, holds⟩, _⟩ := others c same
      exact ⟨q, by simpa [same] using foundC, parent, by simpa [held, holds] using lock⟩
  freed c present gone := by
    have other : c ≠ p := by
      rintro rfl
      simp at gone
    obtain ⟨exited, torn | reaped⟩ := h.freed c present (by simpa [other] using gone)
    · rw [notTearing.1] at torn
      cases torn
    · exact ⟨exited, Or.inr reaped⟩
  allproc := by
    rw [allproc]
    exact h.allproc
  knows := by
    cases pc with
    | destroying => cases notTearing.2
    | getting pc => cases pc <;> exact knows
    | _ => exact knows
  reaped call member c status returned := by
    obtain ⟨pid, exited, gone, away⟩ := h.reaped call member c status returned
    have other : c ≠ p := by
      rintro rfl
      rw [found] at gone
      cases gone
    exact ⟨pid, exited, by simpa [other] using gone, away⟩
  once := h.once
  alive := h.alive

/-- A call returns without having destroyed a child. -/
theorem Inv.finish {returned : Returned Id} (h : Inv fam { s with parentPc := .running })
    (quiet : ∀ c status, returned ≠ .reaped c status)
    (options : returned = .alive → s.options = wnohang) : Inv fam (s.finish returned) where
  whole := h.whole
  stranger := h.stranger
  freed c present gone := by
    obtain ⟨exited, torn | reaped⟩ := h.freed c present gone
    · cases torn
    · exact ⟨exited, Or.inr (by simpa [State.finish] using Or.inl reaped)⟩
  allproc := h.allproc
  knows := trivial
  reaped call member c status value := by
    rcases List.mem_append.mp member with old | new
    · exact h.reaped call old c status value
    · obtain rfl := List.mem_singleton.mp new
      exact (quiet c status value).elim
  once := by
    have nothing : Call.reaps (⟨s.pid, s.options, returned⟩ : Call Id) = none := by
      cases returned with
      | reaped c status => exact (quiet c status rfl).elim
      | _ => rfl
    simpa [State.finish, nothing] using h.once
  alive call member value := by
    rcases List.mem_append.mp member with old | new
    · exact h.alive call old value
    · obtain rfl := List.mem_singleton.mp new
      exact options value

theorem waitpid_inv (h : Inv fam s) {pid options : Int} : (waitpid s pid options).Meets (Inv fam) := by
  refine Outcome.meets_bind.mpr (Outcome.meets_await.mpr fun running => ?_)
  have idle : Inv fam { s with pid := pid, options := options, parentPc := .running } :=
    ⟨by simpa [running] using h.whole,
      fun c entry absent => by simpa [running] using h.stranger c entry absent,
      fun c present gone => by simpa [running] using h.freed c present gone, by simpa [running] using h.allproc, trivial, h.reaped,
      h.once, h.alive⟩
  split_ifs
  · exact Inv.finish idle (by simp) (by simp)
  · split
    · exact Inv.finish idle (by simp) (by simp)
    · rename_i pc start
      obtain ⟨slot, rfl, value⟩ := Kernel.procGetStart_ok start
      exact idle.parentStays ⟨rfl, rfl⟩ rfl rfl idle.allproc value

theorem Inv.reaped_away (h : Inv fam s) {c : Id} (reaped : c ∈ s.calls.filterMap Call.reaps) :
    ¬ InTable s c := by
  obtain ⟨call, member, reaps⟩ := List.mem_filterMap.mp reaped
  cases value : call.returned with
  | reaped d status =>
    obtain rfl : d = c := by simpa [Call.reaps, value] using reaps
    exact (h.reaped call member d status value).2.2.2
  | _ => simp [Call.reaps, value] at reaps

omit [DecidableEq Id] in
theorem Named.inTable {p : Id} (h : Named s p) : InTable s p := by
  obtain ⟨i, entry, _⟩ := h
  exact ⟨i, entry⟩

/-- What the table names is allocated, unless the parent takes it apart. -/
theorem Inv.entry (h : Inv fam s) (notTearing : s.parentPc.tears = none) {p : Id}
    (entry : InTable s p) : ∃ proc, s.kernel.heap p = some proc ∧
      proc.lock = some (if (s.childPc p).holds then some (.child p)
        else if s.parentPc.holds = some p then some .parent else none) ∧
      (proc.pProc = some fam.par → s.childPc p ≠ .absent) := by
  by_cases absent : s.childPc p = .absent
  · obtain ⟨proc, found, parent, lock⟩ := h.stranger p entry absent
    exact ⟨proc, found, by simpa [absent, ChildPc.holds] using lock, fun same => (parent same).elim⟩
  · cases found : s.kernel.heap p with
    | none =>
      rcases (h.freed p absent found).2 with torn | reaped
      · rw [notTearing] at torn
        cases torn
      · exact (h.reaped_away reaped entry).elim
    | some proc =>
      have whole := h.whole p proc absent found (by simp [notTearing])
      exact ⟨proc, rfl, whole.lock, fun _ => absent⟩

theorem getting_inv (h : Inv fam s) {pc : GetPc Id} (place : s.parentPc = .getting pc) :
    (parentStep fam.par s).Meets (Inv fam) := by
  have allproc := h.allproc
  have knows := h.knows
  rw [place] at allproc knows
  have idle : s.parentPc.tears = none := by simp [place, ParentPc.tears]
  unfold parentStep
  rw [place]
  refine Outcome.meets_bind.mpr ?_
  cases pc with
  | entering pid =>
    refine Outcome.meets_bind.mpr (AtomicLock.acquire_meets.mpr ⟨?_, fun _ => ?_⟩)
    · simp [allproc, ParentPc.inTable]
    · exact h.parentStays ⟨idle, rfl⟩ (by simp [place, ParentPc.holds])
        (by simp [place, ParentPc.took]) rfl knows
  | looking pid =>
    dsimp only [Kernel.procGetStep]
    split
    · rename_i p entry
      obtain ⟨proc, found, _⟩ := h.entry idle ⟨pid, entry⟩
      refine Outcome.meets_bind.mpr (Outcome.meets_deref.mpr ⟨proc, found, ?_⟩)
      exact h.parentStays ⟨idle, rfl⟩ (by simp [place, ParentPc.holds])
        (by simp [place, ParentPc.took]) allproc ⟨pid, entry, knows⟩
    · refine Outcome.meets_bind.mpr (AtomicLock.release_meets.mpr ⟨allproc, ?_⟩)
      refine Inv.finish (s := { s with kernel := { s.kernel with lkAllproc := none } }) ?_
        (by simp) (by simp)
      exact h.parentStays ⟨idle, rfl⟩ (by simp [place, ParentPc.holds])
        (by simp [place, ParentPc.took]) rfl trivial
  | acquiring p =>
    obtain ⟨proc, found, lock, child⟩ := h.entry idle (Named.inTable knows)
    refine Outcome.meets_bind.mpr (Kernel.update_meets.mpr ⟨proc, found,
      Proc.lockAcquire_meets.mpr ⟨_, lock, ?_, fun free => ?_⟩⟩)
    · rw [place]
      split <;> simp [ParentPc.holds]
    · have apart : (s.childPc p).holds = false := by
        cases holds : (s.childPc p).holds with
        | false => rfl
        | true => simp [holds] at free
      refine h.parentMoves found ⟨idle, rfl⟩ ?_ (by simp [place, ParentPc.inTable])
        (fun present => ?_) (fun absent => ⟨rfl, by simp [ParentPc.holds]⟩) knows
      · intro c other
        simp [place, ParentPc.holds, ParentPc.took, other.symm]
      · have whole := h.whole p proc present found (by simp [idle])
        exact { whole with
          lock := by simp [apart, ParentPc.holds]
          apart := by simp [apart]
          sem := by simpa [place, ParentPc.took] using whole.sem }
  | leaving p =>
    refine Outcome.meets_bind.mpr (AtomicLock.release_meets.mpr ⟨allproc, ?_⟩)
    exact h.parentStays ⟨idle, rfl⟩ (by simp [place, ParentPc.holds])
      (by simp [place, ParentPc.took]) rfl knows

theorem checking_inv (h : Inv fam s) {p : Id} (place : s.parentPc = .checking p) :
    (parentStep fam.par s).Meets (Inv fam) := by
  have knows := h.knows
  have allproc := h.allproc
  rw [place] at knows allproc
  have idle : s.parentPc.tears = none := by simp [place, ParentPc.tears]
  obtain ⟨proc, found, _, child⟩ := h.entry idle (Named.inTable knows)
  have move : ∀ branch, Knows fam s (.releasing p branch) →
      Inv fam { s with parentPc := .releasing p branch } :=
    fun branch => h.parentStays ⟨idle, rfl⟩ (by simp [place, ParentPc.holds])
      (by simp [place, ParentPc.took]) allproc
  unfold parentStep
  rw [place]
  refine Outcome.meets_bind.mpr (Outcome.meets_deref.mpr ⟨proc, found, ?_⟩)
  split_ifs with stranger nohang
  · exact move .notChild ⟨knows, by simp, by simp⟩
  · exact move .alive ⟨knows, by simp, fun _ => nohang.2⟩
  · exact move .wait ⟨knows, fun _ => child (not_not.mp stranger), by simp⟩

theorem releasing_inv (h : Inv fam s) {p : Id} {branch : Branch}
    (place : s.parentPc = .releasing p branch) : (parentStep fam.par s).Meets (Inv fam) := by
  have knows := h.knows
  have before : s.parentPc.holds = some p ∧ s.parentPc.took = none ∧ s.parentPc.inTable = false := by
    rw [place]
    exact ⟨rfl, rfl, rfl⟩
  rw [place] at knows
  have idle : s.parentPc.tears = none := by simp [place, ParentPc.tears]
  obtain ⟨proc, found, lock, _⟩ := h.entry idle knows.1.inTable
  have held : proc.lock = some (some .parent) := by
    cases holds : (s.childPc p).holds with
    | false => simpa [before, holds] using lock
    | true =>
      have present : s.childPc p ≠ .absent := by
        intro absent
        rw [absent] at holds
        cases holds
      exact ((h.whole p proc present found (by simp [idle])).apart holds before.1).elim
  have move : ∀ pc : ParentPc Id, pc.holds = none → pc.took = none → pc.tears = none →
      pc.inTable = false → Knows fam s pc → Inv fam { s with
        kernel := { s.kernel with
          heap := Function.update s.kernel.heap p (some { proc with lock := some none }) }
        parentPc := pc } := by
    intro pc holds took tears inTable known
    refine h.parentMoves found ⟨idle, tears⟩ (fun c other => ?_) (inTable.trans before.2.2.symm)
      (fun present => ?_) (fun _ => ⟨rfl, by simp [holds]⟩) known
    · simp [before, holds, took, other.symm]
    · have whole := h.whole p proc present found (by simp [idle])
      have apart : (s.childPc p).holds = false := by
        cases childHolds : (s.childPc p).holds with
        | false => rfl
        | true => exact (whole.apart childHolds before.1).elim
      exact { whole with
        lock := by simp [apart, holds]
        apart := by simp [apart]
        sem := by simpa [before, took] using whole.sem }
  unfold parentStep
  rw [place]
  refine Outcome.meets_bind.mpr (Kernel.update_meets.mpr ⟨proc, found,
    Proc.lockRelease_meets.mpr ⟨held, ?_⟩⟩)
  cases branch with
  | notChild =>
    exact (move .running rfl rfl rfl rfl trivial).finish (s := { s with kernel := _ }) (by simp) (by simp)
  | alive =>
    exact (move .running rfl rfl rfl rfl trivial).finish (s := { s with kernel := _ }) (by simp)
      (fun _ => knows.2.2 rfl)
  | wait => exact move (.waiting p) rfl rfl rfl rfl ⟨knows.1, knows.2.1 rfl⟩

theorem waiting_inv (h : Inv fam s) {p : Id} (place : s.parentPc = .waiting p) :
    (parentStep fam.par s).Meets (Inv fam) := by
  have knows := h.knows
  have before : s.parentPc.holds = none ∧ s.parentPc.took = none ∧ s.parentPc.inTable = false := by
    rw [place]
    exact ⟨rfl, rfl, rfl⟩
  rw [place] at knows
  obtain ⟨entry, present⟩ := knows
  have idle : s.parentPc.tears = none := by simp [place, ParentPc.tears]
  obtain ⟨proc, found, _⟩ := h.entry idle entry.inTable
  have whole := h.whole p proc present found (by simp [idle])
  obtain ⟨n, sem, balance⟩ := whole.sem
  rw [before.2.1] at balance
  unfold parentStep
  rw [place]
  refine Outcome.meets_bind.mpr (Kernel.update_meets.mpr ⟨proc, found,
    Proc.semP_meets.mpr ⟨n, sem, fun m value => ?_⟩⟩)
  refine h.parentMoves found ⟨idle, rfl⟩ (fun c other => ?_) before.2.2.symm (fun _ => ?_)
    (fun absent => (present absent).elim) ⟨entry, present⟩
  · rw [before.1, before.2.1]
    simp [ParentPc.holds, ParentPc.took, other.symm]
  · have lock := whole.lock
    rw [before.1] at lock
    exact { whole with
      lock := by simpa [ParentPc.holds] using lock
      apart := by simp [ParentPc.holds]
      sem := ⟨m, rfl, by simp [ParentPc.took] at balance ⊢; omega⟩ }

theorem taken_inv (h : Inv fam s) {p : Id} (place : s.parentPc = .taken p) :
    (parentStep fam.par s).Meets (Inv fam) := by
  have knows := h.knows
  have before : s.parentPc.holds = none ∧ s.parentPc.took = some p ∧
      s.parentPc.inTable = false := by
    rw [place]
    exact ⟨rfl, rfl, rfl⟩
  rw [place] at knows
  obtain ⟨entry, present⟩ := knows
  have idle : s.parentPc.tears = none := by simp [place, ParentPc.tears]
  obtain ⟨proc, found, _⟩ := h.entry idle entry.inTable
  have whole := h.whole p proc present found (by simp [idle])
  have sem := whole.sem
  unfold parentStep
  rw [place]
  refine Outcome.meets_bind.mpr (Kernel.update_meets.mpr ⟨proc, found,
    Proc.lockAcquire_meets.mpr ⟨_, whole.lock, ?_, fun free => ?_⟩⟩)
  · rw [before.1]
    split <;> simp
  · have apart : (s.childPc p).holds = false := by
      cases holds : (s.childPc p).holds with
      | false => rfl
      | true => simp [holds] at free
    refine h.parentMoves found ⟨idle, rfl⟩ (fun c other => ?_) before.2.2.symm (fun _ => ?_)
      (fun absent => (present absent).elim) ⟨entry, present⟩
    · rw [before.1, before.2.1]
      simp [ParentPc.holds, ParentPc.took, other.symm]
    · exact { whole with
        lock := by simp [apart, ParentPc.holds]
        apart := by simp [apart]
        sem := by rw [before.2.1] at sem; exact sem }

/-- Past `P` and with the lock, the parent finds a child that has left `sys_exit` for good. -/
theorem Inv.reading_exited (h : Inv fam s) {p : Id} (place : s.parentPc = .reading p) :
    ∃ proc code, s.kernel.heap p = some proc ∧ s.childPc p = .exited code ∧ proc.pIsDead = true ∧
      proc.pRetval = code := by
  have knows := h.knows
  rw [place] at knows
  obtain ⟨entry, present⟩ := knows
  have idle : s.parentPc.tears = none := by simp [place, ParentPc.tears]
  obtain ⟨proc, found, _⟩ := h.entry idle entry.inTable
  have whole := h.whole p proc present found (by simp [idle])
  obtain ⟨n, sem, balance⟩ := whole.sem
  have apart := whole.apart
  have dead := whole.dead
  have retval := whole.retval
  simp only [place, ParentPc.took, ParentPc.holds, if_true] at balance apart
  cases pc : s.childPc p with
  | exited code =>
    rw [pc] at dead retval
    exact ⟨proc, code, found, rfl, dead, retval code rfl⟩
  | posted code =>
    rw [pc] at apart
    exact (apart rfl rfl).elim
  | _ =>
    rw [pc] at balance
    simp [ChildPc.posts] at balance

theorem reading_inv (h : Inv fam s) {p : Id} (place : s.parentPc = .reading p) :
    (parentStep fam.par s).Meets (Inv fam) := by
  have knows := h.knows
  have allproc := h.allproc
  obtain ⟨proc, code, found, exited, dead, retval⟩ := h.reading_exited place
  rw [place] at knows allproc
  unfold parentStep
  rw [place]
  refine Outcome.meets_bind.mpr (Outcome.meets_deref.mpr ⟨proc, found, ?_⟩)
  refine Outcome.meets_bind.mpr (Outcome.meets_kassert.mpr ⟨dead, ?_⟩)
  refine h.parentStays ⟨by simp [place, ParentPc.tears], rfl⟩ (by simp [place, ParentPc.holds])
    (by simp [place, ParentPc.took]) allproc ⟨knows.1, code, exited, ?_⟩
  rw [retval]

theorem unlocking_inv (h : Inv fam s) {p : Id} {status : BitVec 32}
    (place : s.parentPc = .unlocking p status) : (parentStep fam.par s).Meets (Inv fam) := by
  have knows := h.knows
  have before : s.parentPc.holds = some p ∧ s.parentPc.took = some p ∧
      s.parentPc.inTable = false := by
    rw [place]
    exact ⟨rfl, rfl, rfl⟩
  rw [place] at knows
  obtain ⟨entry, code, exited, value⟩ := knows
  have present : s.childPc p ≠ .absent := by simp [exited]
  have idle : s.parentPc.tears = none := by simp [place, ParentPc.tears]
  obtain ⟨proc, found, _⟩ := h.entry idle entry.inTable
  have whole := h.whole p proc present found (by simp [idle])
  have sem := whole.sem
  have apart : (s.childPc p).holds = false := by simp [exited, ChildPc.holds]
  unfold parentStep
  rw [place]
  refine Outcome.meets_bind.mpr (Kernel.update_meets.mpr ⟨proc, found,
    Proc.lockRelease_meets.mpr ⟨by simp [whole.lock, apart, before], ?_⟩⟩)
  refine h.parentMoves found ⟨idle, rfl⟩ (fun c other => ?_) before.2.2.symm (fun _ => ?_)
    (fun absent => (present absent).elim) ⟨entry, code, exited, value⟩
  · rw [before.1, before.2.1]
    simp [ParentPc.holds, ParentPc.took, other.symm]
  · exact { whole with
      lock := by simp [apart, ParentPc.holds]
      apart := by simp [apart]
      sem := by rw [before.2.1] at sem; exact sem }

theorem unlocked_inv (h : Inv fam s) {p : Id} {status : BitVec 32}
    (place : s.parentPc = .unlocked p status) : (parentStep fam.par s).Meets (Inv fam) := by
  have knows := h.knows
  have allproc := h.allproc
  have before : s.parentPc.holds = none ∧ s.parentPc.took = some p ∧ s.parentPc.tears = none := by
    rw [place]
    exact ⟨rfl, rfl, rfl⟩
  rw [place] at knows allproc
  obtain ⟨entry, code, exited, value⟩ := knows
  have present : s.childPc p ≠ .absent := by simp [exited]
  obtain ⟨proc, found, _⟩ := h.entry before.2.2 entry.inTable
  have whole := h.whole p proc present found (by simp [before])
  obtain ⟨n, sem, _⟩ := whole.sem
  obtain ⟨files, open', closed⟩ := whole.fd
  have lock := whole.lock
  rw [before.1, exited] at lock
  rw [exited] at closed
  unfold parentStep
  rw [place]
  refine Outcome.meets_bind.mpr (Outcome.meets_deref.mpr ⟨proc, found, ?_⟩)
  refine ⟨fun c q presentC foundC other => ?_, fun c entryC absent => ?_, fun c presentC gone => ?_,
    allproc, ⟨⟨?_, whole.pid, whole.table⟩, ⟨code, exited, value⟩, proc, n, found, sem, ?_, ?_⟩,
    h.reaped, h.once, h.alive⟩
  · have different : p ≠ c := by simpa [ParentPc.tears] using other
    have wholeC := h.whole c q presentC foundC (by simp [before])
    have lockC := wholeC.lock
    have semC := wholeC.sem
    rw [before.1] at lockC
    rw [before.2.1] at semC
    exact { wholeC with
      lock := by simpa [ParentPc.holds] using lockC
      apart := by simp [ParentPc.holds]
      sem := by simpa [ParentPc.took, different] using semC }
  · have strangerC := h.stranger c entryC absent
    rw [before.1] at strangerC
    simpa [ParentPc.holds] using strangerC
  · obtain ⟨exitedC, torn | reaped⟩ := h.freed c presentC gone
    · rw [before.2.2] at torn
      cases torn
    · exact ⟨exitedC, Or.inr reaped⟩
  · obtain ⟨i, named, number⟩ := entry
    rw [← number, (whole.table i).mp named]
  · simpa [ChildPc.holds] using lock
  · rw [open', closed.resolve_left (by simp)]

/-- A stage of `proc_destroy` before the last changes only what the table still names. -/
theorem Inv.tear (h : Inv fam s) {p : Id} {status : BitVec 32} {pid : Fin 32} {stage next : Stage}
    (place : s.parentPc = .destroying p status pid stage)
    {left : Option (Proc Id (Thread Id) Nat)} (torn : Torn left next) : Inv fam { s with
      kernel := { s.kernel with heap := Function.update s.kernel.heap p left }
      parentPc := .destroying p status pid next } := by
  have knows := h.knows
  have allproc := h.allproc
  rw [place] at knows allproc
  obtain ⟨entry, exited, _⟩ := knows
  refine ⟨fun c q present found other => ?_, fun c entryC absent => ?_, fun c present gone => ?_,
    allproc, ⟨entry, exited, ?_⟩, fun call member c status' returned => ?_, h.once, h.alive⟩
  · have different : c ≠ p := by
      intro same
      exact other (by simp [ParentPc.tears, same])
    have whole := h.whole c q present (by simpa [different] using found)
      (by simp [place, ParentPc.tears, different.symm])
    rw [place] at whole
    exact { whole with }
  · have different : c ≠ p := by
      rintro rfl
      obtain ⟨code, atExit, _⟩ := exited
      rw [atExit] at absent
      cases absent
    obtain ⟨q, found, parent, lock⟩ := h.stranger c entryC absent
    rw [place] at lock
    exact ⟨q, by simpa [different] using found, parent, lock⟩
  · by_cases same : c = p
    · obtain ⟨code, atExit, _⟩ := exited
      exact ⟨⟨code, by simpa [same] using atExit⟩, Or.inl (by simp [ParentPc.tears, same])⟩
    · have freed := h.freed c present (by simpa [same] using gone)
      rw [place] at freed
      exact freed
  · simpa using torn
  · obtain ⟨number, was, gone, away⟩ := h.reaped call member c status' returned
    have different : c ≠ p := by
      rintro rfl
      exact away ⟨pid, (entry.2.2 pid).mpr rfl⟩
    exact ⟨number, was, by simpa [different] using gone, away⟩

/-- The last stage of `proc_destroy` takes the child out of the table, and the call returns. -/
theorem Inv.reap (h : Inv fam s) {p : Id} {status : BitVec 32} {pid : Fin 32}
    (place : s.parentPc = .destroying p status pid .pid) : Inv fam (State.finish { s with
      kernel := { s.kernel with pTable := Function.update s.kernel.pTable pid none } }
      (.reaped p status)) := by
  have knows := h.knows
  have allproc := h.allproc
  rw [place] at knows allproc
  obtain ⟨entry, exited, gone⟩ := knows
  have named : s.kernel.pTable pid = some p := (entry.2.2 pid).mpr rfl
  have elsewhere : ∀ i c, Function.update s.kernel.pTable pid none i = some c ↔
      s.kernel.pTable i = some c ∧ c ≠ p := by
    intro i c
    by_cases same : i = pid
    · subst same
      simp only [Function.update_self, named, Option.some.injEq]
      constructor
      · intro impossible
        cases impossible
      · intro ⟨eq, different⟩
        exact (different eq.symm).elim
    · have notP : s.kernel.pTable i = some c → c ≠ p := by
        rintro found rfl
        exact same ((entry.2.2 i).mp found)
      simpa [same] using notP
  refine ⟨fun c q present found _ => ?_, fun c entryC absent => ?_, fun c present goneC => ?_,
    allproc, trivial, fun call member c status' returned => ?_, ?_, ?_⟩
  · have different : c ≠ p := by
      rintro rfl
      have impossible : s.kernel.heap c = some q := found
      rw [gone] at impossible
      cases impossible
    have whole := h.whole c q present found (by simp [place, ParentPc.tears, different.symm])
    rw [place] at whole
    exact { whole with
      table := fun i => (elsewhere i c).trans (by simp [different, whole.table]) }
  · obtain ⟨i, found⟩ := entryC
    have stranger := h.stranger c ⟨i, ((elsewhere i c).mp found).1⟩ absent
    rw [place] at stranger
    exact stranger
  · obtain ⟨exitedC, torn | reaped⟩ := h.freed c present goneC
    · rw [place] at torn
      obtain rfl := Option.some.inj torn
      exact ⟨exitedC, Or.inr (by simp [State.finish, Call.reaps])⟩
    · exact ⟨exitedC, Or.inr (by simpa [State.finish] using Or.inl reaped)⟩
  · have outside : ¬ InTable s c → ∀ i, Function.update s.kernel.pTable pid none i ≠ some c :=
      fun away i found => away ⟨i, ((elsewhere i c).mp found).1⟩
    rcases List.mem_append.mp member with old | new
    · obtain ⟨number, was, goneC, away⟩ := h.reaped call old c status' returned
      exact ⟨number, was, goneC, fun ⟨i, found⟩ => outside away i found⟩
    · obtain rfl := List.mem_singleton.mp new
      obtain ⟨rfl, rfl⟩ := Returned.reaped.inj returned
      refine ⟨?_, exited, gone, fun ⟨i, found⟩ => ((elsewhere i p).mp found).2 rfl⟩
      rw [← entry.2.1]
      exact entry.1.symm
  · simp only [State.finish, List.filterMap_append]
    refine List.nodup_append.mpr ⟨h.once, by simp [Call.reaps], ?_⟩
    intro c member d new
    obtain rfl : d = p := by simpa [Call.reaps] using new
    rintro rfl
    -- who was reaped before is not in the table, and the child that is reaped now was
    exact h.reaped_away member ⟨pid, named⟩
  · intro call member value
    rcases List.mem_append.mp member with old | new
    · exact h.alive call old value
    · obtain rfl := List.mem_singleton.mp new
      cases value

theorem destroying_inv (h : Inv fam s) {p : Id} {status : BitVec 32} {pid : Fin 32} {stage : Stage}
    (place : s.parentPc = .destroying p status pid stage) :
    (parentStep fam.par s).Meets (Inv fam) := by
  have knows := h.knows
  rw [place] at knows
  obtain ⟨entry, exited, torn⟩ := knows
  unfold parentStep
  rw [place]
  refine Outcome.meets_bind.mpr ?_
  cases stage with
  | sem =>
    obtain ⟨q, n, found, sem, lock, files⟩ := torn
    exact Kernel.update_meets.mpr ⟨q, found, Proc.semDestroy_meets.mpr ⟨⟨n, sem⟩,
      h.tear place ⟨_, rfl, lock, files⟩⟩⟩
  | lock =>
    obtain ⟨q, found, lock, files⟩ := torn
    exact Kernel.update_meets.mpr ⟨q, found, Proc.lockDestroy_meets.mpr ⟨lock,
      h.tear place ⟨_, rfl, files⟩⟩⟩
  | fd =>
    obtain ⟨q, found, files⟩ := torn
    exact Kernel.update_meets.mpr ⟨q, found, Proc.fdDestroy_meets.mpr ⟨files,
      h.tear place ⟨_, rfl⟩⟩⟩
  | free =>
    obtain ⟨q, found⟩ := torn
    exact Kernel.free_meets.mpr ⟨⟨q, found⟩, h.tear place rfl⟩
  | pid =>
    refine Kernel.procDeallocPid_meets.mpr fun _ => ⟨?_, h.reap place⟩
    rw [(entry.2.2 pid).mpr rfl]
    simp

theorem parentStep_inv (h : Inv fam s) : (parentStep fam.par s).Meets (Inv fam) := by
  cases place : s.parentPc with
  | running =>
    unfold parentStep
    rw [place]
    trivial
  | getting pc => exact getting_inv h place
  | checking p => exact checking_inv h place
  | releasing p branch => exact releasing_inv h place
  | waiting p => exact waiting_inv h place
  | taken p => exact taken_inv h place
  | reading p => exact reading_inv h place
  | unlocking p status => exact unlocking_inv h place
  | unlocked p status => exact unlocked_inv h place
  | destroying p status pid stage => exact destroying_inv h place

theorem step_inv (h : Inv fam s) (a : Action Id) : (step fam.par s a).Meets (Inv fam) := by
  cases a with
  | waitpid pid options => exact waitpid_inv h
  | parent => exact parentStep_inv h
  | exit c code => exact sysExit_inv h
  | child c => exact childStep_inv h

theorem reachable_inv (h : (machine fam).Reachable s) : Inv fam s :=
  (machine fam).invariant_meets (fun _ => start_inv) (fun _ a inv => step_inv inv a) h

/-! ### Waiting is correct -/

/-- What the calls promise in a state. -/
structure Correct (fam : Family Id) (s : State Id) : Prop where
  /-- No assertion fails, `p_is_dead` among them, and nobody touches what is freed. -/
  neverFails : ∀ a, step fam.par s a ≠ .panic ∧ step fam.par s a ≠ .fault
  /-- A blocking call that returns 0 has reaped a child. -/
  blocking : ∀ call ∈ s.calls, call.options = 0 → call.returned ≠ .alive
  /-- The child is the one with the pid, it has executed `sys_exit`, and the status is its code. -/
  delivers : ∀ call ∈ s.calls, ∀ c status, call.returned = .reaped c status →
    call.pid = fam.pidOf c ∧ ∃ code, s.childPc c = .exited code ∧ status = mkwaitExit code
  /-- No child is reaped twice, and none is freed but by the call that reaps it. -/
  once : (s.calls.filterMap Call.reaps).Nodup
  freed : ∀ c, s.childPc c ≠ .absent → s.kernel.heap c = none →
    s.parentPc.tears = some c ∨ c ∈ s.calls.filterMap Call.reaps
  /-- A call goes on, or an exit that it depends on does, unless its child has not called
  `sys_exit`. -/
  goesOn : s.parentPc ≠ .running → (∃ t, step fam.par s .parent = .done t) ∨
    (∃ c t, step fam.par s (.child c) = .done t) ∨
      ∃ c, s.parentPc = .waiting c ∧ s.childPc c = .running

/-- A child in `sys_exit` goes on, unless it waits for the lock that the parent holds. -/
theorem Inv.child_goesOn (h : Inv fam s) {c : Id} (present : s.childPc c ≠ .absent)
    (started : s.childPc c ≠ .running) (unfinished : ∀ code, s.childPc c ≠ .exited code)
    (free : s.parentPc.holds ≠ some c) : ∃ t, step fam.par s (.child c) = .done t := by
  obtain ⟨p, found, whole⟩ := h.atWork present unfinished
  have lock := whole.lock
  have hasParent := whole.hasParent
  refine (step_inv h (.child c)).goes ?_
  simp only [step, childStep]
  cases pc : s.childPc c with
  | absent => exact (present pc).elim
  | running => exact (started pc).elim
  | exited code => exact (unfinished code pc).elim
  | closed code =>
    rw [pc] at lock
    have unlocked : p.lock = some none := by simpa [ChildPc.holds, free] using lock
    simp [Kernel.update, found, Proc.lockAcquire, unlocked]
  | locked code => simp [Kernel.update]
  | stored code => simp [Kernel.update]
  | dead code =>
    simp [found, whole.parent, Kernel.update, Proc.semV]
  | posted code => simp [Kernel.update, Proc.lockRelease]
  | orphan code =>
    rw [pc] at hasParent
    cases hasParent
  | destroying code pid stage =>
    rw [pc] at hasParent
    cases hasParent

/-- Where the lock that the parent asks for is taken, it is taken by a child that goes on. -/
theorem Inv.lock_goesOn (h : Inv fam s) (notTearing : s.parentPc.tears = none) {p : Id}
    (entry : InTable s p) (free : s.parentPc.holds ≠ some p) : 
    (∃ proc, s.kernel.heap p = some proc ∧ proc.lock = some none) ∨
      ∃ t, step fam.par s (.child p) = .done t := by
  obtain ⟨proc, found, lock, _⟩ := h.entry notTearing entry
  cases holds : (s.childPc p).holds with
  | false => exact Or.inl ⟨proc, found, by simpa [holds, free] using lock⟩
  | true =>
    have inside : s.childPc p ≠ .absent ∧ s.childPc p ≠ .running ∧
        ∀ code, s.childPc p ≠ .exited code := by
      refine ⟨?_, ?_, fun code => ?_⟩ <;> intro pc <;> rw [pc] at holds <;> cases holds
    exact Or.inr (h.child_goesOn inside.1 inside.2.1 inside.2.2 free)

theorem getting_ready {pc : GetPc Id} (place : s.parentPc = .getting pc)
    (ready : s.kernel.procGetStep .parent pc ≠ .blocked) : parentStep fam.par s ≠ .blocked := by
  unfold parentStep
  rw [place]
  refine Outcome.bind_ne_blocked ready fun ⟨result, kernel⟩ => ?_
  cases result <;> simp

theorem Inv.goesOn (h : Inv fam s) (busy : s.parentPc ≠ .running) :
    (∃ t, step fam.par s .parent = .done t) ∨ (∃ c t, step fam.par s (.child c) = .done t) ∨
      ∃ c, s.parentPc = .waiting c ∧ s.childPc c = .running := by
  have knows := h.knows
  have allproc := h.allproc
  have ready : parentStep fam.par s ≠ .blocked → ∃ t, step fam.par s .parent = .done t :=
    (step_inv h .parent).goes
  -- the lock of a process is free, or a child that holds it goes on
  have locking : ∀ p, s.parentPc.tears = none → s.parentPc.holds ≠ some p → InTable s p →
      (s.kernel.update p (fun proc => proc.lockAcquire .parent) ≠ .blocked) ∨
        ∃ c t, step fam.par s (.child c) = .done t := by
    intro p notTearing free entry
    rcases h.lock_goesOn notTearing entry free with ⟨proc, found, unlocked⟩ | goes
    · refine Or.inl (Kernel.update_ne_blocked fun q foundQ => ?_)
      obtain rfl : proc = q := Option.some.inj (found.symm.trans foundQ)
      exact Proc.lockAcquire_free unlocked
    · exact Or.inr ⟨p, goes⟩
  cases place : s.parentPc with
  | running => exact (busy place).elim
  | getting pc =>
    rw [place] at knows allproc
    cases pc with
    | entering pid =>
      have unlocked : s.kernel.lkAllproc = none := allproc
      exact Or.inl (ready (getting_ready place (by simp [Kernel.procGetStep, unlocked])))
    | looking pid =>
      refine Or.inl (ready (getting_ready place ?_))
      dsimp only [Kernel.procGetStep]
      split <;> simp
    | acquiring p =>
      rcases locking p (by simp [place, ParentPc.tears]) (by simp [place, ParentPc.holds])
        (Named.inTable knows) with free | goes
      · exact Or.inl (ready (getting_ready place (by simp [Kernel.procGetStep, free])))
      · exact Or.inr (Or.inl goes)
    | leaving p => exact Or.inl (ready (getting_ready place (by simp [Kernel.procGetStep])))
  | checking p =>
    refine Or.inl (ready ?_)
    unfold parentStep
    rw [place]
    refine Outcome.bind_ne_blocked (by simp) fun proc => ?_
    split_ifs <;> simp
  | releasing p branch =>
    refine Or.inl (ready ?_)
    cases branch <;> simp [parentStep, place, Kernel.update, Proc.lockRelease]
  | waiting p =>
    rw [place] at knows
    have notTearing : s.parentPc.tears = none := by simp [place, ParentPc.tears]
    obtain ⟨proc, found, _⟩ := h.entry notTearing knows.1.inTable
    obtain ⟨n, sem, balance⟩ := (h.whole p proc knows.2 found (by simp [notTearing])).sem
    simp only [place, ParentPc.took] at balance
    cases n with
    | succ n =>
      exact Or.inl (ready (by simp [parentStep, place, Kernel.update, found, Proc.semP, sem]))
    | zero =>
      by_cases started : s.childPc p = .running
      · exact Or.inr (Or.inr ⟨p, rfl, started⟩)
      · have unfinished : ∀ code, s.childPc p ≠ .exited code := by
          intro code exited
          rw [exited] at balance
          cases balance
        exact Or.inr (Or.inl ⟨p, h.child_goesOn knows.2 started unfinished
          (by simp [place, ParentPc.holds])⟩)
  | taken p =>
    rw [place] at knows
    rcases locking p (by simp [place, ParentPc.tears]) (by simp [place, ParentPc.holds])
      knows.1.inTable with free | goes
    · exact Or.inl (ready (by simp [parentStep, place, free]))
    · exact Or.inr (Or.inl goes)
  | reading p => exact Or.inl (ready (by simp [parentStep, place]))
  | unlocking p status =>
    exact Or.inl (ready (by simp [parentStep, place, Kernel.update, Proc.lockRelease]))
  | unlocked p status => exact Or.inl (ready (by simp [parentStep, place]))
  | destroying p status pid stage =>
    rw [place] at allproc
    have unlocked : s.kernel.lkAllproc = none := allproc
    refine Or.inl (ready ?_)
    cases stage <;> simp [parentStep, place, Kernel.procDestroyStep, Kernel.update, Kernel.free,
      Kernel.procDeallocPid, Proc.semDestroy, Proc.lockDestroy, Proc.fdDestroy, Stage.next, unlocked]

/-- Every state of every run keeps the promises of `___waitpid` and `sys_exit`. -/
theorem wait_correct (h : (machine fam).Reachable s) : Correct fam s where
  neverFails a := ⟨(step_inv (reachable_inv h) a).not_panic, (step_inv (reachable_inv h) a).not_fault⟩
  blocking call member blocks alive := by
    have options := (reachable_inv h).alive call member alive
    rw [blocks] at options
    cases options
  delivers call member c status returned := by
    obtain ⟨pid, exited, _⟩ := (reachable_inv h).reaped call member c status returned
    exact ⟨pid, exited⟩
  once := (reachable_inv h).once
  freed c present gone := ((reachable_inv h).freed c present gone).2
  goesOn := (reachable_inv h).goesOn

/-- Process 0 with the child 1, which has pid 1. -/
def onlyChild : State (Fin 2) where
  kernel :=
    { heap := fun c => if c = 1 then some ⟨1, some 0, some none, some 0, some 3, 0, false⟩ else none
      pTable := fun i => if i = 1 then some 1 else none
      nextPid := 2
      lkAllproc := none }
  childPc c := if c = 1 then .running else .absent
  parentPc := .running
  pid := 0
  options := 0
  calls := []

theorem onlyChild_start : Start ⟨0, fun _ => 1⟩ onlyChild where
  child c present := by
    have one : c = 1 := by
      by_contra other
      simp [onlyChild, other] at present
    subst one
    exact ⟨rfl, _, rfl, rfl, rfl, rfl, rfl, by simp, rfl, by decide⟩
  stranger i c entry absent := by
    have one : c = 1 := by
      by_contra other
      simp [onlyChild, eq_comm, other] at entry
    subst one
    cases absent
  idle := ⟨rfl, rfl, rfl⟩

/-- The parent looks its child up and waits, the child exits with code 5, and the parent reaps it
while the child is on its way out. -/
theorem wait_correct_reaps : ∃ s : State (Fin 2),
    s.calls.map (fun call => call.returned) = [.reaped 1 20] ∧ s.childPc 1 = .exited 5 ∧
      Correct ⟨0, fun _ => 1⟩ s := by
  have reached := Machine.Reachable.run (M := machine ⟨(0 : Fin 2), fun _ => 1⟩)
    [.waitpid 1 0, .parent, .parent, .parent, .parent, .parent, .parent, .exit 1 5, .child 1,
      .child 1, .child 1, .child 1, .parent, .child 1, .parent, .parent, .parent, .parent, .parent,
      .parent, .parent, .parent, .parent] (.initial onlyChild_start) rfl
  exact ⟨_, rfl, rfl, wait_correct reached⟩

end Os161.WaitExit
