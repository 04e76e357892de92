import Os161.File.Frame
import Os161.File.Sharing
import Os161.Proc.Life

/-!
# What the calls do to the processes

The state after each call, as far as it goes through.
-/

set_option linter.unusedSectionVars false

namespace Os161.Life

open Files

variable {Id F V : Type} [DecidableEq Id] [DecidableEq F] [DecidableEq V]

namespace State

variable {s : State Id F V} {p cur : Id} {reclaims : Reclaims V}

/-- Only open files and `next_pid` are different. -/
def withFiles (s : State Id F V) (n : Nat) (files : Files Id F V) : State Id F V :=
  { s with kernel := { s.kernel with nextPid := n }, files := files }

/-- The process lies at `p` and in its slot. -/
def enter (s : State Id F V) (p : Id) (proc : Proc Id Id Unit) (n : Nat) (files : Files Id F V) :
    State Id F V :=
  { s with
    kernel := { s.kernel with
      heap := Function.update s.kernel.heap p (some proc)
      pTable := Function.update s.kernel.pTable proc.pPid (some p)
      nextPid := n }
    files := files }

/-- The process is gone, and its slot is free. -/
def drop (s : State Id F V) (p : Id) (pid : Fin 32) (files : Files Id F V) : State Id F V :=
  { s with
    kernel := { s.kernel with
      heap := Function.update s.kernel.heap p none
      pTable := Function.update s.kernel.pTable pid none }
    files := files }

/-- The process at `p` is another. -/
def revise (s : State Id F V) (p : Id) (proc : Proc Id Id Unit) (files : Files Id F V) :
    State Id F V :=
  { s with
    kernel := { s.kernel with heap := Function.update s.kernel.heap p (some proc) }
    files := files }

/-- The empty slot that the scan of `proc_alloc_pid` comes to first. -/
def NextFree (s : State Id F V) (pid : Fin 32) : Prop :=
  s.kernel.pTable pid = none ∧
    ∀ i, s.kernel.pTable i = none → s.kernel.scanPos pid ≤ s.kernel.scanPos i

/-- A new process. -/
def newProc (pid : Fin 32) (parent : Option Id) : Proc Id Id Unit :=
  ⟨pid, parent, some none, some 0, some (), 0, false⟩

theorem update_some {α β : Type} [DecidableEq α] {f : α → Option β} {a x : α} {b c : β} :
    Function.update f a (some b) x = some c ↔ x = a ∧ c = b ∨ x ≠ a ∧ f x = some c := by
  rw [Function.update_apply]
  split <;> simp [*, eq_comm (a := b)]

theorem update_none {α β : Type} [DecidableEq α] {f : α → Option β} {a x : α} {c : β} :
    Function.update f a none x = some c ↔ x ≠ a ∧ f x = some c := by
  rw [Function.update_apply]
  split <;> simp [*]

theorem enter_heap {q : Id} {proc other : Proc Id Id Unit} {n : Nat} {files : Files Id F V} :
    (s.enter p proc n files).kernel.heap q = some other ↔
      q = p ∧ other = proc ∨ q ≠ p ∧ s.kernel.heap q = some other :=
  update_some

theorem enter_pTable {q : Id} {i : Fin 32} {proc : Proc Id Id Unit} {n : Nat}
    {files : Files Id F V} : (s.enter p proc n files).kernel.pTable i = some q ↔
      i = proc.pPid ∧ q = p ∨ i ≠ proc.pPid ∧ s.kernel.pTable i = some q :=
  update_some

theorem drop_heap {q : Id} {pid : Fin 32} {files : Files Id F V} {proc : Proc Id Id Unit} :
    (s.drop p pid files).kernel.heap q = some proc ↔ q ≠ p ∧ s.kernel.heap q = some proc :=
  update_none

theorem drop_pTable {q : Id} {i pid : Fin 32} {files : Files Id F V} :
    (s.drop p pid files).kernel.pTable i = some q ↔ i ≠ pid ∧ s.kernel.pTable i = some q :=
  update_none

theorem revise_heap {q : Id} {proc other : Proc Id Id Unit} {files : Files Id F V} :
    (s.revise p proc files).kernel.heap q = some other ↔
      q = p ∧ other = proc ∨ q ≠ p ∧ s.kernel.heap q = some other :=
  update_some

theorem goTo_status {q : Id} {status : Status Id} :
    (s.goTo p status).status q = if q = p then status else s.status q :=
  Function.update_apply ..

@[simp] theorem spawn_kernel {parent : Id} {status : Status Id} {tPid : BitVec 32} :
    (s.spawn parent p status tPid).kernel = s.kernel := rfl

theorem spawn_status {parent q : Id} {status : Status Id} {tPid : BitVec 32} :
    (s.spawn parent p status tPid).status q = if q = p then status else s.status q :=
  Function.update_apply ..

theorem procCreate_ensures {room : Bool} : (s.procCreate p room).Ensures fun (result, t) =>
    match result with
    | .error _ => ∃ n, t = s.withFiles n s.files
    | .ok pid => s.NextFree pid ∧ s.kernel.heap p = none ∧
        ∃ n files, Near (· = p) s.files files ∧ t = s.enter p (newProc pid none) n files := by
  refine Kernel.procAllocPid_ensures.then fun (result, kernel) ⟨⟨n, same⟩, found⟩ => ?_
  subst same
  cases result with
  | error err => exact Outcome.ensures_pure.mpr ⟨n, rfl⟩
  | ok pid =>
    have next : s.NextFree pid := found pid rfl
    simp only [Outcome.ensures_bind, Outcome.ensures_await]
    intro free
    unfold fdCreate
    cases room with
    | true =>
      simp only [Bool.and_self, if_true, Outcome.ensures_bind, Kernel.procAddToAllproc_ensures,
        Outcome.ensures_pure]
      intro _
      exact ⟨next, free, n, _, fun q other => Function.update_of_ne other _ _, rfl⟩
    | false =>
      simp only [Bool.and_self, Bool.false_eq_true, if_false, Outcome.ensures_bind,
        Kernel.procDeallocPid_ensures]
      exact fun _ taken => (taken next.1).elim

theorem update_only {k : Kernel Id Id Unit} {f : Proc Id Id Unit → Outcome (Proc Id Id Unit)} :
    (k.update p f).Ensures fun next => ∃ proc new, k.heap p = some proc ∧ f proc = .done new ∧
      next = { k with heap := Function.update k.heap p (some new) } :=
  Kernel.update_ensures.mpr fun proc found new value => ⟨proc, new, found, value, rfl⟩

theorem procDestroy_ensures : (s.procDestroy p).Ensures fun t =>
    ∃ proc files, s.kernel.heap p = some proc ∧ Near (· = p) s.files files ∧
      t = s.drop p proc.pPid files := by
  rw [procDestroy, Outcome.ensures_bind, Outcome.ensures_deref]
  intro proc found
  refine update_only.then fun k₁ ⟨_, _, _, _, same₁⟩ => ?_
  refine update_only.then fun k₂ ⟨_, _, _, _, same₂⟩ => ?_
  have frame : (s.files.fdDestroy p).Ensures (Near (· = p) s.files) := s.files.fdDestroy_near (by rfl)
  refine frame.then fun files near => ?_
  simp only [Outcome.ensures_bind, Kernel.free_ensures, Kernel.procDeallocPid_ensures,
    Outcome.ensures_pure]
  intro _ _ _ _
  exact ⟨proc, files, found, near, by simp [drop, same₂, same₁]⟩

theorem abandon_ensures : (s.abandon p cur reclaims).Ensures fun t =>
    ∃ proc files, s.kernel.heap p = some proc ∧ Near (· = p) s.files files ∧
      t = s.drop p proc.pPid files := by
  have frame : (s.files.closeAllF p cur reclaims).Ensures fun out => Near (· = p) s.files out.2 :=
    s.files.closeAllF_near (by rfl) cur reclaims
  refine frame.then fun (_, files) near => ?_
  refine procDestroy_ensures.mono fun t ⟨proc, files', found, near', same⟩ => ?_
  exact ⟨proc, files', found, near.trans near', same⟩

theorem setParent_ensures {parent : Id} : (s.setParent p parent).Ensures fun t =>
    ∃ proc, s.kernel.heap p = some proc ∧
      t = s.revise p { proc with pProc := some parent } s.files := by
  refine update_only.then fun kernel ⟨proc, new, found, value, same⟩ => ?_
  obtain rfl := Outcome.done.inj value
  exact Outcome.ensures_pure.mpr ⟨proc, found, by rw [same]; rfl⟩

theorem enter_drop {proc : Proc Id Id Unit} {n : Nat} {files files' : Files Id F V}
    (empty : s.kernel.pTable proc.pPid = none) (free : s.kernel.heap p = none) :
    (s.enter p proc n files).drop p proc.pPid files' = s.withFiles n files' := by
  simp [enter, drop, withFiles, ← empty, ← free]

theorem enter_revise {proc new : Proc Id Id Unit} {n : Nat} {files files' : Files Id F V}
    (same : new.pPid = proc.pPid) :
    (s.enter p proc n files).revise p new files' = s.enter p new n files' := by
  simp [enter, revise, same]

@[simp] theorem enter_heap_self {proc : Proc Id Id Unit} {n : Nat} {files : Files Id F V} :
    (s.enter p proc n files).kernel.heap p = some proc :=
  Function.update_self ..

/-- The process is there with its parent set, before it has its thread. -/
theorem enter_parent {pid : Fin 32} {parent : Id} {n : Nat} {files : Files Id F V} :
    ((s.enter p (newProc pid none) n files).setParent p parent).Ensures fun t =>
      t = s.enter p (newProc pid (some parent)) n files := by
  refine setParent_ensures.mono fun t ⟨proc, found, same⟩ => ?_
  obtain rfl : newProc pid none = proc := by simpa using found
  exact same.trans (enter_revise rfl)

theorem enter_abandon {proc : Proc Id Id Unit} {n : Nat} {files : Files Id F V}
    (empty : s.kernel.pTable proc.pPid = none) (free : s.kernel.heap p = none) :
    ((s.enter p proc n files).abandon p cur reclaims).Ensures fun t =>
      ∃ files', Near (· = p) files files' ∧ t = s.withFiles n files' := by
  refine abandon_ensures.mono fun t ⟨proc', files', found, near, same⟩ => ?_
  obtain rfl : proc = proc' := by simpa using found
  exact ⟨files', near, by rw [same, enter_drop empty free]⟩

theorem prog_ensures {p0 : Id} {room cargs threaded : Bool} {answers : Fin 3 → Answers F V}
    {tPid : BitVec 32} :
    (s.prog p0 p room answers cargs threaded tPid reclaims).Ensures fun t =>
      s.status p0 = .running ∧ ((∃ n files, Near (fun q => s.kernel.heap q = none) s.files files ∧
          t = s.withFiles n files) ∨
        ∃ pid n files, (cargs = true ∧ threaded = true) ∧ s.NextFree pid ∧ s.kernel.heap p = none ∧
          Near (· = p) s.files files ∧
          t = ((s.enter p (newProc pid (some p0)) n files).spawn p0 p .starting tPid).goTo p0
            (.calling pid)) := by
  rw [prog, Outcome.ensures_bind, Outcome.ensures_await]
  intro running
  refine procCreate_ensures.then fun (result, s₁) created => ?_
  cases result with
  | error err =>
    obtain ⟨n, same⟩ := created
    exact Outcome.ensures_pure.mpr ⟨running, .inl ⟨n, _, .refl, same⟩⟩
  | ok pid =>
    obtain ⟨next, free, n, files₁, near₁, rfl⟩ := created
    have empty := next.1
    have opens : (FileCalls.openStandardFiles files₁ p p0 answers reclaims).Ensures fun out =>
        Near (· = p) files₁ out.2 := openStandardFiles_near (by rfl) p0 answers reclaims
    refine opens.then fun (result, files₂) near₂ => ?_
    have near : Near (· = p) s.files files₂ := near₁.trans near₂
    have gone : ∀ u, (∃ files, Near (· = p) files₂ files ∧ u = s.withFiles n files) →
        s.status p0 = .running ∧ ((∃ n files, Near (fun q => s.kernel.heap q = none) s.files files ∧
          u = s.withFiles n files) ∨
        ∃ pid n files, (cargs = true ∧ threaded = true) ∧ s.NextFree pid ∧ s.kernel.heap p = none ∧
          Near (· = p) s.files files ∧
          u = ((s.enter p (newProc pid (some p0)) n files).spawn p0 p .starting tPid).goTo p0
            (.calling pid)) :=
      fun u ⟨files, near₃, same⟩ =>
        ⟨running, .inl ⟨n, files, (near.trans near₃).mono fun q here => here ▸ free, same⟩⟩
    cases result with
    | error err =>
      change ((s.enter p (newProc pid none) n files₂).procDestroy p).Ensures _
      refine procDestroy_ensures.mono fun t ⟨proc, files₃, found, near₃, same⟩ =>
        gone t ⟨files₃, near₃, ?_⟩
      obtain rfl : newProc pid none = proc := by simpa using found
      exact same.trans (enter_drop empty free)
    | ok _ =>
      cases cargs with
      | false => exact (enter_abandon empty free).mono gone
      | true =>
        refine enter_parent.then fun s₃ same => ?_
        subst same
        cases threaded with
        | false => exact (enter_abandon empty free).mono gone
        | true =>
          exact Outcome.ensures_pure.mpr
            ⟨running, .inr ⟨pid, n, files₂, ⟨rfl, rfl⟩, next, free, near, rfl⟩⟩

theorem sysFork_ensures {room threaded : Bool} {tPid : BitVec 32} :
    (s.sysFork cur p room threaded tPid reclaims).Ensures fun (result, t) =>
      ∃ pid n files, s.NextFree pid ∧ s.kernel.heap p = none ∧
        Near (fun q => q = p ∨ q = cur) s.files files ∧
        match result with
        | .error _ => t = s.withFiles n files
        | .ok retval => threaded = true ∧ retval = pid ∧
          t = (s.enter p (newProc pid (some cur)) n files).spawn cur p .running tPid := by
  refine procCreate_ensures.then fun (result, s₁) created => ?_
  cases result with
  | error err => exact Outcome.ensures_fault
  | ok pid =>
    obtain ⟨next, free, n, files₁, near₁, rfl⟩ := created
    have empty := next.1
    have wide : ∀ {t u : Files Id F V}, Near (· = p) t u → Near (fun q => q = p ∨ q = cur) t u :=
      fun near => near.mono fun _ same => .inl same
    have frame : (files₁.fileCopy cur p cur).Ensures (Near (fun q => q = p ∨ q = cur) files₁) :=
      files₁.fileCopy_near (.inl rfl) cur (.inr rfl)
    refine frame.then fun files₂ near₂ => ?_
    have near := (wide near₁).trans near₂
    rw [Outcome.ensures_bind, Outcome.ensures_deref]
    intro proc found
    obtain rfl : newProc pid none = proc := by simpa using found
    refine enter_parent.then fun s₃ same => ?_
    subst same
    cases threaded with
    | false =>
      refine (enter_abandon empty free).then fun t ⟨files₃, near₃, same⟩ => ?_
      exact Outcome.ensures_pure.mpr ⟨pid, n, files₃, next, free, near.trans (wide near₃), same⟩
    | true => exact Outcome.ensures_pure.mpr ⟨pid, n, files₂, next, free, near, rfl, rfl, rfl⟩

/-- The thread of `cur` is gone, and its process has exited. -/
def leave (s : State Id F V) (cur : Id) : State Id F V :=
  { s with exited := Function.update s.exited (s.birth cur) true }.goTo cur .ended

/-- `sys_fork` returns. -/
def answer (s : State Id F V) (p : Id) (retval : Fin 32) : State Id F V :=
  { s with returned := Function.update s.returned p (some retval) }

/-- A process with a parent, after its exit. -/
def dead (proc : Proc Id Id Unit) (exitcode : BitVec 32) (n : Nat) : Proc Id Id Unit :=
  { proc with lock := some none, pRetval := exitcode, pIsDead := true, pSem := some (n + 1) }

theorem closeAllF_ensures {files : Files Id F V} :
    (files.closeAllF p cur reclaims).Ensures fun out =>
      Near (· = p) files out.2 ∧ ∀ i, out.2.sharing.slots (p, i) = none := by
  have frame : (files.closeAllF p cur reclaims).Ensures fun out => Near (· = p) files out.2 :=
    files.closeAllF_near (by rfl) cur reclaims
  have closes := files.closeAllF_sharing (I := fun _ => True) p cur reclaims
    (fun _ _ _ => fun _ _ => trivial) trivial
  exact (frame.and closes).mono fun _ ⟨near, _, _, empty⟩ => ⟨near, empty⟩

/-- `update` where it is known what is there and what becomes of it. -/
theorem update_here {k : Kernel Id Id Unit} {proc : Proc Id Id Unit}
    {f : Proc Id Id Unit → Outcome (Proc Id Id Unit)} {Q : Proc Id Id Unit → Prop}
    (found : k.heap p = some proc) (spec : (f proc).Ensures Q) : (k.update p f).Ensures fun next =>
      ∃ new, Q new ∧ next = { k with heap := Function.update k.heap p (some new) } := by
  refine update_only.mono fun next ⟨proc', new, found', value, same⟩ => ?_
  obtain rfl : proc = proc' := Option.some.inj (found.symm.trans found')
  exact ⟨new, spec new value, same⟩

theorem sysExit_ensures {exitcode : BitVec 32} :
    (s.sysExit cur exitcode reclaims).Ensures fun t =>
      ∃ proc files, s.kernel.heap cur = some proc ∧ Near (· = cur) s.files files ∧
        match proc.pProc with
        | none => t = (s.leave cur).drop cur proc.pPid files
        | some _ => (∀ i, files.sharing.slots (cur, i) = none) ∧ ∃ n, proc.pSem = some n ∧
            t = (s.leave cur).revise cur (dead proc exitcode n) files := by
  refine closeAllF_ensures.then ?_
  rintro ⟨closed, files⟩ ⟨near, empty⟩
  simp only [Outcome.ensures_bind, Outcome.ensures_kassert, Outcome.ensures_deref]
  intro _ proc found
  have marks : Outcome.Ensures (do
      let proc ← proc.lockAcquire cur
      return { proc with pRetval := exitcode, pIsDead := true })
      fun new => new = { proc with lock := some (some cur), pRetval := exitcode, pIsDead := true } := by
    simp [Proc.lockAcquire]
  refine (update_here found marks).mono ?_
  rintro k₁ ⟨new, marked, same₁⟩
  subst marked same₁
  cases parent : proc.pProc with
  | none =>
    have releases : Outcome.Ensures (Proc.lockRelease { proc with
        lock := some (some cur), pRetval := exitcode, pIsDead := true } cur)
        fun new => new = { proc with lock := some none, pRetval := exitcode, pIsDead := true } := by
      simp [Proc.lockRelease]
    rw [parent] at releases
    refine (update_here (Function.update_self ..) releases).then ?_
    rintro k₂ ⟨new, released, same₂⟩
    subst released same₂
    refine procDestroy_ensures.mono ?_
    rintro t ⟨proc₂, files', found₂, near', after⟩
    have pid : proc.pPid = proc₂.pPid := by
      simpa [goTo] using congrArg (Option.map Proc.pPid) found₂
    refine ⟨proc, files', found, near.trans near', ?_⟩
    rw [parent]
    simp [after, pid, drop, leave, goTo]
  | some q =>
    have posts : Outcome.Ensures (Proc.semV { proc with
        lock := some (some cur), pRetval := exitcode, pIsDead := true })
        fun new => ∃ n, proc.pSem = some n ∧
          new = { dead proc exitcode n with lock := some (some cur) } := by
      simp [Proc.semV, AtomicSem.release, dead]
    rw [parent] at posts
    refine (update_here (Function.update_self ..) posts).then ?_
    rintro k₂ ⟨new, ⟨n, count, posted⟩, same₂⟩
    subst posted same₂
    have releases : (Proc.lockRelease { dead proc exitcode n with lock := some (some cur) }
        cur).Ensures fun new => new = dead proc exitcode n := by
      simp [Proc.lockRelease, dead]
    refine (update_here (Function.update_self ..) releases).then ?_
    rintro k₃ ⟨new, released, same₃⟩
    subst released same₃
    refine Outcome.ensures_pure.mpr ⟨proc, files, found, near, ?_⟩
    rw [parent]
    refine ⟨empty, n, count, ?_⟩
    simp [revise, leave, goTo]

theorem procGet_ensures {k : Kernel Id Id Unit} {pid : Int} :
    (procGet k cur pid).Ensures fun (result, next) => match result with
      | .error _ => next = k
      | .ok p => ∃ (slot : Fin 32) (proc : Proc Id Id Unit), pid = slot.val ∧ slot ≠ 0 ∧
          k.pTable slot = some p ∧ k.heap p = some proc ∧ proc.lock = some none ∧
          next = { k with heap :=
            Function.update k.heap p (some { proc with lock := some (some cur) }) } := by
  unfold procGet
  split
  · rename_i inside
    rw [Outcome.ensures_bind, Outcome.ensures_await]
    intro _
    split
    · exact Outcome.ensures_pure.mpr rfl
    · rename_i p entry
      refine update_only.then ?_
      rintro next ⟨proc, new, found, value, same⟩
      have locks : (proc.lockAcquire cur).Ensures fun new =>
          proc.lock = some none ∧ new = { proc with lock := some (some cur) } := by
        simp only [Proc.lockAcquire, Outcome.ensures_bind, Outcome.ensures_deref,
          AtomicLock.acquire_ensures, Outcome.ensures_pure]
        intro lock found free
        exact ⟨found.trans (congrArg some free), trivial⟩
      obtain ⟨free, rfl⟩ := locks new value
      refine Outcome.ensures_pure.mpr ⟨_, proc, ?_, ?_, entry, found, free, same⟩
      · exact (Int.toNat_of_nonneg (by omega)).symm
      · simp only [ne_eq, Fin.ext_iff, Fin.val_zero]
        omega
  · exact Outcome.ensures_pure.mpr rfl

theorem waitpid_ensures {pid options : Int} : (s.waitpid cur pid options).Ensures fun (result, t) =>
    match result with
    | some _ => t = s
    | none => ∃ p proc, s.kernel.heap p = some proc ∧ proc.pProc = some cur ∧
        t = s.goTo cur (.waiting p) := by
  unfold waitpid
  split
  · exact Outcome.ensures_pure.mpr rfl
  · refine procGet_ensures.then fun (result, k₁) got => ?_
    cases result with
    | error err => exact Outcome.ensures_pure.mpr (by rw [show k₁ = s.kernel from got])
    | ok p =>
      obtain ⟨slot, proc, _, _, _, found, free, rfl⟩ := got
      rw [Outcome.ensures_bind, Outcome.ensures_deref]
      intro held locked
      obtain rfl : { proc with lock := some (some cur) } = held := by simpa using locked
      refine (update_here locked (Q := fun new => new = proc)
        (by simp [Proc.lockRelease, ← free])).then fun k₂ ⟨new, released, same⟩ => ?_
      have back : k₂ = s.kernel := by simp [same, released, ← found]
      rw [back]
      dsimp only
      split
      · exact Outcome.ensures_pure.mpr rfl
      · rename_i parent
        split
        · exact Outcome.ensures_pure.mpr rfl
        · exact Outcome.ensures_pure.mpr ⟨p, proc, found, not_not.mp parent, rfl⟩

theorem reap_ensures : (s.reap cur).Ensures fun t => ∃ p proc files, s.status cur = .waiting p ∧
    s.kernel.heap p = some proc ∧ proc.pIsDead = true ∧ Near (· = p) s.files files ∧
    t = (s.drop p proc.pPid files).goTo cur .running := by
  unfold reap
  split
  · rename_i p waits
    refine update_only.then ?_
    rintro k₁ ⟨proc, new, found, taken, same₁⟩
    have takes : proc.semP.Ensures fun new => ∃ n, new = { proc with pSem := some n } := by
      simp only [Proc.semP, Outcome.ensures_bind, Outcome.ensures_deref, AtomicSem.acquire_ensures,
        Outcome.ensures_pure]
      exact fun _ _ m _ => ⟨m, rfl⟩
    obtain ⟨n, rfl⟩ := takes new taken
    subst same₁
    refine (update_here (Function.update_self ..)
      (Q := fun new => new.pPid = proc.pPid ∧ proc.pIsDead = true)
      (by simp +contextual [Proc.lockAcquire, Proc.lockRelease])).then ?_
    rintro k₂ ⟨new, ⟨pid, isDead⟩, same₂⟩
    subst same₂
    refine procDestroy_ensures.then ?_
    rintro t ⟨proc₂, files, found₂, near, after⟩
    have pid₂ : new.pPid = proc₂.pPid := by
      simpa using congrArg (Option.map Proc.pPid) found₂
    refine Outcome.ensures_pure.mpr ⟨p, proc, files, waits, found, isDead, near, ?_⟩
    simp [after, ← pid₂, pid, drop, goTo]
  · exact Outcome.ensures_blocked

theorem MayWait.not_ended {p0 : Id} {pid options : Int} (may : s.MayWait p0 cur pid options) :
    s.status cur ≠ .ended := by
  rcases may with user | ⟨rfl, _, slot, calling, _⟩
  · simp [user.1]
  · simp [calling]

/-- What a step comes to when it goes through. -/
inductive Effect (s : State Id F V) (p0 : Id) : Action Id F V → State Id F V → Prop where
  /-- A call that works on files, or that makes no process after all. -/
  | quiet {a : Action Id F V} {n : Nat} {files : Files Id F V}
      (stays : ∀ cur exitcode reclaims, a ≠ .exit cur exitcode reclaims)
      (near : Near (fun q => s.kernel.heap q = none ∨ s.status q = .running) s.files files) :
      Effect s p0 a (s.withFiles n files)
  | prog {p : Id} {room cargs threaded : Bool} {answers : Fin 3 → Answers F V} {tPid : BitVec 32}
      {reclaims : Reclaims V} {pid : Fin 32} {n : Nat} {files : Files Id F V}
      (running : s.status p0 = .running) (made : cargs = true ∧ threaded = true)
      (next : s.NextFree pid) (free : s.kernel.heap p = none) (near : Near (· = p) s.files files) :
      Effect s p0 (.prog p room answers cargs threaded tPid reclaims)
        (((s.enter p (newProc pid (some p0)) n files).spawn p0 p .starting tPid).goTo p0
          (.calling pid))
  | startup {p : Id} {outcome : Startup} (starting : s.status p = .starting) :
      Effect s p0 (.startup p outcome)
        (s.goTo p (match runprogram outcome with | none => .running | some _ => .ended))
  | fork {cur p : Id} {room threaded : Bool} {tPid : BitVec 32} {reclaims : Reclaims V}
      {pid : Fin 32} {n : Nat} {files : Files Id F V}
      (user : s.User p0 cur) (made : threaded = true) (next : s.NextFree pid)
      (free : s.kernel.heap p = none) (near : Near (fun q => q = p ∨ q = cur) s.files files) :
      Effect s p0 (.fork cur p room threaded tPid reclaims)
        (((s.enter p (newProc pid (some cur)) n files).spawn cur p .running tPid).answer p pid)
  | exitAlone {cur : Id} {exitcode : BitVec 32} {reclaims : Reclaims V} {proc : Proc Id Id Unit}
      {files : Files Id F V} (user : s.User p0 cur) (found : s.kernel.heap cur = some proc)
      (parent : proc.pProc = none) (near : Near (· = cur) s.files files) :
      Effect s p0 (.exit cur exitcode reclaims) ((s.leave cur).drop cur proc.pPid files)
  | exitChild {cur : Id} {exitcode : BitVec 32} {reclaims : Reclaims V} {proc : Proc Id Id Unit}
      {files : Files Id F V} {n : Nat} (user : s.User p0 cur)
      (found : s.kernel.heap cur = some proc) (parent : proc.pProc ≠ none)
      (near : Near (· = cur) s.files files)
      (closed : ∀ i, files.sharing.slots (cur, i) = none) :
      Effect s p0 (.exit cur exitcode reclaims)
        ((s.leave cur).revise cur (dead proc exitcode n) files)
  | turnBack {cur : Id} {pid options : Int} (may : s.MayWait p0 cur pid options) :
      Effect s p0 (.wait cur pid options) (s.goTo cur .running)
  | wait {cur p : Id} {pid options : Int} {proc : Proc Id Id Unit}
      (may : s.MayWait p0 cur pid options) (found : s.kernel.heap p = some proc)
      (parent : proc.pProc = some cur) :
      Effect s p0 (.wait cur pid options) (s.goTo cur (.waiting p))
  | reap {cur p : Id} {proc : Proc Id Id Unit} {files : Files Id F V}
      (waits : s.status cur = .waiting p) (found : s.kernel.heap p = some proc)
      (isDead : proc.pIsDead = true) (near : Near (· = p) s.files files) :
      Effect s p0 (.reap cur) ((s.drop p proc.pPid files).goTo cur .running)

theorem files_effect {α : Type} {p0 : Id} {a : Action Id F V} {x : Outcome (α × Files Id F V)}
    (stays : ∀ cur exitcode reclaims, a ≠ .exit cur exitcode reclaims)
    (frame : x.Ensures fun out => Near (· = cur) s.files out.2) :
    (do
      Outcome.await (s.User p0 cur)
      let (_, files) ← x
      return { s with files := files } : Outcome (State Id F V)).Ensures (s.Effect p0 a) := by
  rw [Outcome.ensures_bind, Outcome.ensures_await]
  intro user
  refine frame.then fun (_, files) near => Outcome.ensures_pure.mpr ?_
  refine .quiet (n := s.kernel.nextPid) stays (near.mono fun q same => .inr ?_)
  rw [same, user.1]

/-- Each step has one of the effects. -/
theorem step_effect {p0 : Id} {a : Action Id F V} : (s.step p0 a).Ensures (s.Effect p0 a) := by
  cases a with
  | prog p room answers cargs threaded tPid reclaims =>
    refine prog_ensures.mono ?_
    rintro t ⟨running, after⟩
    rcases after with ⟨n, files, near, rfl⟩ | ⟨pid, n, files, made, next, free, near, rfl⟩
    · exact .quiet (by simp) (near.mono fun _ => .inl)
    · exact .prog running made next free near
  | startup p outcome =>
    have effect : s.status p = .starting → s.Effect p0 (.startup p outcome) (s.goTo p
        (match runprogram outcome with | none => .running | some _ => .ended)) := .startup
    simp only [step, startup, Outcome.ensures_bind, Outcome.ensures_await]
    intro starting
    cases program : runprogram outcome with
    | none => simpa [program] using effect starting
    | some err => simpa [program] using effect starting
  | fork cur p room threaded tPid reclaims =>
    simp only [step, Outcome.ensures_bind, Outcome.ensures_await]
    intro user
    refine sysFork_ensures.mono ?_
    rintro ⟨result, t⟩ ⟨pid, n, files, next, free, near, after⟩
    cases result with
    | error err =>
      rw [Outcome.ensures_pure, show t = _ from after]
      refine .quiet (by simp) (near.mono fun q => Or.imp (fun same => ?_) fun same => ?_)
      · rw [same, free]
      · rw [same, user.1]
    | ok retval =>
      obtain ⟨made, rfl, rfl⟩ := after
      exact Outcome.ensures_pure.mpr (.fork user made next free near)
  | exit cur exitcode reclaims =>
    simp only [step, Outcome.ensures_bind, Outcome.ensures_await]
    intro user
    refine sysExit_ensures.mono ?_
    rintro t ⟨proc, files, found, near, after⟩
    split at after
    · rename_i parent
      exact after ▸ .exitAlone user found parent near
    · rename_i parent
      obtain ⟨closed, n, _, rfl⟩ := after
      exact .exitChild user found (by simp [parent]) near closed
  | wait cur pid options =>
    simp only [step, Outcome.ensures_bind, Outcome.ensures_await]
    intro may
    refine waitpid_ensures.mono ?_
    rintro ⟨result, t⟩ after
    cases result with
    | none =>
      obtain ⟨p, proc, found, parent, rfl⟩ := after
      exact Outcome.ensures_pure.mpr (.wait may found parent)
    | some result =>
      obtain rfl : t = s := after
      exact Outcome.ensures_pure.mpr (.turnBack may)
  | reap cur =>
    refine reap_ensures.mono ?_
    rintro t ⟨p, proc, files, waits, found, isDead, near, after⟩
    exact after ▸ .reap waits found isDead near
  | «open» cur copied flags garbage answers =>
    exact files_effect (by simp) (s.files.sysOpen_near (by rfl) copied flags garbage answers)
  | dup2 cur oldfd newfd reclaims =>
    exact files_effect (by simp) (s.files.sysDup2_near (by rfl) oldfd newfd reclaims)
  | close cur fd reclaims => exact files_effect (by simp) (s.files.sysClose_near (by rfl) fd reclaims)

end State

end Os161.Life
