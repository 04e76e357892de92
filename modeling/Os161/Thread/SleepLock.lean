import Os161.Base.Sync
import Os161.Thread.Wchan

/-!
# Sleep locks

`lock_acquire`, `lock_release` and `lock_do_i_hold` of `synch.c` for any number of threads. The two
functions first assert through `lock_do_i_hold`, which is a section under `lk_lock` of its own, and
then enter their main section; `wchan_sleep` is a step too.
-/

namespace Os161.Thread

universe u

/-- `struct lock`. `lk_lock` is free between steps. -/
structure Lock (Thread : Type u) where
  lkHolder : Option Thread
  lkWchan : Wchan Thread

namespace Lock

/-- Where a thread is with respect to the lock. -/
inductive Place where
  | outside
  /-- In `lock_acquire`, past its assertion. -/
  | entering
  /-- In `lock_acquire` with the channel locked and `lk_lock` released. -/
  | handover
  | asleep
  /-- Taken off the channel by a `lock_release`, and about to look at `lk_holder` again. -/
  | woken
  /-- `lock_acquire` has returned. -/
  | holding
  /-- In `lock_release`, past its assertion. -/
  | leaving
  deriving DecidableEq

structure State (Thread : Type u) where
  lk : Lock Thread
  place : Thread → Place

inductive Action (Thread : Type u) where
  | acquire (cur : Thread)
  | take (cur : Thread)
  | sleep (cur : Thread)
  | release (cur : Thread)
  | give (cur : Thread)

/-- The thread that takes the step. -/
def Action.actor {Thread : Type u} : Action Thread → Thread
  | .acquire cur | .take cur | .sleep cur | .release cur | .give cur => cur

variable {Thread : Type u} [DecidableEq Thread]

def lockDoIHold (lk : Lock Thread) (cur : Thread) : Bool := lk.lkHolder = some cur

/-- The thread is in none of the lock's functions. -/
def Idle (s : State Thread) (cur : Thread) : Prop := s.place cur = .outside ∨ s.place cur = .holding

instance (s : State Thread) (cur : Thread) : Decidable (Idle s cur) :=
  inferInstanceAs (Decidable (_ ∨ _))

/-- The assertion at the head of `lock_acquire`. -/
def lockAcquire (s : State Thread) (cur : Thread) : Outcome (State Thread) := do
  Outcome.await (Idle s cur)
  Outcome.kassert (lockDoIHold s.lk cur = false)
  return { s with place := Function.update s.place cur .entering }

/-- The section of `lock_acquire` under `lk_lock`, from the start or from the loop. -/
def lockTake (s : State Thread) (cur : Thread) : Outcome (State Thread) := do
  Outcome.await (s.place cur = .entering ∨ s.place cur = .woken)
  if s.lk.lkHolder = none then
    return { s with
      lk := { s.lk with lkHolder := some cur }, place := Function.update s.place cur .holding }
  else
    let wchan ← s.lk.lkWchan.lock cur
    return { s with
      lk := { s.lk with lkWchan := wchan }, place := Function.update s.place cur .handover }

/-- The `wchan_sleep` of `lock_acquire`. -/
def lockSleep (s : State Thread) (cur : Thread) : Outcome (State Thread) := do
  Outcome.await (s.place cur = .handover)
  let wchan ← s.lk.lkWchan.sleep cur
  return { s with lk := { s.lk with lkWchan := wchan }, place := Function.update s.place cur .asleep }

/-- The assertion at the head of `lock_release`. -/
def lockRelease (s : State Thread) (cur : Thread) : Outcome (State Thread) := do
  Outcome.await (Idle s cur)
  Outcome.kassert (lockDoIHold s.lk cur = true)
  return { s with place := Function.update s.place cur .leaving }

/-- The places after `wchan_wakeone` has made its target runnable. -/
def wake (place : Thread → Place) : Option Thread → Thread → Place
  | none => place
  | some target => Function.update place target .woken

/-- The section of `lock_release` under `lk_lock`. -/
def lockGive (s : State Thread) (cur : Thread) : Outcome (State Thread) := do
  Outcome.await (s.place cur = .leaving)
  let (target, wchan) ← s.lk.lkWchan.wakeone
  return { lk := { lkHolder := none, lkWchan := wchan }
           place := wake (Function.update s.place cur .outside) target }

def step (s : State Thread) : Action Thread → Outcome (State Thread)
  | .acquire cur => lockAcquire s cur
  | .take cur => lockTake s cur
  | .sleep cur => lockSleep s cur
  | .release cur => lockRelease s cur
  | .give cur => lockGive s cur

/-- A lock from `lock_create`. -/
def create : State Thread := ⟨⟨none, Wchan.create⟩, fun _ => .outside⟩

/-- A lock and the threads that use it. -/
def machine : Machine (State Thread) (Action Thread) where
  initial s := s = create
  step := step

/-! ### What a step can do -/

variable {s t : State Thread} {cur : Thread}

theorem lockAcquire_done (h : lockAcquire s cur = .done t) : Idle s cur ∧ s.lk.lkHolder ≠ some cur ∧
    t = { s with place := Function.update s.place cur .entering } := by
  unfold lockAcquire at h
  obtain ⟨_, idle, h⟩ := Outcome.bind_done.mp h
  obtain ⟨_, free, h⟩ := Outcome.bind_done.mp h
  have notHeld := Outcome.kassert_done.mp free
  exact ⟨Outcome.await_done.mp idle, by simpa [lockDoIHold] using notHeld, (Outcome.pure_done.mp h).symm⟩

theorem lockTake_done (h : lockTake s cur = .done t) :
    (s.place cur = .entering ∨ s.place cur = .woken) ∧
      ((s.lk.lkHolder = none ∧ t = { s with
          lk := { s.lk with lkHolder := some cur }
          place := Function.update s.place cur .holding }) ∨
        (s.lk.lkHolder ≠ none ∧ ∃ wchan, s.lk.lkWchan.lock cur = .done wchan ∧ t = { s with
          lk := { s.lk with lkWchan := wchan }
          place := Function.update s.place cur .handover })) := by
  unfold lockTake at h
  obtain ⟨_, entry, h⟩ := Outcome.bind_done.mp h
  refine ⟨Outcome.await_done.mp entry, ?_⟩
  split at h
  · rename_i free
    exact Or.inl ⟨free, (Outcome.pure_done.mp h).symm⟩
  · rename_i held
    obtain ⟨wchan, locked, h⟩ := Outcome.bind_done.mp h
    exact Or.inr ⟨held, wchan, locked, (Outcome.pure_done.mp h).symm⟩

theorem lockSleep_done (h : lockSleep s cur = .done t) : s.place cur = .handover ∧
    ∃ wchan, s.lk.lkWchan.sleep cur = .done wchan ∧ t = { s with
      lk := { s.lk with lkWchan := wchan }, place := Function.update s.place cur .asleep } := by
  unfold lockSleep at h
  obtain ⟨_, entry, h⟩ := Outcome.bind_done.mp h
  obtain ⟨wchan, slept, h⟩ := Outcome.bind_done.mp h
  exact ⟨Outcome.await_done.mp entry, wchan, slept, (Outcome.pure_done.mp h).symm⟩

theorem lockRelease_done (h : lockRelease s cur = .done t) : Idle s cur ∧ s.lk.lkHolder = some cur ∧
    t = { s with place := Function.update s.place cur .leaving } := by
  unfold lockRelease at h
  obtain ⟨_, idle, h⟩ := Outcome.bind_done.mp h
  obtain ⟨_, held, h⟩ := Outcome.bind_done.mp h
  have holds := Outcome.kassert_done.mp held
  exact ⟨Outcome.await_done.mp idle, by simpa [lockDoIHold] using holds, (Outcome.pure_done.mp h).symm⟩

theorem lockGive_done (h : lockGive s cur = .done t) : s.place cur = .leaving ∧
    ∃ target wchan, s.lk.lkWchan.wakeone = .done (target, wchan) ∧
      t = { lk := { lkHolder := none, lkWchan := wchan }
            place := wake (Function.update s.place cur .outside) target } := by
  unfold lockGive at h
  obtain ⟨_, entry, h⟩ := Outcome.bind_done.mp h
  obtain ⟨⟨target, wchan⟩, woke, h⟩ := Outcome.bind_done.mp h
  exact ⟨Outcome.await_done.mp entry, target, wchan, woke, (Outcome.pure_done.mp h).symm⟩

/-! ### The invariant -/

/-- Between a completed `lock_acquire` and the section of its `lock_release`. -/
def Critical (s : State Thread) (cur : Thread) : Prop :=
  s.place cur = .holding ∨ s.place cur = .leaving

structure Inv (s : State Thread) : Prop where
  tracks : s.lk.lkWchan.Tracks (fun t => s.place t = .asleep) (fun t => s.place t = .handover)
  holder : ∀ t, s.lk.lkHolder = some t ↔ Critical s t
  /-- The channel's lock keeps `lock_release` out of its section until the sleeper is asleep. -/
  held : ∀ t, s.place t = .handover → s.lk.lkHolder ≠ none
  served : s.lk.lkHolder = none → (∃ t, s.place t = .asleep) → ∃ t, s.place t = .woken

omit [DecidableEq Thread] in
theorem create_inv : Inv (create : State Thread) where
  tracks := Wchan.tracks_create (by simp [create]) (by simp [create])
  holder := by simp [create, Critical]
  held := by simp [create]
  served := by simp [create]

/-- A step that only moves a thread between places outside the channel and the lock. -/
theorem Inv.move (h : Inv s) {place : Place} (fromQuiet : s.place cur ≠ .asleep ∧
      s.place cur ≠ .handover ∧ s.place cur ≠ .woken)
    (toQuiet : place ≠ .asleep ∧ place ≠ .handover ∧ place ≠ .woken)
    (same : (place = .holding ∨ place = .leaving) ↔ Critical s cur) :
    Inv { s with place := Function.update s.place cur place } where
  tracks := by
    refine h.tracks.congr (fun t => ?_) (fun t => ?_) <;> by_cases eq : t = cur <;>
      simp [eq, fromQuiet, toQuiet]
  holder t := by
    by_cases eq : t = cur
    · subst eq
      simpa [Critical, same] using h.holder t
    · simpa [Critical, eq] using h.holder t
  held t := by
    by_cases eq : t = cur
    · simp [eq, toQuiet]
    · simpa [eq] using h.held t
  served free := by
    rintro ⟨t, sleeping⟩
    have other : t ≠ cur := by
      rintro rfl
      simp [toQuiet] at sleeping
    obtain ⟨x, awake⟩ := h.served free ⟨t, by simpa [other] using sleeping⟩
    have notCur : x ≠ cur := by
      rintro rfl
      exact fromQuiet.2.2 awake
    exact ⟨x, by simpa [notCur] using awake⟩

theorem lockAcquire_inv (h : Inv s) (step : lockAcquire s cur = .done t) : Inv t := by
  obtain ⟨idle, notHeld, rfl⟩ := lockAcquire_done step
  have outside : s.place cur = .outside := by
    rcases idle with outside | holding
    · exact outside
    · exact (notHeld ((h.holder cur).mpr (Or.inl holding))).elim
  exact h.move (by simp [outside]) (by simp) (by simp [Critical, outside])

theorem lockRelease_inv (h : Inv s) (step : lockRelease s cur = .done t) : Inv t := by
  obtain ⟨idle, held, rfl⟩ := lockRelease_done step
  have holding : s.place cur = .holding := by
    rcases idle with outside | holding
    · have critical := (h.holder cur).mp held
      simp [Critical, outside] at critical
    · exact holding
  exact h.move (by simp [holding]) (by simp) (by simp [Critical, holding])

theorem lockTake_inv (h : Inv s) (step : lockTake s cur = .done t) : Inv t := by
  obtain ⟨entry, ⟨free, rfl⟩ | ⟨held, wchan, locked, rfl⟩⟩ := lockTake_done step
  · have quiet : s.place cur ≠ .asleep ∧ s.place cur ≠ .handover := by
      rcases entry with entry | entry <;> simp [entry]
    refine ⟨h.tracks.congr (fun t => ?_) (fun t => ?_), fun t => ?_, fun t => by simp, by simp⟩
    · by_cases eq : t = cur <;> simp [eq, quiet]
    · by_cases eq : t = cur <;> simp [eq, quiet]
    · by_cases eq : t = cur
      · simp [Critical, eq]
      · have notCritical : ¬ Critical s t := by
          rw [← h.holder t, free]
          simp
        have different : cur ≠ t := Ne.symm eq
        simpa [Critical, eq, different] using notCritical
  · have unlocked := (Wchan.lock_done.mp locked).1
    have notCritical : ¬ Critical s cur := by
      rcases entry with entry | entry <;> simp [Critical, entry]
    refine ⟨h.tracks.lock_step locked (fun t => ?_) (fun t => ?_), fun t => ?_, fun _ _ => held,
      fun free => (held free).elim⟩
    · by_cases eq : t = cur
      · subst eq
        rcases entry with entry | entry <;> simp [entry]
      · simp [eq]
    · by_cases eq : t = cur
      · simp [eq]
      · have idle := h.tracks.free unlocked t
        simpa [eq] using idle
    · by_cases eq : t = cur
      · subst eq
        have notHolder : s.lk.lkHolder ≠ some t := fun same => notCritical ((h.holder t).mp same)
        simpa [Critical] using notHolder
      · simpa [Critical, eq] using h.holder t

theorem lockSleep_inv (h : Inv s) (step : lockSleep s cur = .done t) : Inv t := by
  obtain ⟨entry, wchan, slept, rfl⟩ := lockSleep_done step
  have locked := (Wchan.sleep_done.mp slept).1
  have held := h.held cur entry
  have only : ∀ t, t ≠ cur → s.place t ≠ .handover := by
    intro t other handover
    have also := (h.tracks.lock t).mpr handover
    rw [locked] at also
    exact other (Option.some.inj also).symm
  refine ⟨h.tracks.sleep_step slept (by simp [entry]) (fun t => ?_) (fun t => ?_), fun t => ?_,
    fun _ _ => held, fun free => (held free).elim⟩
  · by_cases eq : t = cur <;> simp [eq]
  · by_cases eq : t = cur
    · simp [eq]
    · simpa [eq] using only t eq
  · by_cases eq : t = cur
    · subst eq
      have notCritical : ¬ Critical s t := by simp [Critical, entry]
      rw [← h.holder t] at notCritical
      simpa [Critical] using notCritical
    · simpa [Critical, eq] using h.holder t

theorem lockGive_inv (h : Inv s) (step : lockGive s cur = .done t) : Inv t := by
  obtain ⟨entry, target, wchan, woke, rfl⟩ := lockGive_done step
  have unlocked := (Wchan.wakeone_done.mp woke).1
  have noHandover : ∀ t, s.place t ≠ .handover := h.tracks.free unlocked
  have noOther : ∀ t, t ≠ cur → ¬ Critical s t := by
    intro t other critical
    have holder := (h.holder t).mpr critical
    rw [(h.holder cur).mpr (Or.inr entry)] at holder
    exact other (Option.some.inj holder).symm
  cases target with
  | none =>
    obtain ⟨same, awake⟩ := h.tracks.wakeone_none woke
    subst same
    refine ⟨h.tracks.congr (fun t => ?_) (fun t => ?_), fun t => ?_, fun t => ?_, fun _ => ?_⟩
    · by_cases eq : t = cur <;> simp [wake, eq, entry]
    · by_cases eq : t = cur <;> simp [wake, eq, entry]
    · by_cases eq : t = cur
      · simp [Critical, wake, eq]
      · simpa [Critical, wake, eq] using noOther t eq
    · by_cases eq : t = cur
      · simp [wake, eq]
      · simp [wake, eq, noHandover]
    · rintro ⟨t, sleeping⟩
      by_cases eq : t = cur
      · simp [wake, eq] at sleeping
      · exact (awake t (by simpa [wake, eq] using sleeping)).elim
  | some x =>
    have removed := Wchan.Tracks.wakeone_some
      (fun t => wake (Function.update s.place cur .outside) (some x) t = .asleep)
      (fun t => wake (Function.update s.place cur .outside) (some x) t = .handover) h.tracks woke
      (fun t => by
        by_cases eq : t = x
        · simp [wake, eq]
        · by_cases eq' : t = cur
          · subst eq'
            simp [wake, eq, entry]
          · simp [wake, eq, eq'])
      (fun t => by
        by_cases eq : t = x
        · simp [wake, eq, noHandover]
        · by_cases eq' : t = cur
          · subst eq'
            simp [wake, eq, entry]
          · simp [wake, eq, eq'])
    obtain ⟨sleeping, tracks⟩ := removed
    refine ⟨tracks, fun t => ?_, fun t => ?_, fun _ _ => ⟨x, by simp [wake]⟩⟩
    · by_cases eq : t = x
      · simp [Critical, wake, eq]
      · by_cases eq' : t = cur
        · have different : cur ≠ x := eq' ▸ eq
          simp [Critical, wake, eq', different]
        · simpa [Critical, wake, eq, eq'] using noOther t eq'
    · by_cases eq : t = x
      · simp [wake, eq]
      · by_cases eq' : t = cur
        · have different : cur ≠ x := eq' ▸ eq
          simp [wake, eq', different]
        · simp [wake, eq, eq', noHandover]

theorem step_inv {a : Action Thread} (h : Inv s) (ht : step s a = .done t) : Inv t := by
  cases a with
  | acquire cur => exact lockAcquire_inv h ht
  | take cur => exact lockTake_inv h ht
  | sleep cur => exact lockSleep_inv h ht
  | release cur => exact lockRelease_inv h ht
  | give cur => exact lockGive_inv h ht

theorem reachable_inv (h : machine.Reachable s) : Inv s := by
  refine Machine.invariant machine (fun s start => ?_) (fun _ _ _ inv _ ht => step_inv inv ht) h
  have same : s = create := start
  exact same ▸ create_inv

/-- A step moves no thread but its actor, except that it may wake a sleeper. -/
theorem step_other {a : Action Thread} {x : Thread} (h : Inv s) (ht : step s a = .done t)
    (other : x ≠ a.actor) :
    t.place x = s.place x ∨ (s.place x = .asleep ∧ t.place x = .woken) := by
  cases a with
  | acquire cur =>
    obtain ⟨_, _, rfl⟩ := lockAcquire_done ht
    exact Or.inl (Function.update_of_ne other _ _)
  | take cur =>
    obtain ⟨_, ⟨_, rfl⟩ | ⟨_, _, _, rfl⟩⟩ := lockTake_done ht
    · exact Or.inl (Function.update_of_ne other _ _)
    · exact Or.inl (Function.update_of_ne other _ _)
  | sleep cur =>
    obtain ⟨_, _, _, rfl⟩ := lockSleep_done ht
    exact Or.inl (Function.update_of_ne other _ _)
  | release cur =>
    obtain ⟨_, _, rfl⟩ := lockRelease_done ht
    exact Or.inl (Function.update_of_ne other _ _)
  | give cur =>
    obtain ⟨_, target, _, woke, rfl⟩ := lockGive_done ht
    cases target with
    | none => exact Or.inl (Function.update_of_ne other _ _)
    | some target =>
      by_cases same : x = target
      · have first := (Wchan.wakeone_done.mp woke).2.1
        have member := List.mem_of_mem_head? first.symm
        subst same
        exact Or.inr ⟨(h.tracks.mem x).mp member, Function.update_self _ _ _⟩
      · have notCur : x ≠ cur := other
        exact Or.inl (by simp [wake, same, notCur])

/-- The place of the actor after its step. -/
theorem step_actor {a : Action Thread} (h : Inv s) (ht : step s a = .done t) :
    match a with
    | .acquire cur => s.place cur = .outside ∧ t.place cur = .entering
    | .take cur => (t.place cur = .holding ∧ t.lk.lkHolder = some cur) ∨ t.place cur = .handover
    | .sleep cur => t.place cur = .asleep
    | .release cur => s.place cur = .holding ∧ t.place cur = .leaving
    | .give cur => t.place cur = .outside := by
  cases a with
  | acquire cur =>
    obtain ⟨idle, notHeld, rfl⟩ := lockAcquire_done ht
    refine ⟨idle.resolve_right fun holding => notHeld ((h.holder cur).mpr (Or.inl holding)), ?_⟩
    exact Function.update_self _ _ _
  | take cur =>
    obtain ⟨_, ⟨_, rfl⟩ | ⟨_, _, _, rfl⟩⟩ := lockTake_done ht
    · exact Or.inl ⟨Function.update_self _ _ _, rfl⟩
    · exact Or.inr (Function.update_self _ _ _)
  | sleep cur =>
    obtain ⟨_, _, _, rfl⟩ := lockSleep_done ht
    exact Function.update_self _ _ _
  | release cur =>
    obtain ⟨idle, held, rfl⟩ := lockRelease_done ht
    refine ⟨idle.resolve_left fun outside => ?_, Function.update_self _ _ _⟩
    have critical := (h.holder cur).mp held
    simp [Critical, outside] at critical
  | give cur =>
    obtain ⟨entry, target, _, woke, rfl⟩ := lockGive_done ht
    cases target with
    | none => exact Function.update_self _ _ _
    | some target =>
      have first := (Wchan.wakeone_done.mp woke).2.1
      have sleeping := (h.tracks.mem target).mp (List.mem_of_mem_head? first.symm)
      have different : cur ≠ target := by
        rintro rfl
        rw [entry] at sleeping
        cases sleeping
      simp [wake, different]

/-! ### The lock is correct -/

/-- What a lock promises in a state: one critical thread at most, `lock_do_i_hold` true of exactly
that one, and a woken thread on its way whenever the lock is free and somebody sleeps. -/
structure Correct (s : State Thread) : Prop where
  exclusive : ∀ t u, Critical s t → Critical s u → t = u
  doIHold : ∀ t, lockDoIHold s.lk t = true ↔ Critical s t
  notLost : s.lk.lkHolder = none → (∃ t, t ∈ s.lk.lkWchan.wcThreads) → ∃ t, s.place t = .woken

theorem Inv.correct (h : Inv s) : Correct s where
  exclusive t u ht hu := by
    have holder := (h.holder t).mpr ht
    rw [(h.holder u).mpr hu] at holder
    exact (Option.some.inj holder).symm
  doIHold t := by
    rw [← h.holder t]
    simp [lockDoIHold]
  notLost free := by
    rintro ⟨t, member⟩
    exact h.served free ⟨t, (h.tracks.mem t).mp member⟩

/-- Every state of every run keeps the promises of a lock. -/
theorem lock_correct (h : machine.Reachable s) : Correct s := (reachable_inv h).correct

/-- Thread 0 holds the lock, thread 1 goes to sleep for it, and the release wakes it. -/
theorem lock_correct_wakeup : ∃ s : State (Fin 2), s.lk.lkHolder = none ∧ s.place 1 = .woken ∧
    Correct s := by
  have reached := Machine.Reachable.run (M := @machine (Fin 2) _)
    [.acquire 0, .take 0, .acquire 1, .take 1, .sleep 1, .release 0, .give 0] (.initial rfl) rfl
  exact ⟨_, rfl, rfl, lock_correct reached⟩

/-- A lock is the atomic one: it changes hands at the two main sections. -/
theorem lock_refines : (@machine Thread _).Refines AtomicLock.machine
    (fun s => s.lk.lkHolder) where
  initial s start := by
    have same : s = create := start
    simp [AtomicLock.machine, same, create]
  step s a t reached ht := by
    have inv := reachable_inv reached
    cases a with
    | acquire cur =>
      obtain ⟨_, _, rfl⟩ := lockAcquire_done ht
      exact Or.inl rfl
    | take cur =>
      obtain ⟨_, ⟨free, rfl⟩ | ⟨_, _, _, rfl⟩⟩ := lockTake_done ht
      · exact Or.inr ⟨.acquire cur, AtomicLock.acquire_done.mpr ⟨free, rfl⟩⟩
      · exact Or.inl rfl
    | sleep cur =>
      obtain ⟨_, _, _, rfl⟩ := lockSleep_done ht
      exact Or.inl rfl
    | release cur =>
      obtain ⟨_, _, rfl⟩ := lockRelease_done ht
      exact Or.inl rfl
    | give cur =>
      obtain ⟨entry, _, _, _, rfl⟩ := lockGive_done ht
      have holder := (inv.holder cur).mpr (Or.inr entry)
      exact Or.inr ⟨.release cur, AtomicLock.release_done.mpr ⟨holder, rfl⟩⟩

end Lock

end Os161.Thread
