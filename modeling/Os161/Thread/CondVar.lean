import Os161.Thread.SleepLock

/-!
# Condition variables

`cv_wait`, `cv_signal` and `cv_broadcast` of `synch.c` with one lock and any number of threads. The
lock is the one of `SleepLock.lean`, step by step. A thread between the list of the channel and its
`thread_make_runnable` is in transit on the private list of the thread that wakes it.
-/

namespace Os161.Thread

universe u

namespace CondVar

/-- `wchan_wakeone` or `wchan_wakeall`. -/
inductive Kind where
  | signal
  | broadcast
  deriving DecidableEq

/-- The waiting threads that a call is to make runnable. -/
def Kind.targets {Thread : Type u} : Kind → List Thread → List Thread
  | .signal, found => found.take 1
  | .broadcast, found => found

/-- Where a thread is with respect to the condition variable. -/
inductive Place (Thread : Type u) where
  | outside
  /-- In `cv_wait`, past its assertion. -/
  | waiting
  /-- In the `lock_release` of `cv_wait`, with the channel locked. -/
  | releasing
  /-- Past that `lock_release`, with the channel still locked. -/
  | released
  | asleep
  /-- Off the channel, not yet runnable. -/
  | transit
  /-- Runnable again, in the `lock_acquire` of `cv_wait`. -/
  | woken
  /-- In `cv_signal` or `cv_broadcast`, past its assertion. -/
  | signalling (kind : Kind)
  /-- Past the channel: the threads found on it, those made runnable since, and the private list. -/
  | waking (kind : Kind) (found made todo : List Thread)
  deriving DecidableEq

/-- A completed `cv_signal` or `cv_broadcast`. -/
structure Call (Thread : Type u) where
  kind : Kind
  found : List Thread
  made : List Thread

structure State (Thread : Type u) where
  lock : Lock.State Thread
  cvWchan : Wchan Thread
  place : Thread → Place Thread
  calls : List (Call Thread)

inductive Action (Thread : Type u) where
  | lock (a : Lock.Action Thread)
  | wait (cur : Thread)
  | lockChannel (cur : Thread)
  | sleep (cur : Thread)
  | signal (kind : Kind) (cur : Thread)
  | examine (cur : Thread)
  | makeRunnable (cur : Thread)
  | finish (cur : Thread)

variable {Thread : Type u} [DecidableEq Thread]

/-- The lock operations that the code at a place contains. -/
def Place.allows : Place Thread → Lock.Action Thread → Bool
  | .outside, _ => true
  | .releasing, .release _ | .releasing, .give _ => true
  | .woken, .acquire _ | .woken, .take _ | .woken, .sleep _ => true
  | _, _ => false

/-- The place after a lock operation: `cv_wait` goes on when its `lock_release` returns, and returns
when its `lock_acquire` does. -/
def Place.after : Place Thread → Lock.Place → Place Thread
  | .releasing, .outside => .released
  | .woken, .holding => .outside
  | place, _ => place

def lockStep (s : State Thread) (a : Lock.Action Thread) : Outcome (State Thread) := do
  Outcome.await ((s.place a.actor).allows a = true)
  let lock ← Lock.step s.lock a
  return { s with
    lock := lock
    place := Function.update s.place a.actor ((s.place a.actor).after (lock.place a.actor)) }

/-- The assertion at the head of the three functions. -/
def enter (s : State Thread) (cur : Thread) (place : Place Thread) : Outcome (State Thread) := do
  Outcome.await (s.place cur = .outside ∧ Lock.Idle s.lock cur)
  Outcome.kassert (Lock.lockDoIHold s.lock.lk cur = true)
  return { s with place := Function.update s.place cur place }

/-- The `wchan_lock` of `cv_wait`. -/
def cvWaitLock (s : State Thread) (cur : Thread) : Outcome (State Thread) := do
  Outcome.await (s.place cur = .waiting)
  let wchan ← s.cvWchan.lock cur
  return { s with cvWchan := wchan, place := Function.update s.place cur .releasing }

/-- The `wchan_sleep` of `cv_wait`. -/
def cvWaitSleep (s : State Thread) (cur : Thread) : Outcome (State Thread) := do
  Outcome.await (s.place cur = .released)
  let wchan ← s.cvWchan.sleep cur
  return { s with cvWchan := wchan, place := Function.update s.place cur .asleep }

/-- `wchan_wakeone` and `wchan_wakeall` under the channel's lock. -/
def takeOff (wchan : Wchan Thread) : Kind → Outcome (List Thread × Wchan Thread)
  | .signal => do
    let (target, wchan) ← wchan.wakeone
    return (target.toList, wchan)
  | .broadcast => wchan.wakeall

/-- The part of `cv_signal` or `cv_broadcast` that looks at the channel. -/
def examine (s : State Thread) (cur : Thread) : Outcome (State Thread) :=
  match s.place cur with
  | .signalling kind => do
    let (todo, wchan) ← takeOff s.cvWchan kind
    return { s with
      cvWchan := wchan
      place := Function.update (fun t => if t ∈ todo then .transit else s.place t) cur
        (.waking kind s.cvWchan.wcThreads [] todo) }
  | _ => .blocked

/-- One `thread_make_runnable`. -/
def makeRunnable (s : State Thread) (cur : Thread) : Outcome (State Thread) :=
  match s.place cur with
  | .waking kind found made (target :: todo) => .done { s with
      place := Function.update (Function.update s.place target .woken) cur
        (.waking kind found (made ++ [target]) todo) }
  | _ => .blocked

/-- `cv_signal` or `cv_broadcast` returns once its private list is empty. -/
def finish (s : State Thread) (cur : Thread) : Outcome (State Thread) :=
  match s.place cur with
  | .waking kind found made [] => .done { s with
      place := Function.update s.place cur .outside
      calls := s.calls ++ [⟨kind, found, made⟩] }
  | _ => .blocked

def step (s : State Thread) : Action Thread → Outcome (State Thread)
  | .lock a => lockStep s a
  | .wait cur => enter s cur .waiting
  | .lockChannel cur => cvWaitLock s cur
  | .sleep cur => cvWaitSleep s cur
  | .signal kind cur => enter s cur (.signalling kind)
  | .examine cur => examine s cur
  | .makeRunnable cur => makeRunnable s cur
  | .finish cur => finish s cur

/-- A condition variable from `cv_create`, its lock, and the threads that use them. -/
def machine : Machine (State Thread) (Action Thread) where
  initial s := s = ⟨Lock.create, Wchan.create, fun _ => .outside, []⟩
  step := step

omit [DecidableEq Thread] in
theorem after_woken {place : Place Thread} {p : Lock.Place} (h : place.after p = .woken) :
    place = .woken := by
  cases place <;> cases p <;> cases h <;> rfl

omit [DecidableEq Thread] in
theorem after_outside {p : Lock.Place} (h : (Place.woken : Place Thread).after p = .outside) :
    p = .holding := by
  cases p <;> cases h
  rfl

/-! ### What a step can do -/

variable {s t : State Thread} {cur : Thread}

theorem lockStep_done {a : Lock.Action Thread} (h : lockStep s a = .done t) :
    (s.place a.actor).allows a = true ∧ ∃ lock, Lock.step s.lock a = .done lock ∧ t = { s with
      lock := lock
      place := Function.update s.place a.actor ((s.place a.actor).after (lock.place a.actor)) } := by
  unfold lockStep at h
  obtain ⟨_, allowed, h⟩ := Outcome.bind_done.mp h
  obtain ⟨lock, stepped, h⟩ := Outcome.bind_done.mp h
  exact ⟨Outcome.await_done.mp allowed, lock, stepped, (Outcome.pure_done.mp h).symm⟩

theorem enter_done {place : Place Thread} (h : enter s cur place = .done t) :
    (s.place cur = .outside ∧ Lock.Idle s.lock cur) ∧ s.lock.lk.lkHolder = some cur ∧
      t = { s with place := Function.update s.place cur place } := by
  unfold enter at h
  obtain ⟨_, entry, h⟩ := Outcome.bind_done.mp h
  obtain ⟨_, held, h⟩ := Outcome.bind_done.mp h
  have holds := Outcome.kassert_done.mp held
  exact ⟨Outcome.await_done.mp entry, by simpa [Lock.lockDoIHold] using holds,
    (Outcome.pure_done.mp h).symm⟩

theorem cvWaitLock_done (h : cvWaitLock s cur = .done t) : s.place cur = .waiting ∧
    ∃ wchan, s.cvWchan.lock cur = .done wchan ∧
      t = { s with cvWchan := wchan, place := Function.update s.place cur .releasing } := by
  unfold cvWaitLock at h
  obtain ⟨_, entry, h⟩ := Outcome.bind_done.mp h
  obtain ⟨wchan, locked, h⟩ := Outcome.bind_done.mp h
  exact ⟨Outcome.await_done.mp entry, wchan, locked, (Outcome.pure_done.mp h).symm⟩

theorem cvWaitSleep_done (h : cvWaitSleep s cur = .done t) : s.place cur = .released ∧
    ∃ wchan, s.cvWchan.sleep cur = .done wchan ∧
      t = { s with cvWchan := wchan, place := Function.update s.place cur .asleep } := by
  unfold cvWaitSleep at h
  obtain ⟨_, entry, h⟩ := Outcome.bind_done.mp h
  obtain ⟨wchan, slept, h⟩ := Outcome.bind_done.mp h
  exact ⟨Outcome.await_done.mp entry, wchan, slept, (Outcome.pure_done.mp h).symm⟩

omit [DecidableEq Thread] in
theorem takeOff_done {wchan next : Wchan Thread} {kind : Kind} {todo : List Thread}
    (h : takeOff wchan kind = .done (todo, next)) : wchan.wcLock = none ∧
      todo = kind.targets wchan.wcThreads ∧
      ∃ rest, wchan.wcThreads = todo ++ rest ∧ next = { wchan with wcThreads := rest } := by
  cases kind with
  | signal =>
    obtain ⟨⟨target, off⟩, woke, h⟩ := Outcome.bind_done.mp h
    obtain ⟨unlocked, rfl, rfl⟩ := Wchan.wakeone_done.mp woke
    obtain ⟨rfl, rfl⟩ := Prod.mk.inj (Outcome.pure_done.mp h)
    refine ⟨unlocked, ?_, wchan.wcThreads.tail, ?_, rfl⟩
    · cases wchan.wcThreads <;> simp [Kind.targets]
    · cases wchan.wcThreads <;> simp
  | broadcast =>
    obtain ⟨unlocked, rfl, rfl⟩ := Wchan.wakeall_done.mp h
    exact ⟨unlocked, rfl, [], by simp, rfl⟩

theorem examine_done (h : examine s cur = .done t) : ∃ kind, s.place cur = .signalling kind ∧
    ∃ todo wchan, takeOff s.cvWchan kind = .done (todo, wchan) ∧ t = { s with
      cvWchan := wchan
      place := Function.update (fun t => if t ∈ todo then .transit else s.place t) cur
        (.waking kind s.cvWchan.wcThreads [] todo) } := by
  unfold examine at h
  split at h
  · rename_i kind entry
    obtain ⟨⟨todo, wchan⟩, taken, h⟩ := Outcome.bind_done.mp h
    exact ⟨kind, entry, todo, wchan, taken, (Outcome.pure_done.mp h).symm⟩
  · cases h

theorem makeRunnable_done (h : makeRunnable s cur = .done t) : ∃ kind found made target todo,
    s.place cur = .waking kind found made (target :: todo) ∧ t = { s with
      place := Function.update (Function.update s.place target .woken) cur
        (.waking kind found (made ++ [target]) todo) } := by
  unfold makeRunnable at h
  split at h
  · rename_i kind found made target todo entry
    exact ⟨kind, found, made, target, todo, entry, (Outcome.done.inj h).symm⟩
  · cases h

theorem finish_done (h : finish s cur = .done t) : ∃ kind found made,
    s.place cur = .waking kind found made [] ∧ t = { s with
      place := Function.update s.place cur .outside
      calls := s.calls ++ [⟨kind, found, made⟩] } := by
  unfold finish at h
  split at h
  · rename_i kind found made entry
    exact ⟨kind, found, made, entry, (Outcome.done.inj h).symm⟩
  · cases h

/-! ### The invariant -/

/-- Where the lock has a thread whose code is at a place. -/
def Agrees : Place Thread → Lock.Place → Prop
  | .outside, _ => True
  | .waiting, p | .signalling _, p | .waking _ _ _ _, p => p = .holding
  | .releasing, p => p = .holding ∨ p = .leaving
  | .released, p | .asleep, p | .transit, p => p = .outside
  | .woken, p => p ≠ .holding ∧ p ≠ .leaving

/-- What a call carries past the channel. -/
structure Carries (place : Thread → Place Thread) (kind : Kind) (found made todo : List Thread) :
    Prop where
  nodup : found.Nodup
  split : kind.targets found = made ++ todo
  transit : ∀ x ∈ todo, place x = .transit

structure Inv (s : State Thread) : Prop where
  lock : Lock.Inv s.lock
  agrees : ∀ t, Agrees (s.place t) (s.lock.place t)
  tracks : s.cvWchan.Tracks (fun t => s.place t = .asleep)
    (fun t => s.place t = .releasing ∨ s.place t = .released)
  carries : ∀ u kind found made todo, s.place u = .waking kind found made todo →
    Carries s.place kind found made todo
  calls : ∀ call ∈ s.calls, call.found.Nodup ∧ call.made = call.kind.targets call.found

theorem Inv.holds_unique (h : Inv s) {u v : Thread} (hu : s.lock.place u = .holding)
    (hv : s.lock.place v = .holding) : u = v :=
  h.lock.correct.exclusive u v (Or.inl hu) (Or.inl hv)

theorem initial_inv (start : machine.initial s) : Inv s := by
  have same : s = ⟨Lock.create, Wchan.create, fun _ => .outside, []⟩ := start
  subst same
  exact ⟨Lock.create_inv, fun _ => trivial, Wchan.tracks_create (by simp) (by simp), by simp, by simp⟩

/-- A thread that is on nobody's private list and wakes nobody changes no private list. -/
theorem Inv.carries_update (h : Inv s) {place : Place Thread} (notTransit : s.place cur ≠ .transit)
    (notWaking : ∀ kind found made todo, place ≠ .waking kind found made todo) (u : Thread)
    (kind : Kind) (found made todo : List Thread)
    (waking : Function.update s.place cur place u = .waking kind found made todo) :
    Carries (Function.update s.place cur place) kind found made todo := by
  by_cases same : u = cur
  · subst same
    rw [Function.update_self] at waking
    exact (notWaking _ _ _ _ waking).elim
  · rw [Function.update_of_ne same] at waking
    obtain ⟨nodup, split, transit⟩ := h.carries u kind found made todo waking
    refine ⟨nodup, split, fun x member => ?_⟩
    have other : x ≠ cur := by
      rintro rfl
      exact notTransit (transit x member)
    rw [Function.update_of_ne other]
    exact transit x member

theorem lockStep_inv {a : Lock.Action Thread} (h : Inv s) (step : lockStep s a = .done t) :
    Inv t := by
  obtain ⟨allowed, lock, stepped, rfl⟩ := lockStep_done step
  have others := fun x => Lock.step_other (x := x) h.lock stepped
  have actor := Lock.step_actor h.lock stepped
  generalize cur_def : a.actor = cur at *
  -- the places a lock operation can start from, and where the thread is afterwards
  have moved : (s.place cur = .outside ∧ (s.place cur).after (lock.place cur) = .outside) ∨
      (s.place cur = .releasing ∧ (s.place cur).after (lock.place cur) = .releasing ∧
        lock.place cur = .leaving) ∨
      (s.place cur = .releasing ∧ (s.place cur).after (lock.place cur) = .released ∧
        lock.place cur = .outside) ∨
      (s.place cur = .woken ∧ (s.place cur).after (lock.place cur) = .woken ∧
        lock.place cur ≠ .holding ∧ lock.place cur ≠ .leaving) ∨
      (s.place cur = .woken ∧ (s.place cur).after (lock.place cur) = .outside) := by
    cases place : s.place cur with
    | outside => simp [Place.after]
    | releasing =>
      rw [place] at allowed
      cases a with
      | release x =>
        obtain rfl : x = cur := cur_def
        simp [actor.2, Place.after]
      | give x =>
        obtain rfl : x = cur := cur_def
        simp [show lock.place x = .outside from actor, Place.after]
      | _ => cases allowed
    | woken =>
      rw [place] at allowed
      cases a with
      | acquire x =>
        obtain rfl : x = cur := cur_def
        simp [actor.2, Place.after]
      | take x =>
        obtain rfl : x = cur := cur_def
        rcases actor with ⟨holding, _⟩ | handover
        · simp [holding, Place.after]
        · simp [handover, Place.after]
      | sleep x =>
        obtain rfl : x = cur := cur_def
        simp [show lock.place x = .asleep from actor, Place.after]
      | _ => cases allowed
    | _ => rw [place] at allowed; cases a <;> cases allowed
  generalize (s.place cur).after (lock.place cur) = place at moved
  refine ⟨Lock.step_inv h.lock stepped, fun x => ?_, h.tracks.congr (fun x => ?_) (fun x => ?_),
    h.carries_update ?_ ?_, h.calls⟩
  · dsimp only
    by_cases same : x = cur
    · subst same
      rw [Function.update_self]
      rcases moved with ⟨_, rfl⟩ | ⟨_, rfl, leaving⟩ | ⟨_, rfl, outside⟩ | ⟨_, rfl, away⟩ | ⟨_, rfl⟩
      · trivial
      · exact Or.inr leaving
      · exact outside
      · exact away
      · trivial
    · rw [Function.update_of_ne same]
      have agrees := h.agrees x
      rcases others x same with kept | ⟨before, after⟩
      · rw [kept]
        exact agrees
      · -- a sleeper of the lock is outside the condition variable or at its last lock_acquire
        rw [before] at agrees
        rw [after]
        cases place : s.place x <;> simp [Agrees, place] at agrees ⊢
  · by_cases same : x = cur
    · subst same
      rcases moved with ⟨old, rfl⟩ | ⟨old, rfl, _⟩ | ⟨old, rfl, _⟩ | ⟨old, rfl, _⟩ | ⟨old, rfl⟩ <;>
        simp [old]
    · simp [same]
  · by_cases same : x = cur
    · subst same
      rcases moved with ⟨old, rfl⟩ | ⟨old, rfl, _⟩ | ⟨old, rfl, _⟩ | ⟨old, rfl, _⟩ | ⟨old, rfl⟩ <;>
        simp [old]
    · simp [same]
  · rcases moved with ⟨old, _⟩ | ⟨old, _⟩ | ⟨old, _⟩ | ⟨old, _⟩ | ⟨old, _⟩ <;> simp [old]
  · rcases moved with ⟨_, rfl⟩ | ⟨_, rfl, _⟩ | ⟨_, rfl, _⟩ | ⟨_, rfl, _⟩ | ⟨_, rfl⟩ <;> simp

/-- A step that leaves the lock and the channel and moves its thread between quiet places. -/
theorem Inv.move (h : Inv s) {place : Place Thread}
    (awake : s.place cur ≠ .asleep ∧ place ≠ .asleep)
    (apart : ¬ (s.place cur = .releasing ∨ s.place cur = .released) ∧
      ¬ (place = .releasing ∨ place = .released))
    (notTransit : s.place cur ≠ .transit)
    (notWaking : ∀ kind found made todo, place ≠ .waking kind found made todo)
    (agrees : Agrees place (s.lock.place cur)) :
    Inv { s with place := Function.update s.place cur place } where
  lock := h.lock
  agrees x := by
    by_cases same : x = cur
    · subst same
      simpa using agrees
    · simpa [same] using h.agrees x
  tracks := by
    refine h.tracks.congr (fun x => ?_) (fun x => ?_) <;> by_cases same : x = cur <;>
      simp [same, awake, apart]
  carries := h.carries_update notTransit notWaking
  calls := h.calls

theorem enter_inv (h : Inv s) {place : Place Thread} (step : enter s cur place = .done t)
    (entry : place = .waiting ∨ ∃ kind, place = .signalling kind) : Inv t := by
  obtain ⟨⟨outside, idle⟩, held, rfl⟩ := enter_done step
  have critical := (h.lock.holder cur).mp held
  have holding : s.lock.place cur = .holding := by
    rcases idle with idle | idle
    · simp [Lock.Critical, idle] at critical
    · exact idle
  rcases entry with rfl | ⟨kind, rfl⟩
  · exact h.move (by simp [outside]) (by simp [outside]) (by simp [outside]) (by simp) holding
  · exact h.move (by simp [outside]) (by simp [outside]) (by simp [outside]) (by simp) holding

theorem cvWaitLock_inv (h : Inv s) (step : cvWaitLock s cur = .done t) : Inv t := by
  obtain ⟨entry, wchan, locked, rfl⟩ := cvWaitLock_done step
  have unlocked := (Wchan.lock_done.mp locked).1
  have holding : s.lock.place cur = .holding := by
    have agrees := h.agrees cur
    rwa [entry] at agrees
  refine ⟨h.lock, fun x => ?_, h.tracks.lock_step locked (fun x => ?_) (fun x => ?_),
    h.carries_update (by simp [entry]) (by simp), h.calls⟩
  · by_cases same : x = cur
    · subst same
      simpa [Agrees] using Or.inl holding
    · simpa [same] using h.agrees x
  · by_cases same : x = cur <;> simp [same, entry]
  · by_cases same : x = cur
    · simp [same]
    · have idle := h.tracks.free unlocked x
      simpa [same] using idle

theorem cvWaitSleep_inv (h : Inv s) (step : cvWaitSleep s cur = .done t) : Inv t := by
  obtain ⟨entry, wchan, slept, rfl⟩ := cvWaitSleep_done step
  have locked := (Wchan.sleep_done.mp slept).1
  have outside : s.lock.place cur = .outside := by
    have agrees := h.agrees cur
    rwa [entry] at agrees
  refine ⟨h.lock, fun x => ?_, h.tracks.sleep_step slept (by simp [entry]) (fun x => ?_) (fun x => ?_),
    h.carries_update (by simp [entry]) (by simp), h.calls⟩
  · by_cases same : x = cur
    · subst same
      simpa [Agrees] using outside
    · simpa [same] using h.agrees x
  · by_cases same : x = cur <;> simp [same]
  · by_cases same : x = cur
    · simp [same]
    · -- only one thread holds the channel's lock
      have only : ¬ (s.place x = .releasing ∨ s.place x = .released) := by
        intro handover
        have also := (h.tracks.lock x).mpr handover
        rw [locked] at also
        exact same (Option.some.inj also).symm
      simpa [same] using only

theorem examine_inv (h : Inv s) (step : examine s cur = .done t) : Inv t := by
  obtain ⟨kind, entry, todo, wchan, taken, rfl⟩ := examine_done step
  obtain ⟨unlocked, targets, rest, split, rfl⟩ := takeOff_done taken
  have holding : s.lock.place cur = .holding := by
    have agrees := h.agrees cur
    rwa [entry] at agrees
  have asleep : ∀ x ∈ todo, s.place x = .asleep := by
    intro x member
    exact (h.tracks.mem x).mp (by simp [split, member])
  have curOff : cur ∉ todo := by
    intro member
    have sleeping := asleep cur member
    rw [entry] at sleeping
    cases sleeping
  have nodup := h.tracks.nodup
  rw [split] at nodup
  have apart := (List.nodup_append.mp nodup).2.2
  refine ⟨h.lock, fun x => ?_, ⟨fun x => ?_, (List.nodup_append.mp nodup).2.1, fun x => ?_⟩,
    fun u kind' found made todo' waking => ?_, h.calls⟩
  · dsimp only
    by_cases same : x = cur
    · subst same
      simpa [Agrees] using holding
    · rw [Function.update_of_ne same]
      have agrees := h.agrees x
      split_ifs with member
      · rw [asleep x member] at agrees
        exact agrees
      · exact agrees
  · dsimp only
    by_cases same : x = cur
    · subst same
      have notRest : x ∉ rest := by
        intro member
        have sleeping := (h.tracks.mem x).mp (by simp [split, member])
        rw [entry] at sleeping
        cases sleeping
      simp [notRest]
    · have place := h.tracks.mem x
      rw [split] at place
      rw [Function.update_of_ne same]
      by_cases member : x ∈ todo
      · have notRest : x ∉ rest := fun also => apart x member x also rfl
        simp [member, notRest]
      · simpa [member] using place
  · have idle := h.tracks.free unlocked x
    dsimp only
    rw [unlocked]
    by_cases same : x = cur
    · simp [same]
    · rw [Function.update_of_ne same]
      split_ifs <;> simp [idle]
  · dsimp only at waking ⊢
    have kept : ∀ y, s.place y = .transit → y ≠ cur := by
      rintro y inTransit rfl
      rw [entry] at inTransit
      cases inTransit
    by_cases same : u = cur
    · subst same
      rw [Function.update_self] at waking
      cases waking
      refine ⟨h.tracks.nodup, by simp [targets], fun x member => ?_⟩
      have other : x ≠ u := fun eq => curOff (eq ▸ member)
      simp [other, member]
    · rw [Function.update_of_ne same] at waking
      split_ifs at waking
      obtain ⟨nodup, split', transit⟩ := h.carries u _ _ _ _ waking
      refine ⟨nodup, split', fun x member => ?_⟩
      have inTransit := transit x member
      simp [kept x inTransit, inTransit]

theorem makeRunnable_inv (h : Inv s) (step : makeRunnable s cur = .done t) : Inv t := by
  obtain ⟨kind, found, made, target, todo, entry, rfl⟩ := makeRunnable_done step
  have holding : s.lock.place cur = .holding := by
    have agrees := h.agrees cur
    rwa [entry] at agrees
  obtain ⟨nodup, split, transit⟩ := h.carries cur _ _ _ _ entry
  have inTransit : s.place target = .transit := transit target (by simp)
  have different : target ≠ cur := by
    rintro rfl
    rw [entry] at inTransit
    cases inTransit
  have outside : s.lock.place target = .outside := by
    have agrees := h.agrees target
    rwa [inTransit] at agrees
  -- the threads on the private list are all different, so the rest of the list stays in transit
  have fresh : target ∉ todo := by
    have targets : (kind.targets found).Nodup := by
      cases kind with
      | signal => exact nodup.sublist (List.take_sublist 1 found)
      | broadcast => exact nodup
    rw [split] at targets
    have rest := (List.nodup_append.mp targets).2.1
    exact (List.nodup_cons.mp rest).1
  refine ⟨h.lock, fun x => ?_, h.tracks.congr (fun x => ?_) (fun x => ?_),
    fun u kind' found' made' todo' waking => ?_, h.calls⟩
  · dsimp only
    by_cases same : x = cur
    · subst same
      simpa [Agrees] using holding
    · by_cases hit : x = target
      · subst hit
        simp [same, Agrees, outside]
      · simpa [same, hit] using h.agrees x
  · by_cases same : x = cur
    · simp [same, entry]
    · by_cases hit : x = target <;> simp [same, hit, inTransit, different]
  · by_cases same : x = cur
    · simp [same, entry]
    · by_cases hit : x = target <;> simp [same, hit, inTransit, different]
  · dsimp only at waking ⊢
    by_cases same : u = cur
    · subst same
      rw [Function.update_self] at waking
      cases waking
      refine ⟨nodup, by simp [split], fun x member => ?_⟩
      have place := transit x (by simp [member])
      have notCur : x ≠ u := by
        rintro rfl
        rw [entry] at place
        cases place
      have notTarget : x ≠ target := fun eq => fresh (eq ▸ member)
      simp [notCur, notTarget, place]
    · rw [Function.update_of_ne same] at waking
      have other : u ≠ target := by
        rintro rfl
        simp at waking
      rw [Function.update_of_ne other] at waking
      -- two threads past the channel would both hold the lock
      have agrees := h.agrees u
      rw [waking] at agrees
      exact (same (h.holds_unique agrees holding)).elim

theorem finish_inv (h : Inv s) (step : finish s cur = .done t) : Inv t := by
  obtain ⟨kind, found, made, entry, rfl⟩ := finish_done step
  obtain ⟨nodup, split, _⟩ := h.carries cur _ _ _ _ entry
  have moved : Inv { s with place := Function.update s.place cur .outside } :=
    h.move (by simp [entry]) (by simp [entry]) (by simp [entry]) (by simp) trivial
  refine ⟨moved.lock, moved.agrees, moved.tracks, moved.carries, fun call member => ?_⟩
  rcases List.mem_append.mp member with old | new
  · exact h.calls call old
  · obtain rfl := List.mem_singleton.mp new
    exact ⟨nodup, by simpa using split.symm⟩

theorem step_inv {a : Action Thread} (h : Inv s) (ht : step s a = .done t) : Inv t := by
  cases a with
  | lock a => exact lockStep_inv h ht
  | wait cur => exact enter_inv h ht (Or.inl rfl)
  | lockChannel cur => exact cvWaitLock_inv h ht
  | sleep cur => exact cvWaitSleep_inv h ht
  | signal kind cur => exact enter_inv h ht (Or.inr ⟨kind, rfl⟩)
  | examine cur => exact examine_inv h ht
  | makeRunnable cur => exact makeRunnable_inv h ht
  | finish cur => exact finish_inv h ht

theorem reachable_inv (h : machine.Reachable s) : Inv s :=
  Machine.invariant machine (fun _ => initial_inv) (fun _ _ _ inv _ ht => step_inv inv ht) h

/-! ### The condition variable is correct -/

/-- A thread becomes runnable only as the next one of some call's private list. -/
theorem step_woken {a : Action Thread} {v : Thread} (h : Inv s) (ht : step s a = .done t)
    (before : s.place v ≠ .woken) (after : t.place v = .woken) : ∃ u kind found made todo,
      a = .makeRunnable u ∧ s.place v = .transit ∧ s.place u = .waking kind found made (v :: todo) ∧
        t.place u = .waking kind found (made ++ [v]) todo := by
  have moved : ∀ (place : Place Thread) (u : Thread), place ≠ .woken →
      Function.update s.place u place v ≠ .woken := by
    intro place u quiet
    by_cases same : v = u
    · simpa [same] using quiet
    · simpa [same] using before
  cases a with
  | lock a =>
    obtain ⟨_, lock, _, rfl⟩ := lockStep_done ht
    dsimp only at after
    by_cases same : v = a.actor
    · subst same
      rw [Function.update_self] at after
      exact (before (after_woken after)).elim
    · rw [Function.update_of_ne same] at after
      exact (before after).elim
  | wait cur =>
    obtain ⟨_, _, rfl⟩ := enter_done ht
    exact (moved _ _ (by simp) after).elim
  | lockChannel cur =>
    obtain ⟨_, _, _, rfl⟩ := cvWaitLock_done ht
    exact (moved _ _ (by simp) after).elim
  | sleep cur =>
    obtain ⟨_, _, _, rfl⟩ := cvWaitSleep_done ht
    exact (moved _ _ (by simp) after).elim
  | signal kind cur =>
    obtain ⟨_, _, rfl⟩ := enter_done ht
    exact (moved _ _ (by simp) after).elim
  | examine cur =>
    obtain ⟨kind, _, todo, _, _, rfl⟩ := examine_done ht
    dsimp only at after
    by_cases same : v = cur
    · simp [same] at after
    · rw [Function.update_of_ne same] at after
      split_ifs at after
      exact (before after).elim
  | makeRunnable cur =>
    obtain ⟨kind, found, made, target, todo, entry, rfl⟩ := makeRunnable_done ht
    have inTransit := (h.carries cur _ _ _ _ entry).transit target (by simp)
    dsimp only at after
    have other : v ≠ cur := by
      rintro rfl
      simp at after
    rw [Function.update_of_ne other] at after
    have hit : v = target := by
      by_contra miss
      rw [Function.update_of_ne miss] at after
      exact before after
    subst hit
    exact ⟨cur, kind, found, made, todo, rfl, inTransit, entry, Function.update_self _ _ _⟩
  | finish cur =>
    obtain ⟨_, _, _, _, rfl⟩ := finish_done ht
    exact (moved _ _ (by simp) after).elim

/-- `cv_wait` returns in the `lock_acquire` that ends it. -/
theorem step_returns {a : Action Thread} {v : Thread} (h : Inv s) (ht : step s a = .done t)
    (before : s.place v = .woken) (after : t.place v = .outside) : t.lock.lk.lkHolder = some v := by
  have inv := step_inv h ht
  have unmoved : ∀ (u : Thread) (place : Place Thread), v ≠ u →
      Function.update s.place u place v ≠ .outside := by
    intro u place other
    simp [other, before]
  have notEntry : ∀ u : Thread, s.place u ≠ .woken → v ≠ u := by
    rintro u away rfl
    exact away before
  cases a with
  | lock a =>
    obtain ⟨_, lock, _, rfl⟩ := lockStep_done ht
    dsimp only at after ⊢
    by_cases same : v = a.actor
    · subst same
      rw [Function.update_self, before] at after
      exact (inv.lock.holder _).mpr (Or.inl (after_outside after))
    · exact (unmoved _ _ same after).elim
  | wait cur =>
    obtain ⟨⟨entry, _⟩, _, rfl⟩ := enter_done ht
    exact (unmoved _ _ (notEntry cur (by simp [entry])) after).elim
  | lockChannel cur =>
    obtain ⟨entry, _, _, rfl⟩ := cvWaitLock_done ht
    exact (unmoved _ _ (notEntry cur (by simp [entry])) after).elim
  | sleep cur =>
    obtain ⟨entry, _, _, rfl⟩ := cvWaitSleep_done ht
    exact (unmoved _ _ (notEntry cur (by simp [entry])) after).elim
  | signal kind cur =>
    obtain ⟨⟨entry, _⟩, _, rfl⟩ := enter_done ht
    exact (unmoved _ _ (notEntry cur (by simp [entry])) after).elim
  | examine cur =>
    obtain ⟨kind, entry, todo, _, _, rfl⟩ := examine_done ht
    have other := notEntry cur (by simp [entry])
    dsimp only at after
    rw [Function.update_of_ne other, before] at after
    split_ifs at after
  | makeRunnable cur =>
    obtain ⟨kind, found, made, target, todo, entry, rfl⟩ := makeRunnable_done ht
    have other := notEntry cur (by simp [entry])
    dsimp only at after
    rw [Function.update_of_ne other] at after
    exact (unmoved target .woken (by rintro rfl; simp at after) after).elim
  | finish cur =>
    obtain ⟨_, _, _, entry, rfl⟩ := finish_done ht
    exact (unmoved _ _ (notEntry cur (by simp [entry])) after).elim

/-- What a condition variable promises in a state, and of every step from it. -/
structure Correct (s : State Thread) : Prop where
  /-- Whoever looks at the channel finds on it exactly the threads that have released the lock in
  `cv_wait` and that no call has taken off since, and sets out to wake the targets among them. -/
  examines : ∀ u t, step s (.examine u) = .done t →
    (∀ v, v ∈ s.cvWchan.wcThreads ↔ s.place v = .released ∨ s.place v = .asleep) ∧
      s.cvWchan.wcThreads.Nodup ∧ ∃ kind, s.place u = .signalling kind ∧
        t.place u = .waking kind s.cvWchan.wcThreads [] (kind.targets s.cvWchan.wcThreads)
  /-- The call goes on until its list is empty. -/
  goesOn : ∀ u kind found made todo, s.place u = .waking kind found made todo →
    ∃ t, step s (if todo = [] then .finish u else .makeRunnable u) = .done t
  /-- Nobody becomes runnable but by a call that counts it. -/
  runnable : ∀ a t v, step s a = .done t → s.place v ≠ .woken → t.place v = .woken →
    ∃ u kind found made todo, a = .makeRunnable u ∧ s.place v = .transit ∧
      s.place u = .waking kind found made (v :: todo) ∧
        t.place u = .waking kind found (made ++ [v]) todo
  /-- A completed call has made runnable its targets among the threads it found, each once. -/
  calls : ∀ call ∈ s.calls, call.found.Nodup ∧ call.made = call.kind.targets call.found
  returns : ∀ a t v, step s a = .done t → s.place v = .woken → t.place v = .outside →
    t.lock.lk.lkHolder = some v

theorem Inv.examines (h : Inv s) (ht : step s (.examine cur) = .done t) :
    (∀ v, v ∈ s.cvWchan.wcThreads ↔ s.place v = .released ∨ s.place v = .asleep) ∧
      s.cvWchan.wcThreads.Nodup ∧ ∃ kind, s.place cur = .signalling kind ∧
        t.place cur = .waking kind s.cvWchan.wcThreads [] (kind.targets s.cvWchan.wcThreads) := by
  obtain ⟨kind, entry, todo, _, taken, rfl⟩ := examine_done ht
  obtain ⟨unlocked, targets, _⟩ := takeOff_done taken
  refine ⟨fun v => ?_, h.tracks.nodup, kind, entry, ?_⟩
  · -- the channel's lock is free, so nobody is between its release and its sleep
    have idle := h.tracks.free unlocked v
    rw [h.tracks.mem v]
    exact ⟨Or.inr, fun waiting => waiting.resolve_left fun released => idle (Or.inr released)⟩
  · simp [targets]

/-- Every state of every run keeps the promises of a condition variable. -/
theorem condvar_correct (h : machine.Reachable s) : Correct s where
  examines _ _ ht := (reachable_inv h).examines ht
  goesOn u kind found made todo waking := by
    cases todo <;> simp [step, finish, makeRunnable, waking]
  runnable _ _ _ ht := step_woken (reachable_inv h) ht
  calls := (reachable_inv h).calls
  returns _ _ _ ht := step_returns (reachable_inv h) ht

/-- Threads 0 and 1 wait, and thread 2 wakes both with one broadcast. -/
theorem condvar_correct_broadcast : ∃ s : State (Fin 3), s.calls.map Call.made = [[0, 1]] ∧
    s.place 0 = .woken ∧ s.place 1 = .woken ∧ Correct s := by
  have reached := Machine.Reachable.run (M := @machine (Fin 3) _)
    [.lock (.acquire 0), .lock (.take 0), .wait 0, .lockChannel 0, .lock (.release 0),
      .lock (.give 0), .sleep 0, .lock (.acquire 1), .lock (.take 1), .wait 1, .lockChannel 1,
      .lock (.release 1), .lock (.give 1), .sleep 1, .lock (.acquire 2), .lock (.take 2),
      .signal .broadcast 2, .examine 2, .makeRunnable 2, .makeRunnable 2, .finish 2]
    (.initial rfl) rfl
  exact ⟨_, rfl, rfl, rfl, condvar_correct reached⟩

end CondVar

end Os161.Thread
