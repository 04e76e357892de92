import Os161.Base.Count
import Os161.Base.Sync
import Os161.Thread.Wchan

/-!
# Semaphores

`P` and `V` of `synch.c` for any number of threads. A step is one section under `sem_lock` or one
`wchan_sleep`; between the two steps of a `P` that has to wait, the thread has given up `sem_lock`
and holds the channel's lock.
-/

namespace Os161.Thread

universe u

/-- `struct semaphore`. `sem_lock` is free between steps. -/
structure Semaphore (Thread : Type u) where
  semCount : UInt32
  semWchan : Wchan Thread

namespace Semaphore

/-- Where a thread is with respect to the semaphore. -/
inductive Place where
  /-- Outside `P`, or at its first `spinlock_acquire`. -/
  | outside
  /-- In `P` with the channel locked and `sem_lock` released. -/
  | handover
  /-- On the wait channel. -/
  | asleep
  /-- Taken off the channel by a `V`, and about to look at the count again. -/
  | woken
  deriving DecidableEq

structure State (Thread : Type u) where
  sem : Semaphore Thread
  place : Thread → Place
  completedP : Nat
  completedV : Nat

inductive Action (Thread : Type u) where
  | p (cur : Thread)
  | sleep (cur : Thread)
  | v

variable {Thread : Type u} [DecidableEq Thread]

/-- The section of `P` under `sem_lock`. With a zero count the thread changes `sem_lock` for the
channel's lock, else it takes one and returns. -/
def semP (s : State Thread) (cur : Thread) : Outcome (State Thread) := do
  Outcome.await (s.place cur = .outside ∨ s.place cur = .woken)
  if s.sem.semCount = 0 then
    let wchan ← s.sem.semWchan.lock cur
    return { s with
      sem := { s.sem with semWchan := wchan }, place := Function.update s.place cur .handover }
  else
    Outcome.kassert (0 < s.sem.semCount)
    return { s with
      sem := { s.sem with semCount := s.sem.semCount - 1 }
      place := Function.update s.place cur .outside
      completedP := s.completedP + 1 }

/-- The `wchan_sleep` of `P`. -/
def semSleep (s : State Thread) (cur : Thread) : Outcome (State Thread) := do
  Outcome.await (s.place cur = .handover)
  let wchan ← s.sem.semWchan.sleep cur
  return { s with
    sem := { s.sem with semWchan := wchan }, place := Function.update s.place cur .asleep }

/-- `V`. It may run in an interrupt handler, so it asks nothing of the place of its caller. -/
def semV (s : State Thread) : Outcome (State Thread) := do
  let count := s.sem.semCount + 1
  Outcome.kassert (0 < count)
  let (target, wchan) ← s.sem.semWchan.wakeone
  return { s with
    sem := { semCount := count, semWchan := wchan }
    place := match target with
      | none => s.place
      | some t => Function.update s.place t .woken
    completedV := s.completedV + 1 }

/-- A semaphore from `sem_create` and the threads that use it. -/
def machine (initialCount : UInt32) : Machine (State Thread) (Action Thread) where
  initial s := s = ⟨⟨initialCount, Wchan.create⟩, fun _ => .outside, 0, 0⟩
  step s
    | .p cur => semP s cur
    | .sleep cur => semSleep s cur
    | .v => semV s

/-! ### What a step can do -/

variable {s t : State Thread} {cur : Thread}

theorem semP_done (step : semP s cur = .done t) :
    (s.place cur = .outside ∨ s.place cur = .woken) ∧
      ((s.sem.semCount = 0 ∧ ∃ wchan, s.sem.semWchan.lock cur = .done wchan ∧
          t = { s with
            sem := { s.sem with semWchan := wchan }
            place := Function.update s.place cur .handover }) ∨
        (0 < s.sem.semCount ∧ t = { s with
          sem := { s.sem with semCount := s.sem.semCount - 1 }
          place := Function.update s.place cur .outside
          completedP := s.completedP + 1 })) := by
  unfold semP at step
  obtain ⟨_, entry, step⟩ := Outcome.bind_done.mp step
  refine ⟨Outcome.await_done.mp entry, ?_⟩
  split at step
  · rename_i zero
    obtain ⟨wchan, locked, step⟩ := Outcome.bind_done.mp step
    exact Or.inl ⟨zero, wchan, locked, (Outcome.pure_done.mp step).symm⟩
  · rename_i nonzero
    obtain ⟨_, _, step⟩ := Outcome.bind_done.mp step
    exact Or.inr ⟨UInt32.pos_iff_ne_zero.mpr nonzero, (Outcome.pure_done.mp step).symm⟩

theorem semSleep_done (step : semSleep s cur = .done t) :
    s.place cur = .handover ∧ ∃ wchan, s.sem.semWchan.sleep cur = .done wchan ∧
      t = { s with
        sem := { s.sem with semWchan := wchan }
        place := Function.update s.place cur .asleep } := by
  unfold semSleep at step
  obtain ⟨_, entry, step⟩ := Outcome.bind_done.mp step
  obtain ⟨wchan, slept, step⟩ := Outcome.bind_done.mp step
  exact ⟨Outcome.await_done.mp entry, wchan, slept, (Outcome.pure_done.mp step).symm⟩

theorem semV_done (step : semV s = .done t) :
    0 < s.sem.semCount + 1 ∧ ∃ target wchan,
      s.sem.semWchan.wakeone = .done (target, wchan) ∧
      t = { s with
        sem := { semCount := s.sem.semCount + 1, semWchan := wchan }
        place := match target with
          | none => s.place
          | some t => Function.update s.place t .woken
        completedV := s.completedV + 1 } := by
  unfold semV at step
  obtain ⟨_, positive, step⟩ := Outcome.bind_done.mp step
  obtain ⟨⟨target, wchan⟩, woke, step⟩ := Outcome.bind_done.mp step
  exact ⟨Outcome.kassert_done.mp positive, target, wchan, woke, (Outcome.pure_done.mp step).symm⟩

/-! ### The invariant -/

variable [Fintype Thread]

/-- How many threads a `V` has woken that have not looked at the count again. -/
def woken (s : State Thread) : Nat := countWhere (fun place => place = .woken) s.place

/-- A thread has found the count zero and is not awake again. -/
def Waiting (s : State Thread) : Prop := ∃ t, s.place t = .handover ∨ s.place t = .asleep

structure Inv (initialCount : UInt32) (s : State Thread) : Prop where
  tracks : s.sem.semWchan.Tracks (fun t => s.place t = .asleep) (fun t => s.place t = .handover)
  balance : s.sem.semCount.toNat + s.completedP = initialCount.toNat + s.completedV
  /-- The lock hand-over keeps `V` out until the sleeper is on the channel, so a `V` that comes
  after a zero count wakes it. -/
  served : Waiting s → s.sem.semCount.toNat ≤ woken s

variable {initialCount : UInt32}

theorem initial_inv (start : (machine initialCount).initial s) : Inv initialCount s := by
  have same : s = ⟨⟨initialCount, Wchan.create⟩, fun _ => .outside, 0, 0⟩ := start
  subst same
  refine ⟨Wchan.tracks_create (by simp) (by simp), rfl, ?_⟩
  rintro ⟨t, place | place⟩ <;> cases place

theorem toNat_pred {n : UInt32} (positive : 0 < n) : (n - 1).toNat + 1 = n.toNat := by
  have le : (1 : UInt32).toNat ≤ n.toNat := UInt32.lt_iff_toNat_lt.mp positive
  rw [UInt32.toNat_sub_of_le _ _ (UInt32.le_iff_toNat_le.mpr le)]
  exact Nat.sub_add_cancel le

theorem toNat_succ {n : UInt32} (positive : 0 < n + 1) : (n + 1).toNat = n.toNat + 1 := by
  have nonzero : 0 < (n.toNat + 1) % 2 ^ 32 := by
    simpa [UInt32.lt_iff_toNat_lt] using positive
  have small := n.toNat_lt
  rw [UInt32.toNat_add, UInt32.toNat_one]
  omega

theorem semP_inv (h : Inv initialCount s) (step : semP s cur = .done t) : Inv initialCount t := by
  obtain ⟨entry, ⟨zero, wchan, locked, rfl⟩ | ⟨positive, rfl⟩⟩ := semP_done step
  · -- the count stays zero, so there is nothing to serve
    refine ⟨?_, h.balance, fun _ => by simp [zero]⟩
    have unlocked := (Wchan.lock_done.mp locked).1
    refine h.tracks.lock_step locked (fun t => ?_) (fun t => ?_)
    · by_cases same : t = cur
      · subst same
        rcases entry with entry | entry <;> simp [entry]
      · simp [same]
    · by_cases same : t = cur
      · simp [same]
      · have idle := h.tracks.free unlocked t
        simpa [same] using idle
  · have count := toNat_pred positive
    have awake : s.place cur ≠ .handover ∧ s.place cur ≠ .asleep := by
      rcases entry with entry | entry <;> simp [entry]
    refine ⟨h.tracks.congr (fun t => ?_) (fun t => ?_), ?_, ?_⟩
    · by_cases same : t = cur
      · simp [same, awake]
      · simp [same]
    · by_cases same : t = cur
      · simp [same, awake]
      · simp [same]
    · have balance := h.balance
      dsimp only
      omega
    · rintro ⟨t, place⟩
      have other : t ≠ cur := by
        rintro rfl
        simp at place
      have served := h.served ⟨t, by simpa [other] using place⟩
      -- the thread that leaves was at most one of the woken ones
      have moved := countWhere_update (p := fun place => place = Place.woken) (f := s.place) cur .outside
      simp only [woken] at served ⊢
      split at moved <;> simp at moved <;> omega

theorem semSleep_inv (h : Inv initialCount s) (step : semSleep s cur = .done t) :
    Inv initialCount t := by
  obtain ⟨entry, wchan, slept, rfl⟩ := semSleep_done step
  have held := (Wchan.sleep_done.mp slept).1
  refine ⟨?_, h.balance, fun _ => ?_⟩
  · refine h.tracks.sleep_step slept (by simp [entry]) (fun t => ?_) (fun t => ?_)
    · by_cases same : t = cur <;> simp [same]
    · by_cases same : t = cur
      · simp [same]
      · have only : s.place t ≠ .handover := by
          intro other
          have also := (h.tracks.lock t).mpr other
          rw [held] at also
          exact same (Option.some.inj also).symm
        simpa [same] using only
  · have served := h.served ⟨cur, Or.inl entry⟩
    have moved := countWhere_update (p := fun place => place = Place.woken) (f := s.place) cur .asleep
    simp only [woken, entry] at served moved ⊢
    simp at moved
    omega

theorem semV_inv (h : Inv initialCount s) (step : semV s = .done t) : Inv initialCount t := by
  obtain ⟨positive, target, wchan, woke, rfl⟩ := semV_done step
  have unlocked := (Wchan.wakeone_done.mp woke).1
  have count := toNat_succ positive
  have balance : (s.sem.semCount + 1).toNat + s.completedP =
      initialCount.toNat + (s.completedV + 1) := by
    have balance := h.balance
    omega
  cases target with
  | none =>
    obtain ⟨same, awake⟩ := h.tracks.wakeone_none woke
    subst same
    refine ⟨h.tracks, balance, ?_⟩
    rintro ⟨t, place | place⟩
    · exact (h.tracks.free unlocked t place).elim
    · exact (awake t place).elim
  | some x =>
    have removed := Wchan.Tracks.wakeone_some (fun t => Function.update s.place x .woken t = .asleep)
      (fun t => Function.update s.place x .woken t = .handover) h.tracks woke
      (fun t => by by_cases same : t = x <;> simp [same])
      (fun t => by
        by_cases same : t = x
        · have idle := h.tracks.free unlocked x
          simpa [same] using idle
        · simp [same])
    obtain ⟨sleeping, tracks⟩ := removed
    refine ⟨tracks, balance, fun _ => ?_⟩
    have served := h.served ⟨x, Or.inr sleeping⟩
    have moved := countWhere_update (p := fun place => place = Place.woken) (f := s.place) x .woken
    simp only [woken, sleeping, count] at served moved ⊢
    simp at moved
    omega

theorem step_inv {a : Action Thread} (h : Inv initialCount s)
    (step : (machine initialCount).step s a = .done t) : Inv initialCount t := by
  cases a with
  | p cur => exact semP_inv h step
  | sleep cur => exact semSleep_inv h step
  | v => exact semV_inv h step

theorem reachable_inv (h : (machine initialCount).Reachable s) : Inv initialCount s :=
  Machine.invariant _ (fun _ => initial_inv) (fun _ _ _ inv _ step => step_inv inv step) h

/-! ### The semaphore is correct -/

omit [Fintype Thread] in
/-- A step completes a `P` only when there is something to take. -/
theorem completes_positive {a : Action Thread} (step : (machine initialCount).step s a = .done t)
    (completes : s.completedP < t.completedP) : 0 < s.sem.semCount := by
  cases a with
  | p cur =>
    obtain ⟨_, ⟨_, _, _, rfl⟩ | ⟨positive, _⟩⟩ := semP_done step
    · simp at completes
    · exact positive
  | sleep cur =>
    obtain ⟨_, _, _, rfl⟩ := semSleep_done step
    simp at completes
  | v =>
    obtain ⟨_, _, _, _, rfl⟩ := semV_done step
    simp at completes

/-- What a semaphore promises in a state: the count is the initial count and the completed `V`s less
the completed `P`s, which is never negative; a `P` completes only on a positive count; and while a
thread sleeps, the count is covered by threads that are woken and on their way. -/
structure Correct (initialCount : UInt32) (s : State Thread) : Prop where
  count : (s.sem.semCount.toNat : Int) = initialCount.toNat + s.completedV - s.completedP
  nonnegative : s.completedP ≤ initialCount.toNat + s.completedV
  positive : ∀ a t, (machine initialCount).step s a = .done t → s.completedP < t.completedP →
    0 < s.sem.semCount
  notLost : (∃ t, t ∈ s.sem.semWchan.wcThreads) → s.sem.semCount.toNat ≤ woken s

/-- Every state of every run keeps the promises of a semaphore. -/
theorem semaphore_correct (h : (machine initialCount).Reachable s) : Correct initialCount s := by
  have inv := reachable_inv h
  have balance := inv.balance
  refine ⟨by omega, by omega, fun a t step completes => completes_positive step completes, ?_⟩
  rintro ⟨t, member⟩
  exact inv.served ⟨t, Or.inr ((inv.tracks.mem t).mp member)⟩

/-- Thread 0 goes to sleep on a zero count and thread 1 wakes it. -/
theorem semaphore_correct_wakeup : ∃ s : State (Fin 2), s.sem.semCount = 1 ∧ s.place 0 = .woken ∧
    Correct 0 s := by
  have reached := Machine.Reachable.run (M := @machine (Fin 2) _ 0) [.p 0, .sleep 0, .v]
    (.initial rfl) rfl
  exact ⟨_, rfl, rfl, semaphore_correct reached⟩

omit [Fintype Thread] in
/-- A semaphore is the atomic one: `P` and `V` act at their section, every other step is silent. -/
theorem semaphore_refines : (@machine Thread _ initialCount).Refines
    (AtomicSem.machine initialCount.toNat) (fun s => s.sem.semCount.toNat) where
  initial s start := by
    have same : s = ⟨⟨initialCount, Wchan.create⟩, fun _ => .outside, 0, 0⟩ := start
    simp [AtomicSem.machine, same]
  step s a t _ step := by
    cases a with
    | p cur =>
      obtain ⟨_, ⟨_, _, _, rfl⟩ | ⟨positive, rfl⟩⟩ := semP_done step
      · exact Or.inl rfl
      · exact Or.inr ⟨.acquire, AtomicSem.acquire_done.mpr (toNat_pred positive).symm⟩
    | sleep cur =>
      obtain ⟨_, _, _, rfl⟩ := semSleep_done step
      exact Or.inl rfl
    | v =>
      obtain ⟨positive, _, _, _, rfl⟩ := semV_done step
      exact Or.inr ⟨.release, congrArg Outcome.done (toNat_succ positive).symm⟩

end Semaphore

end Os161.Thread
