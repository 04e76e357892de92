import Os161.Base.Outcome
import Mathlib.Data.List.Nodup

/-!
# Wait channels

The wait channels of `thread.c`. Each operation is one atomic step. `Tracks` ties a channel to the
places of the threads that use it: the list holds the threads that sleep, each once, and the
channel's spinlock is held by the thread that is about to sleep.
-/

namespace Os161.Thread

universe u

/-- `struct wchan`. The holder of `wc_lock` is the thread that took it: interrupts stay off while a
spinlock is held, so it keeps its cpu. -/
structure Wchan (Thread : Type u) where
  /-- `wc_threads`, the next thread to wake first. -/
  wcThreads : List Thread
  /-- Who holds `wc_lock`. -/
  wcLock : Option Thread

namespace Wchan

variable {Thread : Type u}

/-- `wchan_create`. -/
def create : Wchan Thread := ⟨[], none⟩

/-- `wchan_lock`: spins until `wc_lock` is free. -/
def lock (wc : Wchan Thread) (cur : Thread) : Outcome (Wchan Thread) := do
  Outcome.await (wc.wcLock = none)
  return { wc with wcLock := some cur }

/-- `wchan_sleep`: the `S_SLEEP` case of `thread_switch` puts the thread at the tail of the list
and unlocks the channel. -/
def sleep [DecidableEq Thread] (wc : Wchan Thread) (cur : Thread) : Outcome (Wchan Thread) := do
  Outcome.kassert (wc.wcLock = some cur)
  return { wcThreads := wc.wcThreads ++ [cur], wcLock := none }

/-- `wchan_wakeone` up to its `thread_make_runnable`: the thread it takes off the channel. -/
def wakeone (wc : Wchan Thread) : Outcome (Option Thread × Wchan Thread) := do
  Outcome.await (wc.wcLock = none)
  return (wc.wcThreads.head?, { wc with wcThreads := wc.wcThreads.tail })

/-- `wchan_wakeall` up to its `thread_make_runnable`s: the private list it moves the threads to. -/
def wakeall (wc : Wchan Thread) : Outcome (List Thread × Wchan Thread) := do
  Outcome.await (wc.wcLock = none)
  return (wc.wcThreads, { wc with wcThreads := [] })

/-- The list is the threads asleep, and `wc_lock` is held by the thread about to sleep. -/
structure Tracks (wc : Wchan Thread) (asleep handover : Thread → Prop) : Prop where
  mem : ∀ t, t ∈ wc.wcThreads ↔ asleep t
  nodup : wc.wcThreads.Nodup
  lock : ∀ t, wc.wcLock = some t ↔ handover t

variable {wc next : Wchan Thread} {cur : Thread} {asleep handover asleep' handover' : Thread → Prop}

theorem tracks_create (awake : ∀ t, ¬ asleep t) (free : ∀ t, ¬ handover t) :
    (create : Wchan Thread).Tracks asleep handover :=
  ⟨by simp [create, awake], by simp [create], by simp [create, free]⟩

theorem Tracks.congr (h : wc.Tracks asleep handover) (sameAsleep : ∀ t, asleep' t ↔ asleep t)
    (sameHandover : ∀ t, handover' t ↔ handover t) : wc.Tracks asleep' handover' :=
  ⟨fun t => (h.mem t).trans (sameAsleep t).symm, h.nodup,
    fun t => (h.lock t).trans (sameHandover t).symm⟩

theorem Tracks.free (h : wc.Tracks asleep handover) (unlocked : wc.wcLock = none) (t : Thread) :
    ¬ handover t := by
  rw [← h.lock t, unlocked]
  simp

theorem lock_done : wc.lock cur = .done next ↔
    wc.wcLock = none ∧ next = { wc with wcLock := some cur } := by
  simp only [lock, Outcome.bind_done, Outcome.await_done, Outcome.pure_done]
  constructor
  · rintro ⟨_, unlocked, rfl⟩
    exact ⟨unlocked, rfl⟩
  · rintro ⟨unlocked, rfl⟩
    exact ⟨⟨⟩, unlocked, rfl⟩

theorem sleep_done [DecidableEq Thread] : wc.sleep cur = .done next ↔
    wc.wcLock = some cur ∧ next = { wcThreads := wc.wcThreads ++ [cur], wcLock := none } := by
  simp only [sleep, Outcome.bind_done, Outcome.kassert_done, Outcome.pure_done]
  constructor
  · rintro ⟨_, held, rfl⟩
    exact ⟨held, rfl⟩
  · rintro ⟨held, rfl⟩
    exact ⟨⟨⟩, held, rfl⟩

theorem wakeone_done {target : Option Thread} : wc.wakeone = .done (target, next) ↔
    wc.wcLock = none ∧ target = wc.wcThreads.head? ∧
      next = { wc with wcThreads := wc.wcThreads.tail } := by
  simp only [wakeone, Outcome.bind_done, Outcome.await_done, Outcome.pure_done, Prod.mk.injEq]
  constructor
  · rintro ⟨_, unlocked, rfl, rfl⟩
    exact ⟨unlocked, rfl, rfl⟩
  · rintro ⟨unlocked, rfl, rfl⟩
    exact ⟨⟨⟩, unlocked, rfl, rfl⟩

theorem wakeall_done {targets : List Thread} : wc.wakeall = .done (targets, next) ↔
    wc.wcLock = none ∧ targets = wc.wcThreads ∧ next = { wc with wcThreads := [] } := by
  simp only [wakeall, Outcome.bind_done, Outcome.await_done, Outcome.pure_done, Prod.mk.injEq]
  constructor
  · rintro ⟨_, unlocked, rfl, rfl⟩
    exact ⟨unlocked, rfl, rfl⟩
  · rintro ⟨unlocked, rfl, rfl⟩
    exact ⟨⟨⟩, unlocked, rfl, rfl⟩

/-- Locking the channel starts the hand-over of the locking thread and of no other. -/
theorem Tracks.lock_step (h : wc.Tracks asleep handover) (step : wc.lock cur = .done next)
    (sameAsleep : ∀ t, asleep' t ↔ asleep t) (only : ∀ t, handover' t ↔ t = cur) :
    next.Tracks asleep' handover' := by
  obtain ⟨_, rfl⟩ := lock_done.mp step
  refine ⟨fun t => (h.mem t).trans (sameAsleep t).symm, h.nodup, fun t => ?_⟩
  simp [only, eq_comm]

/-- The hand-over ends with the thread asleep at the tail of the channel. -/
theorem Tracks.sleep_step [DecidableEq Thread] (h : wc.Tracks asleep handover) (step : wc.sleep cur = .done next)
    (awake : ¬ asleep cur) (added : ∀ t, asleep' t ↔ asleep t ∨ t = cur)
    (released : ∀ t, ¬ handover' t) : next.Tracks asleep' handover' := by
  obtain ⟨_, rfl⟩ := sleep_done.mp step
  refine ⟨fun t => by simp [h.mem, added], ?_, by simp [released]⟩
  have fresh : cur ∉ wc.wcThreads := fun member => awake ((h.mem cur).mp member)
  exact List.nodup_append.mpr ⟨h.nodup, List.nodup_singleton _, by
    rintro t member u (single : u ∈ [cur]) rfl
    exact fresh (by simpa using List.mem_singleton.mp single ▸ member)⟩

/-- `wchan_wakeone` on an empty channel finds nobody asleep. -/
theorem Tracks.wakeone_none (h : wc.Tracks asleep handover)
    (step : wc.wakeone = .done (none, next)) : next = wc ∧ ∀ t, ¬ asleep t := by
  obtain ⟨_, empty, rfl⟩ := wakeone_done.mp step
  have nil : wc.wcThreads = [] := List.head?_eq_none_iff.mp empty.symm
  refine ⟨by rw [nil, List.tail_nil, ← nil], fun t sleeping => ?_⟩
  have member := (h.mem t).mpr sleeping
  simp [nil] at member

/-- `wchan_wakeone` takes one sleeping thread off the channel and leaves the others. -/
theorem Tracks.wakeone_some (asleep' handover' : Thread → Prop) (h : wc.Tracks asleep handover)
    {target : Thread} (step : wc.wakeone = .done (some target, next))
    (removed : ∀ t, asleep' t ↔ asleep t ∧ t ≠ target) (sameHandover : ∀ t, handover' t ↔ handover t) :
    asleep target ∧ next.Tracks asleep' handover' := by
  obtain ⟨_, first, rfl⟩ := wakeone_done.mp step
  obtain ⟨rest, split⟩ := List.head?_eq_some_iff.mp first.symm
  have unique : target ∉ rest ∧ rest.Nodup := by simpa [split] using h.nodup
  refine ⟨(h.mem target).mp (by simp [split]), fun t => ?_, by simpa [split] using unique.2,
    fun t => (h.lock t).trans (sameHandover t).symm⟩
  rw [removed, ← h.mem, split]
  constructor
  · intro member
    exact ⟨List.mem_cons_of_mem _ member, fun same => unique.1 (same ▸ member)⟩
  · rintro ⟨member, different⟩
    exact (List.mem_cons.mp member).resolve_left different

/-- `wchan_wakeall` leaves nobody on the channel. -/
theorem Tracks.wakeall_step (h : wc.Tracks asleep handover) {targets : List Thread}
    (step : wc.wakeall = .done (targets, next)) (awake : ∀ t, ¬ asleep' t)
    (sameHandover : ∀ t, handover' t ↔ handover t) :
    (∀ t, t ∈ targets ↔ asleep t) ∧ targets.Nodup ∧ next.Tracks asleep' handover' := by
  obtain ⟨_, rfl, rfl⟩ := wakeall_done.mp step
  exact ⟨h.mem, h.nodup, by simp [awake], by simp, fun t => (h.lock t).trans (sameHandover t).symm⟩

end Wchan

end Os161.Thread
