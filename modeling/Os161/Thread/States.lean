import Os161.Thread.OnePlace

/-!
# The state field of threads

`thread_make_runnable` leaves `t_state` alone, so a thread that was woken is on its run queue with
the state of a sleeper, and `thread_create` gives the threads that boot the cpus the state of a
ready one while they run. Either is put right as soon as a cpu switches to the thread or from it.
-/

set_option linter.unusedSectionVars false

namespace Os161.Scheduler

open Places

variable {n : Nat} {T W O : Type} [DecidableEq T] [DecidableEq W] [DecidableEq O]

/-- A cpu switches from `x` or to `x`. -/
def Switched (s t : State n T W O) (x : T) : Prop :=
  ∃ c, s.threads (.running c) ≠ t.threads (.running c) ∧
    (x ∈ s.threads (.running c) ∨ x ∈ t.threads (.running c))

/-- A thread is stale from the moment a wakeup puts it on a run queue until a switch. -/
def staleAfter (s t : State n T W O) (stale : T → Prop) (a : Action n T W O) (x : T) : Prop :=
  (∃ o, a = .woken o ∧ (s.list o).head? = some x) ∨ stale x ∧ ¬ Switched s t x

/-- The scheduler from the boot on, with the threads that are stale. The threads of the cpus are
as `thread_create` has made them. -/
def history : Machine (State n T W O × (T → Prop)) (Action n T W O) where
  initial x := machine.initial x.1 ∧ (∀ c, x.1.tState (x.1.cCurthread c) = .ready) ∧
    ∀ t, x.2 t ↔ ∃ c, x.1.cCurthread c = t
  step x a := do
    let t ← x.1.step a
    return (t, staleAfter x.1 t x.2 a)

namespace State

variable (s : State n T W O)

/-- The thread runs, or is on a run queue, a wait channel or a list of zombies, and no step that
moves it is under way. -/
def AtRest (t : T) : Prop :=
  (∃ c, t ∈ s.threads (.running c)) ∨ (∃ c, t ∈ s.threads (.ready c)) ∨
    (∃ wc, t ∈ s.threads (.asleep wc)) ∨ ∃ c, t ∈ s.threads (.zombie c)

/-- The state of a thread agrees with where it is. -/
structure Agrees (t : T) : Prop where
  run : s.tState t = .run ↔ ∃ c, t ∈ s.threads (.running c)
  ready : s.tState t = .ready ↔ ∃ c, t ∈ s.threads (.ready c)
  sleep : s.tState t = .sleep ↔ ∃ wc, t ∈ s.threads (.asleep wc)
  zombie : s.tState t = .zombie ↔ ∃ c, t ∈ s.threads (.zombie c)

end State

/-- The state of a thread in a place. -/
def Place.Noted (p : Place n W O) (state : ThreadState) (stale : Prop) : Prop :=
  match p with
  | running _ => stale ∧ state = .ready ∨ ¬ stale ∧ state = .run
  | ready _ | migrating _ => stale ∧ state = .sleep ∨ ¬ stale ∧ state = .ready
  | asleep _ | waking _ => ¬ stale ∧ state = .sleep
  | zombie _ => ¬ stale ∧ state = .zombie
  | forking _ => ¬ stale ∧ state = .ready

def Kept (s : State n T W O) (stale : T → Prop) : Prop :=
  ∀ p x, x ∈ s.threads p → p.Noted (s.tState x) (stale x)

/-- The places that a migration moves threads between. -/
def Place.Queued : Place n W O → Prop
  | ready _ | migrating _ => True
  | _ => False

/-- Threads are moved between run queues and migrations only. -/
structure Shuffled (s t : State n T W O) : Prop where
  tState : t.tState = s.tState
  rest : ∀ p, ¬ p.Queued → t.threads p = s.threads p
  queued : ∀ p x, p.Queued → x ∈ t.threads p → ∃ q, q.Queued ∧ x ∈ s.threads q

section Steps

variable {s t u : State n T W O} {stale stale' : T → Prop} {a : Action n T W O}
variable {c : Fin n} {p q : Place n W O} {x y : T} {xs : List T}

theorem Kept.congr (h : Kept s stale) (same : ∀ y, stale' y ↔ stale y) : Kept s stale' := by
  have equal : stale' = stale := funext fun y => propext (same y)
  rw [equal]
  exact h

/-- Threads that go to another place. -/
theorem Kept.move (h : Kept s stale) (apart : Apart s.threads)
    (moved : Places.Moved s.threads t.threads p q xs) (state : ∀ y, y ∉ xs → t.tState y = s.tState y)
    (same : ∀ y, y ∉ xs → (stale' y ↔ stale y))
    (arrive : ∀ y ∈ xs, q.Noted (t.tState y) (stale' y)) : Kept t stale' := by
  intro r y here
  rcases (moved.mem apart).mp here with ⟨mem, rfl⟩ | ⟨out, there⟩
  · exact arrive y mem
  · rw [state y out, same y out]
    exact h r y there

/-- Without a switch or a wakeup nothing becomes stale, or stops being so. -/
theorem unswitched (running : ∀ d, s.threads (.running d) = t.threads (.running d))
    (asleep : ∀ o, a ≠ .woken o) : staleAfter s t stale a y ↔ stale y := by
  have still : ¬ Switched s t y := fun ⟨d, changed, _⟩ => changed (running d)
  have unwoken : ¬ ∃ o, a = .woken o ∧ (s.list o).head? = some y := fun ⟨o, is, _⟩ => asleep o is
  simp [staleAfter, still, unwoken]

/-- A switch of one cpu. -/
theorem switched_iff (changed : s.threads (.running c) ≠ t.threads (.running c))
    (others : ∀ d, d ≠ c → s.threads (.running d) = t.threads (.running d)) :
    Switched s t y ↔ y ∈ s.threads (.running c) ∨ y ∈ t.threads (.running c) := by
  constructor
  · rintro ⟨d, differ, mem⟩
    by_cases own : d = c
    · exact own ▸ mem
    · exact (differ (others d own)).elim
  · exact fun mem => ⟨c, changed, mem⟩

theorem Kept.pick (h : Kept u stale) (apart : Apart u.threads) (idle : u.cIsidle c = true)
    (quiet : u.phase c = .run) {next : T} {rest : List T} (queue : u.cRunqueue c = next :: rest) :
    Kept (u.pick c) fun y => stale y ∧ y ≠ next := by
  rw [pick_cons queue]
  refine h.move apart (picked_moved queue idle quiet) (fun y out => ?_) (fun y out => ?_)
    fun y mem => ?_
  · exact Function.update_of_ne (fun same => out (by simp [same])) ..
  · have other : y ≠ next := fun same => out (by simp [same])
    simp [other]
  · obtain rfl := List.mem_singleton.mp mem
    right
    exact ⟨by simp, Function.update_self ..⟩

theorem picked_running {next : T} {rest : List T} (d : Fin n) :
    (u.picked c next rest).threads (.running d) =
      if d = c then [next] else u.threads (.running d) := by
  by_cases own : d = c
  · subst own
    simp [State.picked, State.threads]
  · simp [State.picked, State.threads, own]

theorem unidle_kept (h : Placed s) (kept : Kept s stale) (idle : s.cIsidle c = true)
    (quiet : s.phase c = .run) : Kept (s.pick c) (staleAfter s (s.pick c) stale (.unidle c)) := by
  cases queue : s.cRunqueue c with
  | nil =>
    have same : s.pick c = s := by rw [State.pick, queue]
    rw [same]
    exact kept.congr fun y => unswitched (fun _ => rfl) fun _ => by simp
  | cons next rest =>
    refine (kept.pick h.apart idle quiet queue).congr fun y => ?_
    have before : s.threads (.running c) = [] := by simp [State.threads, idle]
    have after : (s.pick c).threads (.running c) = [next] := by
      rw [pick_cons queue, picked_running, if_pos rfl]
    have switched : Switched s (s.pick c) y ↔ y = next := by
      rw [switched_iff (c := c)]
      · simp [before, after]
      · simp [before, after]
      · intro d other
        rw [pick_cons queue, picked_running, if_neg other]
    simp [staleAfter, switched]

/-- The current thread goes to its place in `u`, and then the cpu picks the next one. -/
theorem switch_kept (h : Placed s) (kept : Kept s stale) (busy : s.cIsidle c = false)
    (quiet : s.phase c = .run) {newstate : ThreadState}
    (moved : Places.Moved s.threads (u.leave c newstate).threads (.running c) q [s.cCurthread c])
    (cpus : u.cCurthread = s.cCurthread ∧ u.cIsidle = s.cIsidle ∧ u.phase = s.phase)
    (tState : u.tState = s.tState) (noted : q.Noted newstate False)
    (front : ∀ next rest, u.cRunqueue c = next :: rest → next ∈ s.cRunqueue c)
    (asleep : ∀ o, a ≠ .woken o) : Kept ((u.leave c newstate).pick c)
      (staleAfter s ((u.leave c newstate).pick c) stale a) := by
  obtain ⟨cur, isidle, phase⟩ := cpus
  have unwoken (y : T) : ¬ ∃ o, a = .woken o ∧ (s.list o).head? = some y :=
    fun ⟨o, is, _⟩ => asleep o is
  have left : Kept (u.leave c newstate) fun y => stale y ∧ y ≠ s.cCurthread c := by
    refine kept.move h.apart moved (fun y out => ?_) (fun y out => ?_) fun y mem => ?_
    · have other : y ≠ s.cCurthread c := fun same => out (by simp [same])
      show Function.update u.tState (u.cCurthread c) newstate y = s.tState y
      rw [cur, tState, Function.update_of_ne other]
    · have other : y ≠ s.cCurthread c := fun same => out (by simp [same])
      simp [other]
    · obtain rfl := List.mem_singleton.mp mem
      show q.Noted (Function.update u.tState (u.cCurthread c) newstate (s.cCurthread c)) _
      rw [cur, Function.update_self]
      simpa using noted
  have before : s.threads (.running c) = [s.cCurthread c] := by simp [State.threads, busy]
  have others (d : Fin n) (other : d ≠ c) :
      s.threads (.running d) = (u.leave c newstate).threads (.running d) := by
    simp [State.threads, State.leave, other, cur, isidle]
  cases queue : u.cRunqueue c with
  | nil =>
    have same : (u.leave c newstate).pick c = u.leave c newstate := by
      rw [State.pick]
      simp [State.leave, queue]
    rw [same]
    refine left.congr fun y => ?_
    have after : (u.leave c newstate).threads (.running c) = [] := by
      simp [State.threads, State.leave]
    have switched : Switched s (u.leave c newstate) y ↔ y = s.cCurthread c := by
      rw [switched_iff (c := c) (by simp [before, after]) others]
      simp [before, after]
    simp [staleAfter, unwoken, switched]
  | cons next rest =>
    have queue' : (u.leave c newstate).cRunqueue c = next :: rest := queue
    have picked := left.pick (moved.apart h.apart) (Function.update_self ..)
      ((congrFun phase c).trans quiet) queue'
    refine picked.congr fun y => ?_
    have other : s.cCurthread c ≠ next := by
      intro same
      have mem : next ∈ s.threads (.ready c) := front next rest queue
      cases h.apart.unique (.running c) (.ready c) next (same ▸ running_mem busy) mem
    have after : ((u.leave c newstate).pick c).threads (.running c) = [next] := by
      rw [pick_cons queue', picked_running, if_pos rfl]
    have switched : Switched s ((u.leave c newstate).pick c) y ↔
        y = s.cCurthread c ∨ y = next := by
      rw [switched_iff (c := c) (by simp [before, after, other])]
      · simp [before, after]
      · intro d away
        rw [pick_cons queue', picked_running, if_neg away]
        exact others d away
    simp [staleAfter, unwoken, switched, and_assoc]

theorem threadSwitch_kept (h : Placed s) (kept : Kept s stale) (quiet : s.phase c = .run)
    (newstate : Newstate W) (asleep : ∀ o, a ≠ .woken o) :
    (s.threadSwitch c newstate).Meets fun t => Kept t (staleAfter s t stale a) := by
  have stays : Kept s (staleAfter s s stale a) :=
    kept.congr fun y => unswitched (fun _ => rfl) asleep
  unfold State.threadSwitch
  split
  · exact stays
  rename_i busy
  have busy : s.cIsidle c = false := by simpa using busy
  have own : s.tCpu (s.cCurthread c) = c := h.home _ c _ rfl (running_mem busy)
  cases newstate with
  | ready =>
    dsimp only
    split
    · exact stays
    rename_i some
    rw [Outcome.meets_bind, Outcome.meets_kassert, Outcome.meets_pure]
    refine ⟨own, switch_kept h kept busy quiet (ready_left busy own) ⟨rfl, rfl, rfl⟩ rfl ?_ ?_
      asleep⟩
    · simp [Place.Noted]
    · intro next rest queue
      have whole : s.cRunqueue c ++ [s.cCurthread c] = next :: rest := by
        rw [← queue]
        simp [State.makeRunnable, own]
      cases front : s.cRunqueue c with
      | nil => exact (some front).elim
      | cons first more =>
        rw [front] at whole
        obtain rfl : first = next := (List.cons.inj whole).1
        exact List.mem_cons_self ..
  | sleep wc =>
    refine switch_kept h kept busy quiet (asleep_left busy wc) ⟨rfl, rfl, rfl⟩ rfl ?_ ?_ asleep
    · simp [Place.Noted]
    · intro next rest queue
      rw [show s.cRunqueue c = next :: rest from queue]
      exact List.mem_cons_self ..
  | zombie =>
    refine switch_kept h kept busy quiet (zombie_left busy) ⟨rfl, rfl, rfl⟩ rfl ?_ ?_ asleep
    · simp [Place.Noted]
    · intro next rest queue
      rw [show s.cRunqueue c = next :: rest from queue]
      exact List.mem_cons_self ..

/-! ### Threads in hand -/

theorem woken_kept (h : Placed s) (kept : Kept s stale) (o : O) :
    (s.woken o).Meets fun t => Kept t (staleAfter s t stale (.woken o)) := by
  unfold State.woken
  split
  · trivial
  rename_i x rest list
  have mem : x ∈ s.threads (.waking o) := by
    show x ∈ s.list o
    rw [list]
    exact List.mem_cons_self ..
  refine kept.move h.apart (woken_moved list) (fun _ _ => rfl) (fun y out => ?_) fun y here => ?_
  · have other : x ≠ y := fun same => out (by simp [same])
    have still : ¬ Switched s { s.makeRunnable x with list := Function.update s.list o rest } y :=
      fun ⟨d, changed, _⟩ => changed rfl
    simp [staleAfter, list, other, still]
  · obtain rfl := List.mem_singleton.mp here
    left
    exact ⟨.inl ⟨o, rfl, by simp [list]⟩, (kept _ _ mem).2⟩

theorem forked_kept (h : Placed s) (kept : Kept s stale) (o : O) :
    (s.forked o).Meets fun t => Kept t (staleAfter s t stale (.forked o)) := by
  unfold State.forked
  split
  · trivial
  rename_i x new
  have mem : x ∈ s.threads (.forking o) := by simp [State.threads, new]
  have same (y : T) : staleAfter s { s.makeRunnable x with
      newthread := Function.update s.newthread o none } stale (.forked o) y ↔ stale y :=
    unswitched (fun _ => rfl) fun _ => by simp
  refine kept.move h.apart (forked_moved new) (fun _ _ => rfl) (fun y _ => same y) fun y here => ?_
  obtain rfl := List.mem_singleton.mp here
  right
  rw [same]
  exact kept _ _ mem

theorem taken_kept (h : Placed s) (kept : Kept s stale) {o : O} {wc : W} {rest : List T}
    (queue : s.wcThreads wc = xs ++ rest) (unused : s.list o = [])
    (asleep : ∀ o, a ≠ .woken o) : Kept { s with
      wcThreads := Function.update s.wcThreads wc rest
      list := Function.update s.list o xs } (staleAfter s { s with
        wcThreads := Function.update s.wcThreads wc rest
        list := Function.update s.list o xs } stale a) := by
  have same (y : T) : staleAfter s { s with
      wcThreads := Function.update s.wcThreads wc rest
      list := Function.update s.list o xs } stale a y ↔ stale y :=
    unswitched (fun _ => rfl) asleep
  refine kept.move h.apart (taken_moved queue unused) (fun _ _ => rfl) (fun y _ => same y)
    fun y here => ?_
  have mem : y ∈ s.threads (.asleep wc) := by
    show y ∈ s.wcThreads wc
    rw [queue]
    exact List.mem_append_left _ here
  show ¬ _ ∧ _
  rw [same]
  exact kept _ _ mem

theorem wakeone_kept (h : Placed s) (kept : Kept s stale) (o : O) (wc : W) :
    (s.wchanWakeone o wc).Meets fun t => Kept t (staleAfter s t stale (.wakeone o wc)) := by
  rw [State.wchanWakeone, Outcome.meets_bind, Outcome.meets_await]
  rintro ⟨-, unused⟩
  split
  · exact kept.congr fun y => unswitched (fun _ => rfl) fun _ => by simp
  · rename_i target rest queue
    exact taken_kept h kept queue unused fun _ => by simp

theorem wakeall_kept (h : Placed s) (kept : Kept s stale) (o : O) (wc : W) :
    (s.wchanWakeall o wc).Meets fun t => Kept t (staleAfter s t stale (.wakeall o wc)) := by
  rw [State.wchanWakeall, Outcome.meets_bind, Outcome.meets_await]
  rintro ⟨-, unused⟩
  exact taken_kept h kept (List.append_nil _).symm unused fun _ => by simp

theorem fork_kept (kept : Kept s stale) (o : O) (c : Fin n) (x : T)
    (fresh : s.live x = false → ¬ stale x) (h : Placed s) :
    (s.fork o c x).Meets fun t => Kept t (staleAfter s t stale (.fork o c x)) := by
  rw [State.fork, Outcome.meets_bind, Outcome.meets_await, Outcome.meets_pure]
  rintro ⟨unused, -, new⟩
  set t : State n T W O := { s with
    live := Function.update s.live x true
    tCpu := Function.update s.tCpu x (s.tCpu (s.cCurthread c))
    tState := Function.update s.tState x .ready
    newthread := Function.update s.newthread o (some x) }
  have added : Added s.threads t.threads (.forking o) x := forked_added unused rfl
  have same (y : T) : staleAfter s t stale (.fork o c x) y ↔ stale y :=
    unswitched (fun _ => rfl) fun _ => by simp
  intro r y here
  rw [same]
  rcases added.mem.mp here with ⟨rfl, rfl⟩ | there
  · exact ⟨fresh new, Function.update_self ..⟩
  · have other : y ≠ x := by
      rintro rfl
      have live := (h.live y).mpr ⟨r, there⟩
      rw [new] at live
      cases live
    rw [show t.tState y = s.tState y from Function.update_of_ne other ..]
    exact kept r y there

theorem exorcise_kept (h : Placed s) (kept : Kept s stale) :
    (s.exorcise c).Ensures fun t => Kept t (staleAfter s t stale (.exorcise c)) := by
  unfold State.exorcise
  split
  · rw [Outcome.ensures_pure]
    refine (show Kept _ stale from fun p y here => ?_).congr fun y =>
      unswitched (fun _ => rfl) fun _ => nofun
    cases p with
    | migrating d =>
      by_cases own : d = c
      · subst own
        simp [State.threads, State.setPhase, Phase.victims] at here
      · have same : (s.setPhase c .run).threads (.migrating d) = s.threads (.migrating d) := by
          show (Function.update s.phase c .run d).victims = _
          rw [Function.update_of_ne own]
          rfl
        rw [same] at here
        exact kept (.migrating d) y here
    | _ => exact kept _ y here
  · rename_i z rest queue
    simp only [Outcome.ensures_bind, Outcome.ensures_kassert, State.threadDestroy,
      Outcome.ensures_pure]
    intro _ _ _ _
    have removed : Removed s.threads (State.threads { s with
        cZombies := Function.update s.cZombies c rest
        live := Function.update s.live z false }) (.zombie c) z := zombie_removed queue rfl
    refine (show Kept _ stale from fun p y here => ?_).congr fun y =>
      unswitched (fun _ => rfl) fun _ => nofun
    exact kept p y ((removed.mem h.apart).mp here).2

/-! ### Migrations -/

theorem Shuffled.refl (s : State n T W O) : Shuffled s s :=
  ⟨rfl, fun _ _ => rfl, fun p _ queued here => ⟨p, queued, here⟩⟩

theorem Shuffled.trans (first : Shuffled s t) (second : Shuffled t u) : Shuffled s u := by
  refine ⟨second.tState.trans first.tState, fun p other => ?_, fun p x queued here => ?_⟩
  · exact (second.rest p other).trans (first.rest p other)
  · obtain ⟨q, queued', there⟩ := second.queued p x queued here
    exact first.queued q x queued' there

theorem Shuffled.kept (h : Shuffled s t) (kept : Kept s stale) (asleep : ∀ o, a ≠ .woken o) :
    Kept t (staleAfter s t stale a) := by
  have same (y : T) : staleAfter s t stale a y ↔ stale y :=
    unswitched (fun d => (h.rest (.running d) (fun no => no)).symm) asleep
  intro p y here
  rw [same, h.tState]
  by_cases queued : p.Queued
  · obtain ⟨q, queued', there⟩ := h.queued p y queued here
    have noted := kept q y there
    cases p <;> cases q <;> first | exact queued.elim | exact queued'.elim | exact noted
  · rw [h.rest p queued] at here
    exact kept p y here

/-- The phase of a cpu changes, and its victims are some that were queued. -/
theorem shuffled_setPhase (phase : Phase T)
    (some : ∀ x ∈ phase.victims, ∃ q, q.Queued ∧ x ∈ s.threads q) :
    Shuffled s (s.setPhase c phase) := by
  refine ⟨rfl, fun p other => ?_, fun p x queued here => ?_⟩
  · cases p with
    | migrating d => exact (other trivial).elim
    | _ => rfl
  · cases p with
    | ready d => exact ⟨.ready d, trivial, here⟩
    | migrating d =>
      by_cases own : d = c
      · subst own
        refine some x ?_
        have there : x ∈ (Function.update s.phase d phase d).victims := here
        rwa [Function.update_self] at there
      · refine ⟨.migrating d, trivial, ?_⟩
        have there : x ∈ (Function.update s.phase c phase d).victims := here
        rwa [Function.update_of_ne own] at there
    | _ => exact queued.elim

theorem shuffled_moved (apart : Apart s.threads) (moved : Places.Moved s.threads t.threads p q xs)
    (source : p.Queued) (target : q.Queued) (tState : t.tState = s.tState) : Shuffled s t := by
  refine ⟨tState, fun r other => ?_, fun r x queued here => ?_⟩
  · exact moved.others r (fun same => other (same ▸ source)) fun same => other (same ▸ target)
  · rcases (moved.mem apart).mp here with ⟨mem, -⟩ | ⟨-, there⟩
    · exact ⟨p, source, moved.source.mem_iff.mpr (List.mem_append_left _ mem)⟩
    · exact ⟨r, queued, there⟩

theorem sendTo_shuffled {target : Fin n} {i oneShare : Nat} (away : target ≠ c) (toSend : Nat)
    (victims : List T) (h : Placed (s.setPhase c (.sending i oneShare toSend victims))) :
    (s.sendTo c target oneShare victims toSend).Ensures fun (t, victims', toSend') =>
      Shuffled (s.setPhase c (.sending i oneShare toSend victims))
        (t.setPhase c (.sending i oneShare toSend' victims')) := by
  induction toSend generalizing s victims with
  | zero =>
    rw [State.sendTo, Outcome.ensures_pure]
    exact .refl _
  | succ toSend ih =>
    have enough := h.phases c
    rw [show (s.setPhase c _).phase c = _ from Function.update_self ..] at enough
    unfold State.sendTo
    split
    · cases victims with
      | nil => cases enough
      | cons x rest =>
        dsimp only
        split
        · have perm : (rest ++ [x]).Perm (x :: rest) := List.perm_append_comm
          have again : Placed (s.setPhase c (.sending i oneShare toSend (rest ++ [x]))) := by
            have placed := h.setPhase c (.sending i oneShare toSend (rest ++ [x])) ?_ ?_
            · rwa [setPhase_setPhase] at placed
            · rw [show (s.setPhase c _).phase c = _ from Function.update_self ..]
              exact perm
            · simp only [State.Sound, List.length_append, List.length_singleton]
              exact Nat.le_trans (Nat.le_succ _) enough
          have turned := shuffled_setPhase (c := c)
            (s := s.setPhase c (.sending i oneShare (toSend + 1) (x :: rest)))
            (.sending i oneShare toSend (rest ++ [x])) fun y mem => by
              refine ⟨.migrating c, trivial, ?_⟩
              show y ∈ (Function.update s.phase c _ c).victims
              rw [Function.update_self]
              exact perm.mem_iff.mp mem
          rw [setPhase_setPhase] at turned
          exact (ih _ again).mono fun _ more => turned.trans more
        · rename_i other
          have sent := shuffled_moved h.apart (sent_moved s c target x i oneShare toSend rest)
            trivial trivial rfl
          exact (ih rest (sent_placed h other away)).mono fun _ more => sent.trans more
    · rw [Outcome.ensures_pure]
      exact .refl _

theorem migrate_shuffled (h : Placed s) (c : Fin n) :
    (s.step (.migrate c)).Ensures fun t => Shuffled s t := by
  simp only [State.step]
  split
  · rename_i i totalCount myCount at_
    rw [Outcome.ensures_pure]
    unfold State.countQueue
    split
    · exact shuffled_setPhase _ (by simp [Phase.victims])
    · dsimp only
      split
      · exact shuffled_setPhase _ (by simp [Phase.victims])
      · exact shuffled_setPhase _ (by simp [Phase.victims])
  · rename_i oneShare toSend at_
    have enough := h.phases c
    rw [at_] at enough
    obtain ⟨rest, taken, done, queue, -⟩ := remtails_done _ [] toSend enough
    rw [List.append_nil] at done
    rw [State.grab, done, Outcome.done_bind, Outcome.ensures_pure]
    exact shuffled_moved h.apart (grabbed_moved queue (by rw [at_]; rfl)) trivial trivial rfl
  · rename_i i oneShare toSend victims at_
    have enough := h.phases c
    rw [at_] at enough
    have mine (x : T) (mem : x ∈ victims) : ∃ q, q.Queued ∧ x ∈ s.threads q := by
      refine ⟨.migrating c, trivial, ?_⟩
      show x ∈ (s.phase c).victims
      rwa [at_]
    unfold State.send
    split
    · rename_i inside
      split
      · rw [Outcome.ensures_pure]
        exact shuffled_setPhase _ mine
      · rename_i other
        have away : (⟨i, inside.1⟩ : Fin n) ≠ c := fun same => other (congrArg Fin.val same)
        have start : Placed (s.setPhase c (.sending (i + 1) oneShare toSend victims)) := by
          refine h.setPhase c _ ?_ enough
          rw [at_]
          exact .refl _
        have first : Shuffled s (s.setPhase c (.sending (i + 1) oneShare toSend victims)) :=
          shuffled_setPhase _ mine
        rw [Outcome.ensures_bind]
        exact (sendTo_shuffled away toSend victims start).mono fun _ more => by
          rw [Outcome.ensures_pure]
          exact first.trans more
    · rw [Outcome.ensures_pure]
      exact shuffled_moved h.apart (returned_moved (by rw [at_]; rfl)) trivial trivial rfl
  · exact Outcome.ensures_blocked

/-! ### Runs -/

theorem pick_live : (s.pick c).live = s.live := by
  unfold State.pick
  split <;> rfl

theorem sendTo_live {target : Fin n} {oneShare : Nat} (toSend : Nat) (victims : List T) :
    (s.sendTo c target oneShare victims toSend).Ensures fun r => r.1.live = s.live := by
  induction toSend generalizing s victims with
  | zero =>
    rw [State.sendTo, Outcome.ensures_pure]
  | succ toSend ih =>
    unfold State.sendTo
    split
    · cases victims with
      | nil => exact Outcome.ensures_fault
      | cons x rest =>
        dsimp only
        split
        · exact ih _
        · exact ih rest
    · rw [Outcome.ensures_pure]

theorem threadSwitch_live (newstate : Newstate W) :
    (s.threadSwitch c newstate).Ensures fun t => t.live = s.live := by
  unfold State.threadSwitch
  split
  · rw [Outcome.ensures_pure]
  cases newstate with
  | ready =>
    dsimp only
    split
    · rw [Outcome.ensures_pure]
    · rw [Outcome.ensures_bind, Outcome.ensures_kassert, Outcome.ensures_pure]
      exact fun _ => pick_live
  | sleep wc =>
    dsimp only
    rw [Outcome.ensures_pure]
    exact pick_live
  | zombie =>
    dsimp only
    rw [Outcome.ensures_pure]
    exact pick_live

/-- Only zombies cease to exist. -/
theorem step_live (a : Action n T W O) : (s.step a).Ensures fun t =>
    ∀ x, s.live x = true → t.live x = true ∨ ∃ c, x ∈ s.threads (.zombie c) := by
  have same {t : State n T W O} (live : t.live = s.live) (x : T) (here : s.live x = true) :
      t.live x = true ∨ ∃ c, x ∈ s.threads (.zombie c) := .inl (live ▸ here)
  cases a with
  | fork o c y =>
    simp only [State.step, State.fork, Outcome.ensures_bind, Outcome.ensures_await,
      Outcome.ensures_pure]
    intro _ x here
    left
    by_cases is : x = y
    · rw [is]
      exact Function.update_self ..
    · exact (Function.update_of_ne is ..).trans here
  | forked o =>
    simp only [State.step, State.forked]
    split
    · exact Outcome.ensures_blocked
    · exact Outcome.ensures_pure.mpr (same rfl)
  | yield c =>
    simp only [State.step]
    split
    · exact (threadSwitch_live _).mono fun _ => same
    · exact Outcome.ensures_blocked
  | sleep c wc =>
    simp only [State.step]
    split
    · exact (threadSwitch_live _).mono fun _ => same
    · exact Outcome.ensures_blocked
  | exit c =>
    simp only [State.step]
    split
    · exact (threadSwitch_live _).mono fun _ => same
    · exact Outcome.ensures_blocked
  | unidle c =>
    simp only [State.step]
    split
    · rw [Outcome.ensures_bind, Outcome.ensures_await, Outcome.ensures_pure]
      exact fun _ => same pick_live
    · exact Outcome.ensures_blocked
  | exorcise c =>
    simp only [State.step]
    split
    · unfold State.exorcise
      split
      · rw [Outcome.ensures_pure]
        exact same rfl
      · rename_i z rest queue
        simp only [Outcome.ensures_bind, Outcome.ensures_kassert, State.threadDestroy,
          Outcome.ensures_pure]
        intro _ _ _ _ x here
        by_cases is : x = z
        · right
          refine ⟨c, ?_⟩
          show x ∈ s.cZombies c
          rw [queue, is]
          exact List.mem_cons_self ..
        · left
          exact (Function.update_of_ne is ..).trans here
    · exact Outcome.ensures_blocked
  | wakeone o wc =>
    simp only [State.step, State.wchanWakeone, Outcome.ensures_bind, Outcome.ensures_await]
    intro _
    split
    · rw [Outcome.ensures_pure]
      exact same rfl
    · rw [Outcome.ensures_pure]
      exact same rfl
  | wakeall o wc =>
    simp only [State.step, State.wchanWakeall, Outcome.ensures_bind, Outcome.ensures_await,
      Outcome.ensures_pure]
    exact fun _ => same rfl
  | woken o =>
    simp only [State.step, State.woken]
    split
    · exact Outcome.ensures_blocked
    · exact Outcome.ensures_pure.mpr (same rfl)
  | considerMigration c =>
    simp only [State.step]
    split
    · exact Outcome.ensures_pure.mpr (same rfl)
    · exact Outcome.ensures_blocked
  | migrate c =>
    simp only [State.step]
    split
    · rw [Outcome.ensures_pure]
      unfold State.countQueue
      split
      · exact same rfl
      · dsimp only
        split
        · exact same rfl
        · exact same rfl
    · rw [State.grab, Outcome.ensures_bind]
      exact fun _ _ => Outcome.ensures_pure.mpr (same rfl)
    · unfold State.send
      split
      · split
        · rw [Outcome.ensures_pure]
          exact same rfl
        · rw [Outcome.ensures_bind]
          exact (sendTo_live _ _).mono fun _ live => Outcome.ensures_pure.mpr (same live)
      · rw [Outcome.ensures_pure]
        exact same rfl
    · exact Outcome.ensures_blocked

theorem step_kept (h : Placed s) (kept : Kept s stale) (fresh : ∀ x, s.live x = false → ¬ stale x)
    (a : Action n T W O) : (s.step a).Ensures fun t => Kept t (staleAfter s t stale a) := by
  have meets {x : Outcome (State n T W O)} {P : State n T W O → Prop} (h : x.Meets P) :
      x.Ensures P := fun _ => h.of_done
  cases a with
  | fork o c x => exact meets (fork_kept kept o c x (fresh x) h)
  | forked o => exact meets (forked_kept h kept o)
  | wakeone o wc => exact meets (wakeone_kept h kept o wc)
  | wakeall o wc => exact meets (wakeall_kept h kept o wc)
  | woken o => exact meets (woken_kept h kept o)
  | yield c =>
    simp only [State.step]
    split
    · exact meets (threadSwitch_kept h kept ‹_› .ready fun _ => by simp)
    · exact Outcome.ensures_blocked
  | sleep c wc =>
    simp only [State.step]
    split
    · exact meets (threadSwitch_kept h kept ‹_› (.sleep wc) fun _ => by simp)
    · exact Outcome.ensures_blocked
  | exit c =>
    simp only [State.step]
    split
    · exact meets (threadSwitch_kept h kept ‹_› .zombie fun _ => by simp)
    · exact Outcome.ensures_blocked
  | unidle c =>
    simp only [State.step]
    split
    · rw [Outcome.ensures_bind, Outcome.ensures_await, Outcome.ensures_pure]
      exact fun idle => unidle_kept h kept idle ‹_›
    · exact Outcome.ensures_blocked
  | exorcise c =>
    simp only [State.step]
    split
    · exact exorcise_kept h kept
    · exact Outcome.ensures_blocked
  | considerMigration c =>
    simp only [State.step]
    split
    · rw [Outcome.ensures_pure]
      exact (shuffled_setPhase _ (by simp [Phase.victims])).kept kept fun _ => by simp
    · exact Outcome.ensures_blocked
  | migrate c =>
    exact (migrate_shuffled h c).mono fun t shuffled => shuffled.kept kept fun _ => by simp

/-- What the scheduler keeps, with the threads that are stale. -/
structure Tracked (x : State n T W O × (T → Prop)) : Prop where
  placed : Placed x.1
  kept : Kept x.1 x.2
  fresh : ∀ y, x.1.live y = false → ¬ x.2 y

theorem initial_tracked {x : State n T W O × (T → Prop)} (h : history.initial x) : Tracked x := by
  obtain ⟨start, made, boot⟩ := h
  have placed := initial_placed start
  refine ⟨placed, fun p y here => ?_, fun y dead stale => ?_⟩
  · have live := (placed.live y).mpr ⟨p, here⟩
    obtain ⟨c, rfl⟩ := (start.2.2.2.2.2 y).mp live
    have running := running_mem (start.2.2.1 c).1
    obtain rfl := placed.apart.unique p (.running c) _ here running
    left
    exact ⟨(boot _).mpr ⟨c, rfl⟩, made c⟩
  · have live := (start.2.2.2.2.2 y).mpr ((boot y).mp stale)
    rw [dead] at live
    cases live

theorem step_tracked {x : State n T W O × (T → Prop)} (h : Tracked x) (a : Action n T W O) :
    (history.step x a).Ensures Tracked := by
  show (x.1.step a >>= _).Ensures Tracked
  rw [Outcome.ensures_bind]
  intro t step
  rw [Outcome.ensures_pure]
  have placed : Placed t := (step_placed h.placed a).of_done step
  refine ⟨placed, step_kept h.placed h.kept h.fresh a t step, fun y dead stale => ?_⟩
  have was : x.1.live y = true ∧ ∀ c, y ∉ x.1.threads (.zombie c) := by
    rcases stale with ⟨o, rfl, head⟩ | ⟨before, -⟩
    · have mem : y ∈ x.1.threads (.waking o) := List.mem_of_mem_head? head
      refine ⟨(h.placed.live y).mpr ⟨_, mem⟩, fun c there => ?_⟩
      cases h.placed.apart.unique _ _ y mem there
    · refine ⟨?_, fun c there => (h.kept _ y there).1 before⟩
      by_contra gone
      exact h.fresh y (by simpa using gone) before
  rcases step_live a t step y was.1 with live | ⟨c, there⟩
  · rw [dead] at live
    cases live
  · exact was.2 c there

theorem reached_tracked {x : State n T W O × (T → Prop)} (h : history.Reachable x) : Tracked x :=
  history.invariant_ensures (fun _ => initial_tracked) (fun _ a tracked _ => step_tracked tracked a) h

/-- The places of one kind where a thread can be, once it is known to be at `p`. -/
theorem somewhere_iff {I : Type} (h : Placed s) (here : x ∈ s.threads p) (kind : I → Place n W O) :
    (∃ i, x ∈ s.threads (kind i)) ↔ ∃ i, p = kind i := by
  constructor
  · rintro ⟨i, there⟩
    exact ⟨i, h.apart.unique p (kind i) x here there⟩
  · rintro ⟨i, rfl⟩
    exact ⟨i, here⟩

/-- A thread at rest has the state of its place if and only if it is not stale. -/
theorem agrees_iff (h : Placed s) (here : x ∈ s.threads p)
    (rest : (∃ c, p = .running c) ∨ (∃ c, p = .ready c) ∨ (∃ wc, p = .asleep wc) ∨
      ∃ c, p = .zombie c) {mark : Prop} (noted : p.Noted (s.tState x) mark) :
    s.Agrees x ↔ ¬ mark := by
  have kinds : s.Agrees x ↔ ((s.tState x = .run ↔ ∃ c, p = .running c) ∧
      (s.tState x = .ready ↔ ∃ c, p = .ready c) ∧ (s.tState x = .sleep ↔ ∃ wc, p = .asleep wc) ∧
      (s.tState x = .zombie ↔ ∃ c, p = .zombie c)) := by
    rw [← somewhere_iff h here, ← somewhere_iff h here, ← somewhere_iff h here,
      ← somewhere_iff h here]
    exact ⟨fun agrees => ⟨agrees.1, agrees.2, agrees.3, agrees.4⟩,
      fun ⟨run, ready, sleep, zombie⟩ => ⟨run, ready, sleep, zombie⟩⟩
  rw [kinds]
  rcases rest with ⟨c, rfl⟩ | ⟨c, rfl⟩ | ⟨wc, rfl⟩ | ⟨c, rfl⟩
  · rcases noted with ⟨stale, is⟩ | ⟨fresh, is⟩
    · simp [stale, is]
    · simp [fresh, is]
  · rcases noted with ⟨stale, is⟩ | ⟨fresh, is⟩
    · simp [stale, is]
    · simp [fresh, is]
  · obtain ⟨fresh, is⟩ := noted
    simp [fresh, is]
  · obtain ⟨fresh, is⟩ := noted
    simp [fresh, is]

end Steps

/-- In every state of every run the state field of a thread at rest agrees with its place if and
only if no wakeup has put it on a run queue, and no boot made it, since a cpu last switched to it
or from it. -/
theorem state_agrees_iff {s : State n T W O} {stale : T → Prop} (h : history.Reachable (s, stale))
    {t : T} (rest : s.AtRest t) : s.Agrees t ↔ ¬ stale t := by
  obtain ⟨placed, kept, -⟩ := reached_tracked h
  rcases rest with ⟨c, here⟩ | ⟨c, here⟩ | ⟨wc, here⟩ | ⟨c, here⟩
  · exact agrees_iff placed here (.inl ⟨c, rfl⟩) (kept _ t here)
  · exact agrees_iff placed here (.inr (.inl ⟨c, rfl⟩)) (kept _ t here)
  · exact agrees_iff placed here (.inr (.inr (.inl ⟨wc, rfl⟩))) (kept _ t here)
  · exact agrees_iff placed here (.inr (.inr (.inr ⟨c, rfl⟩))) (kept _ t here)

/-- One cpu that has just booted. -/
def bootedOne : State 1 Nat Unit Unit where
  cCurthread _ := 0
  cIsidle _ := false
  cRunqueue _ := []
  cZombies _ := []
  phase _ := .run
  wcThreads _ := []
  tCpu _ := 0
  tState _ := .ready
  live t := t = 0
  newthread _ := none
  list _ := []

theorem bootedOne_initial : machine.initial bootedOne := by
  refine ⟨fun c d _ => Subsingleton.elim c d, fun _ => Subsingleton.elim _ _,
    fun _ => ⟨rfl, rfl, rfl, rfl⟩, fun _ => rfl, fun _ => ⟨rfl, rfl⟩, fun t => ?_⟩
  simp only [bootedOne, decide_eq_true_eq]
  exact ⟨fun is => ⟨0, is.symm⟩, fun ⟨_, is⟩ => is.symm⟩

/-- The actions take the scheduler to a state, and the history goes along. -/
theorem history_run {s t : State n T W O} {stale : T → Prop} (actions : List (Action n T W O))
    (h : history.Reachable (s, stale)) (run : machine.run s actions = .done t) :
    ∃ stale', history.Reachable (t, stale') := by
  induction actions generalizing s stale with
  | nil =>
    obtain rfl := Outcome.done.inj run
    exact ⟨stale, h⟩
  | cons a rest ih =>
    have first : (machine.step s a).bind (fun u => machine.run u rest) = .done t := run
    cases step : machine.step s a with
    | done u =>
      rw [step] at first
      have next : history.step (s, stale) a = .done (u, staleAfter s u stale a) := by
        have step' : s.step a = .done u := step
        show (s.step a >>= _) = _
        rw [step']
        rfl
      exact ih (.step a h trivial next) first
    | _ =>
      rw [step] at first
      cases first

/-- The first thread forks a second one and lets it run; the second sleeps, and the first wakes
it. -/
def wakes : List (Action 1 Nat Unit Unit) :=
  [.fork () 0 1, .forked (), .yield 0, .exorcise 0, .sleep 0 (), .exorcise 0, .wakeone () (),
    .woken ()]

/-- After a wakeup a thread is on a run queue with the state of a sleeper. -/
theorem state_disagrees : ∃ (s : State 1 Nat Unit Unit) (stale : Nat → Prop),
    history.Reachable (s, stale) ∧ (1 : Nat) ∈ s.threads (.ready 0) ∧ s.tState 1 = .sleep ∧
      ¬ s.Agrees 1 := by
  have passes : (machine.run bootedOne wakes).passes
      (fun s => decide (s.cRunqueue 0 = [1] ∧ s.tState 1 = .sleep ∧ s.wcThreads () = [])) =
        true := by
    decide +kernel
  obtain ⟨s, run, done⟩ := Outcome.passes_done passes
  obtain ⟨queue, sleep, channel⟩ := of_decide_eq_true done
  have start : history.Reachable (bootedOne, fun t => ∃ c, bootedOne.cCurthread c = t) :=
    .initial ⟨bootedOne_initial, fun _ => rfl, fun _ => Iff.rfl⟩
  obtain ⟨stale, reached⟩ := history_run _ start run
  refine ⟨s, stale, reached, ?_, sleep, fun agrees => ?_⟩
  · simp [State.threads, queue]
  · obtain ⟨wc, there⟩ := agrees.sleep.mp sleep
    have empty : s.wcThreads wc = [] := channel
    simp [State.threads, empty] at there

/-- Before the wakeup the sleeper and the thread that runs have the states of their places. -/
theorem state_agrees_asleep : ∃ (s : State 1 Nat Unit Unit) (stale : Nat → Prop),
    (1 : Nat) ∈ s.threads (.asleep ()) ∧ (s.Agrees 1 ↔ ¬ stale 1) := by
  have passes : (machine.run bootedOne (wakes.take 6)).passes
      (fun s => decide (s.wcThreads () = [1])) = true := by
    decide +kernel
  obtain ⟨s, run, done⟩ := Outcome.passes_done passes
  have channel := of_decide_eq_true done
  have start : history.Reachable (bootedOne, fun t => ∃ c, bootedOne.cCurthread c = t) :=
    .initial ⟨bootedOne_initial, fun _ => rfl, fun _ => Iff.rfl⟩
  obtain ⟨stale, reached⟩ := history_run _ start run
  have here : (1 : Nat) ∈ s.threads (.asleep ()) := by simp [State.threads, channel]
  exact ⟨s, stale, here, state_agrees_iff reached (.inr (.inr (.inl ⟨(), here⟩)))⟩

end Os161.Scheduler
