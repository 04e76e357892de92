import Os161.Base.Places
import Os161.Thread.Schedule

/-!
# Every thread is in one place

A thread runs on a cpu, or it is on one run queue, one wait channel or one list of zombies, or one
call has it in hand. An idle cpu keeps its last thread as the current one, wherever that has gone.
-/

set_option linter.unusedSectionVars false

namespace Os161.Scheduler

open Places

inductive Place (n : Nat) (W O : Type) where
  | running (c : Fin n)
  | ready (c : Fin n)
  | asleep (wc : W)
  | zombie (c : Fin n)
  | waking (o : O)
  | migrating (c : Fin n)
  | forking (o : O)
  deriving DecidableEq

variable {n : Nat} {T W O : Type} [DecidableEq T] [DecidableEq W] [DecidableEq O]

/-- The cpu whose threads are there. -/
def Place.cpu : Place n W O → Option (Fin n)
  | running c | ready c | zombie c | migrating c => some c
  | _ => none

/-- Where the current thread of an idle cpu can be: on a list it went to, or in hand. -/
def Place.WentTo (c : Fin n) : Place n W O → Prop
  | ready d | zombie d | migrating d => d = c
  | asleep _ | waking _ => True
  | running _ | forking _ => False

/-- Threads that have not run yet are here. -/
def Place.isForking : Place n W O → Bool
  | forking _ => true
  | _ => false

namespace State

def threads (s : State n T W O) : Place n W O → List T
  | .running c => if s.cIsidle c then [] else [s.cCurthread c]
  | .ready c => s.cRunqueue c
  | .asleep wc => s.wcThreads wc
  | .zombie c => s.cZombies c
  | .waking o => s.list o
  | .migrating c => (s.phase c).victims
  | .forking o => (s.newthread o).toList

/-- What the phases of a cpu rely on. -/
def Sound (s : State n T W O) (c : Fin n) : Phase T → Prop
  | .run => True
  | .resuming => s.cIsidle c = false
  | .counting _ _ myCount => myCount ≤ (s.cRunqueue c).length
  | .grabbing _ toSend => toSend ≤ (s.cRunqueue c).length
  | .sending _ _ toSend victims => toSend ≤ victims.length

end State

structure Placed (s : State n T W O) : Prop where
  apart : Apart s.threads
  live : ∀ t, s.live t = true ↔ ∃ p, t ∈ s.threads p
  home : ∀ p c t, p.cpu = some c → t ∈ s.threads p → s.tCpu t = c
  idle : ∀ c, s.cIsidle c = true → s.tCpu (s.cCurthread c) = c ∧
    ∃ p, p.isForking = false ∧ s.cCurthread c ∈ s.threads p
  zombies : ∀ c t, t ∈ s.cZombies c → s.tState t = .zombie
  phases : ∀ c, s.Sound c (s.phase c)

section Steps

variable {s t : State n T W O} {c : Fin n} {p q : Place n W O} {x y : T} {xs : List T}

/-- Threads that go to another place. -/
theorem Placed.move (h : Placed s) (moved : Places.Moved s.threads t.threads p q xs)
    (live : t.live = s.live) (tCpu : ∀ y, y ∉ xs → t.tCpu y = s.tCpu y)
    (arrive : ∀ c, q.cpu = some c → ∀ y ∈ xs, t.tCpu y = c) (ran : q.isForking = false)
    (idle : ∀ c, t.cIsidle c = true → t.tCpu (t.cCurthread c) = c ∧
      (t.cCurthread c ∈ xs ∨ s.cIsidle c = true ∧ t.cCurthread c = s.cCurthread c))
    (zombies : ∀ c y, y ∈ t.cZombies c → t.tState y = .zombie)
    (phases : ∀ c, t.Sound c (t.phase c)) : Placed t := by
  refine ⟨moved.apart h.apart, fun y => ?_, fun r c y cpu here => ?_, fun c is => ?_, zombies, phases⟩
  · rw [live, h.live y]
    exact (moved.somewhere h.apart).symm
  · rcases (moved.mem h.apart).mp here with ⟨mem, rfl⟩ | ⟨out, there⟩
    · exact arrive c cpu y mem
    · rw [tCpu y out]
      exact h.home r c y cpu there
  · obtain ⟨own, mem | ⟨was, same⟩⟩ := idle c is
    · exact ⟨own, q, ran, (moved.mem h.apart).mpr (.inl ⟨mem, rfl⟩)⟩
    · obtain ⟨-, r, ran', there⟩ := h.idle c was
      refine ⟨own, ?_⟩
      by_cases mem : t.cCurthread c ∈ xs
      · exact ⟨q, ran, (moved.mem h.apart).mpr (.inl ⟨mem, rfl⟩)⟩
      · exact ⟨r, ran', (moved.mem h.apart).mpr (.inr ⟨mem, same ▸ there⟩)⟩

theorem State.Sound.mono {phase : Phase T} (h : s.Sound c phase)
    (isidle : t.cIsidle c = s.cIsidle c)
    (grows : (s.cRunqueue c).length ≤ (t.cRunqueue c).length) : t.Sound c phase := by
  cases phase with
  | run => trivial
  | resuming => exact isidle.trans h
  | counting i totalCount myCount => exact Nat.le_trans h grows
  | grabbing oneShare toSend => exact Nat.le_trans h grows
  | sending i oneShare toSend victims => exact h

theorem running_mem (busy : s.cIsidle c = false) :
    s.cCurthread c ∈ s.threads (.running c) := by
  simp [State.threads, busy]

/-- A step of a cpu that moves nothing. -/
theorem Placed.setPhase (h : Placed s) (c : Fin n) (phase : Phase T)
    (kept : phase.victims.Perm (s.phase c).victims) (sound : s.Sound c phase) :
    Placed (s.setPhase c phase) := by
  have same : ∀ p, ((s.setPhase c phase).threads p).Perm (s.threads p) := by
    intro p
    cases p with
    | migrating d =>
      show (Function.update s.phase c phase d).victims.Perm _
      by_cases own : d = c
      · subst own
        rw [Function.update_self]
        exact kept
      · rw [Function.update_of_ne own]
        exact .refl _
    | _ => exact .refl _
  have mem : ∀ p y, y ∈ (s.setPhase c phase).threads p ↔ y ∈ s.threads p := fun p y =>
    (same p).mem_iff
  refine ⟨⟨fun p => (same p).nodup_iff.mpr (h.apart.nodup p), fun p q y here there => ?_⟩, ?_, ?_,
    fun d is => ?_, h.zombies, fun d => ?_⟩
  · exact h.apart.unique p q y ((mem p y).mp here) ((mem q y).mp there)
  · intro y
    simp only [mem]
    exact h.live y
  · intro p d y cpu here
    exact h.home p d y cpu ((mem p y).mp here)
  · obtain ⟨own, p, ran, there⟩ := h.idle d is
    exact ⟨own, p, ran, (mem p _).mpr there⟩
  · show (s.setPhase c phase).Sound d (Function.update s.phase c phase d)
    by_cases own : d = c
    · subst own
      rw [Function.update_self]
      exact sound.mono rfl (Nat.le_refl _)
    · rw [Function.update_of_ne own]
      exact (h.phases d).mono rfl (Nat.le_refl _)

/-- Threads that go to another place while the cpus stay as they are. -/
theorem Placed.shift (h : Placed s) (moved : Places.Moved s.threads t.threads p q xs)
    (arrive : ∀ c, q.cpu = some c → ∀ y ∈ xs, s.tCpu y = c) (ran : q.isForking = false)
    (threads : t.live = s.live ∧ t.tCpu = s.tCpu ∧ t.tState = s.tState)
    (cpus : t.cCurthread = s.cCurthread ∧ t.cIsidle = s.cIsidle ∧ t.cZombies = s.cZombies)
    (phases : ∀ c, t.Sound c (t.phase c)) : Placed t := by
  obtain ⟨live, tCpu, tState⟩ := threads
  obtain ⟨cur, isidle, dead⟩ := cpus
  refine h.move moved live (fun y _ => by rw [tCpu]) (by rwa [tCpu]) ran (fun d is => ?_) ?_ phases
  · rw [isidle] at is
    rw [tCpu, cur]
    exact ⟨(h.idle d is).1, .inr ⟨is, rfl⟩⟩
  · rw [dead, tState]
    exact h.zombies

/-! ### The steps -/

theorem addtail_grows (s : State n T W O) (x : T) (target d : Fin n) : (s.cRunqueue d).length ≤
    (Function.update s.cRunqueue target (s.cRunqueue target ++ [x]) d).length := by
  rw [Function.update_apply]
  split <;> simp_all

/-- The cpu `c` goes on with `next`. -/
def State.picked (s : State n T W O) (c : Fin n) (next : T) (rest : List T) : State n T W O :=
  { s with
    cRunqueue := Function.update s.cRunqueue c rest
    cIsidle := Function.update s.cIsidle c false
    cCurthread := Function.update s.cCurthread c next
    tState := Function.update s.tState next .run
    phase := Function.update s.phase c .resuming }

theorem pick_cons {next : T} {rest : List T} (queue : s.cRunqueue c = next :: rest) :
    s.pick c = s.picked c next rest := by
  rw [State.pick, queue]
  rfl

theorem picked_moved {next : T} {rest : List T} (queue : s.cRunqueue c = next :: rest)
    (idle : s.cIsidle c = true) (quiet : s.phase c = .run) :
    Places.Moved s.threads (s.picked c next rest).threads (.ready c) (.running c) [next] := by
  refine ⟨nofun, ?_, ?_, fun r other other' => ?_⟩
  · show (s.cRunqueue c).Perm ([next] ++ Function.update s.cRunqueue c rest c)
    rw [queue, Function.update_self]
    exact .refl _
  · simp [State.picked, State.threads, idle]
  · cases r with
    | running d =>
      have away : d ≠ c := fun same => other' (by rw [same])
      simp [State.picked, State.threads, away]
    | ready d =>
      have away : d ≠ c := fun same => other (by rw [same])
      exact Function.update_of_ne away ..
    | migrating d =>
      show (Function.update s.phase c .resuming d).victims = (s.phase d).victims
      by_cases own : d = c
      · subst own
        rw [Function.update_self, quiet]
        rfl
      · rw [Function.update_of_ne own]
    | _ => rfl

theorem pick_placed (h : Placed s) (idle : s.cIsidle c = true) (quiet : s.phase c = .run) :
    Placed (s.pick c) := by
  cases queue : s.cRunqueue c with
  | nil =>
    rw [State.pick, queue]
    exact h
  | cons next rest =>
  rw [pick_cons queue]
  have ready : next ∈ s.threads (.ready c) := by
    show next ∈ s.cRunqueue c
    rw [queue]
    exact List.mem_cons_self ..
  have moved := picked_moved queue idle quiet
  set t := s.picked c next rest
  refine h.move moved rfl (fun _ _ => rfl) ?_ rfl (fun d is => ?_) (fun d y dead => ?_) fun d => ?_
  · rintro d cpu y mem
    obtain rfl := Option.some.inj cpu
    obtain rfl := List.mem_singleton.mp mem
    exact h.home _ c y rfl ready
  · have away : d ≠ c := by
      rintro rfl
      simp [t, State.picked] at is
    have is' : s.cIsidle d = true := by simpa [t, State.picked, away] using is
    have cur : t.cCurthread d = s.cCurthread d := Function.update_of_ne away ..
    rw [cur]
    exact ⟨(h.idle d is').1, .inr ⟨is', rfl⟩⟩
  · have away : y ≠ next := by
      rintro rfl
      cases h.apart.unique (.zombie d) (.ready c) y dead ready
    exact (Function.update_of_ne away ..).trans (h.zombies d y dead)
  · show t.Sound d (Function.update s.phase c .resuming d)
    by_cases own : d = c
    · subst own
      rw [Function.update_self]
      exact Function.update_self ..
    · rw [Function.update_of_ne own]
      refine (h.phases d).mono (Function.update_of_ne own ..) ?_
      rw [show t.cRunqueue d = s.cRunqueue d from Function.update_of_ne own ..]

/-- The current thread goes to its place in `u`, and the cpu is idle. -/
theorem leave_placed (h : Placed s) (busy : s.cIsidle c = false) (quiet : s.phase c = .run)
    {u : State n T W O} {newstate : ThreadState}
    (moved : Places.Moved s.threads (u.leave c newstate).threads (.running c) q [s.cCurthread c])
    (arrive : ∀ d, q.cpu = some d → d = c) (ran : q.isForking = false)
    (threads : u.live = s.live ∧ u.tCpu = s.tCpu ∧ u.tState = s.tState)
    (cpus : u.cCurthread = s.cCurthread ∧ u.cIsidle = s.cIsidle ∧ u.phase = s.phase)
    (grows : ∀ d, (s.cRunqueue d).length ≤ (u.cRunqueue d).length)
    (dead : ∀ d y, y ∈ u.cZombies d →
      y ∈ s.cZombies d ∨ y = s.cCurthread c ∧ newstate = .zombie) :
    Placed (u.leave c newstate) := by
  obtain ⟨live, tCpu, tState⟩ := threads
  obtain ⟨cur, isidle, phase⟩ := cpus
  have here := running_mem (s := s) busy
  have own : s.tCpu (s.cCurthread c) = c := h.home _ c _ rfl here
  refine h.move moved live (fun y _ => congrFun tCpu y) ?_ ran (fun d is => ?_) (fun d y mem => ?_)
    fun d => ?_
  · intro d cpu y mem
    obtain rfl := arrive d cpu
    obtain rfl := List.mem_singleton.mp mem
    exact (congrFun tCpu _).trans own
  · show u.tCpu (u.cCurthread d) = d ∧ _
    rw [tCpu, show (u.leave c newstate).cCurthread = s.cCurthread from cur, cur]
    by_cases same : d = c
    · subst same
      exact ⟨own, .inl (List.mem_singleton_self _)⟩
    · have is' : s.cIsidle d = true := by
        rw [← isidle]
        exact (Function.update_of_ne same ..).symm.trans is
      exact ⟨(h.idle d is').1, .inr ⟨is', rfl⟩⟩
  · show Function.update u.tState (u.cCurthread c) newstate y = .zombie
    rw [cur, tState]
    rcases dead d y mem with mem | ⟨rfl, rfl⟩
    · have away : y ≠ s.cCurthread c := by
        rintro rfl
        cases h.apart.unique (.zombie d) (.running c) _ mem here
      rw [Function.update_of_ne away]
      exact h.zombies d y mem
    · exact Function.update_self ..
  · show (u.leave c newstate).Sound d (u.phase d)
    rw [phase]
    by_cases same : d = c
    · subst same
      rw [quiet]
      trivial
    · refine (h.phases d).mono ?_ (grows d)
      rw [← isidle]
      exact Function.update_of_ne same ..

/-- What the current thread leaves behind as it goes from its cpu. -/
theorem leaves {u : State n T W O} {newstate : ThreadState} (busy : s.cIsidle c = false)
    (away : ∀ d, q ≠ .running d) (cur : u.cCurthread = s.cCurthread) (isidle : u.cIsidle = s.cIsidle)
    (target : (u.threads q).Perm ([s.cCurthread c] ++ s.threads q))
    (others : ∀ r, (∀ d, r ≠ .running d) → r ≠ q → u.threads r = s.threads r) :
    Places.Moved s.threads (u.leave c newstate).threads (.running c) q [s.cCurthread c] := by
  have same : ∀ r, (∀ d, r ≠ .running d) → (u.leave c newstate).threads r = u.threads r := by
    intro r other
    cases r with
    | running d => exact (other d rfl).elim
    | _ => rfl
  refine ⟨(away c).symm, ?_, ?_, fun r other other' => ?_⟩
  · simp [State.threads, State.leave, busy]
  · rw [same q away]
    exact target
  · cases r with
    | running d =>
      have apart : d ≠ c := fun is => other (by rw [is])
      simp [State.threads, State.leave, apart, cur, isidle]
    | _ =>
      rw [same _ (by simp)]
      exact others _ (by simp) other'

theorem ready_left (busy : s.cIsidle c = false) (own : s.tCpu (s.cCurthread c) = c) :
    Places.Moved s.threads ((s.makeRunnable (s.cCurthread c)).leave c .ready).threads (.running c)
      (.ready c) [s.cCurthread c] := by
  refine leaves busy (fun _ => nofun) rfl rfl ?_ fun r _ other => ?_
  · simp only [State.threads, State.makeRunnable, own, Function.update_self]
    exact List.perm_append_comm
  · cases r with
    | ready d =>
      have away : d ≠ c := fun same => other (by rw [same])
      simp [State.threads, State.makeRunnable, own, away]
    | _ => rfl

theorem asleep_left (busy : s.cIsidle c = false) (wc : W) :
    Places.Moved s.threads (State.leave { s with
      wcThreads := Function.update s.wcThreads wc (s.wcThreads wc ++ [s.cCurthread c]) }
        c .sleep).threads (.running c) (.asleep wc) [s.cCurthread c] := by
  refine leaves busy (fun _ => nofun) rfl rfl ?_ fun r _ other => ?_
  · simp only [State.threads, Function.update_self]
    exact List.perm_append_comm
  · cases r with
    | asleep d =>
      have away : d ≠ wc := fun same => other (by rw [same])
      simp [State.threads, away]
    | _ => rfl

theorem zombie_left (busy : s.cIsidle c = false) :
    Places.Moved s.threads (State.leave { s with
      cZombies := Function.update s.cZombies c (s.cZombies c ++ [s.cCurthread c]) }
        c .zombie).threads (.running c) (.zombie c) [s.cCurthread c] := by
  refine leaves busy (fun _ => nofun) rfl rfl ?_ fun r _ other => ?_
  · simp only [State.threads, Function.update_self]
    exact List.perm_append_comm
  · cases r with
    | zombie d =>
      have away : d ≠ c := fun same => other (by rw [same])
      simp [State.threads, away]
    | _ => rfl

theorem threadSwitch_placed (h : Placed s) (quiet : s.phase c = .run) (newstate : Newstate W) :
    (s.threadSwitch c newstate).Meets Placed := by
  unfold State.threadSwitch
  split
  · exact h
  rename_i busy
  have busy : s.cIsidle c = false := by simpa using busy
  have own : s.tCpu (s.cCurthread c) = c := h.home _ c _ rfl (running_mem busy)
  have picks : ∀ {u : State n T W O} {st}, Placed (u.leave c st) → u.phase = s.phase →
      Placed ((u.leave c st).pick c) := fun placed phase =>
    pick_placed placed (Function.update_self ..) ((congrFun phase c).trans quiet)
  cases newstate with
  | ready =>
    dsimp only
    split
    · exact h
    rw [Outcome.meets_bind, Outcome.meets_kassert, Outcome.meets_pure]
    refine ⟨own, picks (leave_placed h busy quiet (ready_left busy own) ?_ rfl ⟨rfl, rfl, rfl⟩
      ⟨rfl, rfl, rfl⟩ ?_ fun _ _ mem => .inl mem) rfl⟩
    · exact fun d cpu => (Option.some.inj cpu).symm
    · exact addtail_grows s _ _
  | sleep wc =>
    exact picks (leave_placed h busy quiet (asleep_left busy wc) (fun _ => nofun) rfl ⟨rfl, rfl, rfl⟩
      ⟨rfl, rfl, rfl⟩ (fun _ => Nat.le_refl _) fun _ _ mem => .inl mem) rfl
  | zombie =>
    refine picks (leave_placed h busy quiet (zombie_left busy) ?_ rfl ⟨rfl, rfl, rfl⟩
      ⟨rfl, rfl, rfl⟩ (fun _ => Nat.le_refl _) fun d y mem => ?_) rfl
    · exact fun d cpu => (Option.some.inj cpu).symm
    · simp only [Function.update_apply] at mem
      split at mem
      · rename_i same
        subst same
        rcases List.mem_append.mp mem with mem | mem
        · exact .inl mem
        · exact .inr ⟨List.mem_singleton.mp mem, rfl⟩
      · exact .inl mem

/-- A thread in hand goes to the run queue of its cpu. -/
theorem runnable_moved (runqueues : t.cRunqueue = (s.makeRunnable x).cRunqueue)
    (away : ∀ d, p ≠ .ready d) (source : (s.threads p).Perm ([x] ++ t.threads p))
    (others : ∀ r, (∀ d, r ≠ .ready d) → r ≠ p → t.threads r = s.threads r) :
    Places.Moved s.threads t.threads p (.ready (s.tCpu x)) [x] := by
  have queue : ∀ d, t.threads (.ready d) = (s.makeRunnable x).cRunqueue d := fun d =>
    congrFun runqueues d
  refine ⟨away _, source, ?_, fun r other other' => ?_⟩
  · rw [queue]
    simp only [State.makeRunnable, Function.update_self]
    exact List.perm_append_comm
  · cases r with
    | ready d =>
      have apart : d ≠ s.tCpu x := fun same => other' (by rw [same])
      rw [queue]
      exact Function.update_of_ne apart ..
    | _ => exact others _ (by simp) other

theorem forked_moved {o : O} (new : s.newthread o = some x) : Places.Moved s.threads
    (State.threads { s.makeRunnable x with newthread := Function.update s.newthread o none })
    (.forking o) (.ready (s.tCpu x)) [x] := by
  refine runnable_moved rfl (fun _ => nofun) ?_ fun r away other => ?_
  · simp [State.threads, new]
  · cases r with
    | ready d => exact (away d rfl).elim
    | forking o' =>
      have apart : o' ≠ o := fun same => other (by rw [same])
      simp [State.threads, apart]
    | _ => rfl

theorem woken_moved {o : O} {rest : List T} (list : s.list o = x :: rest) : Places.Moved s.threads
    (State.threads { s.makeRunnable x with list := Function.update s.list o rest })
    (.waking o) (.ready (s.tCpu x)) [x] := by
  refine runnable_moved rfl (fun _ => nofun) ?_ fun r away other => ?_
  · simp [State.threads, list]
  · cases r with
    | ready d => exact (away d rfl).elim
    | waking o' =>
      have apart : o' ≠ o := fun same => other (by rw [same])
      simp [State.threads, apart]
    | _ => rfl

theorem makeRunnable_placed (h : Placed s) (runqueues : t.cRunqueue = (s.makeRunnable x).cRunqueue)
    (moved : Places.Moved s.threads t.threads p (.ready (s.tCpu x)) [x])
    (threads : t.live = s.live ∧ t.tCpu = s.tCpu ∧ t.tState = s.tState)
    (cpus : t.cCurthread = s.cCurthread ∧ t.cIsidle = s.cIsidle ∧ t.cZombies = s.cZombies)
    (phase : t.phase = s.phase) : Placed t := by
  refine h.shift moved ?_ rfl threads cpus fun d => ?_
  · intro d cpu y mem
    obtain rfl := List.mem_singleton.mp mem
    exact Option.some.inj cpu
  · rw [phase]
    refine (h.phases d).mono (congrFun cpus.2.1 d) ?_
    rw [runqueues]
    exact addtail_grows s x _ d

theorem forked_placed (h : Placed s) (o : O) : (s.forked o).Meets Placed := by
  unfold State.forked
  split
  · trivial
  rename_i x new
  exact makeRunnable_placed h rfl (forked_moved new) ⟨rfl, rfl, rfl⟩ ⟨rfl, rfl, rfl⟩ rfl

theorem woken_placed (h : Placed s) (o : O) : (s.woken o).Meets Placed := by
  unfold State.woken
  split
  · trivial
  rename_i x rest list
  exact makeRunnable_placed h rfl (woken_moved list) ⟨rfl, rfl, rfl⟩ ⟨rfl, rfl, rfl⟩ rfl

/-- A wakeup takes threads off a channel. -/
theorem taken_moved {o : O} {wc : W} {rest : List T} (queue : s.wcThreads wc = xs ++ rest)
    (unused : s.list o = []) : Places.Moved s.threads (State.threads { s with
      wcThreads := Function.update s.wcThreads wc rest
      list := Function.update s.list o xs }) (.asleep wc) (.waking o) xs := by
  refine ⟨nofun, ?_, ?_, fun r other other' => ?_⟩
  · simp [State.threads, queue]
  · simp [State.threads, unused]
  · cases r with
    | asleep d =>
      have away : d ≠ wc := fun same => other (by rw [same])
      simp [State.threads, away]
    | waking d =>
      have away : d ≠ o := fun same => other' (by rw [same])
      simp [State.threads, away]
    | _ => rfl

theorem taken_placed (h : Placed s) {o : O} {wc : W} {rest : List T}
    (queue : s.wcThreads wc = xs ++ rest) (unused : s.list o = []) :
    Placed { s with
      wcThreads := Function.update s.wcThreads wc rest
      list := Function.update s.list o xs } :=
  h.shift (taken_moved queue unused) (fun _ => nofun) rfl ⟨rfl, rfl, rfl⟩ ⟨rfl, rfl, rfl⟩
    fun d => (h.phases d).mono rfl (Nat.le_refl _)

theorem wakeone_placed (h : Placed s) (o : O) (wc : W) : (s.wchanWakeone o wc).Meets Placed := by
  rw [State.wchanWakeone, Outcome.meets_bind, Outcome.meets_await]
  rintro ⟨-, unused⟩
  split
  · exact h
  · rename_i target rest queue
    exact taken_placed h queue unused

theorem wakeall_placed (h : Placed s) (o : O) (wc : W) : (s.wchanWakeall o wc).Meets Placed := by
  rw [State.wchanWakeall, Outcome.meets_bind, Outcome.meets_await]
  rintro ⟨-, unused⟩
  exact taken_placed h (List.append_nil _).symm unused

/-- A new thread is in the hands of its fork. -/
theorem forked_added {o : O} (unused : s.newthread o = none)
    (other : t.threads = State.threads { s with
      newthread := Function.update s.newthread o (some x) }) :
    Added s.threads t.threads (.forking o) x := by
  rw [other]
  refine ⟨?_, fun r other => ?_⟩
  · simp [State.threads, unused]
  · cases r with
    | forking o' =>
      have apart : o' ≠ o := fun same => other (by rw [same])
      simp [State.threads, apart]
    | _ => rfl

theorem fork_placed (h : Placed s) (o : O) (c : Fin n) (x : T) : (s.fork o c x).Meets Placed := by
  rw [State.fork, Outcome.meets_bind, Outcome.meets_await, Outcome.meets_pure]
  rintro ⟨unused, -, fresh⟩
  have new : ∀ r, x ∉ s.threads r := by
    intro r here
    have live := (h.live x).mpr ⟨r, here⟩
    rw [fresh] at live
    cases live
  set t : State n T W O := { s with
    live := Function.update s.live x true
    tCpu := Function.update s.tCpu x (s.tCpu (s.cCurthread c))
    tState := Function.update s.tState x .ready
    newthread := Function.update s.newthread o (some x) }
  have added : Added s.threads t.threads (.forking o) x := forked_added unused rfl
  have old : ∀ {r y}, y ∈ s.threads r → y ≠ x := fun here same => new _ (same ▸ here)
  refine ⟨added.apart h.apart new, fun y => ?_, fun r d y cpu here => ?_, fun d is => ?_,
    fun d y mem => ?_, fun d => (h.phases d).mono rfl (Nat.le_refl _)⟩
  · by_cases same : y = x
    · subst same
      exact iff_of_true (Function.update_self ..) ⟨_, added.mem.mpr (.inl ⟨rfl, rfl⟩)⟩
    · rw [show t.live y = s.live y from Function.update_of_ne same .., h.live y]
      simp only [added.mem, same, false_and, false_or]
  · rcases added.mem.mp here with ⟨-, rfl⟩ | there
    · cases cpu
    · exact (Function.update_of_ne (old there) ..).trans (h.home r d y cpu there)
  · obtain ⟨own, r, ran, there⟩ := h.idle d is
    exact ⟨(Function.update_of_ne (old there) ..).trans own, r, ran, added.mem.mpr (.inr there)⟩
  · have there : y ∈ s.threads (.zombie d) := mem
    exact (Function.update_of_ne (old there) ..).trans (h.zombies d y mem)

theorem zombie_removed {rest : List T} (queue : s.cZombies c = x :: rest)
    (other : t.threads = State.threads { s with
      cZombies := Function.update s.cZombies c rest }) :
    Removed s.threads t.threads (.zombie c) x := by
  rw [other]
  refine ⟨?_, fun r other => ?_⟩
  · simp [State.threads, queue]
  · cases r with
    | zombie d =>
      have apart : d ≠ c := fun same => other (by rw [same])
      simp [State.threads, apart]
    | _ => rfl

theorem exorcise_placed (h : Placed s) (resuming : s.phase c = .resuming) :
    (s.exorcise c).Meets Placed := by
  have busy : s.cIsidle c = false := by
    have := h.phases c
    rwa [resuming] at this
  unfold State.exorcise
  split
  · refine h.setPhase c .run ?_ trivial
    rw [resuming]
    exact .refl _
  rename_i z rest queue
  have mem : z ∈ s.threads (.zombie c) := by
    show z ∈ s.cZombies c
    rw [queue]
    exact List.mem_cons_self ..
  have other : z ≠ s.cCurthread c := by
    rintro rfl
    cases h.apart.unique (.zombie c) (.running c) _ mem (running_mem busy)
  have dead := h.zombies c z mem
  simp only [Outcome.meets_bind, Outcome.meets_kassert, State.threadDestroy, Outcome.meets_pure]
  refine ⟨other, dead, other, by simp [dead], ?_⟩
  set t : State n T W O := { s with
    cZombies := Function.update s.cZombies c rest
    live := Function.update s.live z false }
  have removed : Removed s.threads t.threads (.zombie c) z := zombie_removed queue rfl
  have left : ∀ {r y}, y ∈ t.threads r → y ≠ z ∧ y ∈ s.threads r := (removed.mem h.apart).mp
  refine ⟨removed.apart h.apart, fun y => ?_, fun r d y cpu here => h.home r d y cpu (left here).2,
    fun d is => ?_, fun d y mem => h.zombies d y (left (r := .zombie d) mem).2,
    fun d => (h.phases d).mono rfl (Nat.le_refl _)⟩
  · by_cases same : y = z
    · subst same
      refine iff_of_false ?_ fun ⟨r, here⟩ => (left here).1 rfl
      simp [t]
    · rw [show t.live y = s.live y from Function.update_of_ne same .., h.live y]
      simp only [removed.mem h.apart, ne_eq, same, not_false_eq_true, true_and]
  · obtain ⟨own, r, ran, there⟩ := h.idle d is
    refine ⟨own, r, ran, (removed.mem h.apart).mpr ⟨?_, there⟩⟩
    intro same
    -- the zombie is of this cpu, which is not idle
    have cpu : s.tCpu (s.cCurthread d) = c := by
      rw [same]
      exact h.home _ c _ rfl mem
    have is : s.cIsidle d = true := is
    rw [own.symm.trans cpu, busy] at is
    cases is

/-! ### Migration -/

theorem countQueue_placed (h : Placed s) {i totalCount myCount : Nat}
    (at_ : s.phase c = .counting i totalCount myCount) :
    Placed (s.countQueue c i totalCount myCount) := by
  have sound := h.phases c
  rw [at_] at sound
  have none : (s.phase c).victims = [] := by
    rw [at_]
    rfl
  unfold State.countQueue
  split
  · rename_i inside
    refine h.setPhase c _ (by rw [none]; exact .refl _) ?_
    by_cases own : i = c
    · subst own
      simp [State.Sound]
    · simpa [State.Sound, own] using sound
  · dsimp only
    split
    · exact h.setPhase c _ (by rw [none]; exact .refl _) trivial
    · refine h.setPhase c _ (by rw [none]; exact .refl _) ?_
      exact Nat.le_trans (Nat.sub_le ..) sound

/-- A run queue that is long enough gives what is asked for. -/
theorem remtails_done (queue victims : List T) (toSend : Nat) (enough : toSend ≤ queue.length) :
    ∃ rest taken, State.remtails queue victims toSend = .done (rest, taken ++ victims) ∧
      queue = rest ++ taken ∧ taken.length = toSend := by
  induction toSend generalizing queue victims with
  | zero => exact ⟨queue, [], rfl, (List.append_nil _).symm, rfl⟩
  | succ toSend ih =>
    rcases List.eq_nil_or_concat queue with rfl | ⟨front, t, rfl⟩
    · simp at enough
    have enough' : toSend ≤ front.length := by simpa using enough
    obtain ⟨rest, taken, done, same, length⟩ := ih front (t :: victims) enough'
    refine ⟨rest, taken ++ [t], ?_, ?_, by simp [length]⟩
    · simp [State.remtails, Outcome.deref, done]
    · rw [same, List.concat_eq_append, List.append_assoc]

theorem grabbed_moved {rest : List T} {i oneShare toSend : Nat}
    (queue : s.cRunqueue c = rest ++ xs) (none : (s.phase c).victims = []) :
    Places.Moved s.threads (State.threads { s with
      cRunqueue := Function.update s.cRunqueue c rest
      phase := Function.update s.phase c (.sending i oneShare toSend xs) })
      (.ready c) (.migrating c) xs := by
  refine ⟨nofun, ?_, ?_, fun r other other' => ?_⟩
  · simp only [State.threads, queue, Function.update_self]
    exact List.perm_append_comm
  · show (Function.update s.phase c _ c).victims.Perm (xs ++ (s.phase c).victims)
    rw [Function.update_self, none, List.append_nil]
    exact .refl _
  · cases r with
    | ready d =>
      have apart : d ≠ c := fun same => other (by rw [same])
      simp [State.threads, apart]
    | migrating d =>
      have apart : d ≠ c := fun same => other' (by rw [same])
      simp [State.threads, apart]
    | _ => rfl

theorem grab_placed (h : Placed s) {oneShare toSend : Nat}
    (at_ : s.phase c = .grabbing oneShare toSend) :
    (s.grab c oneShare toSend).Meets Placed := by
  have enough := h.phases c
  rw [at_] at enough
  obtain ⟨rest, taken, done, queue, length⟩ := remtails_done _ [] toSend enough
  rw [List.append_nil] at done
  rw [State.grab, done, Outcome.done_bind, Outcome.meets_pure]
  set t : State n T W O := { s with
    cRunqueue := Function.update s.cRunqueue c rest
    phase := Function.update s.phase c (.sending 0 oneShare toSend taken) }
  have moved : Places.Moved s.threads t.threads (.ready c) (.migrating c) taken :=
    grabbed_moved queue (by rw [at_]; rfl)
  refine h.shift moved ?_ rfl ⟨rfl, rfl, rfl⟩ ⟨rfl, rfl, rfl⟩ fun d => ?_
  · intro d cpu y mem
    obtain rfl := Option.some.inj cpu
    refine h.home (.ready c) c y rfl ?_
    show y ∈ s.cRunqueue c
    rw [queue]
    exact List.mem_append_right _ mem
  · show t.Sound d (Function.update s.phase c _ d)
    by_cases own : d = c
    · subst own
      rw [Function.update_self]
      exact Nat.le_of_eq length.symm
    · rw [Function.update_of_ne own]
      refine (h.phases d).mono rfl ?_
      rw [show t.cRunqueue d = s.cRunqueue d from Function.update_of_ne own ..]

@[simp] theorem setPhase_setPhase (s : State n T W O) (phase phase' : Phase T) :
    (s.setPhase c phase).setPhase c phase' = s.setPhase c phase' := by
  simp [State.setPhase]

theorem sent_moved (s : State n T W O) (c target : Fin n) (x : T) (i oneShare toSend : Nat)
    (rest : List T) :
    Places.Moved (s.setPhase c (.sending i oneShare (toSend + 1) (x :: rest))).threads
      (State.setPhase { s with
        tCpu := Function.update s.tCpu x target
        cRunqueue := Function.update s.cRunqueue target (s.cRunqueue target ++ [x]) } c
          (.sending i oneShare toSend rest)).threads (.migrating c) (.ready target) [x] := by
  refine ⟨nofun, ?_, ?_, fun r other other' => ?_⟩
  · show (Function.update s.phase c _ c).victims.Perm ([x] ++ (Function.update s.phase c _ c).victims)
    rw [Function.update_self, Function.update_self]
    exact .refl _
  · show (Function.update s.cRunqueue target _ target).Perm _
    rw [Function.update_self]
    exact List.perm_append_comm
  · cases r with
    | ready d =>
      have apart : d ≠ target := fun same => other' (by rw [same])
      exact Function.update_of_ne apart ..
    | migrating d =>
      have apart : d ≠ c := fun same => other (by rw [same])
      show (Function.update s.phase c _ d).victims = (Function.update s.phase c _ d).victims
      rw [Function.update_of_ne apart, Function.update_of_ne apart]
    | _ => rfl

/-- One thread goes from a migration to the run queue of another cpu. It is not the current thread
of any cpu: that of its own is passed over. -/
theorem sent_placed {target : Fin n} {i oneShare toSend : Nat} {rest : List T}
    (h : Placed (s.setPhase c (.sending i oneShare (toSend + 1) (x :: rest))))
    (other : x ≠ s.cCurthread c) (away : target ≠ c) :
    Placed (State.setPhase { s with
      tCpu := Function.update s.tCpu x target
      cRunqueue := Function.update s.cRunqueue target (s.cRunqueue target ++ [x]) } c
        (.sending i oneShare toSend rest)) := by
  set before := s.setPhase c (.sending i oneShare (toSend + 1) (x :: rest))
  set t : State n T W O := State.setPhase { s with
    tCpu := Function.update s.tCpu x target
    cRunqueue := Function.update s.cRunqueue target (s.cRunqueue target ++ [x]) } c
      (.sending i oneShare toSend rest)
  have phase : before.phase c = .sending i oneShare (toSend + 1) (x :: rest) :=
    Function.update_self ..
  have phase' : t.phase c = .sending i oneShare toSend rest := Function.update_self ..
  have mem : x ∈ before.threads (.migrating c) := by
    show x ∈ (before.phase c).victims
    rw [phase]
    exact List.mem_cons_self ..
  have home : s.tCpu x = c := h.home (.migrating c) c x rfl mem
  have kept : ∀ y, y ≠ x → t.tCpu y = s.tCpu y := fun y apart => Function.update_of_ne apart ..
  have moved : Places.Moved before.threads t.threads (.migrating c) (.ready target) [x] := sent_moved ..
  refine h.move moved rfl (fun y out => kept y fun same => out (List.mem_singleton.mpr same)) ?_ rfl
    (fun d is => ?_) h.zombies fun d => ?_
  · intro d cpu y mem
    obtain rfl := Option.some.inj cpu
    obtain rfl := List.mem_singleton.mp mem
    exact Function.update_self ..
  · obtain ⟨own, -⟩ := h.idle d is
    have own : s.tCpu (s.cCurthread d) = d := own
    have apart : s.cCurthread d ≠ x := by
      intro same
      obtain rfl : c = d := by rw [← home, ← same, own]
      exact other same.symm
    exact ⟨(kept _ apart).trans own, .inr ⟨is, rfl⟩⟩
  · have sound := h.phases d
    by_cases own : d = c
    · subst own
      rw [phase] at sound
      rw [phase']
      exact Nat.le_of_succ_le_succ sound
    · have same : t.phase d = before.phase d :=
        (Function.update_of_ne own ..).trans (Function.update_of_ne own ..).symm
      rw [same]
      exact sound.mono rfl (addtail_grows s x target d)

theorem sendTo_placed {target : Fin n} {i oneShare : Nat} (away : target ≠ c) (toSend : Nat)
    (victims : List T) (h : Placed (s.setPhase c (.sending i oneShare toSend victims))) :
    (s.sendTo c target oneShare victims toSend).Meets fun (t, victims, toSend) =>
      Placed (t.setPhase c (.sending i oneShare toSend victims)) := by
  induction toSend generalizing s victims with
  | zero => exact h
  | succ toSend ih =>
    have enough := h.phases c
    rw [show (s.setPhase c _).phase c = _ from Function.update_self ..] at enough
    unfold State.sendTo
    split
    · cases victims with
      | nil => cases enough
      | cons x rest =>
        dsimp only
        split
        · refine ih (rest ++ [x]) ?_
          have placed := h.setPhase c (.sending i oneShare toSend (rest ++ [x])) ?_ ?_
          · rwa [setPhase_setPhase] at placed
          · rw [show (s.setPhase c _).phase c = _ from Function.update_self ..]
            exact List.perm_append_comm
          · simp only [State.Sound, List.length_append, List.length_singleton]
            exact Nat.le_trans (Nat.le_succ _) enough
        · rename_i other
          exact ih rest (sent_placed h other away)
    · exact h

theorem returned_moved (victims : (s.phase c).victims = xs) :
    Places.Moved s.threads (State.setPhase { s with
      cRunqueue := Function.update s.cRunqueue c (s.cRunqueue c ++ xs) } c .run).threads
      (.migrating c) (.ready c) xs := by
  refine ⟨nofun, ?_, ?_, fun r other other' => ?_⟩
  · show (s.phase c).victims.Perm (xs ++ (Function.update s.phase c .run c).victims)
    rw [Function.update_self, victims]
    simp [Phase.victims]
  · show (Function.update s.cRunqueue c _ c).Perm _
    rw [Function.update_self]
    exact List.perm_append_comm
  · cases r with
    | ready d =>
      have apart : d ≠ c := fun same => other' (by rw [same])
      exact Function.update_of_ne apart ..
    | migrating d =>
      have apart : d ≠ c := fun same => other (by rw [same])
      show (Function.update s.phase c _ d).victims = _
      rw [Function.update_of_ne apart]
      rfl
    | _ => rfl

theorem send_placed (h : Placed s) {i oneShare toSend : Nat} {victims : List T}
    (at_ : s.phase c = .sending i oneShare toSend victims) :
    (s.send c i oneShare toSend victims).Meets Placed := by
  have enough := h.phases c
  rw [at_] at enough
  unfold State.send
  split
  · rename_i inside
    split
    · rename_i own
      refine h.setPhase c _ ?_ enough
      rw [at_]
      exact .refl _
    · rename_i other
      have away : (⟨i, inside.1⟩ : Fin n) ≠ c := fun same => other (congrArg Fin.val same)
      have start : Placed (s.setPhase c (.sending (i + 1) oneShare toSend victims)) := by
        refine h.setPhase c _ ?_ enough
        rw [at_]
        exact .refl _
      rw [Outcome.meets_bind]
      exact (sendTo_placed away toSend victims start).mono fun _ placed => placed
  · set t : State n T W O := State.setPhase { s with
      cRunqueue := Function.update s.cRunqueue c (s.cRunqueue c ++ victims) } c .run
    have moved : Places.Moved s.threads t.threads (.migrating c) (.ready c) victims :=
      returned_moved (by rw [at_]; rfl)
    refine h.shift moved ?_ rfl ⟨rfl, rfl, rfl⟩ ⟨rfl, rfl, rfl⟩ fun d => ?_
    · intro d cpu y mem
      obtain rfl := Option.some.inj cpu
      refine h.home (.migrating c) c y rfl ?_
      show y ∈ (s.phase c).victims
      rwa [at_]
    · show t.Sound d (Function.update s.phase c .run d)
      by_cases own : d = c
      · subst own
        rw [Function.update_self]
        trivial
      · rw [Function.update_of_ne own]
        refine (h.phases d).mono rfl ?_
        rw [show t.cRunqueue d = s.cRunqueue d from Function.update_of_ne own ..]

/-! ### Runs -/

theorem step_placed (h : Placed s) (a : Action n T W O) : (s.step a).Meets Placed := by
  cases a with
  | fork o c x => exact fork_placed h o c x
  | forked o => exact forked_placed h o
  | wakeone o wc => exact wakeone_placed h o wc
  | wakeall o wc => exact wakeall_placed h o wc
  | woken o => exact woken_placed h o
  | yield c =>
    simp only [State.step]
    split
    · exact threadSwitch_placed h ‹_› .ready
    · trivial
  | sleep c wc =>
    simp only [State.step]
    split
    · exact threadSwitch_placed h ‹_› (.sleep wc)
    · trivial
  | exit c =>
    simp only [State.step]
    split
    · exact threadSwitch_placed h ‹_› .zombie
    · trivial
  | unidle c =>
    simp only [State.step]
    split
    · rw [Outcome.meets_bind, Outcome.meets_await]
      exact fun idle => pick_placed h idle ‹_›
    · trivial
  | exorcise c =>
    simp only [State.step]
    split
    · exact exorcise_placed h ‹_›
    · trivial
  | considerMigration c =>
    simp only [State.step]
    split
    · rename_i quiet
      refine h.setPhase c _ ?_ (Nat.zero_le _)
      rw [quiet]
      exact .refl _
    · trivial
  | migrate c =>
    simp only [State.step]
    split
    · rename_i at_
      exact countQueue_placed h at_
    · rename_i at_
      exact grab_placed h at_
    · rename_i at_
      exact send_placed h at_
    · trivial

theorem initial_placed (start : (machine (O := O) (W := W)).initial s) : Placed s := by
  obtain ⟨injective, home, cpus, channels, hands, live⟩ := start
  have threads : ∀ p y, y ∈ s.threads p ↔ ∃ c, p = .running c ∧ y = s.cCurthread c := by
    intro p y
    cases p with
    | running c => simp [State.threads, (cpus c).1]
    | ready c => simp [State.threads, (cpus c).2.1]
    | asleep wc => simp [State.threads, channels]
    | zombie c => simp [State.threads, (cpus c).2.2.1]
    | waking o => simp [State.threads, (hands o).2]
    | migrating c => simp [State.threads, (cpus c).2.2.2, Phase.victims]
    | forking o => simp [State.threads, (hands o).1]
  refine ⟨⟨fun p => ?_, fun p q y here there => ?_⟩, fun y => ?_, fun p c y cpu here => ?_,
    fun c is => ?_, fun c y mem => ?_, fun c => ?_⟩
  · cases p with
    | running c => simp [State.threads, (cpus c).1]
    | ready c => simp [State.threads, (cpus c).2.1]
    | asleep wc => simp [State.threads, channels]
    | zombie c => simp [State.threads, (cpus c).2.2.1]
    | waking o => simp [State.threads, (hands o).2]
    | migrating c => simp [State.threads, (cpus c).2.2.2, Phase.victims]
    | forking o => simp [State.threads, (hands o).1]
  · obtain ⟨c, rfl, rfl⟩ := (threads p y).mp here
    obtain ⟨d, rfl, same⟩ := (threads q _).mp there
    rw [injective same]
  · rw [live]
    constructor
    · rintro ⟨c, rfl⟩
      exact ⟨.running c, (threads _ _).mpr ⟨c, rfl, rfl⟩⟩
    · rintro ⟨p, here⟩
      obtain ⟨c, -, rfl⟩ := (threads p y).mp here
      exact ⟨c, rfl⟩
  · obtain ⟨d, rfl, rfl⟩ := (threads p y).mp here
    obtain rfl := Option.some.inj cpu
    exact home d
  · rw [(cpus c).1] at is
    cases is
  · rw [(cpus c).2.2.1] at mem
    cases mem
  · rw [(cpus c).2.2.2]
    trivial

theorem reached_placed (h : machine.Reachable s) : Placed s :=
  machine.invariant_meets (fun _ => initial_placed) (fun _ a placed => step_placed placed a) h

end Steps

/-- Every thread that exists is in one place, and there once; the current thread of an idle cpu is
on the list it went to, or in hand. -/
structure OnePlace (s : State n T W O) : Prop where
  one : ∀ t, s.live t = true → ∃! p, t ∈ s.threads p
  once : ∀ p, (s.threads p).Nodup
  only : ∀ p t, t ∈ s.threads p → s.live t = true
  idle : ∀ c, s.cIsidle c = true → ∃ p, p.WentTo c ∧ s.cCurthread c ∈ s.threads p

/-- In every reachable state every thread is in one place, and no step fails. -/
theorem threads_in_one_place {s : State n T W O} (h : machine.Reachable s) :
    OnePlace s ∧ ∀ a, s.step a ≠ .panic ∧ s.step a ≠ .fault := by
  have placed := reached_placed h
  refine ⟨⟨fun t live => ?_, placed.apart.nodup, fun p t here => ?_, fun c is => ?_⟩, fun a => ?_⟩
  · obtain ⟨p, here⟩ := (placed.live t).mp live
    exact ⟨p, here, fun q there => placed.apart.unique q p t there here⟩
  · exact (placed.live t).mpr ⟨p, here⟩
  · obtain ⟨own, p, ran, here⟩ := placed.idle c is
    refine ⟨p, ?_, here⟩
    have home : ∀ d, p.cpu = some d → d = c := fun d cpu => (placed.home p d _ cpu here).symm.trans own
    cases p with
    | running d =>
      obtain rfl := home d rfl
      simp [State.threads, is] at here
    | ready d => exact home d rfl
    | zombie d => exact home d rfl
    | migrating d => exact home d rfl
    | asleep wc => trivial
    | waking o => trivial
    | forking o => cases ran
  · exact ⟨(step_placed placed a).not_panic, (step_placed placed a).not_fault⟩

/-- Two cpus after the boot. -/
def booted : State 2 Nat Unit Unit where
  cCurthread c := c
  cIsidle _ := false
  cRunqueue _ := []
  cZombies _ := []
  phase _ := .run
  wcThreads _ := []
  tCpu t := if t = 1 then 1 else 0
  tState _ := .run
  live t := t < 2
  newthread _ := none
  list _ := []

theorem booted_initial : machine.initial booted := by
  refine ⟨fun c d same => Fin.ext same, by decide, fun _ => ⟨rfl, rfl, rfl, rfl⟩, fun _ => rfl,
    fun _ => ⟨rfl, rfl⟩, fun t => ?_⟩
  simp only [booted, decide_eq_true_eq]
  exact ⟨fun small => ⟨⟨t, small⟩, rfl⟩, fun ⟨c, same⟩ => same ▸ c.isLt⟩

/-- The thread of cpu `1` sleeps, the other forks three threads and wakes it, and one of the three
goes to cpu `1`, which is idle all the time. -/
theorem threads_in_one_place_migrated : ∃ s : State 2 Nat Unit Unit, machine.Reachable s ∧
    s.cIsidle 1 = true ∧ s.cRunqueue 0 = [2, 3] ∧ s.cRunqueue 1 = [1, 4] ∧ OnePlace s := by
  have passes : (machine.run booted [.sleep 1 (), .fork () 0 2, .forked (), .fork () 0 3,
      .forked (), .fork () 0 4, .forked (), .considerMigration 0, .migrate 0, .migrate 0,
      .migrate 0, .migrate 0, .wakeone () (), .woken (), .migrate 0, .migrate 0, .migrate 0]).passes
      (fun s => decide (s.cIsidle 1 = true ∧ s.cRunqueue 0 = [2, 3] ∧ s.cRunqueue 1 = [1, 4])) =
        true := by
    decide +kernel
  obtain ⟨s, run, done⟩ := Outcome.passes_done passes
  obtain ⟨idle, left, right⟩ := of_decide_eq_true done
  have reached : machine.Reachable s := .run _ (.initial booted_initial) run
  exact ⟨s, reached, idle, left, right, (threads_in_one_place reached).1⟩

end Os161.Scheduler
