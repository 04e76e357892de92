import Mathlib.Algebra.BigOperators.Fin
import Mathlib.Tactic.Abel
import Os161.Thread.OnePlace

/-!
# The migration of threads

`thread_consider_migration` from its start to its end, with any steps of the other cpus between its
sections.
-/

set_option linter.unusedSectionVars false

namespace Os161.Scheduler

variable {n : Nat} {T W O : Type} [DecidableEq T] [DecidableEq W] [DecidableEq O]

/-- An upper bound on the sections that a migration still has before it. -/
def Phase.left (n : Nat) : Phase T → Nat
  | .run | .resuming => 0
  | .counting i _ _ => (n - i) + n + 3
  | .grabbing _ _ => n + 2
  | .sending i _ _ _ => (n - i) + 1

def Phase.migrating : Phase T → Bool
  | .run | .resuming => false
  | _ => true

/-- The length up to which a migration fills the run queues of others. -/
def Phase.oneShare : Phase T → Nat
  | .grabbing oneShare _ | .sending _ oneShare _ _ => oneShare
  | _ => 0

namespace State

/-- The threads on all run queues together. -/
def onQueues (s : State n T W O) : Multiset T := ∑ d, (s.cRunqueue d : Multiset T)

/-- The threads that a migration has taken and not yet put on a queue. -/
def victims (s : State n T W O) (c : Fin n) : Multiset T := (s.phase c).victims

end State

/-- The queue of `d` is filled up to the share at most. -/
def WithinShare (c d : Fin n) (s t : State n T W O) : Prop :=
  (t.cRunqueue d).length ≤ max (s.cRunqueue d).length (s.phase c).oneShare

/-- One section of the migration of `c`. -/
structure Section (c : Fin n) (s t : State n T W O) : Prop where
  fewer : (t.phase c).left n < (s.phase c).left n
  same : t.onQueues + t.victims c = s.onQueues + s.victims c
  cur : t.cCurthread = s.cCurthread ∧ t.tCpu (s.cCurthread c) = s.tCpu (s.cCurthread c) ∧
    ∀ d, d ≠ c → s.cCurthread c ∈ t.cRunqueue d → s.cCurthread c ∈ s.cRunqueue d
  home : ∀ d, ∀ x ∈ t.cRunqueue d, t.tCpu x = d
  share : ∀ d, d ≠ c → WithinShare c d s t
  own : ∀ x ∈ t.cRunqueue c, x ∈ s.cRunqueue c ∨ x ∈ s.victims c

/-- A run from the start of a migration of `c`, as long as it goes on: how many sections it has had,
and what the steps of others have added to the run queues and taken from them. -/
inductive Migration (c : Fin n) (s : State n T W O) :
    State n T W O → Nat → Multiset T → Multiset T → Prop where
  | start : s.phase c = .counting 0 0 0 → Migration c s s 0 0 0
  | own {t u sections added gone} : Migration c s t sections added gone →
      t.step (.migrate c) = .done u → Migration c s u (sections + 1) added gone
  | other {t u sections added gone} (a : Action n T W O) : Migration c s t sections added gone →
      (t.phase c).migrating = true → a ≠ .migrate c → t.step a = .done u →
      Migration c s u sections (added + (u.onQueues - t.onQueues)) (gone + (t.onQueues - u.onQueues))

section Sections

variable {s t : State n T W O} {c d : Fin n} {x : T} {xs ys : List T}

theorem onQueues_set (s : State n T W O) (d : Fin n) (queue : List T) :
    (∑ e, (Function.update s.cRunqueue d queue e : Multiset T)) + (s.cRunqueue d : Multiset T) =
      s.onQueues + (queue : Multiset T) := by
  have mem : d ∈ (Finset.univ : Finset (Fin n)) := Finset.mem_univ d
  rw [State.onQueues, ← Finset.add_sum_erase _ _ mem, ← Finset.add_sum_erase _ _ mem,
    Function.update_self]
  have rest : ∑ e ∈ Finset.univ.erase d, (Function.update s.cRunqueue d queue e : Multiset T) =
      ∑ e ∈ Finset.univ.erase d, (s.cRunqueue e : Multiset T) := by
    apply Finset.sum_congr rfl
    intro e other
    rw [Function.update_of_ne (Finset.ne_of_mem_erase other)]
  rw [rest]
  abel

/-- Threads that are added to a run queue. -/
theorem onQueues_append (s : State n T W O) (d : Fin n) (xs : List T) :
    (∑ e, (Function.update s.cRunqueue d (s.cRunqueue d ++ xs) e : Multiset T)) =
      s.onQueues + (xs : Multiset T) := by
  have set := onQueues_set s d (s.cRunqueue d ++ xs)
  rw [← Multiset.coe_add] at set
  apply add_right_cancel (b := (s.cRunqueue d : Multiset T))
  rw [set]
  abel

/-- What the loop for one cpu has done. -/
structure Sent (s : State n T W O) (c target : Fin n) (oneShare : Nat) (victims : List T)
    (t : State n T W O) (rest : List T) (sent : List T) : Prop where
  queues : t.cRunqueue = Function.update s.cRunqueue target (s.cRunqueue target ++ sent)
  victims : victims.Perm (sent ++ rest)
  stays : s.cCurthread c ∉ sent
  kept : t.phase = s.phase ∧ t.cCurthread = s.cCurthread
  cpus : ∀ x, x ∉ sent → t.tCpu x = s.tCpu x
  share : sent ≠ [] → (s.cRunqueue target).length + sent.length ≤ oneShare

theorem Sent.none (s : State n T W O) (c target : Fin n) (oneShare : Nat) (victims : List T) :
    Sent s c target oneShare victims s victims [] :=
  ⟨by rw [List.append_nil, Function.update_eq_self], .refl _, List.not_mem_nil, ⟨rfl, rfl⟩,
    fun _ _ => rfl, fun some => absurd rfl some⟩

theorem sendTo_sent (c target : Fin n) (oneShare toSend : Nat) :
    ∀ (s : State n T W O) (victims : List T),
      (s.sendTo c target oneShare victims toSend).Ensures fun r =>
        ∃ sent, Sent s c target oneShare victims r.1 r.2.1 sent := by
  induction toSend with
  | zero =>
    intro s victims
    exact Outcome.ensures_done.mpr ⟨[], .none s c target oneShare victims⟩
  | succ toSend ih =>
    intro s victims
    unfold State.sendTo
    by_cases room : (s.cRunqueue target).length < oneShare
    · rw [if_pos room]
      cases victims with
      | nil => exact Outcome.ensures_fault
      | cons x rest =>
        dsimp only
        by_cases cur : x = s.cCurthread c
        · rw [if_pos cur]
          refine (ih s (rest ++ [x])).mono ?_
          rintro _ ⟨sent, done⟩
          have turned : (x :: rest).Perm (rest ++ [x]) := (List.perm_append_singleton x rest).symm
          exact ⟨sent, done.queues, turned.trans done.victims, done.stays, done.kept, done.cpus,
            done.share⟩
        · rw [if_neg cur]
          refine (ih _ rest).mono ?_
          rintro _ ⟨sent, done⟩
          refine ⟨x :: sent, ?_, done.victims.cons x, ?_, done.kept, ?_, fun _ => ?_⟩
          · rw [done.queues]
            simp only [Function.update_self, Function.update_idem, List.append_assoc,
              List.singleton_append]
          · intro member
            obtain same | later := List.mem_cons.mp member
            · exact cur same.symm
            · exact done.stays later
          · intro y out
            rw [done.cpus y fun member => out (List.mem_cons_of_mem _ member)]
            exact Function.update_of_ne (fun same : y = x => out (by simp [same])) ..
          · have share := done.share
            simp only [Function.update_self, List.length_append, List.length_singleton] at share
            rw [List.length_cons]
            by_cases more : sent = []
            · rw [more, List.length_nil]
              omega
            · have := share more
              omega
    · rw [if_neg room]
      exact Outcome.ensures_done.mpr ⟨[], .none s c target oneShare victims⟩

theorem sendTo_ne_blocked (c target : Fin n) (oneShare toSend : Nat) :
    ∀ (s : State n T W O) (victims : List T),
      s.sendTo c target oneShare victims toSend ≠ .blocked := by
  induction toSend with
  | zero => simp [State.sendTo]
  | succ toSend ih =>
    intro s victims
    unfold State.sendTo
    by_cases room : (s.cRunqueue target).length < oneShare
    · rw [if_pos room]
      cases victims with
      | nil => rintro ⟨⟩
      | cons x rest =>
        dsimp only
        split
        · exact ih s (rest ++ [x])
        · exact ih _ rest
    · rw [if_neg room]
      rintro ⟨⟩

/-- A section that leaves the run queues and the threads in hand as they are. -/
theorem section_setPhase (h : Placed s) {phase : Phase T} (fewer : phase.left n < (s.phase c).left n)
    (same : phase.victims = (s.phase c).victims) : Section c s (s.setPhase c phase) := by
  have is : (s.setPhase c phase).phase c = phase := Function.update_self ..
  constructor
  · rwa [is]
  · rw [State.victims, is, same]
    rfl
  · exact ⟨rfl, rfl, fun _ _ member => member⟩
  · exact fun d x member => h.home (.ready d) d x rfl member
  · exact fun d _ => Nat.le_max_left ..
  · exact fun x member => .inl member

theorem count_section (h : Placed s) {i totalCount myCount : Nat}
    (at_ : s.phase c = .counting i totalCount myCount) :
    Section c s (s.countQueue c i totalCount myCount) := by
  unfold State.countQueue
  split
  · apply section_setPhase h
    · rw [at_]
      simp only [Phase.left]
      omega
    · rw [at_]
      rfl
  · dsimp only
    split
    · apply section_setPhase h
      · rw [at_]
        simp only [Phase.left]
        omega
      · rw [at_]
        rfl
    · apply section_setPhase h
      · rw [at_]
        simp only [Phase.left]
        omega
      · rw [at_]
        rfl

theorem grab_section (h : Placed s) {oneShare toSend : Nat}
    (at_ : s.phase c = .grabbing oneShare toSend) (step : s.grab c oneShare toSend = .done t)
    (placed : Placed t) : Section c s t := by
  have enough := h.phases c
  rw [at_] at enough
  obtain ⟨rest, taken, done, queue, length⟩ := remtails_done _ [] toSend enough
  rw [State.grab, done, Outcome.done_bind, List.append_nil] at step
  obtain rfl := Outcome.done.inj step
  have phase : ∀ u : State n T W O, (u.setPhase c (.sending 0 oneShare toSend taken)).phase c =
      .sending 0 oneShare toSend taken := fun u => Function.update_self ..
  constructor
  · rw [phase, at_]
    simp only [Phase.left]
    omega
  · have set := onQueues_set s c rest
    rw [State.victims, phase, State.victims, at_]
    apply add_right_cancel (b := (rest : Multiset T))
    rw [queue, ← Multiset.coe_add] at set
    have none : ((Phase.grabbing oneShare toSend : Phase T).victims : Multiset T) = 0 := rfl
    rw [none, add_zero, ← set]
    show (∑ e, (Function.update s.cRunqueue c rest e : Multiset T)) + taken + rest = _
    abel
  · exact ⟨rfl, rfl, fun d other member => by
      have same : Function.update s.cRunqueue c rest d = s.cRunqueue d := Function.update_of_ne other ..
      exact same ▸ member⟩
  · exact fun d x member => placed.home (.ready d) d x rfl member
  · intro d other
    show (Function.update s.cRunqueue c rest d).length ≤ _
    rw [Function.update_of_ne other]
    exact Nat.le_max_left ..
  · intro x member
    have here : x ∈ Function.update s.cRunqueue c rest c := member
    rw [Function.update_self] at here
    exact .inl (queue ▸ List.mem_append_left _ here)

theorem send_section {i oneShare toSend : Nat} {victims : List T} (h : Placed s)
    (at_ : s.phase c = .sending i oneShare toSend victims)
    (step : s.send c i oneShare toSend victims = .done t) (placed : Placed t) : Section c s t := by
  unfold State.send at step
  split at step
  · rename_i inside
    split at step
    · obtain rfl := Outcome.done.inj step
      apply section_setPhase h
      · rw [at_]
        simp only [Phase.left]
        omega
      · rw [at_]
        rfl
    · rename_i other
      obtain ⟨⟨u, rest, left⟩, done, step⟩ := Outcome.bind_done.mp step
      obtain rfl := Outcome.done.inj step
      obtain ⟨sent, did⟩ := sendTo_sent c ⟨i, inside.1⟩ oneShare toSend s victims _ done
      have away : c ≠ (⟨i, inside.1⟩ : Fin n) := fun same => other (congrArg Fin.val same.symm)
      have phase : (u.setPhase c (.sending (i + 1) oneShare left rest)).phase c =
          .sending (i + 1) oneShare left rest := Function.update_self ..
      have queues : (u.setPhase c (.sending (i + 1) oneShare left rest)).cRunqueue =
          Function.update s.cRunqueue ⟨i, inside.1⟩ (s.cRunqueue ⟨i, inside.1⟩ ++ sent) := did.queues
      constructor
      · rw [phase, at_]
        simp only [Phase.left]
        omega
      · rw [State.onQueues, queues, onQueues_append, State.victims, phase, State.victims, at_]
        have split : (victims : Multiset T) = (sent : Multiset T) + rest := by
          rw [Multiset.coe_add]
          exact Multiset.coe_eq_coe.mpr did.victims
        show s.onQueues + sent + rest = s.onQueues + victims
        rw [split, add_assoc]
      · refine ⟨did.kept.2, did.cpus _ did.stays, fun d _ member => ?_⟩
        rw [queues, Function.update_apply] at member
        split at member
        · rename_i same
          obtain before | now := List.mem_append.mp member
          · exact same ▸ before
          · exact absurd now did.stays
        · exact member
      · exact fun d x member => placed.home (.ready d) d x rfl member
      · intro d _
        rw [WithinShare, queues, at_, Function.update_apply]
        split
        · rename_i same
          rw [same, List.length_append]
          by_cases some : sent = []
          · rw [some]
            exact Nat.le_max_left ..
          · exact Nat.le_trans (did.share some) (Nat.le_max_right ..)
        · exact Nat.le_max_left ..
      · intro x member
        rw [queues, Function.update_of_ne away] at member
        exact .inl member
  · obtain rfl := Outcome.done.inj step
    have phase : ∀ u : State n T W O, (u.setPhase c .run).phase c = .run := fun u =>
      Function.update_self ..
    constructor
    · rw [phase, at_]
      exact Nat.succ_pos _
    · rw [State.victims, phase, State.victims, at_]
      show (∑ e, (Function.update s.cRunqueue c (s.cRunqueue c ++ victims) e : Multiset T)) + 0 = _
      rw [onQueues_append, add_zero]
      rfl
    · exact ⟨rfl, rfl, fun d other member => by
        have same : Function.update s.cRunqueue c (s.cRunqueue c ++ victims) d = s.cRunqueue d :=
          Function.update_of_ne other ..
        exact same ▸ member⟩
    · exact fun d x member => placed.home (.ready d) d x rfl member
    · intro d other
      show (Function.update s.cRunqueue c (s.cRunqueue c ++ victims) d).length ≤ _
      rw [Function.update_of_ne other]
      exact Nat.le_max_left ..
    · intro x member
      have here : x ∈ Function.update s.cRunqueue c (s.cRunqueue c ++ victims) c := member
      rw [Function.update_self] at here
      rw [State.victims, at_]
      exact List.mem_append.mp here

/-- In a migration there is a next section, and it does what is asked of it. -/
theorem migrate_section (h : Placed s) (going : (s.phase c).migrating = true) :
    ∃ t, s.step (.migrate c) = .done t ∧ Placed t ∧ Section c s t := by
  have placed := step_placed h (.migrate c)
  have goes : s.step (.migrate c) ≠ .blocked := by
    simp only [State.step]
    split
    · rintro ⟨⟩
    · rename_i at_
      have enough := h.phases c
      rw [at_] at enough
      obtain ⟨rest, taken, done, _⟩ := remtails_done _ [] _ enough
      rw [State.grab, done]
      rintro ⟨⟩
    · unfold State.send
      split
      · split
        · rintro ⟨⟩
        · exact Outcome.bind_ne_blocked (sendTo_ne_blocked _ _ _ _ _ _) fun _ => by simp
      · rintro ⟨⟩
    · rename_i counting grabbing sending
      cases at_ : s.phase c with
      | run | resuming =>
        rw [at_] at going
        cases going
      | counting i total mine => exact absurd at_ (counting i total mine)
      | grabbing share count => exact absurd at_ (grabbing share count)
      | sending i share count hand => exact absurd at_ (sending i share count hand)
  cases step : s.step (.migrate c) with
  | blocked => exact absurd step goes
  | panic =>
    rw [step] at placed
    cases placed
  | fault =>
    rw [step] at placed
    cases placed
  | done t =>
    rw [step] at placed
    refine ⟨t, rfl, placed, ?_⟩
    simp only [State.step] at step
    split at step
    · rename_i at_
      obtain rfl := Outcome.done.inj step
      exact count_section h at_
    · rename_i at_
      exact grab_section h at_ step placed
    · rename_i at_
      exact send_section h at_ step placed
    · cases step

theorem setPhase_other (s : State n T W O) (phase : Phase T) (other : c ≠ d) :
    (s.setPhase d phase).phase c = s.phase c :=
  Function.update_of_ne other ..

theorem pick_phase (s : State n T W O) (other : c ≠ d) : (s.pick d).phase c = s.phase c := by
  unfold State.pick
  split
  · rfl
  · exact Function.update_of_ne other ..

theorem threadSwitch_phase (s : State n T W O) (newstate : Newstate W) (other : c ≠ d) :
    (s.threadSwitch d newstate).Ensures fun t => t.phase c = s.phase c := by
  unfold State.threadSwitch
  dsimp only
  split
  · exact Outcome.ensures_pure.mpr rfl
  · cases newstate with
    | ready =>
      dsimp only
      split
      · exact Outcome.ensures_pure.mpr rfl
      · simp only [Outcome.ensures_bind, Outcome.ensures_kassert, Outcome.ensures_pure]
        exact fun _ => pick_phase _ other
    | sleep wc => exact Outcome.ensures_pure.mpr (pick_phase _ other)
    | zombie => exact Outcome.ensures_pure.mpr (pick_phase _ other)

theorem migrating_of_migrate (step : s.step (.migrate c) = .done t) :
    (s.phase c).migrating = true := by
  simp only [State.step] at step
  split at step
  · rename_i at_
    rw [at_]
    rfl
  · rename_i at_
    rw [at_]
    rfl
  · rename_i at_
    rw [at_]
    rfl
  · cases step

/-- While a cpu migrates threads nobody else changes its phase. -/
theorem other_phase (going : (s.phase c).migrating = true) (a : Action n T W O)
    (other : a ≠ .migrate c) : (s.step a).Ensures fun t => t.phase c = s.phase c := by
  have away : ∀ {d phase}, s.phase d = phase → phase.migrating = false → c ≠ d := by
    rintro d phase is out rfl
    rw [is, out] at going
    cases going
  cases a with
  | fork o d x =>
    simp only [State.step, State.fork, Outcome.ensures_bind, Outcome.ensures_await,
      Outcome.ensures_pure]
    exact fun _ => trivial
  | forked o =>
    simp only [State.step, State.forked]
    split
    · exact Outcome.ensures_blocked
    · exact Outcome.ensures_pure.mpr rfl
  | wakeone o wc =>
    simp only [State.step, State.wchanWakeone, Outcome.ensures_bind, Outcome.ensures_await]
    intro _
    split
    · exact Outcome.ensures_pure.mpr rfl
    · exact Outcome.ensures_pure.mpr rfl
  | wakeall o wc =>
    simp only [State.step, State.wchanWakeall, Outcome.ensures_bind, Outcome.ensures_await,
      Outcome.ensures_pure]
    exact fun _ => trivial
  | woken o =>
    simp only [State.step, State.woken]
    split
    · exact Outcome.ensures_blocked
    · exact Outcome.ensures_pure.mpr rfl
  | yield d | sleep d wc | exit d =>
    simp only [State.step]
    split
    · rename_i at_
      exact threadSwitch_phase s _ (away at_ rfl)
    · exact Outcome.ensures_blocked
  | unidle d =>
    simp only [State.step]
    split
    · rename_i at_
      simp only [Outcome.ensures_bind, Outcome.ensures_await, Outcome.ensures_pure]
      exact fun _ => pick_phase s (away at_ rfl)
    · exact Outcome.ensures_blocked
  | exorcise d =>
    simp only [State.step]
    split
    · rename_i at_
      unfold State.exorcise
      split
      · exact Outcome.ensures_pure.mpr (setPhase_other s _ (away at_ rfl))
      · simp only [State.threadDestroy, Outcome.ensures_bind, Outcome.ensures_kassert,
          Outcome.ensures_pure]
        exact fun _ _ _ _ => trivial
    · exact Outcome.ensures_blocked
  | considerMigration d =>
    simp only [State.step]
    split
    · rename_i at_
      exact Outcome.ensures_pure.mpr (setPhase_other s _ (away at_ rfl))
    · exact Outcome.ensures_blocked
  | migrate d =>
    have apart : c ≠ d := fun same => other (by rw [same])
    simp only [State.step]
    split
    · unfold State.countQueue
      refine Outcome.ensures_pure.mpr ?_
      split
      · exact setPhase_other s _ apart
      · dsimp only
        split <;> exact setPhase_other s _ apart
    · simp only [State.grab, Outcome.ensures_bind, Outcome.ensures_pure]
      exact fun _ _ => setPhase_other _ _ apart
    · unfold State.send
      split
      · split
        · exact Outcome.ensures_pure.mpr (setPhase_other s _ apart)
        · simp only [Outcome.ensures_bind, Outcome.ensures_pure]
          intro r done
          obtain ⟨sent, did⟩ := sendTo_sent _ _ _ _ _ _ r done
          exact (setPhase_other _ _ apart).trans (congrFun did.kept.1 c)
      · exact Outcome.ensures_pure.mpr (setPhase_other _ _ apart)
    · exact Outcome.ensures_blocked

/-- What is asked of a migration: it comes to its end, each of its sections goes through as it
should, and the run queues lose and gain only what others take and add. -/
structure Migrates (c : Fin n) (s t : State n T W O) (sections : Nat) (added gone : Multiset T) :
    Prop where
  ends : sections + (t.phase c).left n ≤ 2 * n + 3
  goes : (t.phase c).migrating = true → ∃ u, t.step (.migrate c) = .done u ∧ Section c t u
  whole : t.onQueues + t.victims c + gone = s.onQueues + added

/-- A migration from any run queues, with any steps of others in between. -/
theorem migration_migrates (h : Placed s) {sections : Nat} {added gone : Multiset T}
    (run : Migration c s t sections added gone) : Migrates c s t sections added gone := by
  have both : Placed t ∧ ((t.phase c).left n + sections ≤ 2 * n + 3 ∧
      t.onQueues + t.victims c + gone = s.onQueues + added) := by
    induction run with
    | start at_ =>
      refine ⟨h, ?_, ?_⟩
      · rw [at_]
        simp only [Phase.left]
        omega
      · have none : ((Phase.counting 0 0 0 : Phase T).victims : Multiset T) = 0 := rfl
        rw [State.victims, at_, none, add_zero]
    | @own t u sections added gone _ step ih =>
      obtain ⟨placed, ends, whole⟩ := ih
      have going := migrating_of_migrate step
      obtain ⟨v, done, placed', own⟩ := migrate_section placed going
      obtain rfl := Outcome.done.inj (done.symm.trans step)
      refine ⟨placed', ?_, ?_⟩
      · have fewer := own.fewer
        omega
      · rw [own.same, whole]
    | @other t u sections added gone a _ going other step ih =>
      obtain ⟨placed, ends, whole⟩ := ih
      have phase := other_phase going a other u step
      have placed' := step_placed placed a
      rw [step] at placed'
      refine ⟨placed', by rwa [phase], ?_⟩
      have change : u.onQueues + (t.onQueues - u.onQueues) = t.onQueues + (u.onQueues - t.onQueues) := by
        rw [add_comm, ← Multiset.union_def, add_comm, ← Multiset.union_def, Multiset.union_comm]
      have hand : u.victims c = t.victims c := by rw [State.victims, State.victims, phase]
      generalize t.onQueues - u.onQueues = lost at change ⊢
      generalize u.onQueues - t.onQueues = more at change ⊢
      calc u.onQueues + u.victims c + (gone + lost)
          = u.onQueues + lost + (t.victims c + gone) := by
            rw [hand]
            abel
        _ = t.onQueues + t.victims c + gone + more := by
            rw [change]
            abel
        _ = s.onQueues + (added + more) := by rw [whole, add_assoc]
  obtain ⟨placed, ends, whole⟩ := both
  refine ⟨by omega, fun going => ?_, whole⟩
  obtain ⟨u, done, _, own⟩ := migrate_section placed going
  exact ⟨u, done, own⟩

end Sections

theorem Migration.run {c : Fin n} {s t u : State n T W O} {sections : Nat} {added gone : Multiset T}
    (more : Nat) (h : Migration c s t sections added gone)
    (run : machine.run t (.replicate more (.migrate c)) = .done u) :
    Migration c s u (sections + more) added gone := by
  induction more generalizing t sections with
  | zero =>
    obtain rfl := Outcome.done.inj run
    exact h
  | succ more ih =>
    obtain ⟨v, step, rest⟩ := Outcome.bind_done.mp
      (show (t.step (.migrate c) >>= fun v => machine.run v (.replicate more (.migrate c))) = _ from run)
    have later := ih (h.own step) rest
    rwa [Nat.add_assoc, Nat.add_comm 1 more] at later

def isStart (s : State 2 Nat Unit Unit) : Bool :=
  match s.phase 0 with
  | .counting 0 0 0 => true
  | _ => false

/-- Cpu `0` has two threads on its run queue and cpu `1` has none, so one of them goes there. -/
theorem migrates_two : ∃ s t : State 2 Nat Unit Unit, s.cRunqueue 0 = [2, 3] ∧ s.cRunqueue 1 = [] ∧
    t.cRunqueue 0 = [2] ∧ t.cRunqueue 1 = [3] ∧ Migrates 0 s t 7 0 0 := by
  have passes : (machine.run booted [.fork () 0 2, .forked (), .fork () 0 3, .forked (),
      .considerMigration 0]).passes (fun s => isStart s &&
        (machine.run s (.replicate 7 (.migrate 0))).passes fun t => decide (s.cRunqueue 0 = [2, 3] ∧
          s.cRunqueue 1 = [] ∧ t.cRunqueue 0 = [2] ∧ t.cRunqueue 1 = [3])) = true := by
    decide +kernel
  obtain ⟨s, before, done⟩ := Outcome.passes_done passes
  obtain ⟨start, done⟩ := (Bool.and_eq_true ..).mp done
  obtain ⟨t, run, done⟩ := Outcome.passes_done done
  obtain ⟨mine, none, kept, sent⟩ := of_decide_eq_true done
  have phase : s.phase 0 = .counting 0 0 0 := by
    unfold isStart at start
    split at start
    · assumption
    · cases start
  have placed := reached_placed (.run _ (.initial booted_initial) before)
  have migrated := (Migration.start phase).run 7 run
  exact ⟨s, t, mine, none, kept, sent, migration_migrates placed (by simpa using migrated)⟩

/-- A thread comes to the run queue of cpu `1` after the counts, so the thread that was meant for it
goes back to a queue that is as long as the share. -/
theorem own_queue_beyond_share : ∃ s t : State 2 Nat Unit Unit, machine.Reachable s ∧
    s.step (.migrate 0) = .done t ∧ ¬ ∀ d, WithinShare 0 d s t := by
  have passes : (machine.run booted [.fork () 0 2, .forked (), .fork () 0 3, .forked (),
      .considerMigration 0, .migrate 0, .migrate 0, .migrate 0, .migrate 0, .fork () 1 4, .forked (),
      .migrate 0, .migrate 0]).passes (fun s => (s.step (.migrate 0)).passes fun t =>
        decide ((s.phase 0).oneShare = 1 ∧ s.cRunqueue 0 = [2] ∧ t.cRunqueue 0 = [2, 3])) = true := by
    decide +kernel
  obtain ⟨s, run, done⟩ := Outcome.passes_done passes
  obtain ⟨t, step, done⟩ := Outcome.passes_done done
  obtain ⟨share, before, after⟩ := of_decide_eq_true done
  refine ⟨s, t, .run _ (.initial booted_initial) run, step, fun within => ?_⟩
  have long := within 0
  rw [WithinShare, share, before, after] at long
  cases long with
  | step long => cases long

end Os161.Scheduler
