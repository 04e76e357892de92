import Os161.Semfs.Sem

/-!
# Wakeups of semfs semaphores

`semfs_wakeup` goes by the old count: where it is positive nobody is woken, also when there are
sleepers, because the reader that was woken for the old count has not run yet.
-/

set_option linter.unusedSectionVars false

namespace Os161.Semfs

variable {T Space : Type}

/-- A reader that was woken and has not looked at the count again. -/
def Phase.roused : Phase Space → Bool
  | .woken _ | .awake _ => true
  | _ => false

/-- What a reader that has slept wants. -/
def Phase.wants : Phase Space → Option (Uio Space)
  | .asleep uio | .woken uio | .awake uio => some uio
  | _ => none

/-- If a reader sleeps while the count is positive, there is one that was woken and will look. -/
def State.NoLostWakeup (s : State T Space) : Prop :=
  0 < s.semsCount → s.semsCv ≠ [] → ∃ t, (s.phase t).roused = true

/-- One round of the loop gives all that is wanted, or takes all that is there and waits. -/
theorem semfsReadRound_eq (semsCount : UInt32) (uio : Uio Space) :
    semfsReadRound semsCount uio =
      if uio.uioResid = 0 then (semsCount, uio, .leave)
      else if uio.uioResid ≤ semsCount then
        (semsCount - uio.uioResid,
          { uio with uioOffset := uio.uioOffset + uio.uioResid.toNat, uioResid := 0 }, .leave)
      else
        (0, { uio with
          uioOffset := uio.uioOffset + semsCount.toNat, uioResid := uio.uioResid - semsCount }, .wait) := by
  obtain ⟨iov, offset, resid, segflg, rw', space⟩ := uio
  unfold semfsReadRound
  dsimp only
  by_cases nothing : resid = 0
  · subst nothing
    rfl
  · have positive : 0 < resid := UInt32.pos_iff_ne_zero.mpr nothing
    rw [if_pos positive, if_neg nothing]
    by_cases enough : resid ≤ semsCount
    · have some' : 0 < semsCount := UInt32.lt_of_lt_of_le positive enough
      have less : ¬ semsCount < resid := UInt32.not_lt.mpr enough
      simp [some', less, enough]
    · have less : semsCount < resid := UInt32.not_le.mp enough
      by_cases empty : semsCount = 0
      · subst empty
        simp [nothing]
      · have some' : 0 < semsCount := UInt32.pos_iff_ne_zero.mpr empty
        have left : resid - semsCount ≠ 0 := by
          intro eq
          have difference := UInt32.toNat_sub_of_le resid semsCount (UInt32.le_of_lt less)
          rw [eq] at difference
          have := UInt32.lt_iff_toNat_lt.mp less
          have zero : (0 : UInt32).toNat = 0 := rfl
          omega
        simp [some', less, enough, left]

/-! ### The invariant -/

section Inv

variable [DecidableEq T] {s u : State T Space} {t : T} {phase : Phase Space}

/-- There is no more than one left to take for those who sleep, and if there is one, somebody has
been woken for it. -/
structure Inv (s : State T Space) : Prop where
  asleep : ∀ t ∈ s.semsCv, ∃ uio, s.phase t = .asleep uio
  wants : ∀ t uio, (s.phase t).wants = some uio → uio.uioResid ≠ 0
  few : s.semsCv ≠ [] → s.semsCount = 0 ∨ s.semsCount = 1 ∧ ∃ t, (s.phase t).roused = true

theorem Inv.noLostWakeup (h : Inv s) : s.NoLostWakeup := by
  intro positive sleepers
  rcases h.few sleepers with empty | ⟨_, some'⟩
  · exact absurd empty (UInt32.pos_iff_ne_zero.mp positive)
  · exact some'

theorem goOn_phase (s : State T Space) (t : T) (phase : Phase Space) : (s.goOn t phase).phase t = phase :=
  Function.update_self ..

theorem goOn_other (s : State T Space) {t v : T} (phase : Phase Space) (differ : v ≠ t) :
    (s.goOn t phase).phase v = s.phase v := Function.update_of_ne differ ..

/-- A thread that does not sleep and was not woken goes on, and leaves the count. -/
theorem Inv.goOn (h : Inv s) (before : (s.phase t).wants = none) (after : phase.wants = none) :
    Inv (s.goOn t phase) := by
  have differ : ∀ v uio, (s.phase v).wants = some uio → v ≠ t := by
    rintro v uio wants rfl
    exact nomatch before.symm.trans wants
  refine ⟨fun v member => ?_, fun v uio wants => ?_, fun sleepers => ?_⟩
  · obtain ⟨uio, asleep⟩ := h.asleep v member
    have other := differ v uio (by rw [asleep]; rfl)
    exact ⟨uio, (goOn_other s phase other).trans asleep⟩
  · by_cases here : v = t
    · subst here
      rw [goOn_phase] at wants
      exact nomatch after.symm.trans wants
    · rw [goOn_other s phase here] at wants
      exact h.wants v uio wants
  · refine (h.few sleepers).imp_right fun ⟨one, v, roused⟩ => ⟨one, v, ?_⟩
    have other : v ≠ t := by
      rintro rfl
      revert before roused
      cases s.phase v <;> simp [Phase.wants, Phase.roused]
    rwa [goOn_other s phase other]

theorem Inv.withLock (h : Inv s) (lock : AtomicLock T) : Inv { s with semsLock := lock } :=
  ⟨h.asleep, h.wants, h.few⟩

theorem Inv.call (h : Inv s) (after : phase.wants = none) : (s.call t phase).Ensures Inv := by
  unfold State.call
  split
  · rename_i outside
    exact Outcome.ensures_pure.mpr (h.goOn (by rw [outside]; rfl) after)
  · exact Outcome.ensures_blocked

/-- The lock is there again at the end of `cv_wait`. -/
theorem Inv.awake (h : Inv s) {uio : Uio Space} (woken : s.phase t = .woken uio) :
    Inv (s.goOn t (.awake uio)) := by
  refine ⟨fun v member => ?_, fun v uio' wants => ?_, fun sleepers => ?_⟩
  · obtain ⟨uio', asleep⟩ := h.asleep v member
    have other : v ≠ t := by
      rintro rfl
      exact nomatch woken.symm.trans asleep
    exact ⟨uio', (goOn_other s _ other).trans asleep⟩
  · by_cases here : v = t
    · subst here
      rw [goOn_phase] at wants
      obtain rfl := Option.some.inj wants
      exact h.wants v uio (by rw [woken]; rfl)
    · rw [goOn_other s _ here] at wants
      exact h.wants v uio' wants
  · refine (h.few sleepers).imp_right fun ⟨one, _⟩ => ⟨one, t, ?_⟩
    rw [goOn_phase]
    rfl

theorem Inv.lockAcquire (h : Inv s) (t : T) : (s.lockAcquire t).Ensures Inv := by
  unfold State.lockAcquire
  rw [Outcome.ensures_bind]
  intro lock _
  dsimp only
  split
  · rename_i phase
    exact Outcome.ensures_pure.mpr ((h.withLock lock).goOn (by rw [phase]; rfl) rfl)
  · rename_i phase
    exact Outcome.ensures_pure.mpr ((h.withLock lock).awake phase)
  · rename_i phase
    exact Outcome.ensures_pure.mpr ((h.withLock lock).goOn (by rw [phase]; rfl) rfl)
  · rename_i phase
    exact Outcome.ensures_pure.mpr ((h.withLock lock).goOn (by rw [phase]; rfl) rfl)
  · exact Outcome.ensures_blocked

theorem Inv.lockRelease (h : Inv s) (t : T) : (s.lockRelease t).Ensures Inv := by
  unfold State.lockRelease
  split
  · rename_i phase
    rw [Outcome.ensures_bind]
    intro lock _
    exact Outcome.ensures_pure.mpr ((h.withLock lock).goOn (by rw [phase]; rfl) rfl)
  · exact Outcome.ensures_blocked

/-- A reader takes what there is. It finds no more than one if anybody else sleeps, and wants it. -/
theorem Inv.readLoop (h : Inv s) {uio : Uio Space} (t : T)
    (reading : s.phase t = .loop uio ∨ s.phase t = .awake uio) :
    (s.readLoop t uio).Ensures Inv := by
  have unasleep : ∀ uio', s.phase t ≠ .asleep uio' := by
    intro uio' asleep
    rcases reading with is | is
    · exact nomatch is.symm.trans asleep
    · exact nomatch is.symm.trans asleep
  have apart : ∀ v ∈ s.semsCv, v ≠ t := by
    rintro v member rfl
    obtain ⟨uio', asleep⟩ := h.asleep v member
    exact unasleep uio' asleep
  unfold State.readLoop
  rw [semfsReadRound_eq]
  by_cases nothing : uio.uioResid = 0
  · rw [if_pos nothing]
    have loop : s.phase t = .loop uio := by
      rcases reading with is | is
      · exact is
      · exact absurd nothing (h.wants t uio (by rw [is]; rfl))
    exact Outcome.ensures_pure.mpr (h.goOn (by rw [loop]; rfl) rfl)
  · rw [if_neg nothing]
    by_cases enough : uio.uioResid ≤ s.semsCount
    · rw [if_pos enough]
      refine Outcome.ensures_pure.mpr ⟨fun v member => ?_, fun v uio' wants => ?_, fun sleepers => .inl ?_⟩
      · obtain ⟨uio', asleep⟩ := h.asleep v member
        exact ⟨uio', (goOn_other _ _ (apart v member)).trans asleep⟩
      · by_cases here : v = t
        · subst here
          rw [goOn_phase] at wants
          cases wants
        · rw [goOn_other _ _ here] at wants
          exact h.wants v uio' wants
      · show s.semsCount - uio.uioResid = 0
        have positive : 0 < uio.uioResid := UInt32.pos_iff_ne_zero.mpr nothing
        rcases h.few sleepers with empty | ⟨one, _⟩
        · rw [empty] at enough
          exact absurd (UInt32.lt_of_lt_of_le positive enough) (UInt32.lt_irrefl 0)
        · rw [one] at enough ⊢
          have exactly : uio.uioResid = 1 := by
            apply UInt32.toNat_inj.mp
            have low := UInt32.lt_iff_toNat_lt.mp positive
            have high := UInt32.le_iff_toNat_le.mp enough
            have zero : (0 : UInt32).toNat = 0 := rfl
            have one' : (1 : UInt32).toNat = 1 := rfl
            omega
          rw [exactly]
          rfl
    · rw [if_neg enough]
      dsimp only
      rw [Outcome.ensures_bind]
      intro lock _
      refine Outcome.ensures_pure.mpr ⟨fun v member => ?_, fun v uio' wants => ?_, fun _ => .inl rfl⟩
      · rcases List.mem_append.mp member with before | here
        · obtain ⟨uio', asleep⟩ := h.asleep v before
          exact ⟨uio', (goOn_other _ _ (apart v before)).trans asleep⟩
        · obtain rfl := List.mem_singleton.mp here
          exact ⟨_, goOn_phase ..⟩
      · by_cases here : v = t
        · subst here
          rw [goOn_phase] at wants
          obtain rfl := Option.some.inj wants
          have less := UInt32.not_le.mp enough
          intro (none : uio.uioResid - s.semsCount = 0)
          have difference := UInt32.toNat_sub_of_le _ _ (UInt32.le_of_lt less)
          rw [none] at difference
          have := UInt32.lt_iff_toNat_lt.mp less
          have zero : (0 : UInt32).toNat = 0 := rfl
          omega
        · rw [goOn_other _ _ here] at wants
          exact h.wants v uio' wants

/-! ### Setting the count -/

/-- The count that the code under the lock is to set. -/
def State.newcount (s : State T Space) (t : T) : Option UInt32 :=
  match s.phase t with
  | .add uio => ((writeCount s.semsCount uio).toOption).join
  | .set newcount => some newcount
  | _ => none

/-- Nobody sleeps where a positive count is replaced by one above 1. -/
def WakesAll (s : State T Space) : Action T Space → Prop
  | .run t _ => ∀ newcount ∈ s.newcount t, s.semsCount = 0 ∨ s.semsCv = [] ∨ newcount ≤ 1
  | _ => True

instance (s : State T Space) (a : Action T Space) : Decidable (WakesAll s a) :=
  match a with
  | .run t _ => decidable_of_iff ((s.newcount t).all fun newcount =>
      decide (s.semsCount = 0 ∨ s.semsCv = [] ∨ newcount ≤ 1)) (by simp [WakesAll, Option.all_eq_true])
  | .semfsRead .. | .semfsWrite .. | .semfsTruncate .. | .lockAcquire _ | .lockRelease _ =>
    isTrue trivial

theorem Inv.wake (h : Inv s) (chosen : T → Bool) : Inv (s.wake chosen) := by
  refine ⟨fun v member => ?_, fun v uio wants => ?_, fun sleepers => ?_⟩
  · obtain ⟨before, left⟩ := List.mem_filter.mp member
    obtain ⟨uio, asleep⟩ := h.asleep v before
    refine ⟨uio, ?_⟩
    have stays : chosen v = false := by simpa using left
    simp [State.wake, asleep, stays]
  · apply h.wants v uio
    revert wants
    simp only [State.wake]
    cases s.phase v with
    | asleep uio' => cases chosen v <;> exact id
    | _ => exact id
  · have before : s.semsCv ≠ [] := by
      intro none
      apply sleepers
      simp [State.wake, none]
    refine (h.few before).imp_right fun ⟨one, v, roused⟩ => ⟨one, v, ?_⟩
    revert roused
    simp only [State.wake]
    cases s.phase v with
    | asleep uio' => exact fun no => nomatch no
    | _ => exact id

theorem wake_roused (h : Inv s) {chosen : T → Bool} {v : T} (member : v ∈ s.semsCv)
    (picked : chosen v = true) : ((s.wake chosen).phase v).roused = true := by
  obtain ⟨uio, asleep⟩ := h.asleep v member
  simp [State.wake, asleep, picked, Phase.roused]

/-- After `semfs_wakeup`, with those awake that the new count is enough for. -/
theorem Inv.setsCount (h : Inv s) (quiet : (s.phase t).wants = none) {newcount : UInt32}
    (few : s.semsCv ≠ [] → newcount = 0 ∨ newcount = 1 ∧ ∃ v, (s.phase v).roused = true) :
    Inv ({ s with semsCount := newcount }.goOn t (.leaving none)) :=
  Inv.goOn (s := { s with semsCount := newcount }) ⟨h.asleep, h.wants, few⟩ quiet rfl

theorem Inv.setCount (h : Inv s) (quiet : (s.phase t).wants = none) (picked : T) {newcount : UInt32}
    (wakes : s.semsCount = 0 ∨ s.semsCv = [] ∨ newcount ≤ 1) :
    (s.setCount t picked newcount).Ensures Inv := by
  have awake : ∀ chosen, ((s.wake chosen).phase t).wants = none := by
    intro chosen
    revert quiet
    simp only [State.wake]
    cases s.phase t with
    | asleep uio => exact fun no => nomatch no
    | _ => exact id
  unfold State.setCount semfsWakeup
  by_cases nobody : 0 < s.semsCount ∨ newcount = 0
  · rw [if_pos nobody]
    refine Outcome.ensures_pure.mpr (h.setsCount quiet fun sleepers => ?_)
    rcases nobody with positive | zero
    · by_cases zero : newcount = 0
      · exact .inl zero
      have some' : s.semsCount ≠ 0 := UInt32.pos_iff_ne_zero.mp positive
      have low : newcount ≤ 1 := (wakes.resolve_left some').resolve_left sleepers
      have one : newcount = 1 := by
        apply UInt32.toNat_inj.mp
        have low := UInt32.le_iff_toNat_le.mp low
        have high := UInt32.lt_iff_toNat_lt.mp (UInt32.pos_iff_ne_zero.mpr zero)
        have zero' : (0 : UInt32).toNat = 0 := rfl
        have one' : (1 : UInt32).toNat = 1 := rfl
        omega
      exact .inr ⟨one, ((h.few sleepers).resolve_left some').2⟩
    · exact .inl zero
  · rw [if_neg nobody]
    by_cases one : newcount = 1
    · rw [if_pos one]
      unfold State.perform
      simp only [Outcome.ensures_bind, Outcome.ensures_await, Outcome.ensures_pure]
      intro choice
      refine (h.wake _).setsCount (awake _) fun sleepers => .inr ⟨one, picked, ?_⟩
      have member : picked ∈ s.semsCv := by
        refine choice.resolve_left fun none => sleepers ?_
        simp [State.wake, none]
      exact wake_roused h member (by simp)
    · rw [if_neg one]
      refine Outcome.ensures_pure.mpr ((h.wake _).setsCount (awake _) fun sleepers => ?_)
      exact absurd (List.filter_eq_nil_iff.mpr (by simp)) sleepers

theorem Inv.run (h : Inv s) (t picked : T) (wakes : WakesAll s (.run t picked)) :
    (s.run t picked).Ensures Inv := by
  unfold State.run
  split
  · rename_i uio phase
    exact h.readLoop t (.inl phase)
  · rename_i uio phase
    exact h.readLoop t (.inr phase)
  · rename_i uio phase
    have quiet : (s.phase t).wants = none := by rw [phase]; rfl
    split
    · exact Outcome.ensures_pure.mpr (h.goOn quiet rfl)
    · exact Outcome.ensures_pure.mpr (h.goOn quiet rfl)
    · rename_i newcount count
      have sets : s.newcount t = some newcount := by
        simp [State.newcount, phase, count, Except.toOption]
      exact h.setCount quiet picked (wakes newcount sets)
  · rename_i newcount phase
    have quiet : (s.phase t).wants = none := by rw [phase]; rfl
    exact h.setCount quiet picked (wakes newcount (by simp [State.newcount, phase]))
  · exact Outcome.ensures_blocked

theorem Inv.step (h : Inv s) (action : Action T Space) (wakes : WakesAll s action) :
    (s.step action).Ensures Inv := by
  cases action with
  | semfsRead t uio => exact h.call rfl
  | semfsWrite t uio => exact h.call rfl
  | semfsTruncate t len =>
    simp only [State.step]
    split
    · exact Outcome.ensures_pure.mpr h
    · exact h.call rfl
  | lockAcquire t => exact h.lockAcquire t
  | run t picked => exact h.run t picked wakes
  | lockRelease t => exact h.lockRelease t

theorem Inv.start (h : machine.initial s) : Inv s := by
  obtain ⟨_, empty, outside⟩ := h
  refine ⟨fun t member => ?_, fun t uio wants => ?_, fun sleepers => absurd empty sleepers⟩
  · rw [empty] at member
    cases member
  · rw [outside] at wants
    cases wants

/-- In every run in which no positive count is replaced by one above 1 while there are sleepers, no
wakeup is lost. -/
theorem wakeups_kept (h : machine.ReachableBy WakesAll s) : s.NoLostWakeup :=
  Inv.noLostWakeup (machine.invariant_ensures (fun _ start => Inv.start start)
    (fun _ action holds wakes => holds.step action wakes) h)

end Inv

/-! ### Runs -/

/-- A call for so many. -/
def want (resid : UInt32) : Uio Unit := ⟨[], 0, resid, .userispace, .read, none⟩

def boot : State (Fin 4) Unit := ⟨none, [], 0, fun _ => .outside⟩

/-- Two readers of one each go to sleep. -/
def sleeping : List (Action (Fin 4) Unit) :=
  [.semfsRead 0 (want 1), .lockAcquire 0, .run 0 0, .semfsRead 1 (want 1), .lockAcquire 1, .run 1 1]

/-- A writer adds one, and wakes the first reader if it wakes any. -/
def adding (t : Fin 4) : List (Action (Fin 4) Unit) :=
  [.semfsWrite t (want 1), .lockAcquire t, .run t 0, .lockRelease t]

/-- One is added, and the reader that is woken has not run yet. -/
theorem wakeups_kept_one : ∃ s : State (Fin 4) Unit, machine.ReachableBy WakesAll s ∧
    s.semsCount = 1 ∧ s.semsCv = [1] ∧ s.NoLostWakeup := by
  have passes : ((machine : Machine (State (Fin 4) Unit) _).runIf (fun s a => decide (WakesAll s a)) boot
      (sleeping ++ adding 2)).passes (fun s => s.semsCount == 1 && s.semsCv == [1]) = true := by
    decide +kernel
  obtain ⟨s, run, facts⟩ := Outcome.passes_done passes
  simp only [Bool.and_eq_true, beq_iff_eq] at facts
  have reached : machine.ReachableBy WakesAll s :=
    .runIf _ _ (.initial ⟨rfl, rfl, fun _ => rfl⟩) (fun _ _ => of_decide_eq_true) run
  exact ⟨s, reached, facts.1, facts.2, wakeups_kept reached⟩

/-- The second one is added before the first reader runs, and the second reader sleeps on. -/
theorem wakeup_lost : ∃ s : State (Fin 4) Unit, machine.Reachable s ∧ ¬ s.NoLostWakeup := by
  have passes : ((machine : Machine (State (Fin 4) Unit) _).run boot (sleeping ++ adding 2 ++ adding 3 ++
      [.lockAcquire 0, .run 0 0, .lockRelease 0])).passes (fun s => s.semsCount == 1 &&
        s.semsCv == [1] && decide (∀ t, (s.phase t).roused = false)) = true := by
    decide +kernel
  obtain ⟨s, run, facts⟩ := Outcome.passes_done passes
  simp only [Bool.and_eq_true, beq_iff_eq, decide_eq_true_eq] at facts
  obtain ⟨⟨count, sleepers⟩, nobody⟩ := facts
  refine ⟨s, .run _ (.initial ⟨rfl, rfl, fun _ => rfl⟩) run, fun kept => ?_⟩
  obtain ⟨t, roused⟩ := kept (by rw [count]; decide) (by rw [sleepers]; exact List.cons_ne_nil _ _)
  exact nomatch (nobody t).symm.trans roused

end Os161.Semfs
