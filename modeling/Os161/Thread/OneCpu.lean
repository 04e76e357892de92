import Os161.Thread.IplSwitch

/-!
# What a step of one cpu leaves alone

The other cpus go on with their threads and in their modes, and keep the spinlocks that they hold. The
current thread may take and release spinlocks, but none of a wait channel.
-/

set_option linter.unusedSectionVars false

namespace Os161.Interrupts

open Scheduler (SwitchedOn Stays Newstate)

variable {n : Nat} {T W O L : Type} [DecidableEq T] [DecidableEq W] [DecidableEq O] [DecidableEq L]
variable {s t u : State n T W O L} {c : Fin n} {k : Spinlock n W L} {added : T → Prop}

/-- What a step of the cpu `c` leaves alone; `added` are the threads that are new. -/
structure Elsewhere (c : Fin n) (added : T → Prop) (s t : State n T W O L) : Prop where
  live : ∀ x, t.sched.live x = true → s.sched.live x = true ∨ added x
  cur : ∀ d, d ≠ c → t.sched.cCurthread d = s.sched.cCurthread d
  mode : ∀ d, d ≠ c → t.mode d = s.mode d
  thread : ∀ x, x ≠ s.sched.cCurthread c → ¬ added x → t.thread x = s.thread x
  holders : ∀ d k, d ≠ c → s.splkHolder k = some d → t.splkHolder k = some d

/-- A step that takes and leaves the locks of no wait channel. -/
structure Local (c : Fin n) (added : T → Prop) (s t : State n T W O L) : Prop
    extends Elsewhere c added s t where
  wchans : ∀ wc, .wchan wc ∈ (t.thread (s.sched.cCurthread c)).held ↔
    .wchan wc ∈ (s.thread (s.sched.cCurthread c)).held

/-- A step inside a function, which does not switch: it also keeps the locks of wait channels that are
held by its own cpu. -/
structure Inside (c : Fin n) (s t : State n T W O L) : Prop extends Local c (fun _ => False) s t where
  own : t.sched.cCurthread c = s.sched.cCurthread c
  same : t.mode c = s.mode c
  wchanHolders : ∀ wc d, s.splkHolder (.wchan wc) = some d → t.splkHolder (.wchan wc) = some d

theorem Elsewhere.trans (first : Elsewhere c (fun _ => False) s t)
    (own : t.sched.cCurthread c = s.sched.cCurthread c) (second : Elsewhere c added t u) :
    Elsewhere c added s u where
  live x is := by
    obtain live | new := second.live x is
    · exact .inl ((first.live x live).resolve_right id)
    · exact .inr new
  cur d other := (second.cur d other).trans (first.cur d other)
  mode d other := (second.mode d other).trans (first.mode d other)
  thread x other old := (second.thread x (own ▸ other) old).trans (first.thread x other id)
  holders d k other held := second.holders d k other (first.holders d k other held)

namespace Local

theorem refl (c : Fin n) (s : State n T W O L) : Local c (fun _ => False) s s :=
  ⟨⟨fun _ => .inl, fun _ _ => rfl, fun _ _ => rfl, fun _ _ _ => rfl, fun _ _ _ => id⟩, fun _ => Iff.rfl⟩

theorem trans (first : Local c (fun _ => False) s t)
    (own : t.sched.cCurthread c = s.sched.cCurthread c) (second : Local c added t u) :
    Local c added s u :=
  { first.toElsewhere.trans own second.toElsewhere with
    wchans := by
      intro wc
      rw [← own, second.wchans wc, own]
      exact first.wchans wc }

end Local

namespace Inside

theorem refl (c : Fin n) (s : State n T W O L) : Inside c s s :=
  { Local.refl c s with own := rfl, same := rfl, wchanHolders := fun _ _ => id }

theorem trans (first : Inside c s t) (second : Inside c t u) : Inside c s u :=
  { first.toLocal.trans first.own second.toLocal with
    own := second.own.trans first.own
    same := second.same.trans first.same
    wchanHolders := fun wc d held => second.wchanHolders wc d (first.wchanHolders wc d held) }

end Inside

/-! ### Parts of a step -/

theorem setCore_inside {l : Core (Spinlock n W L)}
    (wchans : ∀ wc, .wchan wc ∈ l.thread.held ↔ .wchan wc ∈ (s.core c).thread.held) :
    Inside c s (s.setCore c l) where
  live _ := .inl
  cur _ _ := rfl
  mode _ _ := rfl
  thread _ other _ := Function.update_of_ne other ..
  wchans wc := by
    have here : (s.setCore c l).thread (s.sched.cCurthread c) = l.thread := Function.update_self ..
    rw [here]
    exact wchans wc
  holders _ _ _ := id
  own := rfl
  same := rfl
  wchanHolders _ _ := id

theorem setMode_local (s : State n T W O L) (c : Fin n) (mode : Mode) :
    Local c (fun _ => False) s (s.setMode c mode) where
  live _ := .inl
  cur _ _ := rfl
  mode _ other := Function.update_of_ne other ..
  thread _ _ _ := rfl
  wchans _ := Iff.rfl
  holders _ _ _ := id

theorem take_inside (free : s.splkHolder k = none) : Inside c s (s.setHolder k (some c)) :=
  { Local.refl c s with
    holders := by
      intro d j _ held
      have other : j ≠ k := by
        rintro rfl
        rw [free] at held
        cases held
      exact (Function.update_of_ne other ..).trans held
    own := rfl
    same := rfl
    wchanHolders := by
      intro wc d held
      have other : .wchan wc ≠ k := by
        rintro rfl
        rw [free] at held
        cases held
      exact (Function.update_of_ne other ..).trans held }

theorem give_local (mine : s.splkHolder k = some c) :
    Local c (fun _ => False) s (s.setHolder k none) :=
  { Local.refl c s with
    holders := by
      intro d j other held
      have apart : j ≠ k := by
        rintro rfl
        exact other (Option.some.inj (held.symm.trans mine))
      exact (Function.update_of_ne apart ..).trans held }

theorem give_inside (mine : s.splkHolder k = some c) (plain : ∀ wc, k ≠ .wchan wc) :
    Inside c s (s.setHolder k none) :=
  { give_local mine with
    own := rfl
    same := rfl
    wchanHolders := fun wc _ held => (Function.update_of_ne (plain wc).symm ..).trans held }

theorem splx_inside (s : State n T W O L) (c : Fin n) (spl : Ipl) :
    (s.splx c spl).Ensures fun (_, t) => Inside c s t ∧ t.sched = s.sched := by
  unfold State.splx
  rw [Outcome.ensures_bind]
  intro (old, l) goes
  refine Outcome.ensures_pure.mpr ⟨setCore_inside fun wc => ?_, rfl⟩
  have held : l.thread.held = (s.core c).thread.held := by
    unfold Core.splx at goes
    split at goes
    · cases goes
      rfl
    · simp only [Outcome.bind_done, Outcome.pure_done, Core.spllower] at goes
      obtain ⟨_, lower, same⟩ := goes
      split at lower
      · cases lower
      · cases lower
        cases same
        rfl
    · cases goes
      rfl
  rw [held]

theorem spinlockAcquire_inside (s : State n T W O L) (c : Fin n) (k : Spinlock n W L) :
    (s.spinlockAcquire c k).Ensures fun t =>
      Inside c s t ∧ t.sched = s.sched ∧ t.splkHolder = Function.update s.splkHolder k (some c) := by
  unfold State.spinlockAcquire
  dsimp only
  rw [Outcome.ensures_bind, Outcome.ensures_kassert]
  intro _
  rw [Outcome.ensures_bind, Outcome.ensures_await]
  intro free
  refine Outcome.ensures_pure.mpr ⟨?_, rfl, rfl⟩
  have raised : Inside c s (s.setCore c (s.core c).splraise) := setCore_inside fun _ => Iff.rfl
  exact raised.trans (take_inside free)

/-- A spinlock that is released was held by the cpu, and the thread keeps its list. -/
theorem spinlockRelease_done (h : s.spinlockRelease c k = .done t) :
    s.splkHolder k = some c ∧ ∃ l, l.thread.held = (s.core c).thread.held ∧
      t = (s.setHolder k none).setCore c l := by
  simp only [State.spinlockRelease, Outcome.bind_done, Outcome.kassert_done, Outcome.pure_done,
    Core.spllower] at h
  obtain ⟨_, mine, l, lower, rfl⟩ := h
  refine ⟨mine, l, ?_, rfl⟩
  split at lower
  · cases lower
  · cases lower
    rfl

theorem spinlockRelease_local (s : State n T W O L) (c : Fin n) (k : Spinlock n W L) :
    (s.spinlockRelease c k).Ensures fun t => Local c (fun _ => False) s t ∧ t.sched = s.sched := by
  intro t goes
  obtain ⟨mine, l, held, rfl⟩ := spinlockRelease_done goes
  have given : Inside c (s.setHolder k none) ((s.setHolder k none).setCore c l) :=
    setCore_inside fun wc => by rw [held]; rfl
  exact ⟨(give_local mine).trans rfl given.toLocal, rfl⟩

theorem spinlockRelease_inside (s : State n T W O L) (c : Fin n) (plain : ∀ wc, k ≠ .wchan wc) :
    (s.spinlockRelease c k).Ensures fun t => Inside c s t ∧ t.sched = s.sched := by
  intro t goes
  obtain ⟨mine, l, held, rfl⟩ := spinlockRelease_done goes
  have given : Inside c (s.setHolder k none) ((s.setHolder k none).setCore c l) :=
    setCore_inside fun wc => by rw [held]; rfl
  exact ⟨(give_inside mine plain).trans given, rfl⟩

theorem goOn_local (s : State n T W O L) (c : Fin n) {a : Scheduler.Action n T W O}
    (switches : (s.sched.step a).Ensures (SwitchedOn c s.sched)) :
    (s.goOn c a).Ensures (Local c (fun _ => False) s) := by
  unfold State.goOn
  rw [Outcome.ensures_bind]
  intro sched goes
  have switched := switches sched goes
  exact Outcome.ensures_pure.mpr
    { live := fun x live => .inl (switched.live ▸ live)
      cur := fun d other => (switched.others d other).1
      mode := fun d other => Function.update_of_ne other ..
      thread := fun _ _ _ => rfl
      holders := fun _ _ _ => id
      wchans := fun _ => Iff.rfl }

theorem goOn_done {a : Scheduler.Action n T W O} (h : s.goOn c a = .done t) :
    s.sched.step a = .done t.sched ∧ t.splkHolder = s.splkHolder := by
  unfold State.goOn at h
  rw [Outcome.bind_done] at h
  obtain ⟨sched, goes, is⟩ := h
  obtain rfl := Outcome.pure_done.mp is
  exact ⟨goes, rfl⟩

/-! ### Steps -/

theorem splSave_inside (s : State n T W O L) (c : Fin n) (spl : Ipl) :
    (s.splSave c spl).Ensures (Inside c s) := by
  unfold State.splSave
  rw [Outcome.ensures_bind, Outcome.ensures_await]
  intro _
  refine (splx_inside s c spl).then fun (old, t) ⟨inside, _⟩ => ?_
  exact Outcome.ensures_pure.mpr (inside.trans (setCore_inside fun _ => Iff.rfl))

theorem splRestore_inside (s : State n T W O L) (c : Fin n) : (s.splRestore c).Ensures (Inside c s) := by
  unfold State.splRestore
  rw [Outcome.ensures_bind, Outcome.ensures_await]
  intro _
  split
  · refine (splx_inside s c _).then fun (old, t) ⟨inside, _⟩ => ?_
    exact Outcome.ensures_pure.mpr (inside.trans (setCore_inside fun _ => Iff.rfl))
  · exact Outcome.ensures_blocked

theorem threadStartup_inside (s : State n T W O L) (c : Fin n) :
    (s.threadStartup c).Ensures (Inside c s) := by
  unfold State.threadStartup
  rw [Outcome.ensures_bind, Outcome.ensures_await]
  intro _
  split
  · refine (splx_inside s c _).then fun (old, t) ⟨inside, _⟩ => ?_
    exact Outcome.ensures_pure.mpr (inside.trans (setCore_inside fun _ => Iff.rfl))
  · exact Outcome.ensures_blocked

/-- A thread takes a spinlock that is not of a wait channel. -/
theorem acquire_inside (s : State n T W O L) (c : Fin n) (plain : ∀ wc, k ≠ .wchan wc) :
    (s.acquire c k).Ensures (Inside c s) := by
  unfold State.acquire
  rw [Outcome.ensures_bind, Outcome.ensures_await]
  intro _
  refine (spinlockAcquire_inside s c k).then fun t ⟨inside, _, _⟩ => ?_
  refine Outcome.ensures_pure.mpr (inside.trans (setCore_inside fun wc => ?_))
  have other : .wchan wc ≠ k := (plain wc).symm
  simp [Core.take, other]

theorem release_inside (s : State n T W O L) (c : Fin n) (plain : ∀ wc, k ≠ .wchan wc) :
    (s.release c k).Ensures (Inside c s) := by
  unfold State.release
  rw [Outcome.ensures_bind, Outcome.ensures_await]
  intro _
  refine (spinlockRelease_inside s c plain).then fun t ⟨inside, _⟩ => ?_
  refine Outcome.ensures_pure.mpr (inside.trans (setCore_inside fun wc => ?_))
  have other : .wchan wc ≠ k := (plain wc).symm
  simp [Core.give, other]

/-- The thread goes on in another mode. -/
theorem setCore_setMode_local {l : Core (Spinlock n W L)} (mode : Mode)
    (held : l.thread.held = (s.core c).thread.held) :
    Local c (fun _ => False) s ((s.setCore c l).setMode c mode) := by
  have inside : Inside c s (s.setCore c l) := setCore_inside fun wc => by rw [held]
  exact inside.toLocal.trans rfl (setMode_local _ c mode)

theorem interrupt_local (s : State n T W O L) (c : Fin n) :
    (s.interrupt c).Ensures (Local c (fun _ => False) s) := by
  unfold State.interrupt
  rw [Outcome.ensures_bind, Outcome.ensures_await]
  intro _
  dsimp only
  split
  · rw [Outcome.ensures_bind, Outcome.ensures_kassert]
    exact fun _ => Outcome.ensures_pure.mpr (setCore_setMode_local _ rfl)
  · exact Outcome.ensures_pure.mpr (setCore_setMode_local _ rfl)

theorem interruptDone_local (s : State n T W O L) (c : Fin n) :
    (s.interruptDone c).Ensures (Local c (fun _ => False) s) := by
  unfold State.interruptDone
  rw [Outcome.ensures_bind, Outcome.ensures_await]
  intro _
  dsimp only
  split
  · split
    · rw [Outcome.ensures_bind, Outcome.ensures_kassert]
      intro _
      rw [Outcome.ensures_bind, Outcome.ensures_kassert]
      exact fun _ => Outcome.ensures_pure.mpr (setCore_setMode_local _ rfl)
    · exact Outcome.ensures_pure.mpr (setCore_setMode_local _ rfl)
  · exact Outcome.ensures_blocked

theorem trap_local (s : State n T W O L) (c : Fin n) (isSyscall : Bool) :
    (s.trap c isSyscall).Ensures (Local c (fun _ => False) s) := by
  unfold State.trap
  rw [Outcome.ensures_bind, Outcome.ensures_await]
  intro _
  dsimp only
  have off : Inside c s (s.setCore c { s.core c with irq := false }) := setCore_inside fun _ => Iff.rfl
  refine (splx_inside _ c .high).then fun (spl, t) ⟨raised, _⟩ => ?_
  refine (splx_inside t c spl).then fun (_, u) ⟨lowered, _⟩ => ?_
  rw [Outcome.ensures_bind, Outcome.ensures_kassert]
  intro _
  rw [Outcome.ensures_bind, Outcome.ensures_kassert]
  intro _
  have inside := (off.trans raised).trans lowered
  exact Outcome.ensures_pure.mpr (inside.toLocal.trans inside.own (setCore_setMode_local _ rfl))

theorem trapDone_local (s : State n T W O L) (c : Fin n) :
    (s.trapDone c).Ensures (Local c (fun _ => False) s) := by
  unfold State.trapDone
  rw [Outcome.ensures_bind, Outcome.ensures_await]
  intro _
  split
  · rw [Outcome.ensures_bind, Outcome.ensures_await]
    exact fun _ => Outcome.ensures_pure.mpr (setCore_setMode_local _ rfl)
  · exact Outcome.ensures_blocked

theorem mipsUsermode_local (s : State n T W O L) (c : Fin n) :
    (s.mipsUsermode c).Ensures (Local c (fun _ => False) s) := by
  unfold State.mipsUsermode
  rw [Outcome.ensures_bind, Outcome.ensures_await]
  intro _
  refine (splx_inside s c .none).then fun (_, t) ⟨inside, _⟩ => ?_
  exact Outcome.ensures_pure.mpr (inside.toLocal.trans inside.own (setCore_setMode_local _ rfl))

theorem idleUnlock_local (s : State n T W O L) (c : Fin n) :
    (s.idleUnlock c).Ensures (Local c (fun _ => False) s) := by
  unfold State.idleUnlock
  rw [Outcome.ensures_bind, Outcome.ensures_await]
  intro _
  refine (spinlockRelease_local s c (.runqueue c)).then fun t ⟨given, sched⟩ => ?_
  exact Outcome.ensures_pure.mpr (given.trans (by rw [sched]) (setCore_setMode_local _ rfl))

theorem resume_local (s : State n T W O L) (c : Fin n) :
    (s.resume c).Ensures (Local c (fun _ => False) s) := by
  unfold State.resume
  rw [Outcome.ensures_bind, Outcome.ensures_await]
  intro _
  refine (spinlockRelease_local s c (.runqueue c)).then fun t ⟨given, sched⟩ => ?_
  exact Outcome.ensures_pure.mpr (given.trans (by rw [sched]) (setCore_setMode_local _ rfl))

theorem idleOpen_local (s : State n T W O L) (c : Fin n) :
    (s.idleOpen c).Ensures (Local c (fun _ => False) s) := by
  unfold State.idleOpen
  rw [Outcome.ensures_bind, Outcome.ensures_await]
  exact fun _ => Outcome.ensures_pure.mpr (setCore_setMode_local _ rfl)

theorem idleClose_local (s : State n T W O L) (c : Fin n) :
    (s.idleClose c).Ensures (Local c (fun _ => False) s) := by
  unfold State.idleClose
  rw [Outcome.ensures_bind, Outcome.ensures_await]
  exact fun _ => Outcome.ensures_pure.mpr (setCore_setMode_local _ rfl)

theorem idleLook_local (s : State n T W O L) (c : Fin n) :
    (s.idleLook c).Ensures (Local c (fun _ => False) s) := by
  unfold State.idleLook
  rw [Outcome.ensures_bind, Outcome.ensures_await]
  intro _
  refine (spinlockAcquire_inside s c (.runqueue c)).then fun t ⟨inside, _, _⟩ => ?_
  have noted : Inside c t (t.setCore c ((t.core c).setHandover true)) := setCore_inside fun _ => Iff.rfl
  refine (goOn_local _ c (Scheduler.unidle_switchedOn _ c)).mono fun u on => ?_
  exact (inside.trans noted).toLocal.trans (inside.trans noted).own on

/-! ### Switches -/

/-- What `thread_switch` does for a thread that goes without a wait channel. -/
theorem switchAway_local (s : State n T W O L) (c : Fin n) {newstate : Newstate W}
    (awake : ∀ wc, newstate ≠ .sleep wc) (spl : Ipl) :
    (s.switchAway c newstate spl).Ensures (Local c (fun _ => False) s) := by
  have noted : Inside c s (s.setCore c (((s.core c).push (.saved spl)).setHandover true)) :=
    setCore_inside fun _ => Iff.rfl
  have goes : ((s.setCore c (((s.core c).push (.saved spl)).setHandover true)).goOn c
      (State.switchAction c newstate)).Ensures (Local c (fun _ => False) s) :=
    (goOn_local _ c (switchAction_switchedOn _ c newstate)).mono fun _ on =>
      noted.toLocal.trans noted.own on
  unfold State.switchAway
  cases newstate with
  | sleep wc => exact (awake wc rfl).elim
  | ready => exact goes
  | zombie => exact goes

theorem threadSwitch_local (s : State n T W O L) (c : Fin n) {newstate : Newstate W}
    (awake : ∀ wc, newstate ≠ .sleep wc) :
    (s.threadSwitch c newstate).Ensures (Local c (fun _ => False) s) := by
  unfold State.threadSwitch
  refine (splx_inside s c .high).then fun (spl, t) ⟨raised, _⟩ => ?_
  dsimp only
  split
  · refine (splx_inside t c spl).then fun (_, u) ⟨lowered, _⟩ => ?_
    exact Outcome.ensures_pure.mpr (raised.trans lowered).toLocal
  · refine (spinlockAcquire_inside t c (.runqueue c)).then fun u ⟨taken, _, _⟩ => ?_
    have inside := raised.trans taken
    split
    · have plain : ∀ wc, (.runqueue c : Spinlock n W L) ≠ .wchan wc := fun _ => nofun
      refine (spinlockRelease_inside u c plain).then fun v ⟨given, _⟩ => ?_
      refine (splx_inside v c spl).then fun (_, w) ⟨lowered, _⟩ => ?_
      exact Outcome.ensures_pure.mpr ((inside.trans given).trans lowered).toLocal
    · exact (switchAway_local u c awake spl).mono fun _ away => inside.toLocal.trans inside.own away

theorem threadYield_local (s : State n T W O L) (c : Fin n) :
    (s.threadYield c).Ensures (Local c (fun _ => False) s) := by
  unfold State.threadYield
  rw [Outcome.ensures_bind, Outcome.ensures_await]
  exact fun _ => threadSwitch_local s c (fun _ is => nomatch is)

theorem threadExit_local (s : State n T W O L) (c : Fin n) :
    (s.threadExit c).Ensures (Local c (fun _ => False) s) := by
  unfold State.threadExit
  refine (splSave_inside s c .high).then fun t inside => ?_
  rw [Outcome.ensures_bind, Outcome.ensures_kassert]
  intro _
  have awake : ∀ wc, (.zombie : Newstate W) ≠ .sleep wc := fun _ => nofun
  exact (threadSwitch_local t c awake).mono fun _ away => inside.toLocal.trans inside.own away

/-! ### Sections of the scheduler -/

theorem rescheduled_inside (c : Fin n) {sched : Scheduler.State n T W O}
    (stays : Stays (fun _ => False) s.sched sched) : Inside c s { s with sched := sched } where
  live := stays.live
  cur d _ := congrFun stays.cur d
  mode _ _ := rfl
  thread _ _ _ := rfl
  wchans _ := Iff.rfl
  holders _ _ _ := id
  own := congrFun stays.cur c
  same := rfl
  wchanHolders _ _ := id

/-- A section gives its own spinlock back. -/
theorem runSection_inside (s : State n T W O L) (c : Fin n) (a : Section T W O)
    (old : ∀ x, ¬ a.added x) : (s.runSection c a).Ensures (Inside c s) := by
  have nobody : a.added = fun _ => False := by
    funext x
    exact eq_false (old x)
  have steps := section_stays s.sched c a
  rw [nobody] at steps
  unfold State.runSection
  rw [Outcome.ensures_bind, Outcome.ensures_await]
  intro _
  split
  · rw [Outcome.ensures_bind]
    intro sched goes
    have same : State.setNew { s with sched := sched } a = { s with sched := sched } := by
      cases a with
      | fork o newthread => exact (old newthread rfl).elim
      | _ => rfl
    rw [same]
    exact Outcome.ensures_pure.mpr (rescheduled_inside c (steps sched goes))
  · rename_i k _
    rw [Outcome.ensures_bind]
    intro u acquired
    obtain ⟨taken, sched, _⟩ := spinlockAcquire_inside s c k u acquired
    have free : s.splkHolder k = none := by
      simp only [State.spinlockAcquire, Outcome.bind_done, Outcome.await_done] at acquired
      exact acquired.choose_spec.2.choose_spec.1
    rw [← sched] at steps
    rw [Outcome.ensures_bind]
    intro sched' goes
    have inside : Inside c s { u with sched := sched' } :=
      taken.trans (rescheduled_inside c (steps sched' goes))
    intro t released
    obtain ⟨mine, l, held, rfl⟩ := spinlockRelease_done released
    have given := (spinlockRelease_local _ c k _ released).1
    have leaves := inside.toLocal.trans inside.own given
    refine { leaves with own := inside.own, same := inside.same, wchanHolders := fun wc d holds => ?_ }
    have other : .wchan wc ≠ k := by
      rintro rfl
      rw [free] at holds
      cases holds
    exact (Function.update_of_ne other ..).trans (inside.wchanHolders wc d holds)

theorem fork_local (s : State n T W O L) (placed : Scheduler.Placed s.sched) (c : Fin n) (o : O)
    (newthread : T) : (s.runSection c (.fork o newthread)).Ensures fun t =>
      Local c (fun x => x = newthread) s t ∧ t.thread newthread = Interrupts.newThread := by
  unfold State.runSection
  rw [Outcome.ensures_bind, Outcome.ensures_await]
  intro _
  show Outcome.Ensures (_ >>= _) _
  rw [Outcome.ensures_bind]
  intro sched goes
  have stays : Stays (fun x => x = newthread) s.sched sched :=
    section_stays s.sched c (.fork o newthread) sched goes
  have other : s.sched.cCurthread c ≠ newthread := by
    rintro rfl
    have live := cur_live placed c
    rw [fork_new s.sched o c _ sched goes] at live
    cases live
  refine Outcome.ensures_pure.mpr ⟨?_, Function.update_self ..⟩
  exact
    { live := stays.live
      cur := fun d _ => congrFun stays.cur d
      mode := fun _ _ => rfl
      thread := fun x _ new => Function.update_of_ne new ..
      holders := fun _ _ _ => id
      wchans := by
        intro wc
        have same : Function.update s.thread newthread Interrupts.newThread (s.sched.cCurthread c) =
            s.thread (s.sched.cCurthread c) := Function.update_of_ne other ..
        exact iff_of_eq (congrArg (fun x => _ ∈ x.held) same) }

/-! ### The locks of wait channels -/

theorem setCore_elsewhere (s : State n T W O L) (c : Fin n) (l : Core (Spinlock n W L)) :
    Elsewhere c (fun _ => False) s (s.setCore c l) where
  live _ := .inl
  cur _ _ := rfl
  mode _ _ := rfl
  thread _ other _ := Function.update_of_ne other ..
  holders _ _ _ := id

/-- The current thread of the cpu `c` takes a spinlock. -/
structure Took (c : Fin n) (k : Spinlock n W L) (s t : State n T W O L) : Prop
    extends Elsewhere c (fun _ => False) s t where
  kernel : s.mode c = .kernel
  own : t.sched.cCurthread c = s.sched.cCurthread c
  same : t.mode c = s.mode c
  held : (t.thread (s.sched.cCurthread c)).held = insert k (s.thread (s.sched.cCurthread c)).held
  holder : t.splkHolder k = some c

theorem acquire_took (s : State n T W O L) (c : Fin n) (k : Spinlock n W L) :
    (s.acquire c k).Ensures (Took c k s) := by
  intro t goes
  simp only [State.acquire, State.spinlockAcquire, Outcome.bind_done, Outcome.await_done,
    Outcome.kassert_done, Outcome.pure_done] at goes
  obtain ⟨_, kernel, u, ⟨_, _, _, free, rfl⟩, rfl⟩ := goes
  rw [setHolder_setCore, core_setCore, setCore_setCore]
  have taken : Inside c s (s.setHolder k (some c)) := take_inside free
  set l := (s.core c).splraise.take k
  have core : ((s.setHolder k (some c)).setCore c l).core c = l := core_setCore ..
  refine { taken.toElsewhere.trans rfl (setCore_elsewhere _ c l) with
    kernel := kernel, own := rfl, same := rfl, held := ?_, holder := Function.update_self .. }
  exact congrArg (fun x => x.thread.held) core

/-- The current thread of the cpu `c` goes to sleep on a channel that it has locked. -/
structure Slept (c : Fin n) (wc : W) (s t : State n T W O L) : Prop
    extends Elsewhere c (fun _ => False) s t where
  mine : .wchan wc ∈ (s.thread (s.sched.cCurthread c)).held
  others : ∀ wc', .wchan wc' ∈ (t.thread (s.sched.cCurthread c)).held ↔
    wc' ≠ wc ∧ .wchan wc' ∈ (s.thread (s.sched.cCurthread c)).held
  free : t.splkHolder (.wchan wc) = none
  queued : t.sched.wcThreads wc = s.sched.wcThreads wc ++ [s.sched.cCurthread c]

theorem Slept.after {wc : W} (inside : Inside c s t) (sched : t.sched = s.sched)
    (slept : Slept c wc t u) : Slept c wc s u where
  toElsewhere := inside.toElsewhere.trans inside.own slept.toElsewhere
  mine := (inside.wchans wc).mp (inside.own ▸ slept.mine)
  others wc' := by
    rw [← inside.wchans wc', ← inside.own]
    exact slept.others wc'
  free := slept.free
  queued := by rw [slept.queued, sched]

theorem sleep_queues {s : Scheduler.State n T W O} (busy : s.cIsidle c = false) (wc : W) :
    (s.step (.sleep c wc)).Ensures fun t => t.wcThreads wc = s.wcThreads wc ++ [s.cCurthread c] := by
  simp only [Scheduler.State.step]
  split
  · simp only [Scheduler.State.threadSwitch, busy, Bool.false_eq_true, if_false, Outcome.ensures_pure,
      Scheduler.State.pick]
    split <;> exact Function.update_self ..
  · exact Outcome.ensures_blocked

theorem switchAway_slept (busy : s.sched.cIsidle c = false) (wc : W) (spl : Ipl) :
    (s.switchAway c (.sleep wc) spl).Ensures (Slept c wc s) := by
  simp only [State.switchAway]
  rw [Outcome.ensures_bind, Outcome.ensures_await]
  intro only
  rw [Outcome.ensures_bind]
  intro u released
  obtain ⟨holds, l, held, is⟩ := spinlockRelease_done released
  have given := (spinlockRelease_local s c _ u released).1
  have sched : u.sched = s.sched := by
    rw [is]
    rfl
  have free : u.splkHolder (.wchan wc) = none := by
    rw [is]
    exact Function.update_self ..
  have core : (u.core c).thread.held = (s.core c).thread.held := by
    rw [is, core_setCore, held]
  intro t goes
  rw [Outcome.pure_def, Outcome.done_bind, core_setCore, setCore_setCore] at goes
  set l' : Core (Spinlock n W L) :=
    (((u.core c).give (.wchan wc)).push (.saved spl)).setHandover true
  have away : Elsewhere c (fun _ => False) s (u.setCore c l') :=
    given.toElsewhere.trans (by rw [sched]) (setCore_elsewhere u c l')
  have on : Local c (fun _ => False) (u.setCore c l') t :=
    goOn_local _ c (switchAction_switchedOn _ c _) t goes
  obtain ⟨queues, holder⟩ := goOn_done goes
  refine { away.trans (congrArg (fun x => x.cCurthread c) sched) on.toElsewhere with
    mine := only holds, others := fun wc' => ?_, free := ?_, queued := ?_ }
  · have cur : (u.setCore c l').sched.cCurthread c = s.sched.cCurthread c :=
      congrArg (fun x => x.cCurthread c) sched
    have left : ((u.setCore c l').thread (s.sched.cCurthread c)).held =
        (s.core c).thread.held.erase (.wchan wc) := by
      rw [← cur, ← core]
      exact congrArg (fun x => x.thread.held) (core_setCore u c l')
    rw [← cur, on.wchans wc', cur, left, Finset.mem_erase]
    simp [State.core]
  · exact (congrFun holder _).trans free
  · rw [← sched]
    exact sleep_queues (sched ▸ busy) wc _ queues

theorem wchanSleep_slept (h : s.Inv) (wc : W) : (s.wchanSleep c wc).Ensures (Slept c wc s) := by
  unfold State.wchanSleep
  rw [Outcome.ensures_bind, Outcome.ensures_await]
  intro kernel
  rw [Outcome.ensures_bind, Outcome.ensures_kassert]
  intro outside
  obtain ⟨_, _, idle⟩ := h.kernel kernel
  have busy : s.sched.cIsidle c = false := by
    rw [idle]
    exact any_interrupt_of_window ((h.cur_good c).inInterrupt.symm.trans outside)
  unfold State.threadSwitch
  refine (splx_inside s c .high).then fun (spl, t) ⟨raised, sched⟩ => ?_
  dsimp only
  rw [sched, busy]
  refine (spinlockAcquire_inside t c (.runqueue c)).then fun u ⟨taken, sched', _⟩ => ?_
  have same : u.sched = s.sched := sched'.trans sched
  exact (switchAway_slept (same ▸ busy) wc spl).mono fun _ => .after (raised.trans taken) same

end Os161.Interrupts
