import Os161.Thread.IplCount

/-!
# Interrupt counts across switches

Only a switch changes the current thread of a cpu, and only that of its own; the run queue lock that
the thread before it has taken is in the count of the one after it. With the steps of a thread this
gives the balance of the counts in every run.
-/

set_option linter.unusedSectionVars false

namespace Os161.Scheduler

variable {n : Nat} {T W O : Type} [DecidableEq T] [DecidableEq W] [DecidableEq O]
  {s t u : State n T W O} {c : Fin n}

/-- A switch of the cpu `c`; it stays with its thread while it is idle. -/
structure SwitchedOn (c : Fin n) (s t : State n T W O) : Prop where
  live : t.live = s.live
  others : ∀ d, d ≠ c → t.cCurthread d = s.cCurthread d ∧ t.cIsidle d = s.cIsidle d
  stays : t.cIsidle c = true → t.cCurthread c = s.cCurthread c

theorem pick_switchedOn (s : State n T W O) (c : Fin n) : SwitchedOn c s (s.pick c) := by
  unfold State.pick
  split
  · exact ⟨rfl, fun _ _ => ⟨rfl, rfl⟩, fun _ => rfl⟩
  · refine ⟨rfl, fun d other => ?_, fun idle => ?_⟩
    · simp [Function.update_of_ne other]
    · simp at idle

theorem leave_switchedOn (live : u.live = s.live) (cur : u.cCurthread = s.cCurthread)
    (idle : u.cIsidle = s.cIsidle) (newstate : ThreadState) :
    SwitchedOn c s ((u.leave c newstate).pick c) := by
  have picked := pick_switchedOn (u.leave c newstate) c
  constructor
  · exact picked.live.trans live
  · intro d other
    obtain ⟨thread, is⟩ := picked.others d other
    refine ⟨thread.trans (congrFun cur d), is.trans ?_⟩
    rw [← idle]
    exact Function.update_of_ne other ..
  · intro is
    exact (picked.stays is).trans (congrFun cur c)

theorem threadSwitch_switchedOn (s : State n T W O) (c : Fin n) (newstate : Newstate W) :
    (s.threadSwitch c newstate).Ensures (SwitchedOn c s) := by
  have same : SwitchedOn c s s := ⟨rfl, fun _ _ => ⟨rfl, rfl⟩, fun _ => rfl⟩
  unfold State.threadSwitch
  split
  · exact Outcome.ensures_pure.mpr same
  cases newstate with
  | ready =>
    dsimp only
    split
    · exact Outcome.ensures_pure.mpr same
    · simp only [Outcome.ensures_bind, Outcome.ensures_kassert, Outcome.ensures_pure]
      intro _
      apply leave_switchedOn <;> rfl
  | sleep wc =>
    rw [Outcome.ensures_pure]
    apply leave_switchedOn <;> rfl
  | zombie =>
    rw [Outcome.ensures_pure]
    apply leave_switchedOn <;> rfl

theorem unidle_switchedOn (s : State n T W O) (c : Fin n) :
    (s.step (.unidle c)).Ensures (SwitchedOn c s) := by
  simp only [State.step]
  split
  · simp only [Outcome.ensures_bind, Outcome.ensures_await, Outcome.ensures_pure]
    exact fun _ => pick_switchedOn s c
  · exact Outcome.ensures_blocked

/-- No cpu changes its thread; `added` are the threads that are new. -/
structure Stays (added : T → Prop) (s t : State n T W O) : Prop where
  cur : t.cCurthread = s.cCurthread
  idle : t.cIsidle = s.cIsidle
  live : ∀ x, t.live x = true → s.live x = true ∨ added x

theorem sendTo_stays (c target : Fin n) (oneShare toSend : Nat) (s : State n T W O) (victims : List T) :
    (s.sendTo c target oneShare victims toSend).Ensures fun r => Stays (fun _ => False) s r.1 := by
  induction toSend generalizing s victims with
  | zero => exact Outcome.ensures_pure.mpr ⟨rfl, rfl, fun _ => .inl⟩
  | succ toSend ih =>
    unfold State.sendTo
    split
    · split
      · exact Outcome.ensures_fault
      · split
        · exact ih s _
        · exact (ih _ _).mono fun r stays => ⟨stays.cur, stays.idle, stays.live⟩
    · exact Outcome.ensures_pure.mpr ⟨rfl, rfl, fun _ => .inl⟩

theorem migrate_stays (s : State n T W O) (c : Fin n) :
    (s.step (.migrate c)).Ensures (Stays (fun _ => False) s) := by
  simp only [State.step]
  split
  · rename_i i totalCount myCount _
    simp only [Outcome.ensures_pure, State.countQueue]
    split <;> (try split) <;> exact ⟨rfl, rfl, fun _ => .inl⟩
  · simp only [State.grab, Outcome.ensures_bind, Outcome.ensures_pure]
    exact fun _ _ => ⟨rfl, rfl, fun _ => .inl⟩
  · unfold State.send
    split
    · split
      · exact Outcome.ensures_pure.mpr ⟨rfl, rfl, fun _ => .inl⟩
      · simp only [Outcome.ensures_bind, Outcome.ensures_pure]
        exact Outcome.Ensures.mono (sendTo_stays c _ _ _ s _) fun r stays =>
          ⟨stays.cur, stays.idle, stays.live⟩
    · exact Outcome.ensures_pure.mpr ⟨rfl, rfl, fun _ => .inl⟩
  · exact Outcome.ensures_blocked

end Os161.Scheduler

namespace Os161.Interrupts

open Scheduler (SwitchedOn Stays Newstate)

variable {n : Nat} {T W O L : Type} [DecidableEq T] [DecidableEq W] [DecidableEq O] [DecidableEq L]
  {s t : State n T W O L} {c : Fin n}

/-- The threads that a section makes. -/
def Section.added : Section T W O → T → Prop
  | .fork _ newthread, x => x = newthread
  | _, _ => False

theorem section_stays (s : Scheduler.State n T W O) (c : Fin n) (a : Section T W O) :
    (s.step (a.action c)).Ensures (Stays a.added s) := by
  cases a with
  | fork o newthread =>
    simp only [Section.action, Scheduler.State.step, Scheduler.State.fork, Outcome.ensures_bind,
      Outcome.ensures_await, Outcome.ensures_pure]
    intro _
    refine ⟨rfl, rfl, fun x live => ?_⟩
    by_cases same : x = newthread
    · exact .inr same
    · exact .inl ((Function.update_of_ne same ..).symm.trans live)
  | forked o =>
    simp only [Section.action, Scheduler.State.step, Scheduler.State.forked]
    split
    · exact Outcome.ensures_blocked
    · exact Outcome.ensures_pure.mpr ⟨rfl, rfl, fun _ => .inl⟩
  | exorcise =>
    simp only [Section.action, Scheduler.State.step, Scheduler.State.exorcise,
      Scheduler.State.threadDestroy]
    split
    · split
      · exact Outcome.ensures_pure.mpr ⟨rfl, rfl, fun _ => .inl⟩
      · rename_i z rest _
        simp only [Outcome.ensures_bind, Outcome.ensures_kassert, Outcome.ensures_pure]
        intro _ _ _ _
        refine ⟨rfl, rfl, fun x live => .inl ?_⟩
        by_cases same : x = z
        · subst same
          simp at live
        · exact (Function.update_of_ne same ..).symm.trans live
    · exact Outcome.ensures_blocked
  | wakeone o wc =>
    simp only [Section.action, Scheduler.State.step, Scheduler.State.wchanWakeone,
      Outcome.ensures_bind, Outcome.ensures_await]
    intro _
    split <;> exact Outcome.ensures_pure.mpr ⟨rfl, rfl, fun _ => .inl⟩
  | wakeall o wc =>
    simp only [Section.action, Scheduler.State.step, Scheduler.State.wchanWakeall,
      Outcome.ensures_bind, Outcome.ensures_await, Outcome.ensures_pure]
    exact fun _ => ⟨rfl, rfl, fun _ => .inl⟩
  | woken o =>
    simp only [Section.action, Scheduler.State.step, Scheduler.State.woken]
    split
    · exact Outcome.ensures_blocked
    · exact Outcome.ensures_pure.mpr ⟨rfl, rfl, fun _ => .inl⟩
  | considerMigration =>
    simp only [Section.action, Scheduler.State.step]
    split
    · exact Outcome.ensures_pure.mpr ⟨rfl, rfl, fun _ => .inl⟩
    · exact Outcome.ensures_blocked
  | migrate => exact Scheduler.migrate_stays s c

theorem switchAction_switchedOn (s : Scheduler.State n T W O) (c : Fin n) (newstate : Newstate W) :
    (s.step (State.switchAction c newstate)).Ensures (SwitchedOn c s) := by
  have switches := Scheduler.threadSwitch_switchedOn s c newstate
  cases newstate with
  | _ =>
    simp only [State.switchAction, Scheduler.State.step]
    split
    · exact switches
    · exact Outcome.ensures_blocked

/-! ### The switch -/

/-- The thread of the cpu goes to its place, and the next one is as it was left. -/
theorem goOn_inv {mode : Mode} (h : (s.setMode c mode).Inv) (left : mode = .resuming ∨ mode = .idle)
    {a : Scheduler.Action n T W O} (switches : (s.sched.step a).Ensures (SwitchedOn c s.sched)) :
    (s.goOn c a).Faultless State.Inv := by
  have before : (s.core c).Synced ∧ (s.core c).thread.Away true := by
    have at_ := h.cpus c
    rw [show (s.setMode c mode).mode c = mode from Function.update_self ..] at at_
    obtain rfl | rfl := left <;> exact ⟨at_.1, at_.2.1⟩
  obtain ⟨sync, away⟩ := before
  have placed : (s.sched.step a).Faultless Scheduler.Placed := (Scheduler.step_placed h.placed a).faultless
  simp only [State.goOn, Outcome.faultless_bind, Outcome.faultless_pure]
  refine (placed.and_ensures switches).mono fun sched ⟨placed, switched⟩ => ?_
  set t := { s with sched := sched }.setMode c (if sched.cIsidle c then .idle else .resuming)
  have irq : s.irq c = false := by
    have off := Core.of_high (h.good _ (cur_live h.placed c)).counted away.high
    exact congrArg Core.irq (sync.trans off.symm)
  -- a cpu other than `c` has the thread that it had
  have elsewhere : ∀ d x, s.sched.cCurthread d = x → (∀ e, sched.cCurthread e ≠ x) →
      x = s.sched.cCurthread c := by
    intro d x cur gone
    by_cases own : d = c
    · rw [← cur, own]
    · exact absurd ((switched.others d own).1.trans cur) (gone d)
  constructor
  · exact placed
  · intro x live
    exact h.good x ((congrFun switched.live x).symm.trans live)
  · intro d
    by_cases own : d = c
    · subst own
      have live : s.sched.live (sched.cCurthread d) = true :=
        (congrFun switched.live _).symm.trans (cur_live (s := t) placed d)
      have next : (s.thread (sched.cCurthread d)).Away true := by
        by_cases same : s.sched.cCurthread d = sched.cCurthread d
        · exact same ▸ away
        · refine h.away _ live fun e cur => ?_
          by_cases own : e = d
          · exact same (own ▸ cur)
          · exact own (cur_injective (s := t) placed ((switched.others e own).1.trans cur))
      have good : (s.thread (sched.cCurthread d)).Good := h.good _ live
      have core : t.core d = .of (s.thread (sched.cCurthread d)) := by
        rw [← Core.of_high good.counted next.high, ← irq]
        rfl
      have next : (Core.of (s.thread (sched.cCurthread d))).thread.Away true :=
        ⟨next.handover, next.high, next.outside⟩
      have mode : t.mode d = if sched.cIsidle d then .idle else .resuming := Function.update_self ..
      rw [core, mode]
      cases is : sched.cIsidle d with
      | true => exact ⟨rfl, next, is⟩
      | false => exact ⟨rfl, next, is⟩
    · obtain ⟨cur, idle⟩ := switched.others d own
      have at_ := h.cpus d
      rw [show (s.setMode c mode).mode d = s.mode d from Function.update_of_ne own ..] at at_
      have core : t.core d = s.core d := congrArg (fun x => (⟨s.thread x, s.irq d⟩ : Core _)) cur
      rw [core, show t.mode d = s.mode d from Function.update_of_ne own ..,
        show t.sched.cIsidle d = s.sched.cIsidle d from idle]
      exact at_
  · intro x live gone
    by_cases current : ∃ d, s.sched.cCurthread d = x
    · obtain ⟨d, cur⟩ := current
      rw [elsewhere d x cur gone]
      exact away
    · exact h.away x ((congrFun switched.live x).symm.trans live) fun d cur => current ⟨d, cur⟩
  · apply LockInv.mono h.locks
    intro d is
    by_cases own : d = c
    · subst own
      rw [show (s.setMode d mode).mode d = mode from Function.update_self ..]
      obtain rfl | rfl := left <;> rfl
    · rw [show t.mode d = s.mode d from Function.update_of_ne own ..] at is
      rw [show (s.setMode c mode).mode d = s.mode d from Function.update_of_ne own ..]
      exact is

/-- The thread of the cpu has its run queue locked, and has noted the level to come back to. -/
theorem left_inv (h : s.Inv) (kernel : s.mode c = .kernel) (busy : s.sched.cIsidle c = false)
    {holder : Spinlock n W L → Option (Fin n)} {held : Finset (Spinlock n W L)}
    (locks : LockInv holder (Function.update s.held (s.sched.cCurthread c) held) fun d =>
      d = c ∨ (s.mode d).handed = true) :
    ((State.setCore { s with splkHolder := holder } c (.of { (s.core c).thread with
      tCurspl := .high
      frames := .saved (s.core c).thread.tCurspl :: (s.core c).thread.frames
      held := held
      handover := true })).setMode c .resuming).Inv := by
  obtain ⟨_, handover, idle⟩ := h.kernel kernel
  have good := h.cur_good c
  apply h.change
  · rfl
  · rfl
  · rfl
  · rfl
  · exact good_of good.returns good.inInterrupt
  · exact ⟨rfl, ⟨rfl, rfl, idle.symm.trans busy⟩, busy⟩
  · unfold State.Locks
    show LockInv holder (State.setCore { s with splkHolder := holder } c _).held _
    rw [held_setCore]
    apply locks.mono
    intro d is
    by_cases own : d = c
    · exact .inl own
    · have same : Function.update s.mode c .resuming d = s.mode d := Function.update_of_ne own ..
      exact .inr ((congrArg (fun mode => mode.handed = true) same).mp is)

theorem setHolder_setCore (s : State n T W O L) (k : Spinlock n W L) (holder : Option (Fin n))
    (l : Core (Spinlock n W L)) :
    (s.setCore c l).setHolder k holder = (s.setHolder k holder).setCore c l := rfl

theorem setHolder_back {k : Spinlock n W L} {holder : Option (Fin n)} (was : s.splkHolder k = holder)
    (between : Option (Fin n)) : (s.setHolder k between).setHolder k holder = s := by
  subst was
  simp [State.setHolder]

/-- What the switch notes in the thread. -/
theorem raised_away {K : Type} [DecidableEq K] {t : Thread K} (before : t.handover = false)
    (frame : Frame K) : ((Core.of t).splraise.push frame).setHandover true =
      .of { t with frames := frame :: t.frames, handover := true } := by
  rw [← Core.of_handover (t := { t with frames := frame :: t.frames }) before, Core.of_splraise,
    Core.of_splraise]
  rfl

theorem switchAway_inv (h : s.Inv) (kernel : s.mode c = .kernel) (busy : s.sched.cIsidle c = false)
    (free : s.splkHolder (.runqueue c) = none) (newstate : Newstate W) :
    (((s.setHolder (.runqueue c) (some c)).setCore c
      (Core.of { (s.core c).thread with tCurspl := .high }).splraise).switchAway c newstate
        (s.core c).thread.tCurspl).Faultless State.Inv := by
  obtain ⟨_, handover, _⟩ := h.kernel kernel
  have locked := h.locks.lock free
  have going : ∀ u : State n T W O L, (u.setMode c .resuming).Inv → u.sched = s.sched →
      (u.goOn c (State.switchAction c newstate)).Faultless State.Inv := by
    intro u inv same
    exact goOn_inv inv (.inl rfl) (same ▸ switchAction_switchedOn s.sched c newstate)
  have stays : LockInv (Function.update s.splkHolder (.runqueue c) (some c))
      (Function.update s.held (s.sched.cCurthread c) (s.core c).thread.held) fun d =>
        d = c ∨ (s.mode d).handed = true := by
    rw [← held_core, Function.update_eq_self]
    exact locked
  unfold State.switchAway
  cases newstate with
  | sleep wc =>
    simp only [State.spinlockRelease, Outcome.faultless_bind, Outcome.faultless_await,
      Outcome.faultless_kassert, core_setCore]
    intro only locks
    have mine : .wchan wc ∈ (s.core c).thread.held := only locks
    obtain ⟨l, lower, given⟩ := Core.raised_give (t := { (s.core c).thread with tCurspl := .high }) mine
    rw [lower]
    simp only [Outcome.faultless_done, Outcome.faultless_pure, core_setCore, setCore_setCore, given]
    rw [setHolder_setCore, setCore_setCore, raised_away (by exact handover)]
    apply going
    · exact left_inv h kernel busy (locked.give mine)
    · rfl
  | ready =>
    simp only [Outcome.faultless_bind, Outcome.faultless_pure, core_setCore, setCore_setCore]
    rw [raised_away (by exact handover)]
    apply going
    · exact left_inv h kernel busy stays
    · rfl
  | zombie =>
    simp only [Outcome.faultless_bind, Outcome.faultless_pure, core_setCore, setCore_setCore]
    rw [raised_away (by exact handover)]
    apply going
    · exact left_inv h kernel busy stays
    · rfl

theorem threadSwitch_inv (h : s.Inv) (kernel : s.mode c = .kernel) (newstate : Newstate W) :
    (s.threadSwitch c newstate).Faultless State.Inv := by
  obtain ⟨sync, handover, idle⟩ := h.kernel kernel
  have good := h.cur_good c
  -- the early returns come back to the level before
  have back : (s.setCore c (.of { (s.core c).thread with tCurspl := (s.core c).thread.tCurspl })).Inv := by
    apply h.setThread
    · exact good_of good.returns good.inInterrupt
    · rw [kernel]
      exact ⟨rfl, handover, idle⟩
    · rfl
  unfold State.threadSwitch
  rw [splx_of sync]
  simp only [Outcome.done_bind]
  split
  · rw [splx_of (core_setCore ..)]
    simp only [Outcome.done_bind, Outcome.faultless_pure, setCore_setCore]
    exact back
  · rename_i busy
    have busy : s.sched.cIsidle c = false := Bool.eq_false_iff.mpr busy
    rw [Outcome.faultless_bind]
    refine (spinlockAcquire_of (core_setCore ..) (.runqueue c)).mono fun u ⟨free, is⟩ => ?_
    rw [setHolder_setCore, setCore_setCore] at is
    subst is
    split
    · rw [Outcome.faultless_bind]
      have lower := Core.spllower_splraise { (s.core c).thread with tCurspl := .high }
      refine (spinlockRelease_of ((congrArg Core.spllower (core_setCore ..)).trans lower) _).mono
        fun u ⟨_, is⟩ => ?_
      rw [setHolder_setCore, setCore_setCore] at is
      subst is
      rw [splx_of (core_setCore ..)]
      simp only [Outcome.done_bind, Outcome.faultless_pure, setCore_setCore]
      rw [setHolder_back (show s.splkHolder (.runqueue c) = none from free)]
      exact back
    · exact switchAway_inv h kernel busy free newstate

theorem threadYield_inv (h : s.Inv) : (s.threadYield c).Faultless State.Inv := by
  simp only [State.threadYield, Outcome.faultless_bind, Outcome.faultless_await]
  exact fun kernel => threadSwitch_inv h kernel .ready

theorem wchanSleep_inv (h : s.Inv) (wc : W) : (s.wchanSleep c wc).Faultless State.Inv := by
  simp only [State.wchanSleep, Outcome.faultless_bind, Outcome.faultless_await,
    Outcome.faultless_kassert]
  exact fun kernel _ => threadSwitch_inv h kernel (.sleep wc)

theorem splSave_kernel (s : State n T W O L) (c : Fin n) (spl : Ipl) :
    (s.splSave c spl).Ensures fun u => u.mode c = .kernel := by
  simp only [State.splSave, State.splx, Outcome.ensures_bind, Outcome.ensures_await,
    Outcome.ensures_pure]
  exact fun kernel _ _ => kernel

theorem threadExit_inv (h : s.Inv) : (s.threadExit c).Faultless State.Inv := by
  simp only [State.threadExit, Outcome.faultless_bind, Outcome.faultless_kassert]
  refine ((splSave_inv h .high).and_ensures (splSave_kernel s c .high)).mono ?_
  rintro u ⟨inv, kernel⟩ _
  exact threadSwitch_inv inv kernel .zombie

/-! ### The loop of an idle cpu -/

/-- The lock that has been handed over is unlocked. -/
theorem handed_inv {mode mode' : Mode} (h : s.Inv) (is : s.mode c = mode) (handed : mode.handed = true)
    (away : (s.core c).Synced ∧ (s.core c).thread.Away true) (plain : mode'.handed = false)
    (at_ : ∀ l : Core (Spinlock n W L), l = .of { (s.core c).thread with handover := false } →
      l.thread.Good → l.At (s.sched.cIsidle c) mode') :
    (do
      let s ← s.spinlockRelease c (.runqueue c)
      return (s.setCore c ((s.core c).setHandover false)).setMode c mode').Faultless State.Inv := by
  obtain ⟨sync, away⟩ := away
  have good := h.cur_good c
  obtain ⟨l, lower, given⟩ := Core.of_handed away.handover
  rw [Outcome.faultless_bind]
  refine (spinlockRelease_of ((congrArg Core.spllower sync).trans lower) _).mono fun u ⟨_, is'⟩ => ?_
  subst is'
  simp only [Outcome.faultless_pure, core_setCore, setCore_setCore, given]
  have good := good_of (t := { (s.core c).thread with handover := false }) good.returns good.inInterrupt
  apply h.change
  · rfl
  · rfl
  · rfl
  · rfl
  · exact good
  · exact at_ _ rfl good
  · unfold State.Locks
    have same : (((s.setHolder (.runqueue c) none).setCore c
        (.of { (s.core c).thread with handover := false })).setMode c mode').held = s.held :=
      held_same rfl
    rw [same]
    apply (h.locks.unlock (c := c) (by rw [is, handed])).mono
    intro d handed'
    by_cases own : d = c
    · subst own
      rw [show (State.setMode _ d mode').mode d = mode' from Function.update_self .., plain] at handed'
      cases handed'
    · have same : Function.update s.mode c mode' d = s.mode d := Function.update_of_ne own ..
      exact ⟨own, (congrArg (fun mode => mode.handed = true) same).mp handed'⟩

theorem resume_inv (h : s.Inv) : (s.resume c).Faultless State.Inv := by
  simp only [State.resume, Outcome.faultless_bind, Outcome.faultless_await]
  intro is
  have at_ := h.cpus c
  rw [is] at at_
  obtain ⟨sync, away, idle⟩ := at_
  rw [← Outcome.faultless_bind]
  apply handed_inv h is rfl ⟨sync, away⟩ rfl
  rintro l rfl _
  exact ⟨rfl, rfl, idle.trans away.outside.symm⟩

theorem idleUnlock_inv (h : s.Inv) : (s.idleUnlock c).Faultless State.Inv := by
  simp only [State.idleUnlock, Outcome.faultless_bind, Outcome.faultless_await]
  intro is
  have at_ := h.cpus c
  rw [is] at at_
  obtain ⟨sync, away, idle⟩ := at_
  rw [← Outcome.faultless_bind]
  apply handed_inv h is rfl ⟨sync, away⟩ rfl
  rintro l rfl _
  exact ⟨rfl, ⟨rfl, away.high, away.outside⟩, idle⟩

theorem idleOpen_inv (h : s.Inv) : (s.idleOpen c).Faultless State.Inv := by
  simp only [State.idleOpen, Outcome.faultless_bind, Outcome.faultless_await, Outcome.faultless_pure]
  intro is
  have at_ := h.cpus c
  rw [is] at at_
  obtain ⟨_, away, idle⟩ := at_
  apply h.setCore
  · exact h.cur_good c
  · exact ⟨rfl, away, idle⟩
  · rfl
  · rintro ⟨⟩

theorem idleClose_inv (h : s.Inv) : (s.idleClose c).Faultless State.Inv := by
  simp only [State.idleClose, Outcome.faultless_bind, Outcome.faultless_await, Outcome.faultless_pure]
  intro is
  have at_ := h.cpus c
  rw [is] at at_
  obtain ⟨_, away, idle⟩ := at_
  apply h.setCore
  · exact h.cur_good c
  · exact ⟨Core.of_high (h.cur_good c).counted away.high, away, idle⟩
  · rfl
  · rintro ⟨⟩

theorem idleLook_inv (h : s.Inv) : (s.idleLook c).Faultless State.Inv := by
  simp only [State.idleLook, Outcome.faultless_bind, Outcome.faultless_await]
  intro is
  have at_ := h.cpus c
  rw [is] at at_
  obtain ⟨sync, away, idle⟩ := at_
  have good := h.cur_good c
  refine (spinlockAcquire_of sync (.runqueue c)).mono ?_
  rintro u ⟨free, is⟩
  subst is
  rw [core_setCore, setCore_setCore, Core.of_handover away.handover]
  refine goOn_inv (show State.Inv (State.setMode _ c .idle) from ?_) (.inr rfl)
    (Scheduler.unidle_switchedOn s.sched c)
  apply h.change
  · rfl
  · rfl
  · rfl
  · rfl
  · exact good_of good.returns good.inInterrupt
  · exact ⟨rfl, ⟨rfl, away.high, away.outside⟩, idle⟩
  · unfold State.Locks
    have same : (((s.setHolder (.runqueue c) (some c)).setCore c
        (.of { (s.core c).thread with handover := true })).setMode c .idle).held = s.held :=
      held_same rfl
    rw [same]
    apply (h.locks.lock free).mono
    intro d handed
    by_cases own : d = c
    · exact .inl own
    · have same : Function.update s.mode c .idle d = s.mode d := Function.update_of_ne own ..
      exact .inr ((congrArg (fun mode => mode.handed = true) same).mp handed)

/-! ### Sections of the scheduler -/

theorem newThread_good {K : Type} : (newThread : Thread K).Good := ⟨rfl, trivial, rfl⟩

/-- The scheduler goes on while every cpu stays with its thread, and a thread that is new has its
fields. -/
theorem State.Inv.reschedule (h : s.Inv) {sched : Scheduler.State n T W O} {added : T → Prop}
    {thread : T → Thread (Spinlock n W L)} (placed : Scheduler.Placed sched)
    (stays : Stays added s.sched sched) (old : ∀ x, ¬ added x → thread x = s.thread x)
    (new : ∀ x, added x → thread x = newThread ∧ s.sched.live x = false)
    (locks : LockInv s.splkHolder (fun x => (thread x).held) fun c => (s.mode c).handed = true) :
    State.Inv { s with sched := sched, thread := thread } := by
  constructor
  · exact placed
  · intro x live
    by_cases added : added x
    · show (thread x).Good
      rw [(new x added).1]
      exact newThread_good
    · show (thread x).Good
      rw [old x added]
      exact h.good x ((stays.live x live).resolve_right added)
  · intro c
    have known : ¬ added (s.sched.cCurthread c) := by
      intro added
      have live := cur_live h.placed c
      rw [(new _ added).2] at live
      cases live
    have core : State.core { s with sched := sched, thread := thread } c = s.core c := by
      simp only [State.core, stays.cur, old _ known]
    rw [core, show State.sched { s with sched := sched, thread := thread } = sched from rfl, stays.idle]
    exact h.cpus c
  · intro x live away
    by_cases added : added x
    · show (thread x).Away true
      rw [(new x added).1]
      exact ⟨rfl, rfl, rfl⟩
    · show (thread x).Away true
      rw [old x added]
      exact h.away x ((stays.live x live).resolve_right added) fun c cur =>
        away c ((congrFun stays.cur c).trans cur)
  · exact locks

theorem fork_new (s : Scheduler.State n T W O) (o : O) (c : Fin n) (newthread : T) :
    (s.step (.fork o c newthread)).Ensures fun _ => s.live newthread = false := by
  simp only [Scheduler.State.step, Scheduler.State.fork, Outcome.ensures_bind, Outcome.ensures_await,
    Outcome.ensures_pure]
  exact fun new => new.2.2

/-- A section that makes no thread. -/
theorem State.Inv.rescheduled (h : s.Inv) {sched : Scheduler.State n T W O}
    (placed : Scheduler.Placed sched) (stays : Stays (fun _ => False) s.sched sched) :
    State.Inv { s with sched := sched } :=
  h.reschedule placed stays (fun _ _ => rfl) (fun _ => False.elim) h.locks

theorem fork_inv (h : s.Inv) (o : O) (newthread : T) :
    (do
      let sched ← s.sched.step ((Section.fork o newthread).action c)
      return { s with sched := sched }.setNew (.fork o newthread)).Faultless State.Inv := by
  have steps : (s.sched.step (.fork o c newthread)).Faultless fun sched =>
      (Scheduler.Placed sched ∧ Stays (Section.added (.fork o newthread)) s.sched sched) ∧
        s.sched.live newthread = false :=
    ((Scheduler.step_placed h.placed _).faultless.and_ensures
      (section_stays s.sched c (.fork o newthread))).and_ensures (fork_new s.sched o c newthread)
  simp only [Outcome.faultless_bind, Outcome.faultless_pure]
  refine steps.mono fun sched ⟨⟨placed, stays⟩, new⟩ => ?_
  apply h.reschedule placed stays
  · exact fun x old => Function.update_of_ne old ..
  · rintro x rfl
    exact ⟨Function.update_self .., new⟩
  · have held : (fun x => (Function.update s.thread newthread newThread x).held) =
        Function.update s.held newthread ∅ := by
      funext x
      simp only [Function.update_apply, State.held]
      split <;> rfl
    rw [held]
    exact h.locks.forget newthread

theorem runSection_inv (h : s.Inv) (a : Section T W O) : (s.runSection c a).Faultless State.Inv := by
  have steps : (s.sched.step (a.action c)).Faultless fun sched =>
      Scheduler.Placed sched ∧ Stays a.added s.sched sched :=
    (Scheduler.step_placed h.placed _).faultless.and_ensures (section_stays s.sched c a)
  simp only [State.runSection, Outcome.faultless_bind, Outcome.faultless_await]
  intro kernel
  obtain ⟨sync, _, _⟩ := h.kernel kernel
  split
  · cases a with
    | fork o newthread => exact fork_inv h o newthread
    | _ =>
      simp only [Outcome.faultless_bind, Outcome.faultless_pure]
      refine steps.mono ?_
      rintro sched ⟨placed, stays⟩
      exact h.rescheduled placed stays
  · rename_i k lock
    have nobody : a.added = fun _ => False := by
      cases a with
      | fork o newthread => cases lock
      | _ => rfl
    rw [nobody] at steps
    rw [Outcome.faultless_bind]
    refine (spinlockAcquire_of sync k).mono ?_
    rintro u ⟨free, is⟩
    subst is
    rw [Outcome.faultless_bind]
    refine steps.mono ?_
    rintro sched ⟨placed, stays⟩
    -- the section ends with the thread and the spinlock as they were
    set u : State n T W O L :=
      { (s.setHolder k (some c)).setCore c (Core.of (s.core c).thread).splraise with sched := sched }
    have core : u.core c = (Core.of (s.core c).thread).splraise := by
      have same : u.core c =
          ((s.setHolder k (some c)).setCore c (Core.of (s.core c).thread).splraise).core c := by
        simp only [State.core, u, stays.cur]
        rfl
      rw [same, core_setCore]
    have lower := (congrArg Core.spllower core).trans (Core.spllower_splraise _)
    refine (spinlockRelease_of lower k).mono ?_
    rintro v ⟨_, is⟩
    have back : v = { s with sched := sched } := by
      rw [is, ← show s.core c = Core.of _ from sync]
      simp [u, State.setCore, State.setHolder, State.core, stays.cur, ← free]
    rw [back]
    exact h.rescheduled placed stays

/-! ### Runs -/

theorem step_inv (h : s.Inv) (a : Action n T W O L) : (s.step a).Faultless State.Inv := by
  cases a with
  | splSave c spl => exact splSave_inv h spl
  | splRestore c => exact splRestore_inv h
  | acquire c k => exact acquire_inv h k
  | release c k => exact release_inv h k
  | interrupt c => exact interrupt_inv h
  | interruptDone c => exact interruptDone_inv h
  | trap c isSyscall => exact trap_inv h isSyscall
  | trapDone c => exact trapDone_inv h
  | mipsUsermode c => exact mipsUsermode_inv h
  | threadYield c => exact threadYield_inv h
  | wchanSleep c wc => exact wchanSleep_inv h wc
  | threadExit c => exact threadExit_inv h
  | idleUnlock c => exact idleUnlock_inv h
  | idleOpen c => exact idleOpen_inv h
  | idleClose c => exact idleClose_inv h
  | idleLook c => exact idleLook_inv h
  | resume c => exact resume_inv h
  | threadStartup c => exact threadStartup_inv h
  | runSection c a => exact runSection_inv h a

theorem initial_inv (start : machine.initial s) : s.Inv := by
  obtain ⟨sched, threads, free, irq, modes⟩ := start
  obtain ⟨_, _, cpus, _, _, live⟩ := id sched
  constructor
  · exact Scheduler.initial_placed sched
  · intro t _
    rw [threads t]
    exact ⟨rfl, trivial, rfl⟩
  · intro c
    have core : s.core c = .of bootThread := by
      simp only [State.core, threads, irq]
      rfl
    rw [core, modes c]
    exact ⟨rfl, rfl, (cpus c).1⟩
  · intro t alive away
    obtain ⟨c, cur⟩ := (live t).mp alive
    exact absurd cur (away c)
  · have none : ∀ t k, k ∉ s.held t := by
      intro t k
      rw [show s.held t = ∅ from congrArg Thread.held (threads t)]
      exact Finset.notMem_empty k
    refine ⟨fun t k mine => absurd mine (none t k), fun t _ k mine => absurd mine (none t k),
      fun c is => ?_⟩
    simp only [modes c] at is
    cases is

theorem reached_inv (h : machine.Reachable s) : s.Inv :=
  machine.invariant (fun _ => initial_inv) (fun _ a _ inv _ step => (step_inv inv a).of_done step) h

/-- What the interrupt counts are in a state. -/
structure State.Balanced (s : State n T W O L) : Prop where
  counted : ∀ t, s.sched.live t = true → (s.thread t).tIplhighCount =
    (s.thread t).held.card + (if (s.thread t).handover then 1 else 0) + (s.thread t).tCurspl.charge
  nonneg : ∀ t, s.sched.live t = true → 0 ≤ (s.thread t).tIplhighCount
  /-- What a thread holds is locked, and nobody else holds it. -/
  held : ∀ t k, k ∈ (s.thread t).held → s.splkHolder k ≠ none ∧ ∀ u, k ∈ (s.thread u).held → u = t
  /-- A thread has a part in a hand-over while it is switched out, and while its cpu has the run
  queue locked for one. -/
  handover : ∀ t, s.sched.live t = true → ((s.thread t).handover = true ↔
    ∀ c, s.sched.cCurthread c = t → (s.mode c).handed = true ∧ s.splkHolder (.runqueue c) = some c)
  irq : ∀ c, s.mode c ≠ .window →
    (s.irq c = true ↔ (s.thread (s.sched.cCurthread c)).tIplhighCount = 0)
  window : ∀ c, s.mode c = .window → s.irq c = true ∧ s.sched.cIsidle c = true
  user : ∀ c, s.mode c = .user → (s.thread (s.sched.cCurthread c)).tIplhighCount = 0 ∧
    (s.thread (s.sched.cCurthread c)).tCurspl = .none

theorem State.Inv.at_handover (h : s.Inv) (c : Fin n) :
    (s.core c).thread.handover = (s.mode c).handed := by
  have at_ := h.cpus c
  cases is : s.mode c <;> rw [is] at at_
  · exact at_.2.1
  · exact at_.2.1
  · exact at_.2.1.handover
  · exact at_.2.1.handover
  · exact at_.2.1.handover
  · exact at_.2.1.handover
  · exact at_.2.1.handover

theorem State.Inv.synced (h : s.Inv) (c : Fin n) (outside : s.mode c ≠ .window) : (s.core c).Synced := by
  have at_ := h.cpus c
  cases is : s.mode c <;> rw [is] at at_ <;> first | exact at_.1 | exact absurd is outside

/-- In every reachable state the count of every thread is the number of its spinlocks and one for its
level, interrupts are off where it is positive, a cpu in user mode has it at 0, and no step takes it
below 0. -/
theorem counts_balanced {s : State n T W O L} (h : machine.Reachable s) :
    s.Balanced ∧ ∀ a, s.step a ≠ .fault := by
  have inv := reached_inv h
  refine ⟨?_, fun a => (step_inv inv a).not_fault⟩
  constructor
  · exact fun t live => (inv.good t live).counted
  · intro t live
    rw [(inv.good t live).counted]
    exact Core.charges_nonneg _
  · exact fun t k mine => ⟨inv.locks.owned t k mine, fun u theirs => inv.locks.apart u t k theirs mine⟩
  · intro t live
    constructor
    · rintro on c rfl
      have handed : (s.mode c).handed = true := (inv.at_handover c).symm.trans on
      exact ⟨handed, (inv.locks.handed c handed).1⟩
    · intro is
      by_cases current : ∃ c, s.sched.cCurthread c = t
      · obtain ⟨c, rfl⟩ := current
        exact (inv.at_handover c).trans (is c rfl).1
      · exact (inv.away t live fun c cur => current ⟨c, cur⟩).handover
  · exact fun c outside => (inv.synced c outside).irq_iff
  · intro c is
    have at_ := inv.cpus c
    rw [is] at at_
    exact ⟨at_.1, at_.2.2⟩
  · intro c is
    have at_ := inv.cpus c
    rw [is] at at_
    obtain ⟨_, handover, level, held, _⟩ := at_
    refine ⟨?_, level⟩
    have counted := (inv.cur_good c).counted
    exact counted.trans ((Core.charges_zero_iff handover).mpr ⟨held, level⟩)

/-- Two cpus after the boot. -/
def booted : State 2 Nat Unit Unit Unit where
  sched := Scheduler.booted
  thread _ := bootThread
  splkHolder _ := none
  irq _ := false
  mode _ := .kernel

/-- A thread is forked, switched to and returns to user mode, where it is interrupted. -/
theorem counts_balanced_forked : ∃ s : State 2 Nat Unit Unit Unit, machine.Reachable s ∧
    s.mode 0 = .user ∧ s.sched.cCurthread 0 = 2 ∧ (s.thread 0).tIplhighCount = 2 ∧ s.Balanced := by
  have passes : (machine.run booted [.runSection 0 (.fork () 2), .runSection 0 (.forked ()),
      .splSave 0 .none, .acquire 0 (.other ()), .release 0 (.other ()), .threadYield 0, .resume 0,
      .runSection 0 .exorcise, .threadStartup 0, .mipsUsermode 0, .interrupt 0,
      .interruptDone 0]).passes (fun s => decide (s.mode 0 = .user ∧ s.sched.cCurthread 0 = 2 ∧
        (s.thread 0).tIplhighCount = 2)) = true := by
    decide +kernel
  obtain ⟨s, run, done⟩ := Outcome.passes_done passes
  obtain ⟨user, cur, count⟩ := of_decide_eq_true done
  have reached : machine.Reachable s := .run _ (.initial ⟨Scheduler.booted_initial, fun _ => rfl,
    fun _ => rfl, fun _ => rfl, fun _ => rfl⟩) run
  exact ⟨s, reached, user, cur, count, (counts_balanced reached).1⟩

end Os161.Interrupts
