import Os161.Thread.Sleepers

/-!
# Sleepers and the locks of their channels

A thread has the lock of a wait channel just at the places of its functions that say so, and it is
then the current thread of its cpu. `clocksleep` has no such place.
-/

set_option linter.unusedSectionVars false

namespace Os161.Sleepers

open Interrupts (Spinlock Section Elsewhere Local Inside Slept)

variable {n : Nat} {T S K V X O : Type} [DecidableEq T] [DecidableEq S] [DecidableEq K]
  [DecidableEq V] [DecidableEq X] [DecidableEq O]
variable {allowed : Prop} {c : Fin n} {call : Call S K V} {calls : List (Call S K V)}

/-- The calls of a thread: only the one on top has a channel locked. `allowed` says whether threads may
sleep in `clocksleep`. -/
structure Stack (allowed : Prop) (calls : List (Call S K V)) : Prop where
  below : ∀ call ∈ calls.tail, call.chan = none
  timed : ∀ call ∈ calls, call.isTimed = true → allowed

namespace Stack

theorem next (h : Stack allowed calls) (timed : call.isTimed = true → allowed) :
    Stack allowed (call :: calls.tail) := by
  constructor
  · exact h.below
  · intro other member
    obtain rfl | member := List.mem_cons.mp member
    · exact timed
    · exact h.timed other (List.mem_of_mem_tail member)

theorem push (h : Stack allowed calls) (quiet : lockedChan calls = none)
    (timed : call.isTimed = true → allowed) : Stack allowed (call :: calls) := by
  constructor
  · intro other member
    cases calls with
    | nil => cases member
    | cons top rest =>
      obtain rfl | member := List.mem_cons.mp member
      · exact quiet
      · exact h.below other member
  · intro other member
    obtain rfl | member := List.mem_cons.mp member
    · exact timed
    · exact h.timed other member

theorem tail (h : Stack allowed calls) : Stack allowed calls.tail :=
  ⟨fun call member => h.below call (List.mem_of_mem_tail member),
    fun call member => h.timed call (List.mem_of_mem_tail member)⟩

theorem quiet_tail (h : Stack allowed calls) : lockedChan calls.tail = none := by
  cases below : calls.tail with
  | nil => rfl
  | cons call rest => exact h.below call (below ▸ List.mem_cons_self)

end Stack

variable {s t u : State n T S K V X O} {wc : Chan S K V} {added : T → Prop}

/-- A thread has a channel locked if its calls say so, and then it runs on the cpu that has the lock. -/
structure State.Inv (allowed : Prop) (s : State n T S K V X O) : Prop where
  cpus : s.cpus.Inv
  chan : ∀ x, s.cpus.sched.live x = true → ∀ wc,
    .wchan wc ∈ (s.cpus.thread x).held ↔ lockedChan (s.calls x) = some wc
  placed : ∀ x, s.cpus.sched.live x = true → ∀ wc, lockedChan (s.calls x) = some wc →
    ∃ c, s.cur c = x ∧ s.cpus.mode c = .kernel ∧ s.cpus.splkHolder (.wchan wc) = some c
  stack : ∀ x, s.cpus.sched.live x = true → Stack allowed (s.calls x)

namespace State.Inv

theorem live (h : s.Inv allowed) (c : Fin n) : s.cpus.sched.live (s.cur c) = true :=
  Interrupts.cur_live h.cpus.placed c

theorem own (h : s.Inv allowed) (at_ : lockedChan (s.calls (s.cur c)) = some wc) :
    s.cpus.mode c = .kernel ∧ s.cpus.splkHolder (.wchan wc) = some c := by
  obtain ⟨d, cur, mode, holder⟩ := h.placed _ (h.live c) wc at_
  obtain rfl := Interrupts.cur_injective h.cpus.placed cur
  exact ⟨mode, holder⟩

/-- What a step of the cpu `c` has to say of its thread and of those that are new. -/
theorem step (h : s.Inv allowed) (cpus : t.cpus.Inv) (elsewhere : Elsewhere c added s.cpus t.cpus)
    (calls : ∀ x, x ≠ s.cur c → ¬ added x → t.calls x = s.calls x)
    (new : ∀ x, added x → (t.cpus.thread x).held = ∅ ∧ t.calls x = [])
    (here : ∀ wc, .wchan wc ∈ (t.cpus.thread (s.cur c)).held ↔
      lockedChan (t.calls (s.cur c)) = some wc)
    (mine : ∀ wc, lockedChan (t.calls (s.cur c)) = some wc → t.cur c = s.cur c ∧
      t.cpus.mode c = .kernel ∧ t.cpus.splkHolder (.wchan wc) = some c)
    (stack : Stack allowed (t.calls (s.cur c))) : t.Inv allowed := by
  constructor
  · exact cpus
  · intro x live wc
    by_cases fresh : added x
    · obtain ⟨held, empty⟩ := new x fresh
      simp [held, empty, lockedChan]
    · by_cases own : x = s.cur c
      · exact own ▸ here wc
      · rw [elsewhere.thread x own fresh, calls x own fresh]
        exact h.chan x ((elsewhere.live x live).resolve_right fresh) wc
  · intro x live wc at_
    by_cases fresh : added x
    · rw [(new x fresh).2] at at_
      cases at_
    · by_cases own : x = s.cur c
      · subst own
        exact ⟨c, mine wc at_⟩
      · rw [calls x own fresh] at at_
        obtain ⟨d, cur, mode, holder⟩ :=
          h.placed x ((elsewhere.live x live).resolve_right fresh) wc at_
        have other : d ≠ c := by
          rintro rfl
          exact own cur.symm
        exact ⟨d, (elsewhere.cur d other).trans cur, (elsewhere.mode d other).trans mode,
          elsewhere.holders d _ other holder⟩
  · intro x live
    by_cases fresh : added x
    · rw [(new x fresh).2]
      exact ⟨nofun, nofun⟩
    · by_cases own : x = s.cur c
      · exact own ▸ stack
      · rw [calls x own fresh]
        exact h.stack x ((elsewhere.live x live).resolve_right fresh)

/-- A step that has no channel locked before or after it. -/
theorem quiet (h : s.Inv allowed) (cpus : t.cpus.Inv) (steps : Local c added s.cpus t.cpus)
    (calls : ∀ x, x ≠ s.cur c → ¬ added x → t.calls x = s.calls x)
    (new : ∀ x, added x → (t.cpus.thread x).held = ∅ ∧ t.calls x = [])
    (before : lockedChan (s.calls (s.cur c)) = none) (after : lockedChan (t.calls (s.cur c)) = none)
    (stack : Stack allowed (t.calls (s.cur c))) : t.Inv allowed := by
  apply h.step cpus steps.toElsewhere calls new _ _ stack
  · intro wc
    have unlocked := h.chan _ (h.live c) wc
    rw [before] at unlocked
    rw [after]
    exact (steps.wchans wc).trans unlocked
  · intro wc at_
    rw [after] at at_
    cases at_

end State.Inv

/-! ### Steps inside a function -/

/-- A step that keeps the counts and stays in its function. -/
def Calm (c : Fin n) (s t : Cpus n T S K V X O) : Prop := Inside c s t ∧ t.Inv

section Calm

variable {s t : Cpus n T S K V X O} {o : O}

theorem Calm.then {x : Outcome (Cpus n T S K V X O)}
    {f : Cpus n T S K V X O → Outcome (Cpus n T S K V X O)} (first : x.Ensures (Calm c s))
    (rest : ∀ t, t.Inv → (f t).Ensures (Calm c t)) : (x >>= f).Ensures (Calm c s) :=
  Outcome.Ensures.then first fun t ⟨inside, inv⟩ =>
    (rest t inv).mono fun _ ⟨later, kept⟩ => ⟨inside.trans later, kept⟩

theorem other_plain (lk : Splk S K X) (wc : Chan S K V) : (.other lk : Spinlock n _ _) ≠ .wchan wc :=
  nofun

theorem acquire_calm (h : s.Inv) (lk : Splk S K X) : (s.acquire c (.other lk)).Ensures (Calm c s) :=
  (Interrupts.acquire_inside s c (other_plain lk)).and fun _ goes =>
    (Interrupts.acquire_inv h _).of_done goes

theorem release_calm (h : s.Inv) (lk : Splk S K X) : (s.release c (.other lk)).Ensures (Calm c s) :=
  (Interrupts.release_inside s c (other_plain lk)).and fun _ goes =>
    (Interrupts.release_inv h _).of_done goes

theorem runSection_calm (h : s.Inv) (a : Section T (Chan S K V) O) (old : ∀ x, ¬ a.added x) :
    (s.runSection c a).Ensures (Calm c s) :=
  (Interrupts.runSection_inside s c a old).and fun _ goes =>
    (Interrupts.runSection_inv h a).of_done goes

theorem splRestore_calm (h : s.Inv) : (s.splRestore c).Ensures (Calm c s) :=
  (Interrupts.splRestore_inside s c).and fun _ goes => (Interrupts.splRestore_inv h).of_done goes

theorem rounds_calm (h : s.Inv) (a : Section T (Chan S K V) O) (old : ∀ x, ¬ a.added x) (count : Nat) :
    (rounds c a count s).Ensures (Calm c s) := by
  induction count generalizing s with
  | zero => exact Outcome.ensures_pure.mpr ⟨.refl c s, h⟩
  | succ count ih =>
    unfold rounds
    exact Calm.then (runSection_calm h a old) fun t inv => ih inv

theorem wchanWakeone_calm (h : s.Inv) (wc : Chan S K V) :
    (wchanWakeone s c o wc).Ensures (Calm c s) := by
  unfold wchanWakeone
  apply Calm.then (runSection_calm h _ fun _ => id)
  intro t inv
  split
  · exact Outcome.ensures_pure.mpr ⟨.refl c t, inv⟩
  · exact runSection_calm inv _ fun _ => id

theorem wchanWakeall_calm (h : s.Inv) (wc : Chan S K V) :
    (wchanWakeall s c o wc).Ensures (Calm c s) := by
  unfold wchanWakeall
  apply Calm.then (runSection_calm h _ fun _ => id)
  exact fun t inv => rounds_calm inv _ (fun _ => id) _

end Calm

/-- The same with what a function has of its own; the thread stays where it is in it. -/
structure Kept (c : Fin n) (s t : State n T S K V X O) : Prop where
  calm : Calm c s.cpus t.cpus
  calls : t.calls = s.calls

theorem Kept.trans (first : Kept c s t) (second : Kept c t u) : Kept c s u :=
  ⟨⟨first.calm.1.trans second.calm.1, second.calm.2⟩, second.calls.trans first.calls⟩

theorem Kept.cur (kept : Kept c s t) : t.cur c = s.cur c := kept.calm.1.own

variable {o : O}

theorem lockDoIHold_kept (h : s.cpus.Inv) (lock : K) :
    (s.lockDoIHold c lock).Ensures fun r => Kept c s r.2 := by
  unfold State.lockDoIHold
  refine (acquire_calm h _).then fun cpus ⟨taken, inv⟩ => ?_
  refine (release_calm inv _).then fun cpus' ⟨given, inv⟩ => ?_
  exact Outcome.ensures_pure.mpr ⟨⟨taken.trans given, inv⟩, rfl⟩

theorem v_kept (h : s.cpus.Inv) (sem : S) : (s.v c o sem).Ensures (Kept c s) := by
  unfold State.v
  refine (acquire_calm h _).then fun cpus ⟨taken, inv⟩ => ?_
  dsimp only
  rw [Outcome.ensures_bind, Outcome.ensures_kassert]
  intro _
  refine (wchanWakeone_calm inv _).then fun cpus ⟨woken, inv⟩ => ?_
  refine (release_calm inv _).then fun cpus ⟨given, inv⟩ => ?_
  exact Outcome.ensures_pure.mpr ⟨⟨(taken.trans woken).trans given, inv⟩, rfl⟩

theorem lockRelease_kept (h : s.cpus.Inv) (lock : K) : (s.lockRelease c o lock).Ensures (Kept c s) := by
  unfold State.lockRelease
  refine (lockDoIHold_kept h lock).then fun (held, t) looked => ?_
  dsimp only
  rw [Outcome.ensures_bind, Outcome.ensures_kassert]
  intro _
  refine (acquire_calm looked.calm.2 _).then fun cpus ⟨taken, inv⟩ => ?_
  refine (wchanWakeone_calm inv _).then fun cpus ⟨woken, inv⟩ => ?_
  refine (release_calm inv _).then fun cpus ⟨given, inv⟩ => ?_
  exact Outcome.ensures_pure.mpr (looked.trans ⟨⟨(taken.trans woken).trans given, inv⟩, rfl⟩)

theorem cvSignal_kept (h : s.cpus.Inv) (cv : V) (lock : K) :
    (s.cvSignal c o cv lock).Ensures (Kept c s) := by
  unfold State.cvSignal
  refine (lockDoIHold_kept h lock).then fun (held, t) looked => ?_
  dsimp only
  rw [Outcome.ensures_bind, Outcome.ensures_kassert]
  intro _
  refine (wchanWakeone_calm looked.calm.2 _).then fun cpus woken => ?_
  exact Outcome.ensures_pure.mpr (looked.trans ⟨woken, rfl⟩)

theorem cvBroadcast_kept (h : s.cpus.Inv) (cv : V) (lock : K) :
    (s.cvBroadcast c o cv lock).Ensures (Kept c s) := by
  unfold State.cvBroadcast
  refine (lockDoIHold_kept h lock).then fun (held, t) looked => ?_
  dsimp only
  rw [Outcome.ensures_bind, Outcome.ensures_kassert]
  intro _
  refine (wchanWakeall_calm looked.calm.2 _).then fun cpus woken => ?_
  exact Outcome.ensures_pure.mpr (looked.trans ⟨woken, rfl⟩)

/-! ### Steps between places -/

/-- The thread goes on with other calls, of which the first has the same channel locked. -/
theorem State.Inv.goes (h : s.Inv allowed) (kept : Kept c s t)
    (same : lockedChan calls = lockedChan (s.calls (s.cur c))) (stack : Stack allowed calls) :
    (t.setCalls (s.cur c) calls).Inv allowed := by
  have now : (t.setCalls (s.cur c) calls).calls (s.cur c) = calls := Function.update_self ..
  have inside : Inside c s.cpus t.cpus := kept.calm.1
  apply h.step (t := t.setCalls (s.cur c) calls) kept.calm.2 inside.toElsewhere
  · intro x other _
    exact (Function.update_of_ne other ..).trans (congrFun kept.calls x)
  · exact fun _ => False.elim
  · intro wc
    rw [now, same]
    exact (inside.wchans wc).trans (h.chan _ (h.live c) wc)
  · intro wc at_
    rw [now, same] at at_
    obtain ⟨mode, holder⟩ := h.own at_
    exact ⟨inside.own, inside.same.trans mode, inside.wchanHolders wc c holder⟩
  · rw [now]
    exact stack

theorem State.Inv.kept (h : s.Inv allowed) (kept : Kept c s t) : t.Inv allowed := by
  have goes := h.goes kept rfl (h.stack _ (h.live c))
  have same : t.setCalls (s.cur c) (s.calls (s.cur c)) = t := by
    unfold State.setCalls
    rw [kept.calls, Function.update_eq_self, ← kept.calls]
  rwa [same] at goes

/-- The thread returns from a function in which it has no channel locked. -/
theorem State.Inv.pops (h : s.Inv allowed) (kept : Kept c s t)
    (before : lockedChan (s.calls (s.cur c)) = none) : (t.pop (s.cur c)).Inv allowed := by
  have stack := h.stack _ (h.live c)
  unfold State.pop
  rw [kept.calls]
  exact h.goes kept (stack.quiet_tail.trans before.symm) stack.tail

theorem goTo_eq (kept : Kept c s t) (call : Call S K V) :
    t.goTo (s.cur c) call = t.setCalls (s.cur c) (call :: (s.calls (s.cur c)).tail) := by
  unfold State.goTo
  rw [kept.calls]

/-- The thread locks a channel, and goes on. -/
theorem State.Inv.locks (h : s.Inv allowed) (call : Call S K V)
    (before : lockedChan (s.calls (s.cur c)) = none)
    (after : call.chan = some wc) (timed : call.isTimed = false) :
    (s.cpus.acquire c (.wchan wc)).Ensures fun cpus =>
      State.Inv allowed ({ s with cpus := cpus }.goTo (s.cur c) call) := by
  intro cpus goes
  have inv : cpus.Inv := (Interrupts.acquire_inv h.cpus _).of_done goes
  have took := Interrupts.acquire_took _ c _ cpus goes
  have now : (State.goTo { s with cpus := cpus } (s.cur c) call).calls (s.cur c) =
      call :: (s.calls (s.cur c)).tail := Function.update_self ..
  apply h.step (t := State.goTo { s with cpus := cpus } (s.cur c) call) inv took.toElsewhere
  · exact fun x other _ => Function.update_of_ne other ..
  · exact fun _ => False.elim
  · intro k
    rw [now]
    show .wchan k ∈ (cpus.thread (s.cpus.sched.cCurthread c)).held ↔ call.chan = some k
    rw [took.held, Finset.mem_insert, after]
    have unlocked := h.chan _ (h.live c) k
    rw [before] at unlocked
    constructor
    · rintro (same | held)
      · cases same
        rfl
      · exact nomatch unlocked.mp held
    · rintro same
      cases same
      exact .inl rfl
  · intro k at_
    rw [now] at at_
    obtain rfl := Option.some.inj (after.symm.trans at_)
    exact ⟨took.own, took.same.trans took.kernel, took.holder⟩
  · rw [now]
    exact (h.stack _ (h.live c)).next (by rw [timed]; exact nofun)

/-- The thread goes to sleep on the channel that it has locked. -/
theorem sleepOn_inv (h : s.Inv allowed) (after : call.chan = none)
    (timed : call.isTimed = true → allowed) : (s.sleepOn c wc call).Ensures (State.Inv allowed) := by
  unfold State.sleepOn
  rw [Outcome.ensures_bind]
  intro cpus goes
  have inv : cpus.Inv := (Interrupts.wchanSleep_inv h.cpus _).of_done goes
  have slept := Interrupts.wchanSleep_slept h.cpus wc cpus goes
  have at_ := (h.chan _ (h.live c) wc).mp slept.mine
  have now : (State.goTo { s with cpus := cpus } (s.cur c) call).calls (s.cur c) =
      call :: (s.calls (s.cur c)).tail := Function.update_self ..
  refine Outcome.ensures_pure.mpr ?_
  apply h.step (t := State.goTo { s with cpus := cpus } (s.cur c) call) inv slept.toElsewhere
  · exact fun x other _ => Function.update_of_ne other ..
  · exact fun _ => False.elim
  · intro k
    rw [now]
    show .wchan k ∈ (cpus.thread (s.cpus.sched.cCurthread c)).held ↔ call.chan = some k
    rw [slept.others, after]
    constructor
    · rintro ⟨other, held⟩
      have same := at_.symm.trans ((h.chan _ (h.live c) k).mp held)
      exact absurd (Option.some.inj same).symm other
    · exact nofun
  · intro k at_
    rw [now] at at_
    exact nomatch after.symm.trans at_
  · rw [now]
    exact (h.stack _ (h.live c)).next timed

theorem wakeUp_inv (h : s.Inv allowed) (before : lockedChan (s.calls (s.cur c)) = none)
    (after : call.chan = none) (timed : call.isTimed = true → allowed) :
    (s.wakeUp c call).Ensures (State.Inv allowed) := by
  unfold State.wakeUp exorcise
  refine (rounds_calm h.cpus _ (fun _ => id) _).then fun cpus ⟨inside, inv⟩ => ?_
  refine (splRestore_calm inv).then fun cpus' ⟨later, inv⟩ => ?_
  have kept : Kept c s { s with cpus := cpus' } := ⟨⟨inside.trans later, inv⟩, rfl⟩
  rw [Outcome.ensures_pure, goTo_eq kept]
  exact h.goes kept (after.trans before.symm) ((h.stack _ (h.live c)).next timed)

/-- The place of the loops at which the channel is locked. -/
def Pc.isLocked : Pc → Bool
  | .chan | .sleep => true
  | _ => false

theorem waitLoop_inv (h : s.Inv allowed) {place : Pc → Call S K V} {rest : List (Call S K V)} {pc : Pc}
    (at_ : s.calls (s.cur c) = place pc :: rest)
    (chan : ∀ pc, (place pc).chan = if pc.isLocked then some wc else none)
    (timed : ∀ pc, (place pc).isTimed = false) {busy : Bool} {lk : Splk S K X}
    {take : Outcome (State n T S K V X O)} (taken : take.Ensures (Kept c s)) :
    (s.waitLoop c lk wc busy take place pc).Ensures (State.Inv allowed) := by
  have before : lockedChan (s.calls (s.cur c)) = if pc.isLocked then some wc else none := by
    rw [at_]
    exact chan pc
  have stack := h.stack _ (h.live c)
  have untimed : ∀ pc, (place pc).isTimed = true → allowed := fun pc => by rw [timed pc]; exact nofun
  have enters : pc.isLocked = false → (s.cpus.acquire c (.other lk)).Ensures fun cpus =>
      State.Inv allowed ({ s with cpus := cpus }.goTo (s.cur c) (place .test)) := by
    intro free cpus goes
    have kept : Kept c s { s with cpus := cpus } := ⟨acquire_calm h.cpus lk cpus goes, rfl⟩
    rw [goTo_eq kept]
    apply h.goes kept _ (stack.next (untimed _))
    rw [before, free]
    exact chan .test
  cases pc with
  | enter => exact (enters rfl).then fun _ inv => Outcome.ensures_pure.mpr inv
  | back => exact (enters rfl).then fun _ inv => Outcome.ensures_pure.mpr inv
  | test =>
    unfold State.waitLoop
    dsimp only
    split
    · have locks := h.locks _ before (chan .chan) (timed .chan)
      exact locks.then fun _ inv => Outcome.ensures_pure.mpr inv
    · refine taken.then fun t kept => ?_
      refine (release_calm kept.calm.2 lk).then fun cpus given => ?_
      have later : Kept c t { t with cpus := cpus } := ⟨given, rfl⟩
      rw [Outcome.ensures_pure, kept.cur]
      exact h.pops (kept.trans later) before
  | chan =>
    refine (release_calm h.cpus lk).then fun cpus given => ?_
    have kept : Kept c s { s with cpus := cpus } := ⟨given, rfl⟩
    rw [Outcome.ensures_pure, goTo_eq kept]
    apply h.goes kept _ (stack.next (untimed _))
    rw [before]
    exact chan .sleep
  | sleep => exact sleepOn_inv h (chan .asleep) (untimed _)
  | asleep => exact wakeUp_inv h before (chan .back) (untimed _)

theorem p_inv (h : s.Inv allowed) {sem : S} {rest : List (Call S K V)} {pc : Pc}
    (at_ : s.calls (s.cur c) = .p sem pc :: rest) : (s.p c sem pc).Ensures (State.Inv allowed) := by
  unfold State.p
  rw [Outcome.ensures_bind, Outcome.ensures_kassert]
  intro _
  apply waitLoop_inv h at_
  · exact fun pc => by cases pc <;> rfl
  · exact fun _ => rfl
  · rw [Outcome.ensures_bind, Outcome.ensures_kassert]
    exact fun _ => Outcome.ensures_pure.mpr ⟨⟨.refl c s.cpus, h.cpus⟩, rfl⟩

theorem lockAcquire_inv (h : s.Inv allowed) {lock : K} {rest : List (Call S K V)} {pc : Pc}
    (at_ : s.calls (s.cur c) = .lockAcquire lock pc :: rest) :
    (s.lockAcquire c lock pc).Ensures (State.Inv allowed) := by
  have loop : ∀ t, Kept c s t → (t.waitLoop c (.lock lock) (.lock lock) (t.lkHolder lock ≠ none)
      (return { t with lkHolder := Function.update t.lkHolder lock (some (t.cur c)) })
      (.lockAcquire lock) pc).Ensures (State.Inv allowed) := by
    intro t kept
    have same : t.calls (t.cur c) = .lockAcquire lock pc :: rest := by
      rw [kept.cur, kept.calls, at_]
    apply waitLoop_inv (h.kept kept) same
    · exact fun pc => by cases pc <;> rfl
    · exact fun _ => rfl
    · exact Outcome.ensures_pure.mpr ⟨⟨.refl c t.cpus, kept.calm.2⟩, rfl⟩
  unfold State.lockAcquire
  split
  · refine (lockDoIHold_kept h.cpus lock).then ?_
    rintro ⟨held, t⟩ kept
    dsimp only
    rw [Outcome.ensures_bind, Outcome.ensures_kassert]
    intro _
    rw [Outcome.ensures_bind, Outcome.ensures_kassert]
    intro _
    exact loop t kept
  · exact loop s ⟨⟨.refl c s.cpus, h.cpus⟩, rfl⟩

theorem cvWait_inv (h : s.Inv allowed) {cv : V} {lock : K} {rest : List (Call S K V)} {pc : CvPc}
    (at_ : s.calls (s.cur c) = .cvWait cv lock pc :: rest) :
    (s.cvWait c o cv lock pc).Ensures (State.Inv allowed) := by
  have before : lockedChan (s.calls (s.cur c)) = (Call.cvWait cv lock pc).chan := by
    rw [at_]
    rfl
  cases pc with
  | enter =>
    refine (lockDoIHold_kept h.cpus lock).then fun (held, t) kept => ?_
    dsimp only
    rw [Outcome.ensures_bind, Outcome.ensures_kassert]
    intro _
    have inv := h.kept kept
    have before : lockedChan (t.calls (t.cur c)) = none := by
      rw [kept.cur, kept.calls]
      exact before
    have locks := inv.locks (.cvWait cv lock .release) before rfl rfl
    exact locks.then fun _ inv => Outcome.ensures_pure.mpr inv
  | release =>
    refine (lockRelease_kept h.cpus lock).then fun t kept => ?_
    rw [Outcome.ensures_pure, kept.cur, goTo_eq kept]
    exact h.goes kept before.symm ((h.stack _ (h.live c)).next nofun)
  | sleep => exact sleepOn_inv h rfl nofun
  | asleep => exact wakeUp_inv h before rfl nofun

theorem clocksleep_inv (h : s.Inv allowed) {numSecs : Int} {asleep : Bool} {rest : List (Call S K V)}
    (at_ : s.calls (s.cur c) = .clocksleep numSecs asleep :: rest) :
    (s.clocksleep c numSecs asleep).Ensures (State.Inv allowed) := by
  have before : lockedChan (s.calls (s.cur c)) = none := by
    rw [at_]
    rfl
  have stack := h.stack _ (h.live c)
  have timed : 0 < numSecs → allowed := fun some =>
    stack.timed (.clocksleep numSecs asleep) (at_ ▸ List.mem_cons_self) (decide_eq_true some)
  cases asleep with
  | false =>
    unfold State.clocksleep
    dsimp only
    split
    · exact sleepOn_inv h rfl fun _ => timed ‹_›
    · exact Outcome.ensures_pure.mpr (h.pops ⟨⟨.refl c s.cpus, h.cpus⟩, rfl⟩ before)
  | true =>
    refine wakeUp_inv h before rfl fun is => timed ?_
    have left := of_decide_eq_true is
    omega

theorem advance_inv (h : s.Inv allowed) : (s.advance c o).Ensures (State.Inv allowed) := by
  unfold State.advance
  split
  · exact p_inv h ‹_›
  · exact lockAcquire_inv h ‹_›
  · exact cvWait_inv h ‹_›
  · exact clocksleep_inv h ‹_›
  · exact Outcome.ensures_blocked

/-! ### Other code -/

theorem outside_quiet (outside : s.outside c = true) : lockedChan (s.calls (s.cur c)) = none := by
  unfold State.outside at outside
  split at outside
  · rename_i at_
    rw [at_]
    rfl
  · rename_i at_
    rw [at_]
    rfl
  · cases outside

theorem enter_inv (h : s.Inv allowed) (after : call.chan = none) (timed : call.isTimed = true → allowed) :
    (s.enter c call).Ensures (State.Inv allowed) := by
  unfold State.enter State.await
  rw [Outcome.ensures_bind, Outcome.ensures_await]
  intro ⟨_, outside⟩
  have before := outside_quiet outside
  have kept : Kept c s s := ⟨⟨.refl c s.cpus, h.cpus⟩, rfl⟩
  exact Outcome.ensures_pure.mpr
    (h.goes kept (after.trans before.symm) ((h.stack _ (h.live c)).push before timed))

/-- A cpu takes no interrupt while its thread has a channel locked. -/
theorem State.Inv.quiet_of_irq (h : s.Inv allowed) (irq : s.cpus.irq c = true) :
    lockedChan (s.calls (s.cur c)) = none := by
  cases at_ : lockedChan (s.calls (s.cur c)) with
  | none => rfl
  | some wc =>
    obtain ⟨kernel, _⟩ := h.own at_
    have mine := (h.chan _ (h.live c) wc).mpr at_
    have count := (h.cpus.kernel kernel).1.irq_iff.mp irq
    have counted := (h.cpus.cur_good c).counted
    have card : 0 < (s.cpus.core c).thread.held.card := Finset.card_pos.mpr ⟨_, mine⟩
    rw [count] at counted
    unfold Interrupts.Thread.charges Interrupts.Ipl.charge at counted
    split at counted <;> split at counted <;> omega

theorem interrupt_inv (h : s.Inv allowed) : (s.interrupt c).Ensures (State.Inv allowed) := by
  unfold State.interrupt
  rw [Outcome.ensures_bind]
  intro cpus goes
  have inv : cpus.Inv := (Interrupts.interrupt_inv h.cpus).of_done goes
  have steps := Interrupts.interrupt_local s.cpus c cpus goes
  have before : lockedChan (s.calls (s.cur c)) = none := by
    unfold Interrupts.State.interrupt at goes
    obtain ⟨_, on, _⟩ := Outcome.bind_done.mp goes
    exact h.quiet_of_irq (Outcome.await_done.mp on).1
  have now : (State.push { s with cpus := cpus } (s.cur c) .handler).calls (s.cur c) =
      .handler :: s.calls (s.cur c) := Function.update_self ..
  refine Outcome.ensures_pure.mpr ?_
  apply h.quiet (t := State.push { s with cpus := cpus } (s.cur c) .handler) inv steps
  · exact fun x other _ => Function.update_of_ne other ..
  · exact fun _ => False.elim
  · exact before
  · rw [now]
    rfl
  · rw [now]
    exact (h.stack _ (h.live c)).push before nofun

theorem interruptDone_inv (h : s.Inv allowed) : (s.interruptDone c).Ensures (State.Inv allowed) := by
  unfold State.interruptDone
  split
  · rename_i calls at_
    rw [Outcome.ensures_bind]
    intro cpus goes
    have inv : cpus.Inv := (Interrupts.interruptDone_inv h.cpus).of_done goes
    have steps := Interrupts.interruptDone_local s.cpus c cpus goes
    have stack := h.stack _ (h.live c)
    have now : (State.setCalls { s with cpus := cpus } (s.cur c) calls).calls (s.cur c) =
        (s.calls (s.cur c)).tail := by
      rw [at_]
      exact Function.update_self ..
    refine Outcome.ensures_pure.mpr ?_
    apply h.quiet (t := State.setCalls { s with cpus := cpus } (s.cur c) calls) inv steps
    · exact fun x other _ => Function.update_of_ne other ..
    · exact fun _ => False.elim
    · rw [at_]
      rfl
    · rw [now]
      exact stack.quiet_tail
    · rw [now]
      exact stack.tail
  · exact Outcome.ensures_blocked

section Code

variable {s : Cpus n T S K V X O} {a : Interrupts.Action n T (Chan S K V) O (Splk S K X)}

/-- Behind the place where the thread is put, the cpu is not at a statement of a thread. -/
theorem onward_mode (is : onward a = true) : (s.step a).Ensures fun _ => s.mode (cpu a) ≠ .kernel := by
  have other : ∀ c (mode : Interrupts.Mode), s.mode c = mode → mode ≠ .kernel → s.mode c ≠ .kernel :=
    fun _ _ at_ ne => at_ ▸ ne
  cases a with
  | idleUnlock c =>
    exact Outcome.ensures_bind.mpr (Outcome.ensures_await.mpr fun at_ _ _ => other c _ at_ nofun)
  | idleOpen c =>
    exact Outcome.ensures_bind.mpr (Outcome.ensures_await.mpr fun at_ _ _ => other c _ at_ nofun)
  | idleClose c =>
    exact Outcome.ensures_bind.mpr (Outcome.ensures_await.mpr fun at_ _ _ => other c _ at_ nofun)
  | idleLook c =>
    exact Outcome.ensures_bind.mpr (Outcome.ensures_await.mpr fun at_ _ _ => other c _ at_ nofun)
  | resume c =>
    exact Outcome.ensures_bind.mpr (Outcome.ensures_await.mpr fun at_ _ _ => other c _ at_ nofun)
  | _ => cases is

/-- A step of other code that makes no thread. -/
theorem plain_local (is : plain a = true) (old : ∀ c o x, a ≠ .runSection c (.fork o x)) :
    (s.step a).Ensures (Local (cpu a) (fun _ => False) s) := by
  cases a with
  | splSave c spl => exact (Interrupts.splSave_inside s c spl).mono fun _ => Inside.toLocal
  | splRestore c => exact (Interrupts.splRestore_inside s c).mono fun _ => Inside.toLocal
  | acquire c k =>
    have mine : ∀ wc, k ≠ .wchan wc := by
      rintro wc rfl
      cases is
    exact (Interrupts.acquire_inside s c mine).mono fun _ => Inside.toLocal
  | release c k =>
    have mine : ∀ wc, k ≠ .wchan wc := by
      rintro wc rfl
      cases is
    exact (Interrupts.release_inside s c mine).mono fun _ => Inside.toLocal
  | interrupt c => cases is
  | interruptDone c => cases is
  | trap c isSyscall => exact Interrupts.trap_local s c isSyscall
  | trapDone c => exact Interrupts.trapDone_local s c
  | mipsUsermode c => exact Interrupts.mipsUsermode_local s c
  | threadYield c => exact Interrupts.threadYield_local s c
  | wchanSleep c wc => cases is
  | threadExit c => exact Interrupts.threadExit_local s c
  | idleUnlock c => exact Interrupts.idleUnlock_local s c
  | idleOpen c => exact Interrupts.idleOpen_local s c
  | idleClose c => exact Interrupts.idleClose_local s c
  | idleLook c => exact Interrupts.idleLook_local s c
  | resume c => exact Interrupts.resume_local s c
  | threadStartup c => exact (Interrupts.threadStartup_inside s c).mono fun _ => Inside.toLocal
  | runSection c a =>
    have nobody : ∀ x, ¬ a.added x := by
      intro x
      cases a with
      | fork o newthread => exact (old c o newthread rfl).elim
      | _ => exact id
    exact (Interrupts.runSection_inside s c a nobody).mono fun _ => Inside.toLocal

end Code

theorem code_inv (h : s.Inv allowed) (a : Interrupts.Action n T (Chan S K V) O (Splk S K X)) :
    (s.code a).Ensures (State.Inv allowed) := by
  unfold State.code
  rw [Outcome.ensures_bind, Outcome.ensures_await]
  intro ⟨is, place⟩
  rw [Outcome.ensures_bind]
  intro cpus goes
  refine Outcome.ensures_pure.mpr ?_
  have inv : cpus.Inv := (Interrupts.step_inv h.cpus a).of_done goes
  have before : lockedChan (s.calls (s.cur (cpu a))) = none := by
    obtain on | outside := place
    · cases at_ : lockedChan (s.calls (s.cur (cpu a))) with
      | none => rfl
      | some wc => exact absurd (h.own at_).1 (onward_mode on cpus goes)
    · exact outside_quiet outside
  have stack := h.stack _ (h.live (cpu a))
  by_cases fork : ∃ c o newthread, a = .runSection c (.fork o newthread)
  · obtain ⟨c, o, newthread, rfl⟩ := fork
    obtain ⟨steps, made⟩ := Interrupts.fork_local s.cpus h.cpus.placed c o newthread cpus goes
    have now : ∀ x, newCalls s.calls (.runSection c (.fork o newthread) :
        Interrupts.Action n T (Chan S K V) O (Splk S K X)) x =
          if x = newthread then [] else s.calls x := fun x => Function.update_apply ..
    apply h.quiet inv steps
    · intro x _ old
      exact (now x).trans (if_neg old)
    · rintro x rfl
      exact ⟨congrArg Interrupts.Thread.held made, (now x).trans (if_pos rfl)⟩
    · exact before
    · dsimp only
      rw [now]
      split
      · rfl
      · exact before
    · dsimp only
      rw [now]
      split
      · exact ⟨nofun, nofun⟩
      · exact stack
  · have same : newCalls s.calls a = s.calls := by
      cases a with
      | runSection c section_ =>
        cases section_ with
        | fork o newthread => exact (fork ⟨c, o, newthread, rfl⟩).elim
        | _ => rfl
      | _ => rfl
    rw [same]
    have steps := plain_local is (fun c o x at_ => fork ⟨c, o, x, at_⟩) cpus goes
    apply h.quiet (t := { s with cpus := cpus }) inv steps
    · exact fun _ _ _ => rfl
    · exact fun _ => False.elim
    · exact before
    · exact before
    · exact stack

/-! ### Runs -/

/-- The call is not one of `clocksleep` with seconds to sleep. -/
def Action.IsUntimed : Action n T S K V X O → Prop
  | .clocksleep _ numSecs => numSecs ≤ 0
  | _ => True

theorem step_inv (h : s.Inv allowed) (a : Action n T S K V X O) (ok : ¬ a.IsUntimed → allowed) :
    (s.step a).Ensures (State.Inv allowed) := by
  have awaits : ∀ {c} {x : Outcome (State n T S K V X O)}, x.Ensures (Kept c s) →
      (do
        s.await c
        x).Ensures (State.Inv allowed) := by
    intro c x steps
    rw [Outcome.ensures_bind]
    exact fun _ _ => steps.mono fun _ => h.kept
  cases a with
  | code a => exact code_inv h a
  | interrupt c => exact interrupt_inv h
  | interruptDone c => exact interruptDone_inv h
  | v c o sem => exact awaits (v_kept h.cpus sem)
  | lockRelease c o lock => exact awaits (lockRelease_kept h.cpus lock)
  | cvSignal c o cv lock => exact awaits (cvSignal_kept h.cpus cv lock)
  | cvBroadcast c o cv lock => exact awaits (cvBroadcast_kept h.cpus cv lock)
  | p c sem => exact enter_inv h rfl nofun
  | lockAcquire c lock => exact enter_inv h rfl nofun
  | cvWait c cv lock => exact enter_inv h rfl nofun
  | clocksleep c numSecs =>
    refine enter_inv h rfl fun timed => ok fun untimed => ?_
    have left := of_decide_eq_true timed
    exact absurd left (not_lt.mpr untimed)
  | advance c o => exact advance_inv h

theorem initial_inv (start : machine.initial s) : s.Inv allowed := by
  obtain ⟨cpus, _, calls⟩ := start
  obtain ⟨_, threads, _⟩ := id cpus
  constructor
  · exact Interrupts.initial_inv cpus
  · intro x _ wc
    rw [threads x, calls x]
    exact ⟨fun mine => absurd mine (Finset.notMem_empty _), nofun⟩
  · intro x _ wc at_
    rw [calls x] at at_
    cases at_
  · intro x _
    rw [calls x]
    exact ⟨nofun, nofun⟩

theorem reached_inv (h : machine.Reachable s) : s.Inv True :=
  machine.invariant_ensures (fun _ => initial_inv) (fun _ a inv _ => step_inv inv a fun _ => trivial) h

theorem untimed_inv (h : machine.ReachableBy (fun _ a => a.IsUntimed) s) : s.Inv False :=
  machine.invariant_ensures (fun _ => initial_inv)
    (fun _ a inv untimed => step_inv inv a fun timed => timed untimed) h

/-! ### Sleeping -/

theorem sleepsOn_locked (at_ : s.SleepsOn c wc) (slow : wc ≠ .lbolt) :
    lockedChan (s.calls (s.cur c)) = some wc := by
  obtain ⟨_, top⟩ := at_
  cases calls : s.calls (s.cur c) with
  | nil =>
    rw [calls] at top
    cases top
  | cons call rest =>
    rw [calls] at top
    replace top : call.sleepsOn = some wc := top
    show call.chan = some wc
    unfold Call.sleepsOn at top
    split at top
    · exact top
    · exact top
    · exact top
    · split at top
      · exact absurd (Option.some.inj top).symm slow
      · cases top
    · cases top

theorem sleepsOn_lbolt (at_ : s.SleepsOn c .lbolt) : ∃ numSecs, 0 < numSecs ∧
    .clocksleep numSecs false ∈ s.calls (s.cur c) ∧ lockedChan (s.calls (s.cur c)) = none := by
  obtain ⟨_, top⟩ := at_
  cases calls : s.calls (s.cur c) with
  | nil =>
    rw [calls] at top
    cases top
  | cons call rest =>
    rw [calls] at top
    replace top : call.sleepsOn = some .lbolt := top
    unfold Call.sleepsOn at top
    split at top
    · cases top
    · cases top
    · cases top
    · rename_i numSecs
      split at top
      · exact ⟨numSecs, ‹_›, List.mem_cons_self, rfl⟩
      · cases top
    · cases top

/-- Each caller comes to `wchan_sleep` without another statement before it. -/
theorem advance_sleeps (at_ : s.SleepsOn c wc) (o : O) :
    ∃ call, s.advance c o = s.sleepOn c wc call := by
  obtain ⟨_, top⟩ := at_
  unfold State.advance
  cases calls : s.calls (s.cur c) with
  | nil =>
    rw [calls] at top
    cases top
  | cons call rest =>
    rw [calls] at top
    replace top : call.sleepsOn = some wc := top
    unfold Call.sleepsOn at top
    split at top
    · cases top
      exact ⟨_, rfl⟩
    · cases top
      exact ⟨_, rfl⟩
    · cases top
      exact ⟨_, rfl⟩
    · split at top
      · cases top
        exact ⟨_, if_pos ‹_›⟩
      · cases top
    · cases top

theorem advance_wakes (at_ : s.IsAsleep c) (o : O) :
    lockedChan (s.calls (s.cur c)) = none ∧ ∃ call, s.advance c o = s.wakeUp c call := by
  obtain ⟨_, top⟩ := at_
  unfold State.advance
  cases calls : s.calls (s.cur c) with
  | nil =>
    rw [calls] at top
    cases top
  | cons call rest =>
    rw [calls] at top
    replace top : call.isAsleep = true := top
    unfold Call.isAsleep at top
    split at top
    · exact ⟨rfl, _, rfl⟩
    · exact ⟨rfl, _, rfl⟩
    · exact ⟨rfl, _, rfl⟩
    · exact ⟨rfl, _, rfl⟩
    · cases top

theorem State.Inv.switched (h : s.Inv allowed) (call : Call S K V) :
    (s.sleepOn c wc call).Ensures fun t =>
      t.cpus.sched.wcThreads wc = s.cpus.sched.wcThreads wc ++ [s.cur c] ∧
        t.cpus.splkHolder (.wchan wc) = none ∧
          ∀ k, .wchan k ∉ (t.cpus.thread (s.cur c)).held := by
  unfold State.sleepOn
  rw [Outcome.ensures_bind]
  intro cpus goes
  have slept := Interrupts.wchanSleep_slept h.cpus wc cpus goes
  refine Outcome.ensures_pure.mpr ⟨slept.queued, slept.free, fun k held => ?_⟩
  obtain ⟨other, mine⟩ := (slept.others k).mp held
  have one := (h.chan _ (h.live c) wc).mp slept.mine
  have same := (h.chan _ (h.live c) k).mp mine
  exact other (Option.some.inj (same.symm.trans one))

theorem State.Inv.returned (h : s.Inv allowed) (before : lockedChan (s.calls (s.cur c)) = none)
    (call : Call S K V) : (s.wakeUp c call).Ensures fun t =>
      ∀ wc, .wchan wc ∉ (t.cpus.thread (s.cur c)).held := by
  unfold State.wakeUp exorcise
  refine (rounds_calm h.cpus _ (fun _ => id) _).then fun cpus ⟨inside, inv⟩ => ?_
  refine (splRestore_calm inv).then fun cpus' ⟨later, _⟩ => ?_
  refine Outcome.ensures_pure.mpr fun wc held => ?_
  have mine := ((inside.trans later).wchans wc).mp held
  exact nomatch before.symm.trans ((h.chan _ (h.live c) wc).mp mine)

theorem State.Inv.follows (h : s.Inv allowed) (awake : ∀ c, ¬ s.SleepsOn c .lbolt) : s.Follows := by
  constructor
  · intro c wc at_
    have slow : wc ≠ .lbolt := by
      rintro rfl
      exact awake c at_
    have locked := sleepsOn_locked at_ slow
    exact ⟨(h.own locked).2, (h.chan _ (h.live c) wc).mpr locked⟩
  · intro c wc o at_
    obtain ⟨call, is⟩ := advance_sleeps at_ o
    rw [is]
    exact h.switched call
  · intro c o at_
    obtain ⟨before, call, is⟩ := advance_wakes at_ o
    rw [is]
    exact h.returned before call

/-- In the runs without a `clocksleep` that has seconds to sleep, every caller of `wchan_sleep` has its
channel locked there, the switch releases that lock, and no channel is locked when the caller goes on. A
reachable state is like this just if no thread is about to sleep in `clocksleep`. -/
theorem sleepers_follow_iff :
    (∀ s : State n T S K V X O, machine.ReachableBy (fun _ a => a.IsUntimed) s → s.Follows) ∧
      ∀ s : State n T S K V X O, machine.Reachable s → (s.Follows ↔ ∀ c, ¬ s.SleepsOn c .lbolt) := by
  constructor
  · intro s reached
    have h := untimed_inv reached
    apply h.follows
    intro c at_
    obtain ⟨numSecs, left, member, _⟩ := sleepsOn_lbolt at_
    exact (h.stack _ (h.live c)).timed _ member (decide_eq_true left)
  · intro s reached
    have h := reached_inv reached
    refine ⟨fun follows c at_ => ?_, h.follows⟩
    obtain ⟨_, _, _, unlocked⟩ := sleepsOn_lbolt at_
    have mine := (h.chan _ (h.live c) _).mp (follows.locked c _ at_).2
    exact nomatch unlocked.symm.trans mine

/-- Two cpus after the boot, with one semaphore, one lock and one condition variable. -/
def booted : State 2 Nat Unit Unit Unit Unit Unit where
  cpus := { Interrupts.booted with
    sched := { Scheduler.booted with wcThreads := fun _ => [] }
    thread := fun _ => Interrupts.bootThread
    splkHolder := fun _ => none }
  semCount _ := 0
  lkHolder _ := none
  calls _ := []

theorem booted_initial : machine.initial booted := by
  obtain ⟨apart, cpus, threads, lists, none, live⟩ := Scheduler.booted_initial
  exact ⟨⟨⟨apart, cpus, threads, fun _ => rfl, none, live⟩, fun _ => rfl, fun _ => rfl, fun _ => rfl,
    fun _ => rfl⟩, fun _ => rfl, fun _ => rfl⟩

/-- A thread comes to `wchan_sleep` in `P`, and goes on behind it after a `V` of the other cpu. -/
theorem sleepers_follow_sem : ∃ s t : State 2 Nat Unit Unit Unit Unit Unit,
    s.SleepsOn 0 (.sem ()) ∧ s.Follows ∧ t.IsAsleep 0 ∧ t.Follows := by
  have sleeps : (machine.run booted [.p 0 (), .advance 0 (), .advance 0 (), .advance 0 ()]).passes
      (fun s => decide (s.SleepsOn 0 (.sem ()))) = true := by
    decide +kernel
  have wakes : (machine.run booted [.p 0 (), .advance 0 (), .advance 0 (), .advance 0 (), .advance 0 (),
      .code (.idleUnlock 0), .v 1 () (), .code (.idleOpen 0), .code (.idleClose 0),
      .code (.idleLook 0), .code (.resume 0)]).passes (fun s => decide (s.IsAsleep 0)) = true := by
    decide +kernel
  obtain ⟨s, before, at_⟩ := Outcome.passes_done sleeps
  obtain ⟨t, after, behind⟩ := Outcome.passes_done wakes
  have first : machine.ReachableBy (fun _ a => a.IsUntimed) s :=
    .runAll _ (.initial booted_initial) (by simp [Action.IsUntimed]) before
  have second : machine.ReachableBy (fun _ a => a.IsUntimed) t :=
    .runAll _ (.initial booted_initial) (by simp [Action.IsUntimed]) after
  exact ⟨s, t, of_decide_eq_true at_, sleepers_follow_iff.1 s first, of_decide_eq_true behind,
    sleepers_follow_iff.1 t second⟩

/-- A thread in `clocksleep` comes to `wchan_sleep` with nobody holding the lock of the channel, and the
assertion in `spinlock_release` fails. -/
theorem clocksleep_unlocked : ∃ s : State 2 Nat Unit Unit Unit Unit Unit, machine.Reachable s ∧
    s.SleepsOn 0 .lbolt ∧ s.cpus.splkHolder (.wchan .lbolt) = none ∧ s.advance 0 () = .panic ∧
    ¬ s.Follows := by
  have passes : (machine.run booted [.clocksleep 0 1]).passes (fun s => decide (s.SleepsOn 0 .lbolt ∧
      s.cpus.splkHolder (.wchan .lbolt) = none ∧ (s.advance 0 ()).panics = true)) = true := by
    decide +kernel
  obtain ⟨s, run, done⟩ := Outcome.passes_done passes
  obtain ⟨at_, free, panics⟩ := of_decide_eq_true done
  refine ⟨s, .run _ (.initial booted_initial) run, at_, free, Outcome.eq_panic panics, fun follows => ?_⟩
  have locked := (follows.locked 0 .lbolt at_).1
  rw [free] at locked
  cases locked

end Os161.Sleepers
