import Os161.Base.Sync
import Mathlib.Logic.Function.Basic

/-!
# The recursive big lock

`vfs_biglock_acquire` and `vfs_biglock_release` of `vfslist.c` over a correct sleep lock. The depth
is a global that no lock of its own protects, so every look at it and every change is one step.
-/

namespace Os161.Biglock

universe u

/-- Where a thread is. -/
inductive Place where
  | outside
  /-- Has seen that it does not hold the lock. -/
  | acquiring
  /-- About to count its acquire. -/
  | entering
  /-- Has the depth to which it is about to add one. -/
  | raising (depth : BitVec 32)
  /-- Has seen that it holds the lock. -/
  | leaving
  | lowering
  /-- Has the depth from which it is about to take one. -/
  | lowered (depth : BitVec 32)
  /-- About to see whether the depth is 0. -/
  | testing
  | releasing
  deriving DecidableEq

structure State (Thread : Type u) where
  vfsBiglock : AtomicLock Thread
  vfsBiglockDepth : BitVec 32
  place : Thread → Place
  /-- The acquires of a thread that it has counted and not taken back. -/
  pending : Thread → Nat

inductive Action (Thread : Type u) where
  | acquire (cur : Thread)
  | release (cur : Thread)
  /-- The next step of the call that the thread is in. -/
  | go (cur : Thread)

variable {Thread : Type u} [DecidableEq Thread]

namespace State

def goTo (s : State Thread) (cur : Thread) (place : Place) : State Thread :=
  { s with place := Function.update s.place cur place }

/-- The `lock_do_i_hold` of `vfs_biglock_acquire`. -/
def vfsBiglockAcquire (s : State Thread) (cur : Thread) : Outcome (State Thread) := do
  Outcome.await (s.place cur = .outside)
  return s.goTo cur (if s.vfsBiglock = some cur then .entering else .acquiring)

/-- The first assertion of `vfs_biglock_release`. A thread only gives back what it has acquired. -/
def vfsBiglockRelease (s : State Thread) (cur : Thread) : Outcome (State Thread) := do
  Outcome.await (s.place cur = .outside ∧ 0 < s.pending cur)
  Outcome.kassert (s.vfsBiglock = some cur)
  return s.goTo cur .leaving

def go (s : State Thread) (cur : Thread) : Outcome (State Thread) :=
  match s.place cur with
  | .outside => .blocked
  | .acquiring => do
    let vfsBiglock ← AtomicLock.acquire s.vfsBiglock cur
    return { s with vfsBiglock := vfsBiglock }.goTo cur .entering
  | .entering => return s.goTo cur (.raising s.vfsBiglockDepth)
  | .raising depth =>
    return { s with
      vfsBiglockDepth := depth + 1
      pending := Function.update s.pending cur (s.pending cur + 1) }.goTo cur .outside
  | .leaving => do
    Outcome.kassert (s.vfsBiglockDepth > 0)
    return s.goTo cur .lowering
  | .lowering => return s.goTo cur (.lowered s.vfsBiglockDepth)
  | .lowered depth =>
    return { s with
      vfsBiglockDepth := depth - 1
      pending := Function.update s.pending cur (s.pending cur - 1) }.goTo cur .testing
  | .testing => return s.goTo cur (if s.vfsBiglockDepth = 0 then .releasing else .outside)
  | .releasing => do
    let vfsBiglock ← AtomicLock.release s.vfsBiglock cur
    return { s with vfsBiglock := vfsBiglock }.goTo cur .outside

def step (s : State Thread) : Action Thread → Outcome (State Thread)
  | .acquire cur => s.vfsBiglockAcquire cur
  | .release cur => s.vfsBiglockRelease cur
  | .go cur => s.go cur

/-- After `vfs_bootstrap`. -/
def bootstrap : State Thread := ⟨none, 0, fun _ => .outside, fun _ => 0⟩

end State

def machine : Machine (State Thread) (Action Thread) where
  initial s := s = .bootstrap
  step := State.step

/-- The thread is in the part of a call where it has the lock. -/
def Place.owns : Place → Bool
  | .outside | .acquiring => false
  | _ => true

/-- The thread is in a release that has not taken its acquire back. -/
def Place.owes : Place → Bool
  | .leaving | .lowering | .lowered _ => true
  | _ => false

/-- The depth that the thread has read. -/
def Place.read : Place → Option (BitVec 32)
  | .raising depth | .lowered depth => some depth
  | _ => none

namespace State

variable (s : State Thread)

/-- What a thread is at agrees with the lock and the depth. -/
structure At (t : Thread) : Prop where
  owner : (s.place t).owns = true → s.vfsBiglock = some t
  acquiring : s.place t = .acquiring → s.vfsBiglock ≠ some t
  others : s.vfsBiglock ≠ some t → s.pending t = 0
  depth : s.vfsBiglock = some t → s.vfsBiglockDepth.toNat = s.pending t
  inside : s.vfsBiglock = some t → s.place t = .outside ∨ (s.place t).owes = true → 0 < s.pending t
  read : ∀ depth, (s.place t).read = some depth → depth = s.vfsBiglockDepth
  releasing : s.place t = .releasing → s.pending t = 0

structure Inv : Prop where
  each : ∀ t, s.At t
  free : s.vfsBiglock = none → s.vfsBiglockDepth = 0

/-- In a call or between its calls, the thread has the lock for itself. -/
def Inside (t : Thread) : Prop := 0 < s.pending t ∨ (s.place t).owns = true

/-- What is asked of every state. -/
structure Right : Prop where
  depth : ∀ t, s.vfsBiglock = some t → s.vfsBiglockDepth.toNat = s.pending t
  held : (∀ t, s.vfsBiglock = some t → s.place t = .outside) →
    (s.vfsBiglock ≠ none ↔ 0 < s.vfsBiglockDepth)
  one : ∀ t u, s.Inside t → s.Inside u → t = u
  outer : ∀ a next, s.step a = .done next → s.vfsBiglock ≠ none → next.vfsBiglock = none →
    ∀ t, next.pending t = 0
  sound : ∀ a, s.step a ≠ .panic ∧ s.step a ≠ .fault

end State

/-- No count goes past the last number that the depth can be. -/
def Small (s : State Thread) (a : Action Thread) : Prop :=
  ∀ t depth, a = .go t → s.place t = .raising depth → s.pending t + 1 < 2 ^ 32

theorem Place.owns_of_read {place : Place} {depth : BitVec 32} (h : place.read = some depth) :
    place.owns = true := by
  cases place <;> first | rfl | cases h

/-! ### The steps -/

section Steps

variable {s t : State Thread} {cur x : Thread} {place : Place}

@[simp] theorem goTo_place (s : State Thread) (cur : Thread) (place : Place) :
    (s.goTo cur place).place cur = place :=
  Function.update_self ..

theorem goTo_other (s : State Thread) (place : Place) (other : x ≠ cur) :
    (s.goTo cur place).place x = s.place x :=
  Function.update_of_ne other ..

/-- What a thread has to be at for its next place. -/
theorem State.at_goTo (owner : place.owns = true → s.vfsBiglock = some cur)
    (acquiring : place = .acquiring → s.vfsBiglock ≠ some cur)
    (others : s.vfsBiglock ≠ some cur → s.pending cur = 0)
    (depth : s.vfsBiglock = some cur → s.vfsBiglockDepth.toNat = s.pending cur)
    (inside : s.vfsBiglock = some cur → place = .outside ∨ place.owes = true → 0 < s.pending cur)
    (read : ∀ depth, place.read = some depth → depth = s.vfsBiglockDepth)
    (releasing : place = .releasing → s.pending cur = 0) : (s.goTo cur place).At cur := by
  constructor
  · rwa [goTo_place]
  · rwa [goTo_place]
  · exact others
  · exact depth
  · rwa [goTo_place]
  · rwa [goTo_place]
  · rwa [goTo_place]

/-- A thread goes on with the lock and the depth as they are. -/
theorem State.Inv.goTo (h : s.Inv) (owner : place.owns = true → s.vfsBiglock = some cur)
    (acquiring : place = .acquiring → s.vfsBiglock ≠ some cur)
    (inside : s.vfsBiglock = some cur → place = .outside ∨ place.owes = true → 0 < s.pending cur)
    (read : ∀ depth, place.read = some depth → depth = s.vfsBiglockDepth)
    (releasing : place = .releasing → s.pending cur = 0) : (s.goTo cur place).Inv := by
  refine ⟨fun x => ?_, h.free⟩
  by_cases same : x = cur
  · subst same
    exact at_goTo owner acquiring (h.each x).others (h.each x).depth inside read releasing
  · have there := goTo_other s place same
    obtain ⟨owner, acquiring, others, depth, inside, read, releasing⟩ := h.each x
    constructor
    · rwa [there]
    · rwa [there]
    · exact others
    · exact depth
    · rwa [there]
    · rwa [there]
    · rwa [there]

/-- A thread changes the lock or the depth when no other thread has the lock. -/
theorem State.Inv.alone (h : s.Inv) (places : t.place = s.place)
    (pendings : ∀ x, x ≠ cur → t.pending x = s.pending x)
    (before : ∀ x, x ≠ cur → s.vfsBiglock ≠ some x) (after : ∀ x, x ≠ cur → t.vfsBiglock ≠ some x)
    (now : (t.goTo cur place).At cur) (free : t.vfsBiglock = none → t.vfsBiglockDepth = 0) :
    (t.goTo cur place).Inv := by
  refine ⟨fun x => ?_, free⟩
  by_cases same : x = cur
  · exact same ▸ now
  · have there : (t.goTo cur place).place x = s.place x := by rw [goTo_other t place same, places]
    have out : (s.place x).owns ≠ true := fun owns => before x same ((h.each x).owner owns)
    constructor
    · intro owns
      rw [there] at owns
      exact absurd owns out
    · exact fun _ => after x same
    · intro _
      rw [State.goTo, pendings x same]
      exact (h.each x).others (before x same)
    · exact fun holds => absurd holds (after x same)
    · exact fun holds => absurd holds (after x same)
    · intro depth reads
      rw [there] at reads
      exact absurd (Place.owns_of_read reads) out
    · intro here
      rw [there] at here
      rw [here] at out
      exact absurd rfl out

theorem acquire_inv (h : s.Inv) : (s.vfsBiglockAcquire cur).Meets State.Inv := by
  simp only [State.vfsBiglockAcquire, Outcome.meets_bind, Outcome.meets_await, Outcome.meets_pure]
  intro outside
  split
  · rename_i holds
    exact h.goTo (fun _ => holds) (by rintro ⟨⟩) (by simp [Place.owes]) (by rintro _ ⟨⟩)
      (by rintro ⟨⟩)
  · rename_i waits
    exact h.goTo (by rintro ⟨⟩) (fun _ => waits) (by simp [Place.owes]) (by rintro _ ⟨⟩)
      (by rintro ⟨⟩)

theorem release_inv (h : s.Inv) : (s.vfsBiglockRelease cur).Meets State.Inv := by
  simp only [State.vfsBiglockRelease, Outcome.meets_bind, Outcome.meets_await, Outcome.meets_kassert,
    Outcome.meets_pure]
  rintro ⟨outside, acquired⟩
  have holds : s.vfsBiglock = some cur := by
    by_contra waits
    exact absurd ((h.each cur).others waits) (Nat.ne_of_gt acquired)
  exact ⟨holds, h.goTo (fun _ => holds) (by rintro ⟨⟩) (fun _ _ => acquired) (by rintro _ ⟨⟩)
    (by rintro ⟨⟩)⟩

omit [DecidableEq Thread] in
theorem only_owner (holds : s.vfsBiglock = some cur) : ∀ x, x ≠ cur → s.vfsBiglock ≠ some x :=
  fun _ other is => other (Option.some.inj (is.symm.trans holds))

theorem go_inv (h : s.Inv) (small : Small s (.go cur)) : (s.go cur).Meets State.Inv := by
  have now := h.each cur
  unfold State.go
  cases at_ : s.place cur with
  | outside => trivial
  | acquiring =>
    simp only [Outcome.meets_bind, AtomicLock.acquire_meets, Outcome.meets_pure]
    refine ⟨now.acquiring at_, fun free => ?_⟩
    have none := now.others (now.acquiring at_)
    refine h.alone rfl (fun _ _ => rfl) (fun _ _ => ?_) (only_owner rfl) ?_ ?_
    · rw [free]
      exact nofun
    · refine State.at_goTo (fun _ => rfl) nofun (absurd rfl) (fun _ => ?_) (by simp [Place.owes]) nofun nofun
      rw [none]
      exact congrArg BitVec.toNat (h.free free)
    · exact nofun
  | entering =>
    have holds := now.owner (by rw [at_]; rfl)
    exact h.goTo (fun _ => holds) nofun (by simp [Place.owes]) (fun _ reads => Option.some.inj reads.symm) nofun
  | raising depth =>
    have holds := now.owner (by rw [at_]; rfl)
    have is := now.read depth (by rw [at_]; rfl)
    have bound := small cur depth rfl at_
    have count := now.depth holds
    rw [Outcome.meets_pure]
    refine h.alone rfl (fun _ other => Function.update_of_ne other ..) (only_owner holds)
      (only_owner holds) ?_ ?_
    · refine State.at_goTo (fun _ => holds) nofun (absurd holds) (fun _ => ?_) (fun _ _ => ?_) nofun nofun
      · simp only [Function.update_self, is, BitVec.toNat_add, count]
        exact Nat.mod_eq_of_lt bound
      · simp only [Function.update_self]
        exact Nat.succ_pos _
    · intro free
      rw [holds] at free
      cases free
  | leaving =>
    have holds := now.owner (by rw [at_]; rfl)
    have acquired := now.inside holds (.inr (by rw [at_]; rfl))
    simp only [Outcome.meets_bind, Outcome.meets_kassert, Outcome.meets_pure]
    refine ⟨?_, h.goTo (fun _ => holds) nofun (fun _ _ => acquired) nofun nofun⟩
    rw [gt_iff_lt, BitVec.lt_def, now.depth holds]
    exact acquired
  | lowering =>
    have holds := now.owner (by rw [at_]; rfl)
    have acquired := now.inside holds (.inr (by rw [at_]; rfl))
    exact h.goTo (fun _ => holds) nofun (fun _ _ => acquired) (fun _ reads => Option.some.inj reads.symm) nofun
  | lowered depth =>
    have holds := now.owner (by rw [at_]; rfl)
    have acquired := now.inside holds (.inr (by rw [at_]; rfl))
    have is := now.read depth (by rw [at_]; rfl)
    have count := now.depth holds
    rw [Outcome.meets_pure]
    refine h.alone rfl (fun _ other => Function.update_of_ne other ..) (only_owner holds)
      (only_owner holds) ?_ ?_
    · refine State.at_goTo (fun _ => holds) nofun (absurd holds) (fun _ => ?_) (by simp [Place.owes]) nofun nofun
      simp only [Function.update_self, is]
      have bound := s.vfsBiglockDepth.isLt
      have one : (1 : BitVec 32).toNat = 1 := rfl
      rw [BitVec.toNat_sub, count, one]
      omega
    · intro free
      rw [holds] at free
      cases free
  | testing =>
    have holds := now.owner (by rw [at_]; rfl)
    have count := now.depth holds
    simp only [Outcome.meets_pure]
    split
    · rename_i zero
      rw [zero] at count
      exact h.goTo (fun _ => holds) nofun (by simp [Place.owes]) nofun (fun _ => count.symm)
    · rename_i nonzero
      refine h.goTo nofun nofun (fun _ _ => ?_) nofun nofun
      rw [← count]
      exact Nat.pos_of_ne_zero fun zero => nonzero (BitVec.eq_of_toNat_eq zero)
  | releasing =>
    have holds := now.owner (by rw [at_]; rfl)
    simp only [Outcome.meets_bind, AtomicLock.release_meets, Outcome.meets_pure]
    refine ⟨holds, h.alone rfl (fun _ _ => rfl) (only_owner holds) nofun ?_ ?_⟩
    · exact State.at_goTo nofun nofun (fun _ => now.releasing at_) nofun nofun nofun nofun
    · intro _
      have count := now.depth holds
      rw [now.releasing at_] at count
      exact BitVec.eq_of_toNat_eq count

theorem step_inv (h : s.Inv) {a : Action Thread} (small : Small s a) :
    (s.step a).Meets State.Inv := by
  cases a with
  | acquire cur => exact acquire_inv h
  | release cur => exact release_inv h
  | go cur => exact go_inv h small

omit [DecidableEq Thread] in
theorem bootstrap_inv : (State.bootstrap : State Thread).Inv :=
  ⟨fun _ => ⟨nofun, nofun, fun _ => rfl, nofun, nofun, nofun, nofun⟩, fun _ => rfl⟩

theorem reached_inv (h : machine.ReachableBy Small s) : s.Inv :=
  machine.invariant (fun _ start => start ▸ bootstrap_inv)
    (fun _ _ _ inv small step => (step_inv inv small).of_done step) h

/-- The lock goes away from its holder only in the last step of a release. -/
theorem step_frees (h : s.Inv) (a : Action Thread) : (s.step a).Ensures fun next =>
    s.vfsBiglock ≠ none → next.vfsBiglock = none → ∀ x, next.pending x = 0 := by
  have kept : ∀ {next : State Thread}, next.vfsBiglock = s.vfsBiglock →
      s.vfsBiglock ≠ none → next.vfsBiglock = none → ∀ x, next.pending x = 0 :=
    fun same held free => absurd (same.symm.trans free) held
  cases a with
  | acquire cur =>
    simp only [State.step, State.vfsBiglockAcquire, Outcome.ensures_bind, Outcome.ensures_await,
      Outcome.ensures_pure]
    exact fun _ => kept rfl
  | release cur =>
    simp only [State.step, State.vfsBiglockRelease, Outcome.ensures_bind, Outcome.ensures_await,
      Outcome.ensures_kassert, Outcome.ensures_pure]
    exact fun _ _ => kept rfl
  | go cur =>
    simp only [State.step, State.go]
    have now := h.each cur
    cases at_ : s.place cur with
    | outside => exact Outcome.ensures_blocked
    | acquiring =>
      simp only [Outcome.ensures_bind, AtomicLock.acquire_ensures, Outcome.ensures_pure]
      exact fun free held => absurd free held
    | leaving =>
      simp only [Outcome.ensures_bind, Outcome.ensures_kassert, Outcome.ensures_pure]
      exact fun _ => kept rfl
    | releasing =>
      simp only [Outcome.ensures_bind, AtomicLock.release_ensures, Outcome.ensures_pure]
      intro holds _ _ x
      by_cases same : x = cur
      · exact same ▸ now.releasing at_
      · exact (h.each x).others (only_owner holds x same)
    | entering | raising | lowering | lowered | testing => exact Outcome.ensures_pure.mpr (kept rfl)

theorem step_sound (h : s.Inv) (a : Action Thread) : s.step a ≠ .panic ∧ s.step a ≠ .fault := by
  by_cases small : Small s a
  · exact ⟨(step_inv h small).not_panic, (step_inv h small).not_fault⟩
  · -- a count that is too large is stored all the same
    simp only [Small, not_forall] at small
    obtain ⟨cur, depth, rfl, at_, _⟩ := small
    simp [State.step, State.go, at_, Outcome.pure_def]

theorem State.Inv.holds_of_inside (h : s.Inv) (inside : s.Inside x) : s.vfsBiglock = some x := by
  obtain acquired | owns := inside
  · by_contra waits
    exact absurd ((h.each x).others waits) (Nat.ne_of_gt acquired)
  · exact (h.each x).owner owns

theorem State.Inv.right (h : s.Inv) : s.Right := by
  refine ⟨fun x => (h.each x).depth, fun calm => ?_, fun x y inside inside' => ?_,
    fun a next step => step_frees h a next step, step_sound h⟩
  · cases held : s.vfsBiglock with
    | none => simp [h.free held]
    | some x =>
      have acquired := (h.each x).inside held (.inl (calm x held))
      rw [BitVec.lt_def, (h.each x).depth held]
      simpa using acquired
  · have holds := h.holds_of_inside inside
    exact Option.some.inj (holds.symm.trans (h.holds_of_inside inside'))

end Steps

/-- As long as no thread has `2 ^ 32` acquires pending, the depth counts those of the holder. -/
theorem biglock_right {s : State Thread} (h : machine.ReachableBy Small s) : s.Right :=
  (reached_inv h).right

/-- Thread 0 is inside twice and has gone out once, and thread 1 waits. -/
theorem biglock_right_nested : ∃ s : State (Fin 2), s.vfsBiglock = some 0 ∧ s.vfsBiglockDepth = 1 ∧
    s.place 1 = .acquiring ∧ s.Right := by
  have passes : ((machine : Machine (State (Fin 2)) _).runIf
      (fun s _ => decide (∀ t, s.pending t + 1 < 2 ^ 32)) .bootstrap
      [.acquire 0, .acquire 1, .go 0, .go 0, .go 0, .acquire 0, .go 0, .go 0, .release 0, .go 0,
        .go 0, .go 0, .go 0]).passes
      (fun s => decide (s.vfsBiglock = some 0 ∧ s.vfsBiglockDepth = 1 ∧ s.place 1 = .acquiring)) =
        true := by
    decide +kernel
  obtain ⟨s, run, done⟩ := Outcome.passes_done passes
  obtain ⟨held, depth, waits⟩ := of_decide_eq_true done
  have reached : machine.ReachableBy Small s :=
    .runIf _ _ (.initial rfl) (fun _ _ small t _ _ _ => (of_decide_eq_true small :) t) run
  exact ⟨s, held, depth, waits, biglock_right reached⟩

/-- One thread that has acquired the lock this often. -/
def nested (times : Nat) : State Unit :=
  ⟨some (), BitVec.ofNat 32 times, fun _ => .outside, fun _ => times⟩

theorem update_unit {α : Type} (a b : α) : Function.update (fun _ : Unit => a) () b = fun _ => b :=
  funext fun _ => Function.update_self ..

theorem nested_reached (times : Nat) : machine.Reachable (nested (times + 1)) := by
  induction times with
  | zero =>
    have run : machine.run (.bootstrap : State Unit) [.acquire (), .go (), .go (), .go ()] =
        .done (nested 1) := by
      simp [Machine.run, Machine.runIf, machine, State.step, State.vfsBiglockAcquire, State.go,
        State.goTo, State.bootstrap, nested, update_unit, Outcome.await, Outcome.bind, Outcome.pure_def]
    exact .run _ (.initial rfl) run
  | succ times ih =>
    have run : machine.run (nested (times + 1)) [.acquire (), .go (), .go ()] =
        .done (nested (times + 1 + 1)) := by
      simp [Machine.run, Machine.runIf, machine, State.step, State.vfsBiglockAcquire, State.go,
        State.goTo, nested, update_unit, Outcome.await, Outcome.bind, Outcome.pure_def]
      exact (BitVec.ofNat_add (times + 1) 1).symm
    exact .run _ ih run

/-- After `2 ^ 32` acquires of one thread the depth is 0 while it has the lock. -/
theorem depth_wraps : ∃ s : State Unit, machine.Reachable s ∧ ¬ s.Right := by
  refine ⟨nested (2 ^ 32), nested_reached (2 ^ 32 - 1), fun right => ?_⟩
  have depth := right.depth () rfl
  have zero : (nested (2 ^ 32)).vfsBiglockDepth.toNat = 0 := rfl
  have pending : (nested (2 ^ 32)).pending () = 2 ^ 32 := rfl
  rw [zero, pending] at depth
  omega

end Os161.Biglock
