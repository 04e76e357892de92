import Os161.Base.Outcome

/-!
# Machines

A machine has initial states and steps labelled with actions. `ReachableBy guard` are the states
of the runs whose steps all meet `guard`; with the guard that is always met they are the reachable
states.
-/

namespace Os161

universe u v w x

/-- Initial states, and what an action does in a state. -/
structure Machine (State : Type u) (Action : Type v) where
  initial : State → Prop
  step : State → Action → Outcome State

namespace Machine

variable {State : Type u} {Action : Type v} (M : Machine State Action)
variable {guard : State → Action → Prop} {s t : State}

/-- The states of the runs whose every step meets `guard`. -/
inductive ReachableBy (guard : State → Action → Prop) : State → Prop where
  | initial {s : State} : M.initial s → ReachableBy guard s
  | step {s t : State} (a : Action) :
      ReachableBy guard s → guard s a → M.step s a = .done t → ReachableBy guard t

/-- The states of all runs. -/
abbrev Reachable : State → Prop := M.ReachableBy fun _ _ => True

/-- The run rule: what holds at the start and is kept by every step that meets the guard holds in
every state of the guarded runs. -/
theorem invariant {P : State → Prop} (start : ∀ s, M.initial s → P s)
    (keep : ∀ s a t, P s → guard s a → M.step s a = .done t → P t) (h : M.ReachableBy guard s) :
    P s := by
  induction h with
  | initial hs => exact start _ hs
  | step a _ hg ht ih => exact keep _ a _ ih hg ht

/-- The run rule for steps that must not fail. -/
theorem invariant_meets {P : State → Prop} (start : ∀ s, M.initial s → P s)
    (keep : ∀ s a, P s → (M.step s a).Meets P) (h : M.ReachableBy guard s) : P s :=
  M.invariant start (fun s a _ holds _ step => (keep s a holds).of_done step) h

/-- The run rule for steps that may fail. -/
theorem invariant_ensures {P : State → Prop} (start : ∀ s, M.initial s → P s)
    (keep : ∀ s a, P s → guard s a → (M.step s a).Ensures P) (h : M.ReachableBy guard s) : P s :=
  M.invariant start (fun s a t holds met step => keep s a holds met t step) h

variable {M}

theorem ReachableBy.mono {weaker : State → Action → Prop}
    (imp : ∀ s a, guard s a → weaker s a) (h : M.ReachableBy guard s) : M.ReachableBy weaker s := by
  induction h with
  | initial hs => exact .initial hs
  | step a _ hg ht ih => exact .step a ih (imp _ _ hg) ht

theorem ReachableBy.reachable (h : M.ReachableBy guard s) : M.Reachable s :=
  h.mono fun _ _ _ => trivial

variable (M) in
/-- Takes the actions of a list in order, as long as each passes a check where it is taken. -/
def runIf (check : State → Action → Bool) (s : State) : List Action → Outcome State
  | [] => .done s
  | a :: rest => if check s a then (M.step s a).bind fun t => runIf check t rest else .blocked

variable (M) in
/-- Takes the actions of a list in order. -/
def run (s : State) (actions : List Action) : Outcome State := M.runIf (fun _ _ => true) s actions

theorem ReachableBy.runIf (check : State → Action → Bool) (actions : List Action)
    (h : M.ReachableBy guard s) (sound : ∀ u a, check u a = true → guard u a)
    (ht : M.runIf check s actions = .done t) : M.ReachableBy guard t := by
  induction actions generalizing s with
  | nil =>
    obtain rfl := Outcome.done.inj ht
    exact h
  | cons a rest ih =>
    rw [Machine.runIf] at ht
    split at ht
    · rename_i met
      cases hs : M.step s a with
      | done u =>
        rw [hs] at ht
        exact ih (.step a h (sound s a met) hs) ht
      | _ =>
        rw [hs] at ht
        cases ht
    · cases ht

theorem Reachable.run (actions : List Action) (h : M.Reachable s)
    (ht : M.run s actions = .done t) : M.Reachable t :=
  ReachableBy.runIf _ actions h (fun _ _ _ => trivial) ht

/-- A run of actions that meet the guard wherever they are taken. -/
theorem ReachableBy.runAll (actions : List Action) (h : M.ReachableBy guard s)
    (each : ∀ a ∈ actions, ∀ u, guard u a) (ht : M.run s actions = .done t) :
    M.ReachableBy guard t := by
  induction actions generalizing s with
  | nil =>
    obtain rfl := Outcome.done.inj ht
    exact h
  | cons a rest ih =>
    obtain ⟨u, hs, ht⟩ := Outcome.bind_done.mp (show (M.step s a >>= fun u => M.run u rest) = _ from ht)
    exact ih (.step a h (each a List.mem_cons_self s) hs)
      (fun b member => each b (List.mem_cons_of_mem a member)) ht

/-- The rule for what lies between two states of a run: a relation that every step is in. -/
theorem run_ensures {R : State → State → Prop} (refl : ∀ s, R s s)
    (trans : ∀ {s t u}, R s t → R t u → R s u) (keep : ∀ s a, (M.step s a).Ensures (R s))
    (actions : List Action) (s : State) : (M.run s actions).Ensures (R s) := by
  induction actions generalizing s with
  | nil => exact Outcome.ensures_done.mpr (refl s)
  | cons a rest ih =>
    change (M.step s a >>= fun t => M.run t rest).Ensures (R s)
    exact (keep s a).then fun t first => (ih t).mono fun u later => trans first later

/-- The rule for the actions of a run: what each of them keeps holds after all of them. -/
theorem run_keeps {P : State → Prop} {each : Action → Prop}
    (keep : ∀ s a, each a → P s → (M.step s a).Ensures P) (actions : List Action)
    (all : ∀ a ∈ actions, each a) (s : State) (holds : P s) : (M.run s actions).Ensures P := by
  induction actions generalizing s with
  | nil => exact Outcome.ensures_done.mpr holds
  | cons a rest ih =>
    change (M.step s a >>= fun t => M.run t rest).Ensures P
    refine (keep s a (all a List.mem_cons_self) holds).then fun t kept => ?_
    exact ih (fun b member => all b (List.mem_cons_of_mem a member)) t kept

/-- `M` refines `N` along `abs`: a step of `M` is a step of `N` or leaves the abstract state. -/
structure Refines {Abs : Type w} {Act : Type x} (M : Machine State Action) (N : Machine Abs Act)
    (abs : State → Abs) : Prop where
  initial : ∀ s, M.initial s → N.initial (abs s)
  step : ∀ s a t, M.Reachable s → M.step s a = .done t →
    abs t = abs s ∨ ∃ b, N.step (abs s) b = .done (abs t)

theorem Refines.reachable {Abs : Type w} {Act : Type x} {N : Machine Abs Act} {abs : State → Abs}
    (r : M.Refines N abs) (h : M.Reachable s) : N.Reachable (abs s) := by
  induction h with
  | initial hs => exact .initial (r.initial _ hs)
  | step a hr _ ht ih =>
    rcases r.step _ a _ hr ht with same | ⟨b, hb⟩
    · exact same ▸ ih
    · exact .step b ih trivial hb

end Machine

end Os161
