import Mathlib.Logic.Function.Basic
import Os161.Base.Acyclic
import Os161.Base.Machine

/-!
# The deadlock detector

`hangman.c`. The calls are atomic: they run under `hangman_lock`. That lock is itself a lockable, and the
calls about it do nothing.
-/

namespace Os161.Hangman

open Relation (ReflTransGen)

variable {A L : Type} [DecidableEq A] [DecidableEq L]

structure State (A L : Type) where
  /-- `a_waiting` of every actor. -/
  aWaiting : A → Option L
  /-- `l_holding` of every lockable. -/
  lHolding : L → Option A

/-- The loop of `hangman_check`, with the actor it has come to: whether it gets to `target`. Without fuel
there is no answer. -/
def walk (s : State A L) (target : A) : Nat → Option A → Option Bool
  | 0, _ => none
  | fuel + 1, cur =>
    match cur with
    | none => some false
    | some cur =>
      if cur = target then some true
      else
        match s.aWaiting cur with
        | none => some false
        | some l => walk s target fuel (s.lHolding l)

def hangmanCheck (s : State A L) (start : L) (target : A) (fuel : Nat) : Option Bool :=
  walk s target fuel (s.lHolding start)

def State.waits (s : State A L) (a : A) (l : L) : State A L :=
  { s with aWaiting := Function.update s.aWaiting a (some l) }

/-- `hangmanLock` is the lockable of `hangman_lock`. A check that does not come to an end is no step. -/
def hangmanWait (hangmanLock : L) (s : State A L) (a : A) (l : L) (fuel : Nat) : Outcome (State A L) :=
  if l = hangmanLock then return s
  else do
    Outcome.kassert (s.aWaiting a = none)
    match hangmanCheck s l a fuel with
    | none => .blocked
    | some true => .panic
    | some false => return s.waits a l

def hangmanAcquire (hangmanLock : L) (s : State A L) (a : A) (l : L) : Outcome (State A L) :=
  if l = hangmanLock then return s
  else do
    Outcome.kassert (s.aWaiting a = some l)
    Outcome.kassert (s.lHolding l = none)
    return {
      aWaiting := Function.update s.aWaiting a none
      lHolding := Function.update s.lHolding l (some a) }

def hangmanRelease (hangmanLock : L) (s : State A L) (a : A) (l : L) : Outcome (State A L) :=
  if l = hangmanLock then return s
  else do
    Outcome.kassert (s.aWaiting a = none)
    Outcome.kassert (s.lHolding l = some a)
    return { s with lHolding := Function.update s.lHolding l none }

inductive Action (A L : Type) where
  | wait (a : A) (l : L) (fuel : Nat)
  | acquire (a : A) (l : L)
  | release (a : A) (l : L)

def step (hangmanLock : L) (s : State A L) : Action A L → Outcome (State A L)
  | .wait a l fuel => hangmanWait hangmanLock s a l fuel
  | .acquire a l => hangmanAcquire hangmanLock s a l
  | .release a l => hangmanRelease hangmanLock s a l

/-- Any actors and lockables, at first without any waiting or holding. -/
def hangman (hangmanLock : L) : Machine (State A L) (Action A L) where
  initial s := s = ⟨fun _ => none, fun _ => none⟩
  step := step hangmanLock

/-- The wait-for graph. -/
inductive Edge (s : State A L) : A ⊕ L → A ⊕ L → Prop where
  | waits {a : A} {l : L} : s.aWaiting a = some l → Edge s (.inl a) (.inr l)
  | held {l : L} {a : A} : s.lHolding l = some a → Edge s (.inr l) (.inl a)

variable {s t : State A L} {a cur target : A} {l start hangmanLock : L} {fuel : Nat} {found : Bool}

omit [DecidableEq A] [DecidableEq L] in
/-- An actor waits for one lockable, and a lockable is held by one actor. -/
theorem edge_functional (x y z : A ⊕ L) (first : Edge s x y) (second : Edge s x z) : y = z := by
  cases first with
  | waits waits =>
    cases second with
    | waits waits' => rw [Option.some.inj (waits.symm.trans waits')]
  | held held =>
    cases second with
    | held held' => rw [Option.some.inj (held.symm.trans held')]

omit [DecidableEq A] [DecidableEq L] in
theorem path_from_actor (stuck : s.aWaiting a = none) {y : A ⊕ L} (path : ReflTransGen (Edge s) (.inl a) y) :
    y = .inl a := by
  obtain same | ⟨z, edge, -⟩ := path.cases_head
  · exact same.symm
  · cases edge with
    | waits waits => cases stuck.symm.trans waits

omit [DecidableEq L] in
/-- The walk says whether there is a path to its target. -/
theorem walk_finds (ends : walk s target fuel (s.lHolding start) = some found) :
    found = true ↔ ReflTransGen (Edge s) (.inr start) (.inl target) := by
  induction fuel generalizing start with
  | zero => cases ends
  | succ fuel ih =>
    cases holds : s.lHolding start with
    | none =>
      rw [holds] at ends
      obtain rfl := Option.some.inj ends
      refine iff_of_false Bool.false_ne_true fun path => ?_
      obtain same | ⟨z, edge, -⟩ := path.cases_head
      · cases same
      · cases edge with
        | held held => cases holds.symm.trans held
    | some cur =>
      rw [holds, walk] at ends
      rw [path_functional edge_functional (Edge.held holds)]
      split at ends
      · rename_i here
        obtain rfl := Option.some.inj ends
        rw [here]
        exact iff_of_true rfl (.inr .refl)
      · rename_i other
        cases waiting : s.aWaiting cur with
        | none =>
          rw [waiting] at ends
          obtain rfl := Option.some.inj ends
          refine iff_of_false Bool.false_ne_true fun path => ?_
          obtain same | rest := path
          · cases same
          · exact other (Sum.inl.inj (path_from_actor waiting rest)).symm
        | some l =>
          rw [waiting] at ends
          rw [ih ends, path_functional edge_functional (Edge.waits waiting)]
          simp [other]

omit [DecidableEq L] in
/-- The walk ends: it comes by every actor that waits once at most. -/
theorem walk_ends (acyclic : Acyclic (Edge s)) (waiting : List A)
    (listed : ∀ a, ReflTransGen (Edge s) (.inr start) (.inl a) → s.aWaiting a ≠ none → a ∈ waiting)
    (enough : waiting.length + 2 ≤ fuel) : ∃ found, walk s target fuel (s.lHolding start) = some found := by
  induction fuel generalizing start waiting with
  | zero => omega
  | succ fuel ih =>
    cases holds : s.lHolding start with
    | none => exact ⟨_, rfl⟩
    | some cur =>
      rw [walk]
      split
      · exact ⟨_, rfl⟩
      · cases waits : s.aWaiting cur with
        | none => exact ⟨_, rfl⟩
        | some l =>
          have here : cur ∈ waiting := listed cur (.single (.held holds)) (by rw [waits]; nofun)
          have fewer : (waiting.erase cur).length + 1 = waiting.length := by
            have some := List.length_pos_of_mem here
            rw [List.length_erase_of_mem here]
            omega
          refine ih (waiting.erase cur) (fun a path waits' => ?_) (by omega)
          have first : ReflTransGen (Edge s) (.inr start) (.inl a) := .head (.held holds) (.head (.waits waits) path)
          have other : a ≠ cur := by
            rintro rfl
            exact acyclic _ (.head' (.waits waits) path)
          exact (List.mem_erase_of_ne other).mpr (listed a first waits')

/-- No cycle, and finitely many actors that wait. -/
structure Inv (s : State A L) : Prop where
  acyclic : Acyclic (Edge s)
  waiting : ∃ waiting : List A, ∀ a, s.aWaiting a ≠ none → a ∈ waiting

omit [DecidableEq L] in
/-- The wait is one more edge. -/
theorem waits_edge (idle : s.aWaiting a = none) (x y : A ⊕ L) :
    Edge (s.waits a l) x y ↔ AddEdge (Edge s) (.inl a) (.inr l) x y := by
  constructor
  · rintro (waits | held)
    · rename_i b m
      by_cases same : b = a
      · subst same
        have here : l = m := by simpa [State.waits] using waits
        rw [here]
        exact .inr ⟨rfl, rfl⟩
      · exact .inl (.waits (by simpa [State.waits, same] using waits))
    · exact .inl (.held held)
  · rintro ((waits | held) | ⟨rfl, rfl⟩)
    · rename_i b m
      have other : b ≠ a := by
        rintro rfl
        cases idle.symm.trans waits
      exact .waits (by simpa [State.waits, other] using waits)
    · exact .held held
    · exact .waits (by simp [State.waits])

omit [DecidableEq L] in
/-- What the check finds out: whether the wait would close a cycle. -/
theorem check_finds (acyclic : Acyclic (Edge s)) (idle : s.aWaiting a = none)
    (ends : hangmanCheck s l a fuel = some found) : found = true ↔ ¬ Acyclic (Edge (s.waits a l)) := by
  have same : Edge (s.waits a l) = AddEdge (Edge s) (.inl a) (.inr l) := by
    funext x y
    exact propext (waits_edge idle x y)
  rw [same, acyclic_add_iff acyclic, not_not]
  exact walk_finds ends

theorem Inv.wait (h : Inv s) : (hangmanWait hangmanLock s a l fuel).Ensures Inv := by
  obtain ⟨waiting, listed⟩ := h.waiting
  unfold hangmanWait
  split
  · exact Outcome.ensures_pure.mpr h
  simp only [Outcome.ensures_bind, Outcome.ensures_kassert]
  intro idle
  cases check : hangmanCheck s l a fuel with
  | none => exact nofun
  | some found =>
    have finds := check_finds h.acyclic idle check
    cases found with
    | true => exact nofun
    | false =>
      refine Outcome.ensures_pure.mpr ⟨not_not.mp fun cyclic => Bool.false_ne_true (finds.mpr cyclic), a :: waiting, ?_⟩
      intro b waits
      by_cases same : b = a
      · exact same ▸ List.mem_cons_self
      · exact List.mem_cons_of_mem _ (listed b (by simpa [State.waits, same] using waits))

/-- The edge turns around, and nothing leads on from the actor. -/
theorem Inv.acquire (h : Inv s) : (hangmanAcquire hangmanLock s a l).Ensures Inv := by
  obtain ⟨waiting, listed⟩ := h.waiting
  unfold hangmanAcquire
  split
  · exact Outcome.ensures_pure.mpr h
  simp only [Outcome.ensures_bind, Outcome.ensures_kassert]
  intro mine free
  let idle : State A L := { s with aWaiting := Function.update s.aWaiting a none }
  have gone : idle.aWaiting a = none := Function.update_self ..
  have less : Acyclic (Edge idle) := by
    refine h.acyclic.mono fun x y edge => ?_
    obtain waits | held := edge
    · rename_i b m
      by_cases same : b = a
      · subst same
        cases gone.symm.trans waits
      · exact .waits (by simpa [idle, same] using waits)
    · exact .held held
  have back : ¬ ReflTransGen (Edge idle) (.inl a) (.inr l) := fun path => nomatch path_from_actor gone path
  refine Outcome.ensures_pure.mpr ⟨((acyclic_add_iff less).mpr back).mono fun x y edge => ?_, waiting, ?_⟩
  · obtain waits | held := edge
    · exact .inl (.waits waits)
    · rename_i m b
      by_cases same : m = l
      · subst same
        have here : a = b := by simpa using held
        rw [here]
        exact .inr ⟨rfl, rfl⟩
      · exact .inl (.held (by simpa [same] using held))
  · intro b waits
    by_cases same : b = a
    · subst same
      exact absurd gone waits
    · exact listed b (by simpa [same] using waits)

theorem Inv.release (h : Inv s) : (hangmanRelease hangmanLock s a l).Ensures Inv := by
  unfold hangmanRelease
  split
  · exact Outcome.ensures_pure.mpr h
  simp only [Outcome.ensures_bind, Outcome.ensures_kassert]
  intro idle mine
  refine Outcome.ensures_pure.mpr ⟨h.acyclic.mono fun x y edge => ?_, h.waiting⟩
  obtain waits | held := edge
  · exact .waits waits
  · rename_i m b
    by_cases same : m = l
    · subst same
      simp at held
    · exact .held (by simpa [same] using held)

theorem reachable_inv (h : (hangman hangmanLock).Reachable s) : Inv s := by
  refine (hangman hangmanLock).invariant_ensures ?_ ?_ h
  · rintro _ rfl
    refine ⟨fun x cycle => ?_, [], fun a waits => absurd rfl waits⟩
    obtain ⟨y, edge, -⟩ := Relation.TransGen.head'_iff.mp cycle
    obtain waits | held := edge
    · cases waits
    · cases held
  · intro s action h _
    cases action with
    | wait a l fuel => exact h.wait
    | acquire a l => exact h.acquire
    | release a l => exact h.release

/-- There is no cycle in the wait-for graph, the check comes to an end, and it stops the machine when the
wait would close a cycle, and only then. -/
theorem hangman_detects (h : (hangman hangmanLock).Reachable s) : Acyclic (Edge s) ∧
    ∀ a l, s.aWaiting a = none → l ≠ hangmanLock → ∃ n, ∀ fuel, n ≤ fuel →
      hangmanCheck s l a fuel = some true ∧ hangmanWait hangmanLock s a l fuel = .panic ∧
          ¬ Acyclic (Edge (s.waits a l)) ∨
        hangmanCheck s l a fuel = some false ∧ hangmanWait hangmanLock s a l fuel = .done (s.waits a l) ∧
          Acyclic (Edge (s.waits a l)) := by
  obtain ⟨acyclic, waiting, listed⟩ := reachable_inv h
  refine ⟨acyclic, fun a l idle other => ⟨waiting.length + 2, fun fuel enough => ?_⟩⟩
  obtain ⟨found, ends⟩ : ∃ found, hangmanCheck s l a fuel = some found :=
    walk_ends acyclic waiting (fun b _ => listed b) enough
  have finds := check_finds acyclic idle ends
  unfold hangmanWait
  rw [if_neg other, Outcome.kassert_bind idle, ends]
  cases found with
  | true => exact .inl ⟨rfl, rfl, finds.mp rfl⟩
  | false => exact .inr ⟨rfl, rfl, not_not.mp fun cyclic => Bool.false_ne_true (finds.mpr cyclic)⟩

/-- Two actors with a lock each, and one of them waits for the other's. -/
def crossing : List (Action Bool (Fin 3)) :=
  [.wait false 1 2, .acquire false 1, .wait true 2 2, .acquire true 2, .wait false 2 2]

/-- The other one cannot wait for the first one's. -/
theorem hangman_detects_crossing : ∃ s, (hangman (A := Bool) (0 : Fin 3)).Reachable s ∧ s.aWaiting true = none ∧
    ∃ n, ∀ fuel, n ≤ fuel → hangmanWait 0 s true 1 fuel = .panic ∨ hangmanWait 0 s true 1 fuel = .done (s.waits true 1) := by
  obtain ⟨s, run, idle⟩ : ∃ s, (hangman (A := Bool) (0 : Fin 3)).run ⟨fun _ => none, fun _ => none⟩ crossing = .done s ∧
      s.aWaiting true = none := ⟨_, rfl, rfl⟩
  have reached : (hangman (A := Bool) (0 : Fin 3)).Reachable s := Machine.Reachable.run crossing (.initial rfl) run
  obtain ⟨n, detects⟩ := (hangman_detects reached).2 true 1 idle (by decide)
  exact ⟨s, reached, idle, n, fun fuel enough => (detects fuel enough).imp (·.2.1) (·.2.1)⟩

end Os161.Hangman
