import Os161.Base.Outcome

/-!
# Objects

An object is called, answers, and is in another state afterwards. One object refines another where
sequences of calls come to the same answers.
-/

namespace Os161

universe u

/-- What a call of an operation does in a state. -/
structure Object (State Op Answer : Type u) where
  call : State → Op → Outcome (Answer × State)

namespace Outcome

/-- Two steps come to the same, up to `R` where they go through. -/
inductive Alike {α β : Type u} (R : α → β → Prop) : Outcome α → Outcome β → Prop where
  | done {a : α} {b : β} : R a b → Alike R (.done a) (.done b)
  | blocked : Alike R .blocked .blocked
  | panic : Alike R .panic .panic
  | fault : Alike R .fault .fault

variable {α β α' β' : Type u} {R : α → β → Prop} {S : α' → β' → Prop}

/-- Sequences are alike if the first parts are and so is what comes after them. -/
theorem Alike.then {x : Outcome α} {y : Outcome β} {f : α → Outcome α'} {g : β → Outcome β'}
    (first : Alike R x y) (rest : ∀ a b, x = .done a → y = .done b → R a b → Alike S (f a) (g b)) :
    Alike S (x >>= f) (y >>= g) := by
  cases first with
  | done related => exact rest _ _ rfl rfl related
  | blocked => exact .blocked
  | panic => exact .panic
  | fault => exact .fault

theorem Alike.of_done {b : β} {x : Outcome α} (alike : Alike R x (.done b)) :
    ∃ a, x = .done a ∧ R a b := by
  cases alike with
  | done related => exact ⟨_, rfl, related⟩

theorem Alike.not_fault {x : Outcome α} {y : Outcome β} (alike : Alike R x y)
    (safe : y.Faultless fun _ => True) : x ≠ .fault := by
  rintro rfl
  cases alike
  exact safe

end Outcome

namespace Object

variable {State Abs Op Answer : Type u}

/-- The calls of a list in order, with their answers. -/
def calls (O : Object State Op Answer) (s : State) : List Op → Outcome (List Answer × State)
  | [] => return ([], s)
  | op :: rest => do
    let (answer, t) ← O.call s op
    let (answers, u) ← O.calls t rest
    return (answer :: answers, u)

/-- Each call of a list meets a condition where it is made. -/
def Allows (O : Object State Op Answer) (guard : State → Op → Prop) (s : State) : List Op → Prop
  | [] => True
  | op :: rest => guard s op ∧ ∀ answer t, O.call s op = .done (answer, t) → O.Allows guard t rest

/-- Calls that meet `guard` come to the same in states that `R` relates. -/
def Refines (O : Object State Op Answer) (A : Object Abs Op Answer) (R : State → Abs → Prop)
    (guard : Abs → Op → Prop) : Prop :=
  ∀ s a op, R s a → guard a op →
    Outcome.Alike (fun x y => x.1 = y.1 ∧ R x.2 y.2) (O.call s op) (A.call a op)

variable {O : Object State Op Answer} {A : Object Abs Op Answer} {R : State → Abs → Prop}
variable {guard : State → Op → Prop} {s t : State}

theorem allows_cons {op : Op} {rest : List Op} {x : Answer × State} (met : guard s op)
    (step : O.call s op = .done x) (later : O.Allows guard x.2 rest) : O.Allows guard s (op :: rest) := by
  refine ⟨met, fun answer t done => ?_⟩
  cases step.symm.trans done
  exact later

/-- A condition that does not look at the state. -/
theorem allows_of_all {p : Op → Prop} {ops : List Op} (all : ∀ op ∈ ops, p op) :
    O.Allows (fun _ op => p op) s ops := by
  induction ops generalizing s with
  | nil => trivial
  | cons op rest ih =>
    exact ⟨all op List.mem_cons_self, fun _ _ _ => ih fun op member => all op (.tail _ member)⟩

theorem calls_done (total : ∀ s op, ∃ x, O.call s op = .done x) (s : State) (ops : List Op) :
    ∃ x, O.calls s ops = .done x := by
  induction ops generalizing s with
  | nil => exact ⟨_, rfl⟩
  | cons op rest ih =>
    obtain ⟨⟨answer, t⟩, step⟩ := total s op
    obtain ⟨⟨answers, u⟩, later⟩ := ih t
    unfold Object.calls
    rw [step, Outcome.done_bind]
    dsimp only
    rw [later]
    exact ⟨_, rfl⟩

theorem calls_faultless (safe : ∀ s op, (O.call s op).Faultless fun _ => True) (s : State)
    (ops : List Op) : (O.calls s ops).Faultless fun _ => True := by
  induction ops generalizing s with
  | nil => exact trivial
  | cons op rest ih =>
    unfold Object.calls
    rw [Outcome.faultless_bind]
    refine (safe s op).mono fun x _ => ?_
    rw [Outcome.faultless_bind]
    exact (ih x.2).mono fun _ _ => trivial

/-- The run rule: sequences of calls have the same answers and come to related states. -/
theorem Refines.calls {guard : Abs → Op → Prop} (refines : O.Refines A R guard) {a : Abs}
    {ops : List Op} (related : R s a) (allowed : A.Allows guard a ops) :
    Outcome.Alike (fun x y => x.1 = y.1 ∧ R x.2 y.2) (O.calls s ops) (A.calls a ops) := by
  induction ops generalizing s a with
  | nil => exact .done ⟨rfl, related⟩
  | cons op rest ih =>
    obtain ⟨met, later⟩ := allowed
    refine (refines s a op related met).then fun x y _ step sync => ?_
    obtain ⟨answer, t⟩ := x
    obtain ⟨answer', b⟩ := y
    obtain ⟨rfl, related⟩ : answer = answer' ∧ R t b := sync
    refine (ih related (later _ _ step)).then fun x y _ _ sync => .done ⟨?_, sync.2⟩
    rw [sync.1]

end Object

end Os161
