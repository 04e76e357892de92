import Os161.Base.Outcome

/-!
# Code that is watched

A run of code leaves a list of events and comes to an outcome. What happened before an error or a
failed assertion stays in the list.
-/

namespace Os161

/-- What a run does, in order, and what it comes to. -/
@[ext] structure Traced (E α : Type) where
  events : List E
  outcome : Outcome α

namespace Traced

variable {E α β : Type}

/-- The events of the second part come after those of the first, if there is a second part. -/
def bind (x : Traced E α) (f : α → Traced E β) : Traced E β :=
  match x.outcome with
  | .done a => ⟨x.events ++ (f a).events, (f a).outcome⟩
  | .blocked => ⟨x.events, .blocked⟩
  | .panic => ⟨x.events, .panic⟩
  | .fault => ⟨x.events, .fault⟩

instance : Monad (Traced E) where
  pure a := ⟨[], .done a⟩
  bind := bind

/-- Code that nobody watches. -/
def quiet (x : Outcome α) : Traced E α := ⟨[], x⟩

def emit (e : E) : Traced E Unit := ⟨[e], .done ()⟩

@[simp] theorem pure_events (a : α) : (pure a : Traced E α).events = [] := rfl

@[simp] theorem pure_outcome (a : α) : (pure a : Traced E α).outcome = .done a := rfl

@[simp] theorem quiet_events (x : Outcome α) : (quiet x : Traced E α).events = [] := rfl

@[simp] theorem quiet_outcome (x : Outcome α) : (quiet x : Traced E α).outcome = x := rfl

@[simp] theorem pure_bind (a : α) (f : α → Traced E β) : (pure a >>= f) = f a := rfl

@[simp] theorem quiet_bind (a : α) (f : α → Traced E β) : (quiet (.done a) >>= f) = f a := rfl

@[simp] theorem emit_bind_events (e : E) (f : Unit → Traced E β) :
    (emit e >>= f).events = e :: (f ()).events := rfl

@[simp] theorem emit_bind_outcome (e : E) (f : Unit → Traced E β) :
    (emit e >>= f).outcome = (f ()).outcome := rfl

/-- Watching does not change what code comes to. -/
@[simp] theorem bind_outcome (x : Traced E α) (f : α → Traced E β) :
    (x >>= f).outcome = x.outcome >>= fun a => (f a).outcome := by
  obtain ⟨events, outcome⟩ := x
  cases outcome <;> rfl

/-- The same, where the code that nobody watches has drawn what follows into its branches. -/
theorem quiet_ite_outcome {p : Prop} [Decidable p] (x y : Outcome α) {f : α → Traced E β}
    {g : α → Outcome β} (same : ∀ a, (f a).outcome = g a) :
    (quiet (if p then x else y) >>= f).outcome = if p then x >>= g else y >>= g := by
  rw [bind_outcome, quiet_outcome, funext same]
  split <;> rfl

/-- What holds of code that stops without an event, and of all that may follow, holds of both. -/
theorem quiet_bind_rule {P : Traced E β → Prop} {x : Outcome α} {f : α → Traced E β}
    (stops : ∀ o, (∀ b, o ≠ .done b) → P ⟨[], o⟩) (goes : ∀ a, x = .done a → P (f a)) :
    P (quiet x >>= f) := by
  cases x with
  | done a => exact goes a rfl
  | blocked => exact stops .blocked nofun
  | panic => exact stops .panic nofun
  | fault => exact stops .fault nofun

end Traced

end Os161
