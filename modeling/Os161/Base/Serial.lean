import Os161.Base.Outcome

/-!
# Operations one after another

An operation takes a state, answers, and leaves a state. What overlapping operations come to is
compared with what they come to when each is carried out by itself.
-/

namespace Os161

universe u

variable {State Op Answer : Type u} {perform : Op → State → Outcome (Answer × State)}
variable {s t u : State} {op : Op} {answer : Answer} {events : List (Op × Answer)}

/-- Carries out operations in order and lists them with their answers. -/
def serially (perform : Op → State → Outcome (Answer × State)) (s : State) :
    List Op → Outcome (List (Op × Answer) × State)
  | [] => return ([], s)
  | op :: rest => do
    let (answer, t) ← perform op s
    let (events, t) ← serially perform t rest
    return ((op, answer) :: events, t)

theorem serially_snoc {ops : List Op} (before : serially perform s ops = .done (events, t))
    (last : perform op t = .done (answer, u)) :
    serially perform s (ops ++ [op]) = .done (events ++ [(op, answer)], u) := by
  induction ops generalizing s events with
  | nil =>
    obtain ⟨rfl, rfl⟩ := Prod.mk.inj (Outcome.done.inj before)
    simp [serially, last, Outcome.pure_def]
  | cons first rest ih =>
    obtain ⟨⟨given, next⟩, began, onward⟩ := Outcome.bind_done.mp before
    obtain ⟨⟨later, final⟩, went, same⟩ := Outcome.bind_done.mp onward
    obtain ⟨rfl, rfl⟩ := Prod.mk.inj (Outcome.pure_done.mp same)
    simp [serially, began, ih went, Outcome.pure_def]

theorem serially_ops {ops : List Op} (h : serially perform s ops = .done (events, t)) :
    events.map Prod.fst = ops := by
  induction ops generalizing s events with
  | nil =>
    obtain ⟨rfl, rfl⟩ := Prod.mk.inj (Outcome.done.inj h)
    rfl
  | cons first rest ih =>
    obtain ⟨⟨given, next⟩, began, onward⟩ := Outcome.bind_done.mp h
    obtain ⟨⟨later, final⟩, went, same⟩ := Outcome.bind_done.mp onward
    obtain ⟨rfl, rfl⟩ := Prod.mk.inj (Outcome.pure_done.mp same)
    simp [ih went]

end Os161
