import Os161.Base.Outcome

/-!
# Calls that can fail

Code that works on a state of type `σ`, takes from a world `ω` outside of it, and can come back with
an error. What it changed before the error stays changed.
-/

namespace Os161

def Fallible (ε ω σ α : Type) := σ → ω → Outcome (Except ε α × σ × ω)

namespace Fallible

variable {ε ω σ τ α β : Type}

def pure (a : α) : Fallible ε ω σ α := fun s w => .done (.ok a, s, w)

/-- The first error ends a sequence. -/
def bind (x : Fallible ε ω σ α) (f : α → Fallible ε ω σ β) : Fallible ε ω σ β := fun s w =>
  x s w >>= fun
    | (.ok a, s, w) => f a s w
    | (.error e, s, w) => .done (.error e, s, w)

instance : Monad (Fallible ε ω σ) where
  pure := pure
  bind := bind

def fail (e : ε) : Fallible ε ω σ α := fun s w => .done (.error e, s, w)

def get : Fallible ε ω σ σ := fun s w => .done (.ok s, s, w)

def modify (f : σ → σ) : Fallible ε ω σ Unit := fun s w => .done (.ok (), f s, w)

/-- A step that cannot fail and has nothing to do with the world. -/
def lift (step : σ → Outcome (α × σ)) : Fallible ε ω σ α := fun s w =>
  step s >>= fun (a, s) => .done (.ok a, s, w)

/-- The assertion `KASSERT (p)`. -/
def kassert (p : Prop) [Decidable p] : Fallible ε ω σ Unit := fun s w =>
  if p then .done (.ok (), s, w) else .panic

def panic : Fallible ε ω σ α := fun _ _ => .panic

/-- The error as a value, for code that has something to do about it. -/
def attempt (x : Fallible ε ω σ α) : Fallible ε ω σ (Except ε α) := fun s w =>
  x s w >>= fun (r, s, w) => .done (.ok r, s, w)

/-- A call that works on a part of the state. -/
def within (view : σ → τ) (put : σ → τ → σ) (x : Fallible ε ω τ α) : Fallible ε ω σ α := fun s w =>
  x (view s) w >>= fun (r, t, w) => .done (r, put s t, w)

/-- The call comes back, and its result and the new state and world meet `P`. -/
def Returns (x : Fallible ε ω σ α) (s : σ) (w : ω) (P : Except ε α → σ → ω → Prop) : Prop :=
  ∃ r t v, x s w = .done (r, t, v) ∧ P r t v

/-- If the call comes back, its result and the new state and world meet `P`. -/
def Ensures (x : Fallible ε ω σ α) (s : σ) (w : ω) (P : Except ε α → σ → ω → Prop) : Prop :=
  (x s w).Ensures fun out => P out.1 out.2.1 out.2.2

variable {x : Fallible ε ω σ α} {f : α → Fallible ε ω σ β} {s : σ} {w : ω}
variable {P Q : Except ε α → σ → ω → Prop} {R : Except ε β → σ → ω → Prop}

theorem bind_ok {a : α} {t : σ} {v : ω} (first : x s w = .done (.ok a, t, v)) :
    (x >>= f) s w = f a t v := by
  change (x s w >>= _) = _
  rw [first]
  rfl

theorem bind_error {e : ε} {t : σ} {v : ω} (first : x s w = .done (.error e, t, v)) :
    (x >>= f) s w = .done (.error e, t, v) := by
  change (x s w >>= _) = _
  rw [first]
  rfl

/-- A sequence that succeeds has a first part that does. -/
theorem of_bind_ok {b : β} {t : σ} {v : ω} (goes : (x >>= f) s w = .done (.ok b, t, v)) :
    ∃ a u y, x s w = .done (.ok a, u, y) ∧ f a u y = .done (.ok b, t, v) := by
  obtain ⟨⟨r, u, y⟩, first, rest⟩ := Outcome.bind_done.mp goes
  cases r with
  | ok a => exact ⟨a, u, y, first, rest⟩
  | error e => cases rest

theorem lift_panic {step : σ → Outcome (α × σ)} (fails : step s = .panic) :
    (lift step : Fallible ε ω σ α) s w = .panic := by
  unfold lift
  rw [fails]
  rfl

theorem of_lift_ok {step : σ → Outcome (α × σ)} {a : α} {t : σ} {v : ω}
    (goes : (lift step : Fallible ε ω σ α) s w = .done (.ok a, t, v)) : step s = .done (a, t) ∧ v = w := by
  obtain ⟨⟨b, u⟩, first, same⟩ := Outcome.bind_done.mp goes
  cases same
  exact ⟨first, rfl⟩

theorem bind_panic (first : x s w = .panic) : (x >>= f) s w = .panic := by
  change (x s w >>= _) = _
  rw [first]
  rfl

@[simp] theorem get_bind {f : σ → Fallible ε ω σ β} : (get >>= f) s w = f s s w := rfl

@[simp] theorem modify_bind {g : σ → σ} {f : Unit → Fallible ε ω σ β} :
    (modify g >>= f) s w = f () (g s) w := rfl

@[simp] theorem pure_bind {a : α} : ((Pure.pure a : Fallible ε ω σ α) >>= f) s w = f a s w := rfl

@[simp] theorem fail_bind {e : ε} : ((fail e : Fallible ε ω σ α) >>= f) s w = .done (.error e, s, w) :=
  rfl

theorem kassert_bind {p : Prop} [Decidable p] {f : Unit → Fallible ε ω σ β} (holds : p) :
    (kassert p >>= f) s w = f () s w := by
  apply bind_ok
  exact if_pos holds

theorem lift_eq {step : σ → Outcome (α × σ)} {a : α} {t : σ} (goes : step s = .done (a, t)) :
    (lift step : Fallible ε ω σ α) s w = .done (.ok a, t, w) := by
  unfold lift
  rw [goes]
  rfl

theorem lift_bind {step : σ → Outcome (α × σ)} {a : α} {t : σ} (goes : step s = .done (a, t)) :
    (lift step >>= f) s w = f a t w :=
  bind_ok (lift_eq goes)

theorem attempt_bind {f : Except ε α → Fallible ε ω σ β} {r : Except ε α} {t : σ} {v : ω}
    (goes : x s w = .done (r, t, v)) : (attempt x >>= f) s w = f r t v := by
  apply bind_ok
  unfold attempt
  rw [goes]
  rfl

theorem within_eq {view : σ → τ} {put : σ → τ → σ} {x : Fallible ε ω τ α} {r : Except ε α} {t : τ}
    {v : ω} (goes : x (view s) w = .done (r, t, v)) :
    within view put x s w = .done (r, put s t, v) := by
  unfold within
  rw [goes]
  rfl

theorem Returns.mono (h : x.Returns s w P) (imp : ∀ r t v, P r t v → Q r t v) : x.Returns s w Q := by
  obtain ⟨r, t, v, goes, holds⟩ := h
  exact ⟨r, t, v, goes, imp r t v holds⟩

theorem returns_pure {a : α} (holds : P (.ok a) s w) :
    (Pure.pure a : Fallible ε ω σ α).Returns s w P :=
  ⟨_, _, _, rfl, holds⟩

theorem returns_fail {e : ε} (holds : P (.error e) s w) :
    (fail e : Fallible ε ω σ α).Returns s w P :=
  ⟨_, _, _, rfl, holds⟩

/-- A sequence comes back when its first part does, and the rest after every success of it. -/
theorem Returns.bind (first : x.Returns s w P) (rest : ∀ a t v, P (.ok a) t v → (f a).Returns t v R)
    (failed : ∀ e t v, P (.error e) t v → R (.error e) t v) : (x >>= f).Returns s w R := by
  obtain ⟨r, t, v, goes, holds⟩ := first
  cases r with
  | ok a =>
    obtain ⟨r, u, y, goes', holds'⟩ := rest a t v holds
    exact ⟨r, u, y, (bind_ok goes).trans goes', holds'⟩
  | error e => exact ⟨_, _, _, bind_error goes, failed e t v holds⟩

/-- What a call returns when it comes back is what it is known to return. -/
theorem Returns.of_done (h : x.Returns s w P) {r : Except ε α} {t : σ} {v : ω}
    (goes : x s w = .done (r, t, v)) : P r t v := by
  obtain ⟨r', t', v', goes', holds⟩ := h
  rw [goes] at goes'
  cases goes'
  exact holds

theorem Returns.within {view : σ → τ} {put : σ → τ → σ} {x : Fallible ε ω τ α}
    {P : Except ε α → τ → ω → Prop} (h : x.Returns (view s) w P) :
    (within view put x).Returns s w fun r t v => ∃ u, P r u v ∧ t = put s u := by
  obtain ⟨r, u, v, goes, holds⟩ := h
  exact ⟨r, put s u, v, within_eq goes, u, holds, rfl⟩

section Ensures

theorem Ensures.mono (h : x.Ensures s w P) (imp : ∀ r t v, P r t v → Q r t v) : x.Ensures s w Q :=
  Outcome.Ensures.mono h fun _ => imp _ _ _

theorem Ensures.of_done (h : x.Ensures s w P) {r : Except ε α} {t : σ} {v : ω}
    (goes : x s w = .done (r, t, v)) : P r t v :=
  h _ goes

/-- A call that goes on as another one does ensures what that one does. -/
theorem Ensures.of_eq {y : Fallible ε ω σ α} {t : σ} {v : ω} (same : x s w = y t v) (h : y.Ensures t v P) :
    x.Ensures s w P := by
  unfold Ensures
  rw [same]
  exact h

/-- What a call is known to do, if it comes back, is what it ensures. -/
theorem ensures_of {P : Except ε α → σ → ω → Prop} (h : ∀ r t v, x s w = .done (r, t, v) → P r t v) :
    x.Ensures s w P :=
  fun out goes => h out.1 out.2.1 out.2.2 goes

theorem Ensures.bind (first : x.Ensures s w P) (rest : ∀ a t v, P (.ok a) t v → (f a).Ensures t v R)
    (failed : ∀ e t v, P (.error e) t v → R (.error e) t v) : (x >>= f).Ensures s w R := by
  change Outcome.Ensures (x s w >>= _) _
  refine Outcome.Ensures.then first ?_
  rintro ⟨r, t, v⟩ holds
  cases r with
  | ok a => exact rest a t v holds
  | error e => exact Outcome.ensures_done.mpr (failed e t v holds)

@[simp] theorem ensures_pure {a : α} : (Pure.pure a : Fallible ε ω σ α).Ensures s w P = P (.ok a) s w :=
  Outcome.ensures_done

@[simp] theorem ensures_panic : (panic : Fallible ε ω σ α).Ensures s w P := Outcome.ensures_panic

theorem ensures_get_bind {f : σ → Fallible ε ω σ α} :
    (get >>= f).Ensures s w P ↔ (f s).Ensures s w P :=
  Iff.rfl

@[simp] theorem ensures_modify {g : σ → σ} {P : Except ε Unit → σ → ω → Prop} :
    (modify g).Ensures s w P = P (.ok ()) (g s) w :=
  Outcome.ensures_done

theorem ensures_kassert {p : Prop} [Decidable p] {P : Except ε Unit → σ → ω → Prop}
    (holds : p → P (.ok ()) s w) : (kassert p).Ensures s w P := by
  unfold kassert Ensures
  dsimp only
  by_cases test : p
  · rw [if_pos test]
    exact Outcome.ensures_done.mpr (holds test)
  · rw [if_neg test]
    exact Outcome.ensures_panic

theorem ensures_lift {step : σ → Outcome (α × σ)} (goes : (step s).Ensures fun out => P (.ok out.1) out.2 w) :
    (lift step : Fallible ε ω σ α).Ensures s w P :=
  goes.then fun _ holds => Outcome.ensures_done.mpr holds

theorem Ensures.within {view : σ → τ} {put : σ → τ → σ} {x : Fallible ε ω τ α}
    {P : Except ε α → σ → ω → Prop} (h : x.Ensures (view s) w fun r t v => P r (put s t) v) :
    (within view put x).Ensures s w P :=
  Outcome.Ensures.then h fun _ holds => Outcome.ensures_done.mpr holds

theorem Ensures.attempt {P : Except ε (Except ε α) → σ → ω → Prop}
    (h : x.Ensures s w fun r t v => P (.ok r) t v) : (attempt x).Ensures s w P :=
  Outcome.Ensures.then h fun _ holds => Outcome.ensures_done.mpr holds

end Ensures

end Fallible

end Os161
