import Mathlib.Algebra.GroupWithZero.Nat

/-!
# Outcomes of atomic steps

An atomic step of C code can go through, it can have to wait, it can stop the machine on a
failed assertion, or it can touch memory that is not there. `Outcome` is the monad of such steps.
-/

namespace Os161

universe u v

/-- What an atomic step comes to. -/
inductive Outcome (α : Type u) where
  /-- The step goes through. -/
  | done (value : α)
  /-- The step needs a lock or a count that is not there yet, so it is not taken now. -/
  | blocked
  /-- An assertion fails and the machine stops. -/
  | panic
  /-- Freed memory, or memory outside an array, is touched. -/
  | fault
  deriving DecidableEq, Repr

namespace Outcome

variable {α : Type u} {β : Type v}

/-- The first step that does not go through decides the outcome of a sequence. -/
def bind (x : Outcome α) (f : α → Outcome β) : Outcome β :=
  match x with
  | done a => f a
  | blocked => blocked
  | panic => panic
  | fault => fault

instance : Monad Outcome where
  pure := done
  bind := bind

/-- The assertion `KASSERT (p)`. -/
def kassert (p : Prop) [Decidable p] : Outcome PUnit.{u + 1} := if p then done ⟨⟩ else panic

/-- Waits until `p` holds. -/
def await (p : Prop) [Decidable p] : Outcome PUnit.{u + 1} := if p then done ⟨⟩ else blocked

/-- Follows a pointer: what it points to has to be there. -/
def deref : Option α → Outcome α
  | some a => done a
  | none => fault

theorem pure_def (a : α) : (pure a : Outcome α) = done a := rfl

theorem bind_def {α β : Type u} (x : Outcome α) (f : α → Outcome β) : (x >>= f) = x.bind f := rfl

theorem pure_done {a b : α} : (pure a : Outcome α) = done b ↔ a = b := by
  simp [pure_def]

theorem bind_done {α β : Type u} {x : Outcome α} {f : α → Outcome β} {b : β} :
    (x >>= f) = done b ↔ ∃ a, x = done a ∧ f a = done b := by
  cases x <;> simp [bind_def, bind]

@[simp] theorem done_bind {α β : Type u} (a : α) (f : α → Outcome β) :
    (done a >>= f) = f a := rfl

@[simp] theorem blocked_bind {α β : Type u} (f : α → Outcome β) :
    ((blocked : Outcome α) >>= f) = blocked := rfl

@[simp] theorem panic_bind {α β : Type u} (f : α → Outcome β) :
    ((panic : Outcome α) >>= f) = panic := rfl

@[simp] theorem fault_bind {α β : Type u} (f : α → Outcome β) :
    ((fault : Outcome α) >>= f) = fault := rfl

@[simp] theorem kassert_done {p : Prop} [Decidable p] {x : PUnit} : kassert p = done x ↔ p := by
  unfold kassert
  split <;> simp_all

@[simp] theorem await_done {p : Prop} [Decidable p] {x : PUnit} : await p = done x ↔ p := by
  unfold await
  split <;> simp_all

@[simp] theorem deref_done {o : Option α} {a : α} : deref o = done a ↔ o = some a := by
  cases o <;> simp [deref]

@[simp] theorem bind_blocked {α β : Type u} {x : Outcome α} {f : α → Outcome β} :
    (x >>= f) = blocked ↔ x = blocked ∨ ∃ a, x = done a ∧ f a = blocked := by
  cases x <;> simp

theorem await_bind {p : Prop} [Decidable p] (h : p) (f : PUnit → Outcome α) :
    (await p >>= f) = f ⟨⟩ := by
  simp [await, h]

theorem kassert_bind {p : Prop} [Decidable p] (h : p) (f : PUnit → Outcome α) :
    (kassert p >>= f) = f ⟨⟩ := by
  simp [kassert, h]

theorem kassert_fails {p : Prop} [Decidable p] (h : ¬ p) (f : PUnit → Outcome α) :
    (kassert p >>= f) = panic := by
  simp [kassert, h]

theorem deref_bind {α β : Type u} {o : Option α} {a : α} (h : o = some a) (f : α → Outcome β) :
    (deref o >>= f) = f a := by
  simp [deref, h]

theorem bind_ne_blocked {α β : Type u} {x : Outcome α} {f : α → Outcome β} (first : x ≠ blocked)
    (rest : ∀ a, f a ≠ blocked) : (x >>= f) ≠ blocked := by
  rw [Ne, bind_blocked, not_or]
  exact ⟨first, fun ⟨a, _, waits⟩ => rest a waits⟩

@[simp] theorem pure_ne_blocked {a : α} : (pure a : Outcome α) ≠ blocked := by simp [pure_def]

@[simp] theorem kassert_ne_blocked {p : Prop} [Decidable p] : kassert p ≠ blocked := by
  unfold kassert
  split <;> simp

@[simp] theorem await_blocked {p : Prop} [Decidable p] : await p = blocked ↔ ¬ p := by
  unfold await
  split <;> simp_all

@[simp] theorem deref_ne_blocked {o : Option α} : deref o ≠ blocked := by
  cases o <;> simp [deref]

/-- The weakest precondition of a step that may have to wait but must not fail. -/
def Meets (P : α → Prop) : Outcome α → Prop
  | done a => P a
  | blocked => True
  | panic => False
  | fault => False

section Meets

variable {P Q : α → Prop}

@[simp] theorem meets_done {a : α} : (done a).Meets P = P a := rfl

@[simp] theorem meets_blocked : (blocked : Outcome α).Meets P := trivial

@[simp] theorem meets_pure {a : α} : (pure a : Outcome α).Meets P = P a := rfl

@[simp] theorem meets_bind {α β : Type u} {x : Outcome α} {f : α → Outcome β} {P : β → Prop} :
    (x >>= f).Meets P = x.Meets fun a => (f a).Meets P := by
  cases x <;> rfl

@[simp] theorem meets_kassert {p : Prop} [Decidable p] {P : PUnit → Prop} :
    (kassert p).Meets P = (p ∧ P ⟨⟩) := by
  unfold kassert
  split <;> simp_all [Meets]

@[simp] theorem meets_await {p : Prop} [Decidable p] {P : PUnit → Prop} :
    (await p).Meets P = (p → P ⟨⟩) := by
  unfold await
  split <;> simp_all [Meets]

@[simp] theorem meets_deref {o : Option α} : (deref o).Meets P = (∃ a, o = some a ∧ P a) := by
  cases o <;> simp [deref, Meets]

theorem Meets.mono {x : Outcome α} (h : x.Meets P) (imp : ∀ a, P a → Q a) : x.Meets Q := by
  cases x with
  | done a => exact imp a h
  | blocked => trivial
  | _ => exact h

/-- A step that must not fail and does not wait goes through. -/
theorem Meets.goes {x : Outcome α} (h : x.Meets P) (ready : x ≠ blocked) : ∃ a, x = done a := by
  cases x with
  | done a => exact ⟨a, rfl⟩
  | blocked => exact (ready rfl).elim
  | _ => exact h.elim

theorem Meets.of_done {x : Outcome α} {a : α} (h : x.Meets P) (value : x = done a) : P a := by
  subst value
  exact h

theorem Meets.and_ensures {x : Outcome α} (h : x.Meets P) (more : ∀ a, x = done a → Q a) :
    x.Meets fun a => P a ∧ Q a := by
  cases x with
  | done a => exact ⟨h, more a rfl⟩
  | blocked => trivial
  | _ => exact h

theorem Meets.not_panic {x : Outcome α} (h : x.Meets P) : x ≠ panic := by
  rintro rfl
  exact h

theorem Meets.not_fault {x : Outcome α} (h : x.Meets P) : x ≠ fault := by
  rintro rfl
  exact h

end Meets

/-- The weakest precondition of a step that may wait or fail. -/
def Ensures (x : Outcome α) (P : α → Prop) : Prop := ∀ a, x = done a → P a

/-- The step goes through and its result passes a test. -/
def passes (x : Outcome α) (test : α → Bool) : Bool :=
  match x with
  | done a => test a
  | _ => false

theorem passes_done {x : Outcome α} {test : α → Bool} (h : x.passes test = true) :
    ∃ a, x = done a ∧ test a = true := by
  cases x with
  | done a => exact ⟨a, rfl, h⟩
  | _ => cases h

/-- The step stops the machine. -/
def panics (x : Outcome α) : Bool :=
  match x with
  | panic => true
  | _ => false

theorem eq_panic {x : Outcome α} (h : x.panics = true) : x = panic := by
  cases x with
  | panic => rfl
  | _ => cases h

section Ensures

variable {P Q : α → Prop}

@[simp] theorem ensures_done {a : α} : (done a).Ensures P = P a := by simp [Ensures]

@[simp] theorem ensures_blocked : (blocked : Outcome α).Ensures P := by simp [Ensures]

@[simp] theorem ensures_panic : (panic : Outcome α).Ensures P := by simp [Ensures]

@[simp] theorem ensures_fault : (fault : Outcome α).Ensures P := by simp [Ensures]

@[simp] theorem ensures_pure {a : α} : (pure a : Outcome α).Ensures P = P a := ensures_done

@[simp] theorem ensures_bind {α β : Type u} {x : Outcome α} {f : α → Outcome β} {P : β → Prop} :
    (x >>= f).Ensures P = x.Ensures fun a => (f a).Ensures P := by
  cases x <;> simp

@[simp] theorem ensures_kassert {p : Prop} [Decidable p] {P : PUnit → Prop} :
    (kassert p).Ensures P = (p → P ⟨⟩) :=
  propext ⟨fun h holds => h ⟨⟩ (kassert_done.mpr holds), fun h _ value => h (kassert_done.mp value)⟩

@[simp] theorem ensures_await {p : Prop} [Decidable p] {P : PUnit → Prop} :
    (await p).Ensures P = (p → P ⟨⟩) :=
  propext ⟨fun h holds => h ⟨⟩ (await_done.mpr holds), fun h _ value => h (await_done.mp value)⟩

@[simp] theorem ensures_deref {o : Option α} :
    (deref o).Ensures P = (∀ a, o = some a → P a) := by
  simp [Ensures]

theorem Ensures.mono {x : Outcome α} (h : x.Ensures P) (imp : ∀ a, P a → Q a) : x.Ensures Q :=
  fun a value => imp a (h a value)

theorem Ensures.and {x : Outcome α} (h : x.Ensures P) (h' : x.Ensures Q) :
    x.Ensures fun a => P a ∧ Q a :=
  fun a value => ⟨h a value, h' a value⟩

/-- What the first part ensures is what the rest starts from. -/
theorem Ensures.then {α β : Type u} {x : Outcome α} {f : α → Outcome β} {P : α → Prop}
    {Q : β → Prop} (first : x.Ensures P) (rest : ∀ a, P a → (f a).Ensures Q) :
    (x >>= f).Ensures Q :=
  ensures_bind.mpr (first.mono rest)

/-- A sequence does not wait if neither the first part does nor what comes after it. -/
theorem Ensures.ne_blocked {α β : Type u} {x : Outcome α} {f : α → Outcome β} {P : α → Prop}
    (first : x ≠ blocked) (spec : x.Ensures P) (rest : ∀ a, P a → f a ≠ blocked) :
    (x >>= f) ≠ blocked := by
  rw [Ne, bind_blocked, not_or]
  exact ⟨first, fun ⟨a, value, waits⟩ => rest a (spec a value) waits⟩

end Ensures

/-- The weakest precondition of a step that must not fault, while its assertions may fail. -/
def Faultless (P : α → Prop) : Outcome α → Prop
  | done a => P a
  | blocked => True
  | panic => True
  | fault => False

section Faultless

variable {P Q : α → Prop}

@[simp] theorem faultless_done {a : α} : (done a).Faultless P = P a := rfl

@[simp] theorem faultless_pure {a : α} : (pure a : Outcome α).Faultless P = P a := rfl

@[simp] theorem faultless_blocked : (blocked : Outcome α).Faultless P := trivial

@[simp] theorem faultless_panic : (panic : Outcome α).Faultless P := trivial

@[simp] theorem faultless_bind {α β : Type u} {x : Outcome α} {f : α → Outcome β} {P : β → Prop} :
    (x >>= f).Faultless P = x.Faultless fun a => (f a).Faultless P := by
  cases x <;> simp [Faultless]

@[simp] theorem faultless_kassert {p : Prop} [Decidable p] {P : PUnit → Prop} :
    (kassert p).Faultless P = (p → P ⟨⟩) := by
  by_cases holds : p <;> simp [kassert, holds]

@[simp] theorem faultless_await {p : Prop} [Decidable p] {P : PUnit → Prop} :
    (await p).Faultless P = (p → P ⟨⟩) := by
  by_cases holds : p <;> simp [await, holds]

theorem Faultless.mono {x : Outcome α} (h : x.Faultless P) (imp : ∀ a, P a → Q a) :
    x.Faultless Q := by
  cases x with
  | done a => exact imp a h
  | fault => cases h
  | _ => trivial

theorem Faultless.of_done {x : Outcome α} {a : α} (h : x.Faultless P) (value : x = done a) : P a := by
  rw [value] at h
  exact h

theorem Faultless.not_fault {x : Outcome α} (h : x.Faultless P) : x ≠ fault := by
  rintro rfl
  cases h

theorem Faultless.and_ensures {x : Outcome α} (h : x.Faultless P) (more : x.Ensures Q) :
    x.Faultless fun a => P a ∧ Q a := by
  cases x with
  | done a => exact ⟨h, ensures_done.mp more⟩
  | fault => cases h
  | _ => trivial

theorem Meets.faultless {x : Outcome α} (h : x.Meets P) : x.Faultless P := by
  cases x <;> first | exact h | trivial | cases h

end Faultless

end Outcome

/-! The sizes of small index types. With these by name a numeral of such a type has no proof of its
own. -/

instance (priority := 2000) neZeroOne : NeZero 1 := ⟨by decide⟩

instance (priority := 2000) neZeroTwo : NeZero 2 := ⟨by decide⟩

instance (priority := 2000) neZeroThree : NeZero 3 := ⟨by decide⟩

instance (priority := 2000) neZeroFour : NeZero 4 := ⟨by decide⟩

instance (priority := 2000) neZeroSlots : NeZero 32 := ⟨by decide⟩

instance (priority := 2000) neZeroWords : NeZero 128 := ⟨by decide⟩

end Os161
