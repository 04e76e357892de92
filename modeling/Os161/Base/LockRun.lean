import Mathlib.Data.List.Basic
import Os161.Base.Heap
import Os161.Base.LockCode

/-!
# Code run by one thread alone

What code does from beginning to end when no other thread runs beside it, and a calculus for it.
-/

namespace Os161.Locks

variable {S L C α β : Type}

/-- The thread: the data, the locks that it has, what it will be told from outside, and the changes of
the data so far, each with the locks that were held and the data before and after. -/
structure Alone (S L C : Type) where
  data : S
  held : List L
  choices : List C
  changes : List (List L × S × S)

variable [DecidableEq L]

def Code.alone (recursive : L → Bool) : Code S L C α → Alone S L C → Outcome (α × Alone S L C)
  | .pure a, t => .done (a, t)
  | .look next, t => (next t.data).alone recursive t
  | .act f next, t => do
    let data ← f t.data
    next.alone recursive { t with data := data, changes := (t.held, t.data, data) :: t.changes }
  | .choose next, t =>
    match t.choices with
    | [] => .blocked
    | choice :: rest => (next choice).alone recursive { t with choices := rest }
  | .acquire l next, t =>
    if l ∈ t.held ∧ recursive l = false then .panic
    else next.alone recursive { t with held := l :: t.held }
  | .release l next, t =>
    if l ∈ t.held then next.alone recursive { t with held := t.held.erase l } else .panic
  | .destroy l next, t => if l ∈ t.held then .panic else next.alone recursive t
  | .panic, _ => .panic

/-- Every change of the data is one that `safe` lets pass. -/
def Alone.Safe (safe : List L → S → S → Prop) (t : Alone S L C) : Prop :=
  ∀ change ∈ t.changes, safe change.1 change.2.1 change.2.2

section

variable {recursive : L → Bool} {safe : List L → S → S → Prop} {c : Code S L C α} {s : S} {h : List L}
variable {P Q : α → S → List L → Prop}

/-- The weakest precondition of code that must not fail, whatever it is told, and whose changes of the
data are all `safe`. -/
def Code.Does (recursive : L → Bool) (safe : List L → S → S → Prop) :
    Code S L C α → S → List L → (α → S → List L → Prop) → Prop
  | .pure a, s, h, P => P a s h
  | .look next, s, h, P => (next s).Does recursive safe s h P
  | .act f next, s, h, P => (f s).Meets fun t => safe h s t ∧ next.Does recursive safe t h P
  | .choose next, s, h, P => ∀ choice, (next choice).Does recursive safe s h P
  | .acquire l next, s, h, P =>
    (l ∈ h → recursive l = true) ∧ next.Does recursive safe s (l :: h) P
  | .release l next, s, h, P => l ∈ h ∧ next.Does recursive safe s (h.erase l) P
  | .destroy l next, s, h, P => l ∉ h ∧ next.Does recursive safe s h P
  | .panic, _, _, _ => False

/-- What holds of code in the calculus holds of its run. -/
theorem Code.Does.alone {t : Alone S L C} (does : c.Does recursive safe t.data t.held P)
    (before : t.Safe safe) :
    (c.alone recursive t).Meets fun out => P out.1 out.2.data out.2.held ∧ out.2.Safe safe := by
  induction c generalizing t with
  | pure a => exact ⟨does, before⟩
  | look next ih => exact ih _ does before
  | act f next ih =>
    refine Outcome.meets_bind.mpr (Outcome.Meets.mono does ?_)
    rintro data ⟨pass, after⟩
    refine ih (t := { t with data := data, changes := (t.held, t.data, data) :: t.changes }) after ?_
    intro change mem
    obtain rfl | old := List.mem_cons.mp mem
    · exact pass
    · exact before change old
  | choose next ih =>
    obtain ⟨data, held, choices, changes⟩ := t
    cases choices with
    | nil => exact Outcome.meets_blocked
    | cons choice rest => exact ih choice (does choice) before
  | acquire l next ih =>
    unfold Code.alone
    rw [if_neg]
    · exact ih does.2 before
    · rintro ⟨mem, once⟩
      rw [does.1 mem] at once
      cases once
  | release l next ih =>
    unfold Code.alone
    rw [if_pos does.1]
    exact ih does.2 before
  | destroy l next ih =>
    unfold Code.alone
    rw [if_neg does.1]
    exact ih does.2 before
  | panic => exact does

theorem Code.Does.mono (does : c.Does recursive safe s h P) (imp : ∀ a s h, P a s h → Q a s h) :
    c.Does recursive safe s h Q := by
  induction c generalizing s h with
  | pure a => exact imp a s h does
  | look next ih => exact ih s does
  | act f next ih => exact Outcome.Meets.mono does fun t after => ⟨after.1, ih after.2⟩
  | choose next ih => exact fun choice => ih choice (does choice)
  | acquire l next ih => exact ⟨does.1, ih does.2⟩
  | release l next ih => exact ⟨does.1, ih does.2⟩
  | destroy l next ih => exact ⟨does.1, ih does.2⟩
  | panic => exact does

@[simp] theorem does_pure {a : α} : (pure a : Code S L C α).Does recursive safe s h P = P a s h := rfl

@[simp] theorem does_bind {f : α → Code S L C β} {P : β → S → List L → Prop} :
    (c >>= f).Does recursive safe s h P =
      c.Does recursive safe s h fun a t k => (f a).Does recursive safe t k P := by
  apply propext
  show (c.bind f).Does recursive safe s h P ↔ _
  induction c generalizing s h with
  | pure a => exact Iff.rfl
  | look next ih => exact ih s
  | act g next ih =>
    have same : (fun t => safe h s t ∧ (next.bind f).Does recursive safe t h P) = fun t => safe h s t ∧
        next.Does recursive safe t h fun a t k => (f a).Does recursive safe t k P :=
      funext fun t => propext (and_congr_right fun _ => ih)
    exact Iff.of_eq (congrArg (fun Q => (g s).Meets Q) same)
  | choose next ih => exact forall_congr' fun choice => ih choice
  | acquire l next ih => exact and_congr_right fun _ => ih
  | release l next ih => exact and_congr_right fun _ => ih
  | destroy l next ih => exact and_congr_right fun _ => ih
  | panic => exact Iff.rfl

@[simp] theorem does_look {P : S → S → List L → Prop} :
    (look : Code S L C S).Does recursive safe s h P = P s s h := rfl

@[simp] theorem does_act {f : S → Outcome S} {P : Unit → S → List L → Prop} :
    (act f : Code S L C Unit).Does recursive safe s h P =
      (f s).Meets fun t => safe h s t ∧ P () t h := rfl

@[simp] theorem does_choose {P : C → S → List L → Prop} :
    (choose : Code S L C C).Does recursive safe s h P = (∀ choice, P choice s h) := rfl

@[simp] theorem does_acquire {l : L} {P : Unit → S → List L → Prop} :
    (acquire l : Code S L C Unit).Does recursive safe s h P =
      ((l ∈ h → recursive l = true) ∧ P () s (l :: h)) := rfl

@[simp] theorem does_release {l : L} {P : Unit → S → List L → Prop} :
    (release l : Code S L C Unit).Does recursive safe s h P = (l ∈ h ∧ P () s (h.erase l)) := rfl

@[simp] theorem does_destroy {l : L} {P : Unit → S → List L → Prop} :
    (destroy l : Code S L C Unit).Does recursive safe s h P = (l ∉ h ∧ P () s h) := rfl

@[simp] theorem does_kassert {p : Prop} [Decidable p] {P : Unit → S → List L → Prop} :
    (kassert p : Code S L C Unit).Does recursive safe s h P = (p ∧ P () s h) := by
  unfold kassert
  split
  · rename_i holds
    exact propext ⟨fun after => ⟨holds, after⟩, fun both => both.2⟩
  · rename_i fails
    exact propext ⟨fun wrong => wrong.elim, fun both => absurd both.1 fails⟩

@[simp] theorem does_deref {o : Option α} :
    (deref o : Code S L C α).Does recursive safe s h P = (∃ a, o = some a ∧ P a s h) := by
  cases o with
  | none => exact propext ⟨fun wrong => wrong.elim, fun ⟨_, wrong, _⟩ => (nomatch wrong)⟩
  | some a => exact propext ⟨fun after => ⟨a, rfl, after⟩, fun ⟨_, same, after⟩ => Option.some.inj same ▸ after⟩

end

/-! ### Code that fails -/

variable {recursive : L → Bool} {c : Code S L C α} {t u : Alone S L C}

/-- The run of a sequence is the run of its parts. -/
theorem alone_bind {f : α → Code S L C β} :
    (c >>= f).alone recursive t = c.alone recursive t >>= fun out => (f out.1).alone recursive out.2 := by
  show (c.bind f).alone recursive t = _
  induction c generalizing t with
  | pure a => rfl
  | look next ih => exact ih _
  | act g next ih =>
    change (g t.data >>= fun data => (next.bind f).alone recursive _) = (g t.data >>= _) >>= _
    cases g t.data with
    | done data => exact ih
    | _ => rfl
  | choose next ih =>
    obtain ⟨data, held, choices, changes⟩ := t
    cases choices with
    | nil => rfl
    | cons choice rest => exact ih choice
  | acquire l next ih =>
    change (if _ then _ else (next.bind f).alone recursive _) = (if _ then _ else _) >>= _
    split
    · rfl
    · exact ih
  | release l next ih =>
    change (if _ then (next.bind f).alone recursive _ else _) = (if _ then _ else _) >>= _
    split
    · exact ih
    · rfl
  | destroy l next ih =>
    change (if _ then _ else (next.bind f).alone recursive _) = (if _ then _ else _) >>= _
    split
    · rfl
    · exact ih
  | panic => rfl

theorem alone_done {f : α → Code S L C β} {a : α} (first : c.alone recursive t = .done (a, u)) :
    (c >>= f).alone recursive t = (f a).alone recursive u := by
  rw [alone_bind, first]
  rfl

@[simp] theorem alone_look {f : S → Code S L C β} :
    (look >>= f).alone recursive t = (f t.data).alone recursive t := rfl

theorem alone_act {g : S → Outcome S} {f : Unit → Code S L C β} {s : S} (goes : g t.data = .done s) :
    (act g >>= f).alone recursive t =
      (f ()).alone recursive { t with data := s, changes := (t.held, t.data, s) :: t.changes } := by
  change (g t.data >>= _) = _
  rw [goes]
  rfl

/-- A change that always goes through. -/
theorem alone_change {g : S → S} {f : Unit → Code S L C β} :
    (act (fun s => pure (g s)) >>= f).alone recursive t = (f ()).alone recursive
      { t with data := g t.data, changes := (t.held, t.data, g t.data) :: t.changes } :=
  rfl

theorem alone_acquire {l : L} {f : Unit → Code S L C β} (may : l ∈ t.held → recursive l = true) :
    (acquire l >>= f).alone recursive t = (f ()).alone recursive { t with held := l :: t.held } := by
  refine if_neg fun both => ?_
  rw [may both.1] at both
  cases both.2

theorem alone_release {l : L} {f : Unit → Code S L C β} (held : l ∈ t.held) :
    (release l >>= f).alone recursive t = (f ()).alone recursive { t with held := t.held.erase l } :=
  if_pos held

/-- Without the lock. -/
theorem alone_release_panic {l : L} {f : Unit → Code S L C β} (free : l ∉ t.held) :
    (release l >>= f).alone recursive t = .panic :=
  if_neg free

theorem alone_destroy {l : L} {f : Unit → Code S L C β} (free : l ∉ t.held) :
    (destroy l >>= f).alone recursive t = (f ()).alone recursive t :=
  if_neg free

theorem alone_kassert {p : Prop} [Decidable p] {f : Unit → Code S L C β} (holds : p) :
    (kassert p >>= f).alone recursive t = (f ()).alone recursive t := by
  unfold kassert
  rw [if_pos holds]
  rfl

theorem alone_deref {o : Option α} {a : α} {f : α → Code S L C β} (is : o = some a) :
    (deref o >>= f).alone recursive t = (f a).alone recursive t := by
  subst is
  rfl

theorem alone_panic {f : α → Code S L C β} (first : c.alone recursive t = .panic) :
    (c >>= f).alone recursive t = .panic := by
  rw [alone_bind, first]
  rfl

end Os161.Locks
