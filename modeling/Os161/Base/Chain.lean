import Os161.Base.Outcome
import Mathlib.Data.List.Nodup
import Mathlib.Logic.Function.Basic

/-!
# Singly linked lists

A linked list is its first element and the function that takes every element to the next one. The
loops take the number of steps they may make, and enough of it for the length of the list is
enough.
-/

namespace Os161.Chain

variable {α : Type}

/-- The links from `p` on go through the elements of `l` in order and end there. -/
def Linked (next : α → Option α) : Option α → List α → Prop
  | p, [] => p = none
  | p, a :: l => p = some a ∧ Linked next (next a) l

/-- Follows the links from `p` on, up to the first element at which the loop body breaks. -/
def search (next : α → Option α) (body : α → Outcome Bool) : Nat → Option α → Outcome (Option α)
  | _, none => .done none
  | 0, some _ => .fault
  | fuel + 1, some a => do
    if ← body a then return some a else search next body fuel (next a)

/-- Takes `x` out of the list behind `prev`. -/
def unlinkAfter [DecidableEq α] (next : α → Option α) (x : α) :
    Nat → α → Outcome (α → Option α)
  | 0, _ => .fault
  | fuel + 1, prev =>
    match next prev with
    | none => .done next
    | some a =>
      if a = x then .done (Function.update next prev (next x)) else unlinkAfter next x fuel a

/-- Takes `x` out of the list at `p`: the first link to `x` is set to what comes after it. -/
def unlink [DecidableEq α] (next : α → Option α) (x : α) (fuel : Nat) :
    Option α → Outcome (Option α × (α → Option α))
  | none => .done (none, next)
  | some a =>
    if a = x then .done (next x, next)
    else do
      let next ← unlinkAfter next x fuel a
      return (some a, next)

variable {next next' : α → Option α} {p : Option α} {a x : α} {l : List α} {fuel : Nat}

@[simp] theorem linked_nil : Linked next p [] ↔ p = none := Iff.rfl

@[simp] theorem linked_cons : Linked next p (a :: l) ↔ p = some a ∧ Linked next (next a) l :=
  Iff.rfl

theorem Linked.unique {l' : List α} (h : Linked next p l) (h' : Linked next p l') : l = l' := by
  induction l generalizing p l' with
  | nil =>
    cases l' with
    | nil => rfl
    | cons b l' => simp_all
  | cons a l ih =>
    cases l' with
    | nil => simp_all
    | cons b l' =>
      obtain ⟨first, rest⟩ := h
      obtain ⟨first', rest'⟩ := h'
      obtain rfl : a = b := Option.some.inj (first.symm.trans first')
      rw [ih rest rest']

/-- Only the links of the elements matter. -/
theorem Linked.congr (h : Linked next p l) (same : ∀ a ∈ l, next' a = next a) :
    Linked next' p l := by
  induction l generalizing p with
  | nil => exact h
  | cons a l ih =>
    refine ⟨h.1, ?_⟩
    rw [same a (List.mem_cons_self ..)]
    exact ih h.2 fun b mem => same b (List.mem_cons_of_mem _ mem)

variable [DecidableEq α]

theorem Linked.update (h : Linked next p l) (absent : x ∉ l) (q : Option α) :
    Linked (Function.update next x q) p l := by
  apply h.congr
  intro a mem
  have other : a ≠ x := by
    intro same
    exact absent (same ▸ mem)
  exact Function.update_of_ne other ..

/-- A new element that is linked to the first one is the first one. -/
theorem Linked.push (h : Linked next p l) (absent : x ∉ l) :
    Linked (Function.update next x p) (some x) (x :: l) := by
  refine ⟨rfl, ?_⟩
  rw [Function.update_self]
  exact h.update absent p

omit [DecidableEq α] in
theorem search_linked {body : α → Outcome Bool} {test : α → Bool} (h : Linked next p l)
    (enough : l.length ≤ fuel) (goes : ∀ a ∈ l, body a = .done (test a)) :
    search next body fuel p = .done (l.find? test) := by
  induction l generalizing p fuel with
  | nil =>
    rw [linked_nil.mp h]
    cases fuel <;> rfl
  | cons a l ih =>
    obtain ⟨rfl, rest⟩ := h
    cases fuel with
    | zero => simp at enough
    | succ fuel =>
      rw [search, goes a (List.mem_cons_self ..), Outcome.done_bind]
      cases found : test a with
      | true => simp [found, Outcome.pure_def]
      | false =>
        simp only [List.find?_cons, found, Bool.false_eq_true, if_false]
        apply ih rest
        · simpa using enough
        · exact fun b mem => goes b (List.mem_cons_of_mem _ mem)

omit [DecidableEq α] in
theorem search_ne_blocked {body : α → Outcome Bool} (goes : ∀ a, body a ≠ .blocked) (fuel : Nat)
    (p : Option α) : search next body fuel p ≠ .blocked := by
  induction fuel generalizing p with
  | zero => cases p <;> exact nofun
  | succ fuel ih =>
    cases p with
    | none => exact nofun
    | some a =>
      apply Outcome.bind_ne_blocked (goes a)
      intro found
      split
      · exact nofun
      · exact ih _

/-- The list without `x`. -/
def without (x : α) (l : List α) : List α := l.filter fun b => b ≠ x

@[simp] theorem mem_without {b : α} : b ∈ without x l ↔ b ∈ l ∧ b ≠ x := by
  simp [without]

theorem without_absent (absent : x ∉ l) : without x l = l := by
  apply List.filter_eq_self.mpr
  intro b mem
  have other : b ≠ x := fun same => absent (same ▸ mem)
  simpa using other

theorem without_head (absent : x ∉ l) : without x (x :: l) = l := by
  rw [without, List.filter_cons_of_neg (by simp)]
  exact without_absent absent

theorem without_tail (other : a ≠ x) : without x (a :: l) = a :: without x l :=
  List.filter_cons_of_pos (by simpa using other)

theorem without_nodup (nodup : l.Nodup) : (without x l).Nodup :=
  nodup.sublist List.filter_sublist

theorem unlinkAfter_linked (h : Linked next (some a) (a :: l)) (nodup : (a :: l).Nodup)
    (enough : l.length < fuel) : ∃ next', unlinkAfter next x fuel a = .done next' ∧
      Linked next' (some a) (a :: without x l) ∧ ∀ b ∉ a :: l, next' b = next b := by
  induction l generalizing a fuel with
  | nil =>
    cases fuel with
    | zero => simp at enough
    | succ fuel =>
      have last : next a = none := h.2
      refine ⟨next, ?_, h, fun _ _ => rfl⟩
      rw [unlinkAfter, last]
  | cons b l ih =>
    cases fuel with
    | zero => simp at enough
    | succ fuel =>
      obtain ⟨-, link, rest⟩ := h
      have apart : a ∉ b :: l := (List.nodup_cons.mp nodup).1
      rw [unlinkAfter, link]
      by_cases is : b = x
      · subst is
        have once : b ∉ l := (List.nodup_cons.mp (List.nodup_cons.mp nodup).2).1
        refine ⟨Function.update next a (next b), by simp, ⟨rfl, ?_⟩, ?_⟩
        · rw [Function.update_self, without_head once]
          exact rest.update (fun mem => apart (List.mem_cons_of_mem _ mem)) _
        · intro c out
          exact Function.update_of_ne (fun same => out (by simp [same])) ..
      · obtain ⟨next', done, linked, same⟩ :=
          ih ⟨rfl, rest⟩ (List.nodup_cons.mp nodup).2 (by simpa using enough)
        refine ⟨next', by simp [is, done], ⟨rfl, ?_⟩, ?_⟩
        · rw [same a apart, link, without_tail is]
          exact linked
        · intro c out
          exact same c fun mem => out (List.mem_cons_of_mem _ mem)

/-- The loop takes `x` out of the list and leaves all links of other elements. -/
theorem unlink_linked (h : Linked next p l) (nodup : l.Nodup) (enough : l.length ≤ fuel) :
    ∃ p' next', unlink next x fuel p = .done (p', next') ∧ Linked next' p' (without x l) ∧
      ∀ b ∉ l, next' b = next b := by
  cases l with
  | nil =>
    rw [linked_nil.mp h]
    exact ⟨none, next, rfl, rfl, fun _ _ => rfl⟩
  | cons a l =>
    obtain ⟨rfl, rest⟩ := h
    by_cases is : a = x
    · subst is
      refine ⟨next a, next, by simp [unlink], ?_, fun _ _ => rfl⟩
      rwa [without_head (List.nodup_cons.mp nodup).1]
    · obtain ⟨next', done, linked, same⟩ :=
        unlinkAfter_linked (x := x) ⟨rfl, rest⟩ nodup enough
      refine ⟨some a, next', by simp [unlink, is, done, Outcome.pure_def], ?_, same⟩
      rwa [without_tail is]

end Os161.Chain
