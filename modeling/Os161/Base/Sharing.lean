import Os161.Base.Count

/-!
# Shared objects

Slots that name objects, and a reference count for each object that is there. The counts are
balanced when each is the number of slots that name the object and no slot names an object that is
gone. Attaching, detaching, allocating and freeing keep the balance.
-/

namespace Os161

universe u v

structure Sharing (ι : Type u) (F : Type v) where
  slots : ι → Option F
  counts : F → Option Nat

namespace Sharing

variable {ι : Type u} {F : Type v} [DecidableEq F] {s : Sharing ι F} {i j : ι} {f g : F} {n : Nat}

def put [DecidableEq ι] (s : Sharing ι F) (i : ι) (o : Option F) : Sharing ι F :=
  { s with slots := Function.update s.slots i o }

def setCount (s : Sharing ι F) (f : F) (c : Option Nat) : Sharing ι F :=
  { s with counts := Function.update s.counts f c }

omit [DecidableEq F] in
@[simp] theorem put_counts [DecidableEq ι] {o : Option F} : (s.put i o).counts = s.counts := rfl

@[simp] theorem setCount_slots {c : Option Nat} : (s.setCount f c).slots = s.slots := rfl

@[simp] theorem setCount_self {c : Option Nat} : (s.setCount f c).counts f = c := by
  simp [setCount]

theorem setCount_other {c : Option Nat} (other : g ≠ f) :
    (s.setCount f c).counts g = s.counts g := by
  simp [setCount, other]

@[simp] theorem setCount_setCount {c d : Option Nat} :
    (s.setCount f c).setCount f d = s.setCount f d := by
  simp [setCount]

/-- Writing back the count that is there changes nothing. -/
theorem setCount_same {c : Option Nat} (count : s.counts f = c) : s.setCount f c = s := by
  rw [setCount, ← count, Function.update_eq_self]

omit [DecidableEq F] in
/-- Writing what is in the slot changes nothing. -/
theorem put_same [DecidableEq ι] {o : Option F} (slot : s.slots i = o) : s.put i o = s := by
  rw [put, ← slot, Function.update_eq_self]

theorem setCount_put [DecidableEq ι] {c : Option Nat} {o : Option F} :
    (s.setCount f c).put i o = (s.put i o).setCount f c := rfl

omit [DecidableEq F] in
@[simp] theorem put_self [DecidableEq ι] {o : Option F} : (s.put i o).slots i = o := by
  simp [put]

omit [DecidableEq F] in
theorem put_other [DecidableEq ι] {o : Option F} (other : j ≠ i) :
    (s.put i o).slots j = s.slots j := by
  simp [put, other]

variable [Fintype ι]

structure Balanced (s : Sharing ι F) : Prop where
  counted : ∀ f n, s.counts f = some n → n = countWhere (· = some f) s.slots
  named : ∀ i f, s.slots i = some f → ∃ n, s.counts f = some n

namespace Balanced

theorem count_pos (h : s.Balanced) (slot : s.slots i = some f) (count : s.counts f = some n) :
    0 < n := by
  rw [h.counted f n count]
  exact countWhere_pos.mpr ⟨i, slot⟩

theorem no_slot (h : s.Balanced) (gone : ∀ n, s.counts f = some n → n = 0) : s.slots i ≠ some f := by
  intro slot
  obtain ⟨n, count⟩ := h.named i f slot
  have positive := h.count_pos slot count
  have zero := gone n count
  omega

/-- The last slot: nothing else names the object. -/
theorem only_slot (h : s.Balanced) (slot : s.slots i = some f) (one : s.counts f = some 1)
    [DecidableEq ι] (other : j ≠ i) : s.slots j ≠ some f := by
  intro also
  have counted := h.counted f 1 one
  have without := countWhere_update (p := (· = some f)) (f := s.slots) i none
  have left : 0 < countWhere (· = some f) (Function.update s.slots i none) :=
    countWhere_pos.mpr ⟨j, by rw [Function.update_of_ne other]; exact also⟩
  simp only [slot, reduceCtorEq, if_true, if_false] at without
  omega

theorem alloc (h : s.Balanced) (new : s.counts f = none) : (s.setCount f (some 0)).Balanced where
  counted g n count := by
    by_cases same : g = f
    · subst same
      have zero : 0 = n := by simpa using count
      rw [← zero, eq_comm, countWhere_eq_zero]
      intro i
      exact h.no_slot (by simp [new])
    · rw [setCount_other same] at count
      exact h.counted g n count
  named i g slot := by
    by_cases same : g = f
    · subst same
      exact ⟨0, by simp⟩
    · obtain ⟨n, count⟩ := h.named i g slot
      exact ⟨n, by rw [setCount_other same]; exact count⟩

theorem free (h : s.Balanced) (zero : s.counts f = some 0) : (s.setCount f none).Balanced where
  counted g n count := by
    by_cases same : g = f
    · subst same
      simp at count
    · rw [setCount_other same] at count
      exact h.counted g n count
  named i g slot := by
    have same : g ≠ f := by
      rintro rfl
      exact h.no_slot (by simp [zero]) slot
    obtain ⟨n, count⟩ := h.named i g slot
    exact ⟨n, by rw [setCount_other same]; exact count⟩

variable [DecidableEq ι]

theorem attach (h : s.Balanced) (empty : s.slots i = none) (count : s.counts f = some n) :
    ((s.put i (some f)).setCount f (some (n + 1))).Balanced where
  counted g m count' := by
    have moved := countWhere_update (p := (· = some g)) (f := s.slots) i (some f)
    simp only [empty, reduceCtorEq, if_false, Option.some.injEq] at moved
    by_cases same : g = f
    · subst same
      have value : n + 1 = m := by simpa using count'
      have before := h.counted g n count
      simp only [if_true] at moved
      simp only [setCount_slots, put]
      omega
    · rw [setCount_other same, put_counts] at count'
      have before := h.counted g m count'
      simp only [Ne.symm same, if_false] at moved
      simp only [setCount_slots, put]
      omega
  named j g slot := by
    by_cases same : g = f
    · subst same
      exact ⟨n + 1, by simp⟩
    · have elsewhere : s.slots j = some g := by
        by_cases here : j = i
        · subst here
          simp [Ne.symm same] at slot
        · rwa [setCount_slots, put_other here] at slot
      obtain ⟨m, count'⟩ := h.named j g elsewhere
      exact ⟨m, by rw [setCount_other same]; exact count'⟩

theorem detach (h : s.Balanced) (slot : s.slots i = some f) (count : s.counts f = some n) :
    ((s.put i none).setCount f (some (n - 1))).Balanced where
  counted g m count' := by
    have moved := countWhere_update (p := (· = some g)) (f := s.slots) i none
    simp only [slot, reduceCtorEq, if_false, Option.some.injEq] at moved
    by_cases same : g = f
    · subst same
      have value : n - 1 = m := by simpa using count'
      have before := h.counted g n count
      simp only [if_true] at moved
      simp only [setCount_slots, put]
      omega
    · rw [setCount_other same, put_counts] at count'
      have before := h.counted g m count'
      simp only [Ne.symm same, if_false] at moved
      simp only [setCount_slots, put]
      omega
  named j g slot' := by
    have elsewhere : s.slots j = some g := by
      by_cases here : j = i
      · subst here
        simp at slot'
      · rwa [setCount_slots, put_other here] at slot'
    obtain ⟨m, count'⟩ := h.named j g elsewhere
    by_cases same : g = f
    · subst same
      exact ⟨n - 1, by simp⟩
    · exact ⟨m, by rw [setCount_other same]; exact count'⟩

end Balanced

end Sharing

end Os161
