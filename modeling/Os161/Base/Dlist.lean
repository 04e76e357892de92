import Mathlib.Data.List.Chain
import Mathlib.Logic.Function.Basic
import Os161.Base.Outcome

/-!
# Doubly linked nodes

Nodes with a pointer to the next and to the previous one. A list of nodes is linked if each two
that follow each other point at each other.
-/

namespace Os161

universe u

structure Links (A : Type u) where
  next : A → Option A
  prev : A → Option A

namespace Links

variable {A : Type u} [DecidableEq A]

def setNext (m : Links A) (a : A) (b : Option A) : Links A := { m with next := Function.update m.next a b }

def setPrev (m : Links A) (a : A) (b : Option A) : Links A := { m with prev := Function.update m.prev a b }

/-- Puts `x` behind `a`. -/
def insertAfter (m : Links A) (a x : A) : Outcome (Links A) := do
  let m := (m.setPrev x (some a)).setNext x (m.next a)
  let before ← Outcome.deref (m.prev x)
  let m := m.setNext before (some x)
  let after ← Outcome.deref (m.next x)
  return m.setPrev after (some x)

/-- Puts `x` before `b`. -/
def insertBefore (m : Links A) (b x : A) : Outcome (Links A) := do
  let m := (m.setPrev x (m.prev b)).setNext x (some b)
  let before ← Outcome.deref (m.prev x)
  let m := m.setNext before (some x)
  let after ← Outcome.deref (m.next x)
  return m.setPrev after (some x)

/-- Takes `x` out from between its neighbours. -/
def remove (m : Links A) (x : A) : Outcome (Links A) := do
  let before ← Outcome.deref (m.prev x)
  let m := m.setNext before (m.next x)
  let after ← Outcome.deref (m.next x)
  let m := m.setPrev after (m.prev x)
  return (m.setPrev x none).setNext x none

/-- The links with the directions exchanged. -/
def flip (m : Links A) : Links A := ⟨m.prev, m.next⟩

/-- The nodes point at each other. -/
def Link (m : Links A) (a b : A) : Prop := m.next a = some b ∧ m.prev b = some a

def Linked (m : Links A) (l : List A) : Prop := l.IsChain m.Link

/-- `a` and `b` with `x` between them. -/
def between (m : Links A) (a x b : A) : Links A where
  next := Function.update (Function.update m.next x (some b)) a (some x)
  prev := Function.update (Function.update m.prev x (some a)) b (some x)

/-- `a` and `b` without `x` between them. -/
def without (m : Links A) (a x b : A) : Links A where
  next := Function.update (Function.update m.next a (some b)) x none
  prev := Function.update (Function.update m.prev b (some a)) x none

variable {m m' : Links A} {a b x u v : A} {xs ys l : List A}

section

omit [DecidableEq A]

theorem Linked.flip (h : m.Linked l) : m.flip.Linked l.reverse :=
  List.isChain_reverse.mpr (h.imp fun _ _ link => ⟨link.2, link.1⟩)

theorem linked_split : m.Linked (xs ++ a :: b :: ys) ↔
    m.Linked (xs ++ [a]) ∧ m.Link a b ∧ m.Linked (b :: ys) := List.isChain_append_cons_cons

/-- Nodes whose pointers stay, but for the pointer of the first one to what is before it. -/
theorem Linked.frame_tail (h : m.Linked (b :: ys)) (next : ∀ u ∈ b :: ys, m'.next u = m.next u)
    (prev : ∀ v ∈ ys, m'.prev v = m.prev v) : m'.Linked (b :: ys) :=
  h.imp_of_mem_tail_imp fun u v left right link =>
    ⟨(next u left).trans link.1, (prev v right).trans link.2⟩

/-- Nodes whose pointers stay, but for the pointer of the last one to what is behind it. -/
theorem Linked.frame_init (h : m.Linked (xs ++ [a])) (next : ∀ u ∈ xs, m'.next u = m.next u)
    (prev : ∀ v ∈ xs ++ [a], m'.prev v = m.prev v) : m'.Linked (xs ++ [a]) := by
  have back : m.flip.Linked (a :: xs.reverse) := by simpa using h.flip
  have kept : m'.flip.Linked (a :: xs.reverse) := by
    refine back.frame_tail (fun v mem => prev v ?_) fun u mem => next u (List.mem_reverse.mp mem)
    simpa [or_comm] using mem
  have forth := kept.flip
  rw [List.reverse_cons, List.reverse_reverse] at forth
  exact forth

theorem Linked.frame (h : m.Linked l) (next : ∀ u ∈ l, m'.next u = m.next u)
    (prev : ∀ v ∈ l, m'.prev v = m.prev v) : m'.Linked l :=
  h.imp_of_mem_imp fun u v left right link =>
    ⟨(next u left).trans link.1, (prev v right).trans link.2⟩

theorem apart_of_nodup (nodup : (xs ++ a :: b :: ys).Nodup) :
    a ∉ xs ∧ b ∉ xs ∧ a ≠ b ∧ a ∉ ys ∧ b ∉ ys := by
  simp only [List.nodup_append, List.nodup_cons, List.mem_cons, not_or] at nodup
  obtain ⟨_, ⟨⟨ab, ay⟩, by_, _⟩, disjoint⟩ := nodup
  exact ⟨fun mem => disjoint a mem a (.inl rfl) rfl, fun mem => disjoint b mem b (.inr (.inl rfl)) rfl,
    ab, ay, by_⟩

end

theorem insertAfter_done (link : m.Link a b) (new : x ≠ a) :
    m.insertAfter a x = .done (m.between a x b) := by
  unfold insertAfter setPrev setNext
  dsimp only
  rw [Function.update_self, Outcome.deref_bind rfl, Function.update_of_ne new, Function.update_self,
    Outcome.deref_bind link.1, link.1]
  rfl

theorem insertBefore_done (link : m.Link a b) (new : x ≠ a) :
    m.insertBefore b x = .done (m.between a x b) := by
  unfold insertBefore setPrev setNext
  dsimp only
  rw [Function.update_self, Outcome.deref_bind link.2, Function.update_of_ne new, Function.update_self,
    Outcome.deref_bind rfl, link.2]
  rfl

theorem remove_done (before : m.Link a x) (after : m.Link x b) (apart : x ≠ a) :
    m.remove x = .done (m.without a x b) := by
  unfold remove setPrev setNext
  dsimp only
  rw [Outcome.deref_bind before.2, Function.update_of_ne apart, Outcome.deref_bind after.1]
  show Outcome.done _ = _
  rw [before.2, after.1]
  rfl

theorem between_next (apart : u ≠ a) (other : u ≠ x) : (m.between a x b).next u = m.next u :=
  (Function.update_of_ne apart ..).trans (Function.update_of_ne other ..)

theorem between_prev (apart : v ≠ b) (other : v ≠ x) : (m.between a x b).prev v = m.prev v :=
  (Function.update_of_ne apart ..).trans (Function.update_of_ne other ..)

theorem without_next (apart : u ≠ a) (other : u ≠ x) : (m.without a x b).next u = m.next u :=
  (Function.update_of_ne other ..).trans (Function.update_of_ne apart ..)

theorem without_prev (apart : v ≠ b) (other : v ≠ x) : (m.without a x b).prev v = m.prev v :=
  (Function.update_of_ne other ..).trans (Function.update_of_ne apart ..)

/-- What is taken out points nowhere. -/
theorem without_self : (m.without a x b).next x = none ∧ (m.without a x b).prev x = none :=
  ⟨Function.update_self .., Function.update_self ..⟩

theorem between_link (other : x ≠ a) (apart : x ≠ b) :
    (m.between a x b).Link a x ∧ (m.between a x b).Link x b :=
  ⟨⟨Function.update_self .., (Function.update_of_ne apart ..).trans (Function.update_self ..)⟩,
    (Function.update_of_ne other ..).trans (Function.update_self ..), Function.update_self ..⟩

theorem without_link (other : a ≠ x) (apart : b ≠ x) : (m.without a x b).Link a b :=
  ⟨(Function.update_of_ne other ..).trans (Function.update_self ..),
    (Function.update_of_ne apart ..).trans (Function.update_self ..)⟩

/-- `x` goes between two nodes that follow each other. -/
theorem Linked.between (h : m.Linked (xs ++ a :: b :: ys)) (nodup : (xs ++ a :: b :: ys).Nodup)
    (new : x ∉ xs ++ a :: b :: ys) : (m.between a x b).Linked (xs ++ a :: x :: b :: ys) := by
  obtain ⟨a_xs, b_xs, ab, a_ys, b_ys⟩ := apart_of_nodup nodup
  obtain ⟨left, -, right⟩ := linked_split.mp h
  simp only [List.mem_append, List.mem_cons, not_or] at new
  obtain ⟨x_xs, x_a, x_b, x_ys⟩ := new
  obtain ⟨before, after⟩ := between_link (m := m) x_a x_b
  refine linked_split.mpr ⟨?_, before, List.isChain_cons_cons.mpr ⟨after, ?_⟩⟩
  · refine left.frame_init (fun u mem => ?_) fun v mem => ?_
    · exact between_next (ne_of_mem_of_not_mem mem a_xs) (ne_of_mem_of_not_mem mem x_xs)
    · rcases List.mem_append.mp mem with mem | mem
      · exact between_prev (ne_of_mem_of_not_mem mem b_xs) (ne_of_mem_of_not_mem mem x_xs)
      · obtain rfl := List.mem_singleton.mp mem
        exact between_prev ab (Ne.symm x_a)
  · refine right.frame_tail (fun u mem => ?_) fun v mem => ?_
    · rcases List.mem_cons.mp mem with rfl | mem
      · exact between_next (Ne.symm ab) (Ne.symm x_b)
      · exact between_next (ne_of_mem_of_not_mem mem a_ys) (ne_of_mem_of_not_mem mem x_ys)
    · exact between_prev (ne_of_mem_of_not_mem mem b_ys) (ne_of_mem_of_not_mem mem x_ys)

/-- `x` is taken out from between its neighbours. -/
theorem Linked.without (h : m.Linked (xs ++ a :: x :: b :: ys))
    (nodup : (xs ++ a :: x :: b :: ys).Nodup) : (m.without a x b).Linked (xs ++ a :: b :: ys) := by
  have short : (xs ++ a :: b :: ys).Nodup :=
    nodup.sublist ((List.Sublist.cons_cons a (List.sublist_cons_self x _)).append_left xs)
  obtain ⟨a_xs, b_xs, ab, a_ys, b_ys⟩ := apart_of_nodup short
  obtain ⟨-, x_xs, a_x, -, x_tail⟩ := apart_of_nodup nodup
  obtain ⟨x_b, x_ys⟩ := not_or.mp (mt List.mem_cons.mpr x_tail)
  obtain ⟨left, -, right⟩ := linked_split.mp h
  obtain ⟨-, right⟩ := List.isChain_cons_cons.mp right
  refine linked_split.mpr ⟨?_, without_link a_x (Ne.symm x_b), ?_⟩
  · refine left.frame_init (fun u mem => ?_) fun v mem => ?_
    · exact without_next (ne_of_mem_of_not_mem mem a_xs) (ne_of_mem_of_not_mem mem x_xs)
    · rcases List.mem_append.mp mem with mem | mem
      · exact without_prev (ne_of_mem_of_not_mem mem b_xs) (ne_of_mem_of_not_mem mem x_xs)
      · obtain rfl := List.mem_singleton.mp mem
        exact without_prev ab a_x
  · refine Linked.frame_tail (m := m) right (fun u mem => ?_) fun v mem => ?_
    · rcases List.mem_cons.mp mem with rfl | mem
      · exact without_next (Ne.symm ab) (Ne.symm x_b)
      · exact without_next (ne_of_mem_of_not_mem mem a_ys) (ne_of_mem_of_not_mem mem x_ys)
    · exact without_prev (ne_of_mem_of_not_mem mem b_ys) (ne_of_mem_of_not_mem mem x_ys)

section Traverse

omit [DecidableEq A]

variable {T : Type u} {self : A → Option T} {node : T → A} {z : A}

/-- Goes from node to node as long as they have an owner, and lists the owners. -/
def traverse (m : Links A) (self : A → Option T) (node : T → A) : Nat → A → Outcome (List T)
  | 0, _ => .blocked
  | fuel + 1, a => do
    let b ← Outcome.deref (m.next a)
    match self b with
    | none => return []
    | some t =>
      let rest ← m.traverse self node fuel (node t)
      return t :: rest

theorem Linked.traverse {ts : List T} (h : m.Linked (a :: (ts.map node ++ [z])))
    (owner : ∀ t, self (node t) = some t) (last : self z = none) {fuel : Nat} (enough : ts.length < fuel) :
    m.traverse self node fuel a = .done ts := by
  induction ts generalizing a fuel with
  | nil =>
    obtain ⟨fuel, rfl⟩ : ∃ n, fuel = n + 1 := ⟨fuel - 1, by omega⟩
    have link : m.Link a z := (List.isChain_cons_cons.mp h).1
    rw [Links.traverse, Outcome.deref_bind link.1, last]
    rfl
  | cons t ts ih =>
    obtain ⟨fuel, rfl⟩ : ∃ n, fuel = n + 1 := ⟨fuel - 1, by omega⟩
    obtain ⟨link, rest⟩ := List.isChain_cons_cons.mp h
    rw [List.length_cons] at enough
    rw [Links.traverse, Outcome.deref_bind link.1, owner]
    dsimp only
    rw [ih rest (by omega)]
    rfl

end Traverse

end Links

end Os161
