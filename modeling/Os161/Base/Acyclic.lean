import Mathlib.Logic.Relation

/-!
# Graphs without cycles

A graph is a relation on its nodes. A new edge closes a cycle when there is a path back along it.
-/

namespace Os161

open Relation (ReflTransGen TransGen)

variable {α : Type*} {r r' : α → α → Prop} {u v x y : α}

def Acyclic (r : α → α → Prop) : Prop := ∀ x, ¬ TransGen r x x

theorem Acyclic.mono (acyclic : Acyclic r) (less : ∀ x y, r' x y → r x y) : Acyclic r' :=
  fun x cycle => acyclic x (TransGen.mono less x x cycle)

/-- The graph with one more edge. -/
def AddEdge (r : α → α → Prop) (u v : α) : α → α → Prop := fun x y => r x y ∨ x = u ∧ y = v

/-- A path in it takes the new edge or it does not. -/
theorem path_add (path : TransGen (AddEdge r u v) x y) :
    TransGen r x y ∨ ReflTransGen r x u ∧ ReflTransGen r v y := by
  induction path with
  | single edge =>
    obtain old | ⟨rfl, rfl⟩ := edge
    · exact .inl (.single old)
    · exact .inr ⟨.refl, .refl⟩
  | tail _ edge ih =>
    obtain old | ⟨rfl, rfl⟩ := edge
    · exact ih.imp (fun path => path.tail old) fun ⟨first, last⟩ => ⟨first, last.tail old⟩
    · obtain path | ⟨first, -⟩ := ih
      · exact .inr ⟨path.to_reflTransGen, .refl⟩
      · exact .inr ⟨first, .refl⟩

/-- The new edge closes a cycle if and only if there is a path from its end to its start. -/
theorem acyclic_add_iff (acyclic : Acyclic r) : Acyclic (AddEdge r u v) ↔ ¬ ReflTransGen r v u := by
  constructor
  · intro added path
    have back : ReflTransGen (AddEdge r u v) v u := by
      apply ReflTransGen.mono _ v u path
      exact fun _ _ => .inl
    exact added u (.head' (.inr ⟨rfl, rfl⟩) back)
  · intro none x cycle
    obtain old | ⟨first, last⟩ := path_add cycle
    · exact acyclic x old
    · exact none (last.trans first)

/-- Where every node has one way out at most, all paths from a node go the same way. -/
theorem path_functional (functional : ∀ x y z, r x y → r x z → y = z) (edge : r x y) :
    ReflTransGen r x v ↔ x = v ∨ ReflTransGen r y v := by
  constructor
  · intro path
    obtain same | ⟨z, first, rest⟩ := path.cases_head
    · exact .inl same
    · rw [functional x y z edge first]
      exact .inr rest
  · rintro (rfl | rest)
    · exact .refl
    · exact .head edge rest

end Os161
