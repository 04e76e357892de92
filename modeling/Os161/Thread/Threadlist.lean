import Mathlib.Data.Fintype.Card
import Mathlib.Data.List.Nodup
import Os161.Base.Dlist
import Os161.Base.Object

/-!
# Thread lists

`thread/threadlist.c`. A list has a node for its head and one for its tail, and each thread has one
node, so it can be on one list at a time. The functions do not check that.
-/

namespace Os161.Threadlist

/-- A `struct thread *` that is not NULL. -/
structure Thread where
  address : UInt32
  nonnull : address ≠ 0
  deriving DecidableEq

variable {L : Type}

/-- A `struct threadlistnode *`: in one of the lists or in a thread. -/
inductive Node (L : Type) where
  | tlHead (tl : L)
  | tlTail (tl : L)
  | tListnode (t : Thread)
  deriving DecidableEq

def Node.tlnSelf : Node L → Option Thread
  | .tListnode t => some t
  | _ => none

/-- All lists and the nodes of all threads. -/
structure Threadlists (L : Type) where
  links : Links (Node L)
  tlCount : L → UInt32

/-- After `threadlist_init` and `threadlistnode_init`. -/
def init : Threadlists L where
  links :=
    { next := fun
        | .tlHead tl => some (.tlTail tl)
        | _ => none
      prev := fun
        | .tlTail tl => some (.tlHead tl)
        | _ => none }
  tlCount _ := 0

inductive Op (L : Type) where
  | addhead (tl : L) (t : Thread)
  | addtail (tl : L) (t : Thread)
  | remhead (tl : L)
  | remtail (tl : L)
  | insertafter (tl : L) (onlist addee : Thread)
  | insertbefore (tl : L) (addee onlist : Thread)
  | remove (tl : L) (t : Thread)

/-- What a call returns, where it returns something. -/
abbrev Answer := Option (Option Thread)

section Functions

variable [DecidableEq L]

def countUp (s : Threadlists L) (tl : L) (links : Links (Node L)) : Threadlists L :=
  ⟨links, Function.update s.tlCount tl (s.tlCount tl + 1)⟩

def countDown (s : Threadlists L) (tl : L) (links : Links (Node L)) : Threadlists L :=
  ⟨links, Function.update s.tlCount tl (s.tlCount tl - 1)⟩

def threadlistAddhead (s : Threadlists L) (tl : L) (t : Thread) : Outcome (Threadlists L) := do
  let links ← s.links.insertAfter (.tlHead tl) (.tListnode t)
  return countUp s tl links

def threadlistAddtail (s : Threadlists L) (tl : L) (t : Thread) : Outcome (Threadlists L) := do
  let links ← s.links.insertBefore (.tlTail tl) (.tListnode t)
  return countUp s tl links

def threadlistRemhead (s : Threadlists L) (tl : L) : Outcome (Option Thread × Threadlists L) := do
  let tln ← Outcome.deref (s.links.next (.tlHead tl))
  match s.links.next tln with
  | none => return (none, s)
  | some _ =>
    let links ← s.links.remove tln
    return (tln.tlnSelf, countDown s tl links)

def threadlistRemtail (s : Threadlists L) (tl : L) : Outcome (Option Thread × Threadlists L) := do
  let tln ← Outcome.deref (s.links.prev (.tlTail tl))
  match s.links.prev tln with
  | none => return (none, s)
  | some _ =>
    let links ← s.links.remove tln
    return (tln.tlnSelf, countDown s tl links)

def threadlistInsertafter (s : Threadlists L) (tl : L) (onlist addee : Thread) :
    Outcome (Threadlists L) := do
  let links ← s.links.insertAfter (.tListnode onlist) (.tListnode addee)
  return countUp s tl links

def threadlistInsertbefore (s : Threadlists L) (tl : L) (addee onlist : Thread) :
    Outcome (Threadlists L) := do
  let links ← s.links.insertBefore (.tListnode onlist) (.tListnode addee)
  return countUp s tl links

def threadlistRemove (s : Threadlists L) (tl : L) (t : Thread) : Outcome (Threadlists L) := do
  let links ← s.links.remove (.tListnode t)
  return countDown s tl links

/-- The call returns nothing. -/
def void (x : Outcome (Threadlists L)) : Outcome (Answer × Threadlists L) := do
  let s ← x
  return (none, s)

/-- The call returns a thread or NULL. -/
def thread (x : Outcome (Option Thread × Threadlists L)) : Outcome (Answer × Threadlists L) := do
  let (t, s) ← x
  return (some t, s)

def object : Object (Threadlists L) (Op L) Answer where
  call s
    | .addhead tl t => void (threadlistAddhead s tl t)
    | .addtail tl t => void (threadlistAddtail s tl t)
    | .remhead tl => thread (threadlistRemhead s tl)
    | .remtail tl => thread (threadlistRemtail s tl)
    | .insertafter tl onlist addee => void (threadlistInsertafter s tl onlist addee)
    | .insertbefore tl addee onlist => void (threadlistInsertbefore s tl addee onlist)
    | .remove tl t => void (threadlistRemove s tl t)

end Functions

/-- `THREADLIST_FORALL`; it needs one turn more than the list has threads. -/
def threadlistForall (s : Threadlists L) (fuel : Nat) (tl : L) : Outcome (List Thread) :=
  s.links.traverse Node.tlnSelf .tListnode fuel (.tlHead tl)

/-- `THREADLIST_FORALL_REV`, which follows the pointers to the previous nodes. -/
def threadlistForallRev (s : Threadlists L) (fuel : Nat) (tl : L) : Outcome (List Thread) :=
  s.links.flip.traverse Node.tlnSelf .tListnode fuel (.tlTail tl)

section Sequences

variable {T : Type} [DecidableEq T] {x y : T} {l : List T}

def insertAfter (x y : T) : List T → List T
  | [] => []
  | a :: rest => if a = x then a :: y :: rest else a :: insertAfter x y rest

def insertBefore (x y : T) : List T → List T
  | [] => []
  | a :: rest => if a = x then y :: a :: rest else a :: insertBefore x y rest

theorem insertAfter_split (mem : x ∈ l) :
    ∃ us vs, l = us ++ x :: vs ∧ insertAfter x y l = us ++ x :: y :: vs := by
  induction l with
  | nil => cases mem
  | cons a rest ih =>
    unfold insertAfter
    by_cases here : a = x
    · subst here
      rw [if_pos rfl]
      exact ⟨[], rest, rfl, rfl⟩
    · obtain ⟨us, vs, rfl, inserted⟩ := ih ((List.mem_cons.mp mem).resolve_left (Ne.symm here))
      rw [if_neg here, inserted]
      exact ⟨a :: us, vs, rfl, rfl⟩

theorem insertBefore_split (mem : x ∈ l) :
    ∃ us vs, l = us ++ x :: vs ∧ insertBefore x y l = us ++ y :: x :: vs := by
  induction l with
  | nil => cases mem
  | cons a rest ih =>
    unfold insertBefore
    by_cases here : a = x
    · subst here
      rw [if_pos rfl]
      exact ⟨[], rest, rfl, rfl⟩
    · obtain ⟨us, vs, rfl, inserted⟩ := ih ((List.mem_cons.mp mem).resolve_left (Ne.symm here))
      rw [if_neg here, inserted]
      exact ⟨a :: us, vs, rfl, rfl⟩

theorem erase_split (mem : x ∈ l) : ∃ us vs, l = us ++ x :: vs ∧ l.erase x = us ++ vs := by
  obtain ⟨us, vs, _, whole, erased⟩ := List.exists_erase_eq mem
  exact ⟨us, vs, whole, erased⟩

end Sequences

section Abstract

variable [DecidableEq L]

/-- A finite sequence of threads for each list. -/
def sequences : Object (L → List Thread) (Op L) Answer where
  call lists
    | .addhead tl t => return (none, Function.update lists tl (t :: lists tl))
    | .addtail tl t => return (none, Function.update lists tl (lists tl ++ [t]))
    | .remhead tl => return (some (lists tl).head?, Function.update lists tl (lists tl).tail)
    | .remtail tl => return (some (lists tl).getLast?, Function.update lists tl (lists tl).dropLast)
    | .insertafter tl onlist addee =>
      return (none, Function.update lists tl (insertAfter onlist addee (lists tl)))
    | .insertbefore tl addee onlist =>
      return (none, Function.update lists tl (insertBefore onlist addee (lists tl)))
    | .remove tl t => return (none, Function.update lists tl ((lists tl).erase t))

/-- A thread is added only when it is on no list, beside one that is on the list, and removed only
from the list that it is on. -/
def Allowed (lists : L → List Thread) : Op L → Prop
  | .addhead _ t => ∀ tl, t ∉ lists tl
  | .addtail _ t => ∀ tl, t ∉ lists tl
  | .insertafter tl onlist addee => onlist ∈ lists tl ∧ ∀ tl, addee ∉ lists tl
  | .insertbefore tl addee onlist => onlist ∈ lists tl ∧ ∀ tl, addee ∉ lists tl
  | .remove tl t => t ∈ lists tl
  | .remhead _ => True
  | .remtail _ => True

end Abstract

section Representation

/-- A thread is on at most one list, and there once. -/
structure Proper (lists : L → List Thread) : Prop where
  nodup : ∀ tl, (lists tl).Nodup
  apart : ∀ t tl tl', t ∈ lists tl → t ∈ lists tl' → tl = tl'

/-- The nodes of a list in their order. -/
def nodes (tl : L) (ts : List Thread) : List (Node L) :=
  .tlHead tl :: (ts.map .tListnode ++ [.tlTail tl])

/-- The nodes are linked as the sequences say, and what is on no list is not linked. -/
structure Holds (s : Threadlists L) (lists : L → List Thread) : Prop where
  proper : Proper lists
  linked : ∀ tl, s.links.Linked (nodes tl (lists tl))
  ends : ∀ tl, s.links.next (.tlTail tl) = none ∧ s.links.prev (.tlHead tl) = none
  off : ∀ t, (∀ tl, t ∉ lists tl) →
    s.links.next (.tListnode t) = none ∧ s.links.prev (.tListnode t) = none
  count : ∀ tl, s.tlCount tl = UInt32.ofNat (lists tl).length

/-- The node before what follows these threads, and the one behind what is followed by these. -/
def before (tl : L) (us : List Thread) : Node L := us.getLast?.elim (.tlHead tl) .tListnode

def behind (tl : L) (vs : List Thread) : Node L := vs.head?.elim (.tlTail tl) .tListnode

variable {s : Threadlists L} {lists : L → List Thread} {tl tl' : L} {t u : Thread}
variable {us vs ts : List Thread} {n : Node L}

theorem before_ne_tail : before tl us ≠ .tlTail tl' := by
  unfold before
  cases us.getLast? <;> exact nofun

theorem behind_ne_head : behind tl vs ≠ .tlHead tl' := by
  unfold behind
  cases vs.head? <;> exact nofun

theorem tail_ne_listnode : (.tlTail tl : Node L) ≠ .tListnode t := nofun

theorem head_ne_listnode : (.tlHead tl : Node L) ≠ .tListnode t := nofun

/-- One more thread. -/
theorem length_middle : (us ++ t :: vs).length = (us ++ vs).length + 1 := by
  simp only [List.length_append, List.length_cons, Nat.add_assoc]

theorem before_concat : before tl (us ++ [t]) = .tListnode t := by
  unfold before
  rw [List.getLast?_concat]
  rfl

/-- Where a list is cut in two. -/
theorem nodes_split (tl : L) (us vs : List Thread) : ∃ xs ys, ∀ ms, nodes tl (us ++ (ms ++ vs)) =
    xs ++ before tl us :: (ms.map .tListnode ++ behind tl vs :: ys) := by
  have left : ∃ xs, ∀ rest, .tlHead tl :: (us.map .tListnode ++ rest) = xs ++ before tl us :: rest := by
    rcases List.eq_nil_or_concat us with rfl | ⟨us, t, rfl⟩
    · exact ⟨[], fun rest => rfl⟩
    · refine ⟨.tlHead tl :: us.map .tListnode, fun rest => ?_⟩
      rw [List.concat_eq_append, before_concat]
      simp
  have right : ∃ ys, vs.map .tListnode ++ [.tlTail tl] = behind tl vs :: ys := by
    cases vs with
    | nil => exact ⟨[], rfl⟩
    | cons t vs => exact ⟨vs.map .tListnode ++ [.tlTail tl], rfl⟩
  obtain ⟨xs, left⟩ := left
  obtain ⟨ys, right⟩ := right
  refine ⟨xs, ys, fun ms => ?_⟩
  unfold nodes
  rw [List.map_append, List.map_append, List.append_assoc, List.append_assoc, left, right]

theorem mem_nodes : n ∈ nodes tl ts ↔ n = .tlHead tl ∨ n = .tlTail tl ∨ ∃ t ∈ ts, n = .tListnode t := by
  unfold nodes
  simp only [List.mem_cons, List.mem_append, List.mem_map, List.not_mem_nil, or_false]
  constructor
  · rintro (head | ⟨t, mem, rfl⟩ | tail)
    · exact .inl head
    · exact .inr (.inr ⟨t, mem, rfl⟩)
    · exact .inr (.inl tail)
  · rintro (head | tail | ⟨t, mem, rfl⟩)
    · exact .inl head
    · exact .inr (.inr tail)
    · exact .inr (.inl ⟨t, mem, rfl⟩)

theorem listnode_mem : .tListnode t ∈ nodes tl ts ↔ t ∈ ts := by
  rw [mem_nodes]
  constructor
  · rintro (head | tail | ⟨u, mem, same⟩)
    · cases head
    · cases tail
    · cases same
      exact mem
  · exact fun mem => .inr (.inr ⟨t, mem, rfl⟩)

theorem nodes_nodup (nodup : ts.Nodup) : (nodes tl ts).Nodup := by
  have threads : (ts.map (Node.tListnode : Thread → Node L)).Nodup :=
    nodup.map fun _ _ same => Node.tListnode.inj same
  unfold nodes
  simp [List.nodup_append, threads]

/-- A node is on one list. -/
theorem Proper.nodes_apart (h : Proper lists) (other : tl ≠ tl') (mem : n ∈ nodes tl (lists tl)) :
    n ∉ nodes tl' (lists tl') := by
  rw [mem_nodes] at mem ⊢
  rintro (rfl | rfl | ⟨t, there, rfl⟩)
  · rcases mem with head | tail | ⟨t, here, same⟩
    · exact other (Node.tlHead.inj head).symm
    · cases tail
    · cases same
  · rcases mem with head | tail | ⟨t, here, same⟩
    · cases head
    · exact other (Node.tlTail.inj tail).symm
    · cases same
  · rcases mem with head | tail | ⟨u, here, same⟩
    · cases head
    · cases tail
    · cases same
      exact other (h.apart t tl tl' here there)

variable [DecidableEq L]

theorem mem_insert (cut : lists tl = us ++ vs) :
    u ∈ Function.update lists tl (us ++ t :: vs) tl' ↔ u ∈ lists tl' ∨ u = t ∧ tl' = tl := by
  by_cases here : tl' = tl
  · subst here
    rw [Function.update_self, cut]
    simp only [List.mem_append, List.mem_cons, and_true]
    tauto
  · rw [Function.update_of_ne here]
    simp [here]

theorem mem_take (h : Proper lists) (cut : lists tl = us ++ t :: vs) :
    u ∈ Function.update lists tl (us ++ vs) tl' ↔ u ∈ lists tl' ∧ u ≠ t := by
  have member : t ∈ lists tl := by simp [cut]
  by_cases here : tl' = tl
  · subst here
    have nodup := h.nodup tl'
    rw [cut, List.nodup_append, List.nodup_cons] at nodup
    obtain ⟨_, ⟨t_vs, _⟩, disjoint⟩ := nodup
    have t_us : t ∉ us := fun mem => disjoint t mem t List.mem_cons_self rfl
    rw [Function.update_self, cut]
    simp only [List.mem_append, List.mem_cons]
    constructor
    · rintro (left | right)
      · exact ⟨.inl left, ne_of_mem_of_not_mem left t_us⟩
      · exact ⟨.inr (.inr right), ne_of_mem_of_not_mem right t_vs⟩
    · rintro ⟨left | same | right, other⟩
      · exact .inl left
      · exact (other same).elim
      · exact .inr right
  · rw [Function.update_of_ne here]
    refine ⟨fun mem => ⟨mem, ?_⟩, fun mem => mem.1⟩
    rintro rfl
    exact here (h.apart u tl' tl mem member)

theorem Proper.insert (h : Proper lists) (cut : lists tl = us ++ vs) (free : ∀ tl, t ∉ lists tl) :
    Proper (Function.update lists tl (us ++ t :: vs)) where
  nodup tl' := by
    by_cases here : tl' = tl
    · subst here
      rw [Function.update_self, (List.perm_middle : (us ++ t :: vs).Perm _).nodup_iff, List.nodup_cons, ← cut]
      exact ⟨free tl', h.nodup tl'⟩
    · rw [Function.update_of_ne here]
      exact h.nodup tl'
  apart u tl₁ tl₂ first second := by
    rw [mem_insert cut] at first second
    rcases first with first | ⟨rfl, rfl⟩
    · rcases second with second | ⟨rfl, -⟩
      · exact h.apart u tl₁ tl₂ first second
      · exact (free tl₁ first).elim
    · rcases second with second | ⟨-, rfl⟩
      · exact (free tl₂ second).elim
      · rfl

theorem Proper.take (h : Proper lists) (cut : lists tl = us ++ t :: vs) :
    Proper (Function.update lists tl (us ++ vs)) where
  nodup tl' := by
    by_cases here : tl' = tl
    · subst here
      have nodup := h.nodup tl'
      rw [cut] at nodup
      rw [Function.update_self]
      exact nodup.sublist ((List.sublist_cons_self t vs).append_left us)
    · rw [Function.update_of_ne here]
      exact h.nodup tl'
  apart u tl₁ tl₂ first second :=
    h.apart u tl₁ tl₂ ((mem_take h cut).mp first).1 ((mem_take h cut).mp second).1

/-- What goes between two parts of a list. -/
theorem Holds.insert (h : Holds s lists) (cut : lists tl = us ++ vs) (free : ∀ tl, t ∉ lists tl) :
    s.links.Link (before tl us) (behind tl vs) ∧ before tl us ≠ .tListnode t ∧
      Holds (countUp s tl (s.links.between (before tl us) (.tListnode t) (behind tl vs)))
        (Function.update lists tl (us ++ t :: vs)) := by
  obtain ⟨xs, ys, split⟩ := nodes_split tl us vs
  have whole : nodes tl (lists tl) = xs ++ before tl us :: behind tl vs :: ys := cut ▸ split []
  have a_mem : before tl us ∈ nodes tl (lists tl) := by simp [whole]
  have b_mem : behind tl vs ∈ nodes tl (lists tl) := by simp [whole]
  have new : ∀ tl', .tListnode t ∉ nodes tl' (lists tl') := fun tl' mem => free tl' (listnode_mem.mp mem)
  have linked := h.linked tl
  have nodup : (nodes tl (lists tl)).Nodup := nodes_nodup (h.proper.nodup tl)
  refine ⟨(Links.linked_split.mp (whole ▸ linked)).2.1, ne_of_mem_of_not_mem a_mem (new tl),
    h.proper.insert cut free, fun tl' => ?_, fun tl' => ?_, fun u none => ?_, fun tl' => ?_⟩
  · by_cases here : tl' = tl
    · subst here
      rw [Function.update_self]
      have longer := Links.Linked.between (whole ▸ linked) (whole ▸ nodup) (whole ▸ new tl')
      exact (split [t]) ▸ longer
    · rw [Function.update_of_ne here]
      have a_apart := h.proper.nodes_apart (Ne.symm here) a_mem
      have b_apart := h.proper.nodes_apart (Ne.symm here) b_mem
      exact (h.linked tl').frame
        (fun u mem => Links.between_next (ne_of_mem_of_not_mem mem a_apart)
          (ne_of_mem_of_not_mem mem (new tl')))
        fun v mem => Links.between_prev (ne_of_mem_of_not_mem mem b_apart)
          (ne_of_mem_of_not_mem mem (new tl'))
  · exact ⟨(Links.between_next before_ne_tail.symm tail_ne_listnode).trans (h.ends tl').1,
      (Links.between_prev behind_ne_head.symm head_ne_listnode).trans (h.ends tl').2⟩
  · have other : u ≠ t := fun same => none tl ((mem_insert cut).mpr (.inr ⟨same, rfl⟩))
    have off : ∀ tl', u ∉ lists tl' := fun tl' mem => none tl' ((mem_insert cut).mpr (.inl mem))
    have away : .tListnode u ∉ nodes tl (lists tl) := fun mem => off tl (listnode_mem.mp mem)
    have differ : (.tListnode u : Node L) ≠ .tListnode t := fun same => other (Node.tListnode.inj same)
    exact ⟨(Links.between_next (ne_of_mem_of_not_mem a_mem away).symm differ).trans (h.off u off).1,
      (Links.between_prev (ne_of_mem_of_not_mem b_mem away).symm differ).trans (h.off u off).2⟩
  · unfold countUp
    dsimp only
    by_cases here : tl' = tl
    · subst here
      rw [Function.update_self, Function.update_self, h.count, cut, length_middle, UInt32.ofNat_add]
      rfl
    · rw [Function.update_of_ne here, Function.update_of_ne here]
      exact h.count tl'

omit [DecidableEq L] in
/-- A thread that is on a list and its neighbours. -/
theorem Holds.around (h : Holds s lists) (cut : lists tl = us ++ t :: vs) :
    s.links.Link (before tl us) (.tListnode t) ∧ s.links.Link (.tListnode t) (behind tl vs) := by
  obtain ⟨xs, ys, split⟩ := nodes_split tl us vs
  have whole : nodes tl (lists tl) = xs ++ before tl us :: .tListnode t :: behind tl vs :: ys :=
    cut ▸ split [t]
  obtain ⟨-, left, right⟩ := Links.linked_split.mp (whole ▸ h.linked tl)
  exact ⟨left, (List.isChain_cons_cons.mp right).1⟩

/-- What is taken out from between two parts of a list. -/
theorem Holds.take (h : Holds s lists) (cut : lists tl = us ++ t :: vs) :
    s.links.remove (.tListnode t) =
        .done (s.links.without (before tl us) (.tListnode t) (behind tl vs)) ∧
      Holds (countDown s tl (s.links.without (before tl us) (.tListnode t) (behind tl vs)))
        (Function.update lists tl (us ++ vs)) := by
  obtain ⟨xs, ys, split⟩ := nodes_split tl us vs
  have whole : nodes tl (lists tl) = xs ++ before tl us :: .tListnode t :: behind tl vs :: ys :=
    cut ▸ split [t]
  have a_mem : before tl us ∈ nodes tl (lists tl) := by simp [whole]
  have b_mem : behind tl vs ∈ nodes tl (lists tl) := by simp [whole]
  have x_mem : .tListnode t ∈ nodes tl (lists tl) := by simp [whole]
  have linked := h.linked tl
  have nodup : (nodes tl (lists tl)).Nodup := nodes_nodup (h.proper.nodup tl)
  obtain ⟨left, right⟩ := h.around cut
  obtain ⟨-, -, apart, -, -⟩ := Links.apart_of_nodup (whole ▸ nodup)
  refine ⟨Links.remove_done left right apart.symm, h.proper.take cut, fun tl' => ?_, fun tl' => ?_,
    fun u none => ?_, fun tl' => ?_⟩
  · by_cases here : tl' = tl
    · subst here
      rw [Function.update_self]
      have shorter := Links.Linked.without (whole ▸ linked) (whole ▸ nodup)
      exact (split []) ▸ shorter
    · rw [Function.update_of_ne here]
      have a_apart := h.proper.nodes_apart (Ne.symm here) a_mem
      have b_apart := h.proper.nodes_apart (Ne.symm here) b_mem
      have x_apart := h.proper.nodes_apart (Ne.symm here) x_mem
      exact (h.linked tl').frame
        (fun u mem => Links.without_next (ne_of_mem_of_not_mem mem a_apart)
          (ne_of_mem_of_not_mem mem x_apart))
        fun v mem => Links.without_prev (ne_of_mem_of_not_mem mem b_apart)
          (ne_of_mem_of_not_mem mem x_apart)
  · exact ⟨(Links.without_next before_ne_tail.symm tail_ne_listnode).trans (h.ends tl').1,
      (Links.without_prev behind_ne_head.symm head_ne_listnode).trans (h.ends tl').2⟩
  · by_cases same : u = t
    · subst same
      exact Links.without_self
    · have off : ∀ tl', u ∉ lists tl' := fun tl' mem => none tl' ((mem_take h.proper cut).mpr ⟨mem, same⟩)
      have away : .tListnode u ∉ nodes tl (lists tl) := fun mem => off tl (listnode_mem.mp mem)
      have differ : (.tListnode u : Node L) ≠ .tListnode t := fun eq => same (Node.tListnode.inj eq)
      exact ⟨(Links.without_next (ne_of_mem_of_not_mem a_mem away).symm differ).trans (h.off u off).1,
        (Links.without_prev (ne_of_mem_of_not_mem b_mem away).symm differ).trans (h.off u off).2⟩
  · unfold countDown
    dsimp only
    by_cases here : tl' = tl
    · subst here
      rw [Function.update_self, Function.update_self, h.count, cut, length_middle, UInt32.ofNat_add]
      exact UInt32.add_sub_cancel _ _
    · rw [Function.update_of_ne here, Function.update_of_ne here]
      exact h.count tl'

/-- An insertion between two parts of a list. -/
theorem Holds.inserts (h : Holds s lists) (cut : lists tl = us ++ vs) (free : ∀ tl, t ∉ lists tl)
    {links : Outcome (Links (Node L))}
    (either : links = s.links.insertAfter (before tl us) (.tListnode t) ∨
      links = s.links.insertBefore (behind tl vs) (.tListnode t)) :
    Outcome.Alike (fun x y => x.1 = y.1 ∧ Holds x.2 y.2)
      (void (links >>= fun links => return countUp s tl links))
      (.done (none, Function.update lists tl (us ++ t :: vs))) := by
  obtain ⟨link, apart, holds⟩ := h.insert cut free
  have goes : links = .done (s.links.between (before tl us) (.tListnode t) (behind tl vs)) := by
    rcases either with rfl | rfl
    · exact Links.insertAfter_done link apart.symm
    · exact Links.insertBefore_done link apart.symm
  rw [goes]
  exact .done ⟨rfl, holds⟩

theorem Holds.addhead (h : Holds s lists) (free : ∀ tl, t ∉ lists tl) :
    Outcome.Alike (fun x y => x.1 = y.1 ∧ Holds x.2 y.2) (object.call s (.addhead tl t))
      (sequences.call lists (.addhead tl t)) :=
  h.inserts (List.nil_append _).symm free (.inl rfl)

theorem Holds.addtail (h : Holds s lists) (free : ∀ tl, t ∉ lists tl) :
    Outcome.Alike (fun x y => x.1 = y.1 ∧ Holds x.2 y.2) (object.call s (.addtail tl t))
      (sequences.call lists (.addtail tl t)) :=
  h.inserts (List.append_nil _).symm free (.inr rfl)

theorem Holds.insertafter (h : Holds s lists) (mem : u ∈ lists tl) (free : ∀ tl, t ∉ lists tl) :
    Outcome.Alike (fun x y => x.1 = y.1 ∧ Holds x.2 y.2) (object.call s (.insertafter tl u t))
      (sequences.call lists (.insertafter tl u t)) := by
  obtain ⟨us, vs, cut, inserted⟩ := insertAfter_split mem
  unfold sequences
  dsimp only
  rw [inserted, List.append_cons us u (t :: vs)]
  rw [List.append_cons us u vs] at cut
  refine h.inserts cut free (.inl ?_)
  rw [before_concat]

theorem Holds.insertbefore (h : Holds s lists) (mem : u ∈ lists tl) (free : ∀ tl, t ∉ lists tl) :
    Outcome.Alike (fun x y => x.1 = y.1 ∧ Holds x.2 y.2) (object.call s (.insertbefore tl t u))
      (sequences.call lists (.insertbefore tl t u)) := by
  obtain ⟨us, vs, cut, inserted⟩ := insertBefore_split mem
  unfold sequences
  dsimp only
  rw [inserted]
  exact h.inserts cut free (.inr rfl)

theorem Holds.remove (h : Holds s lists) (mem : t ∈ lists tl) :
    Outcome.Alike (fun x y => x.1 = y.1 ∧ Holds x.2 y.2) (object.call s (.remove tl t))
      (sequences.call lists (.remove tl t)) := by
  obtain ⟨us, vs, cut, erased⟩ := erase_split mem
  obtain ⟨goes, holds⟩ := h.take cut
  unfold object sequences threadlistRemove
  dsimp only
  rw [goes, erased]
  exact .done ⟨rfl, holds⟩

theorem Holds.remhead (h : Holds s lists) :
    Outcome.Alike (fun x y => x.1 = y.1 ∧ Holds x.2 y.2) (object.call s (.remhead tl))
      (sequences.call lists (.remhead tl)) := by
  have linked := h.linked tl
  unfold object sequences threadlistRemhead
  dsimp only
  cases cut : lists tl with
  | nil =>
    rw [cut] at linked
    have link := (List.isChain_cons_cons.mp linked).1
    rw [Outcome.deref_bind link.1, (h.ends tl).1]
    refine .done ⟨rfl, ?_⟩
    rw [List.tail_nil, ← cut, Function.update_eq_self]
    exact h
  | cons t vs =>
    obtain ⟨goes, holds⟩ := h.take (show lists tl = [] ++ t :: vs from cut)
    obtain ⟨first, second⟩ := h.around (show lists tl = [] ++ t :: vs from cut)
    rw [Outcome.deref_bind (show s.links.next (.tlHead tl) = some (.tListnode t) from first.1), second.1]
    dsimp only
    rw [goes]
    exact .done ⟨rfl, holds⟩

theorem Holds.remtail (h : Holds s lists) :
    Outcome.Alike (fun x y => x.1 = y.1 ∧ Holds x.2 y.2) (object.call s (.remtail tl))
      (sequences.call lists (.remtail tl)) := by
  have linked := h.linked tl
  unfold object sequences threadlistRemtail
  dsimp only
  rcases List.eq_nil_or_concat (lists tl) with cut | ⟨us, t, cut⟩
  · rw [cut] at linked ⊢
    have link := (List.isChain_cons_cons.mp linked).1
    rw [Outcome.deref_bind link.2, (h.ends tl).2]
    refine .done ⟨rfl, ?_⟩
    rw [List.dropLast_nil, ← cut, Function.update_eq_self]
    exact h
  · rw [List.concat_eq_append] at cut
    obtain ⟨goes, holds⟩ := h.take cut
    obtain ⟨second, first⟩ := h.around cut
    rw [Outcome.deref_bind (show s.links.prev (.tlTail tl) = some (.tListnode t) from first.2), second.2]
    dsimp only
    rw [goes, cut, List.getLast?_concat, List.dropLast_concat]
    rw [List.append_nil] at holds
    exact .done ⟨rfl, holds⟩

end Representation

section Runs

variable [DecidableEq L]

theorem object_refines : (object (L := L)).Refines sequences Holds Allowed := by
  intro s lists op h allowed
  cases op with
  | addhead tl t => exact h.addhead allowed
  | addtail tl t => exact h.addtail allowed
  | remhead tl => exact h.remhead
  | remtail tl => exact h.remtail
  | insertafter tl onlist addee => exact h.insertafter allowed.1 allowed.2
  | insertbefore tl addee onlist => exact h.insertbefore allowed.1 allowed.2
  | remove tl t => exact h.remove allowed

omit [DecidableEq L] in
theorem init_holds : Holds (init : Threadlists L) fun _ => [] where
  proper := ⟨fun _ => List.nodup_nil, fun _ _ _ mem _ => nomatch mem⟩
  linked _ := List.isChain_cons_cons.mpr ⟨⟨rfl, rfl⟩, List.isChain_singleton _⟩
  ends _ := ⟨rfl, rfl⟩
  off _ _ := ⟨rfl, rfl⟩
  count _ := rfl

theorem sequences_done (lists : L → List Thread) (op : Op L) :
    ∃ x, sequences.call lists op = .done x := by
  cases op <;> exact ⟨_, rfl⟩

section Observations

omit [DecidableEq L]

variable {s : Threadlists L} {lists : L → List Thread}

theorem Holds.forward (h : Holds s lists) (tl : L) {fuel : Nat} (enough : (lists tl).length < fuel) :
    threadlistForall s fuel tl = .done (lists tl) :=
  (h.linked tl).traverse (fun _ => rfl) rfl enough

theorem Holds.backward (h : Holds s lists) (tl : L) {fuel : Nat} (enough : (lists tl).length < fuel) :
    threadlistForallRev s fuel tl = .done (lists tl).reverse := by
  have back := (h.linked tl).flip
  unfold nodes at back
  rw [List.reverse_cons, List.reverse_append, ← List.map_reverse] at back
  exact back.traverse (fun _ => rfl) rfl (by simpa using enough)

/-- There are fewer threads than numbers. -/
theorem Proper.few (h : Proper lists) (tl : L) : (lists tl).length < 2 ^ 32 := by
  let number : Thread → Fin (2 ^ 32) := fun t => ⟨t.address.toNat, t.address.toNat_lt⟩
  have injective : Function.Injective number := by
    intro t u same
    cases t
    cases u
    cases UInt32.toNat_inj.mp (Fin.mk.inj same)
    rfl
  have nonnull : 0 ∉ (lists tl).map number := by
    intro mem
    obtain ⟨t, -, zero⟩ := List.mem_map.mp mem
    exact t.nonnull (UInt32.toNat_inj.mp (congrArg Fin.val zero))
  have nodup : (0 :: (lists tl).map number).Nodup :=
    List.nodup_cons.mpr ⟨nonnull, (h.nodup tl).map injective⟩
  have bound := nodup.length_le_card
  rw [List.length_cons, List.length_map, Fintype.card_fin] at bound
  omega

theorem Holds.counted (h : Holds s lists) (tl : L) : (s.tlCount tl).toNat = (lists tl).length := by
  rw [h.count, UInt32.toNat_ofNat']
  exact Nat.mod_eq_of_lt (h.proper.few tl)

end Observations

/-- After any calls in which a thread is added only when it is on no list and removed only from the one it
is on, the lists are what the calls make of finite sequences, from both ends. -/
theorem threadlists_refine (ops : List (Op L)) (allowed : sequences.Allows Allowed (fun _ => []) ops) :
    ∃ answers s lists, sequences.calls (fun _ => []) ops = .done (answers, lists) ∧
      object.calls (init : Threadlists L) ops = .done (answers, s) ∧
      (∀ tl, (∀ fuel, (lists tl).length < fuel → threadlistForall s fuel tl = .done (lists tl) ∧
          threadlistForallRev s fuel tl = .done (lists tl).reverse) ∧
        (s.tlCount tl).toNat = (lists tl).length) ∧
      (∀ t tl tl', t ∈ lists tl → t ∈ lists tl' → tl = tl') ∧ (∀ tl, (lists tl).Nodup) ∧
      ∀ t, (∀ tl, t ∉ lists tl) →
        s.links.next (.tListnode t) = none ∧ s.links.prev (.tListnode t) = none := by
  obtain ⟨⟨answers, lists⟩, abstract⟩ := Object.calls_done sequences_done (fun _ : L => []) ops
  have alike := object_refines.calls init_holds allowed
  rw [abstract] at alike
  obtain ⟨⟨answers', s⟩, concrete, same, holds⟩ := alike.of_done
  dsimp only at same holds
  subst same
  exact ⟨answers', s, lists, abstract, concrete,
    fun tl => ⟨fun fuel enough => ⟨holds.forward tl enough, holds.backward tl enough⟩, holds.counted tl⟩,
    holds.proper.apart, holds.proper.nodup, holds.off⟩

/-- Two threads go to one of two lists, and one comes back. -/
theorem threadlists_refine_two : ∃ s, object.calls (init : Threadlists Bool)
    [.addhead true ⟨2, by decide⟩, .insertbefore true ⟨1, by decide⟩ ⟨2, by decide⟩, .remhead true,
      .remtail false] = .done ([none, none, some (some ⟨1, by decide⟩), some none], s) ∧
    threadlistForall s 2 true = .done [⟨2, by decide⟩] := by
  have allowed : sequences.Allows Allowed (fun _ : Bool => [])
      [.addhead true ⟨2, by decide⟩, .insertbefore true ⟨1, by decide⟩ ⟨2, by decide⟩, .remhead true,
        .remtail false] :=
    Object.allows_cons (by simp [Allowed]) rfl
      (Object.allows_cons (by simp [Allowed, Function.update_apply]) rfl
        (Object.allows_cons trivial rfl (Object.allows_cons trivial rfl trivial)))
  obtain ⟨answers, s, lists, abstract, concrete, whole, -⟩ := threadlists_refine _ allowed
  cases abstract
  exact ⟨s, concrete, ((whole true).1 2 (by decide)).1⟩

end Runs

end Os161.Threadlist
