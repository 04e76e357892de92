import Os161.Vm.KmallocInv

/-!
# Allocating pagerefs while others do

`allocpageref` and `freepageref` of `kmalloc.c`, for any number of calls. A call runs under
`kmalloc_spinlock` but for `allocpagerefpage`, which releases it around `alloc_kpages` and
`free_kpages`; there others enter. `C` names the calls.
-/

set_option linter.unusedSectionVars false

namespace Os161.Pagerefs

open Kmalloc

/-- Where a call of `allocpageref` is while it does not have the spinlock. -/
inductive Call where
  /-- In the `alloc_kpages` of `allocpagerefpage`. -/
  | allocating (p : Ref)
  /-- In its `free_kpages`, since somebody else has allocated the page. -/
  | freeing (p : Ref) (va : Nat)
  deriving DecidableEq

/-- The pageref that the call has marked. -/
def Call.ref : Call → Ref
  | .allocating p | .freeing p _ => p

/-- `live` are the pagerefs that have been handed out and not freed. -/
structure State (C : Type) where
  kheaproots : Fin numPagerefpages → KheapRoot
  kpages : List (Nat × Nat)
  call : C → Option Call
  live : List Ref

inductive Action (C : Type) where
  | allocpageref (c : C)
  /-- `alloc_kpages` answers `va`. -/
  | allocKpages (c : C) (va : Nat)
  | freeKpages (c : C)
  | freepageref (p : Ref)

def mark (root : KheapRoot) (j : Fin npagerefsPerPage) : KheapRoot :=
  { root with
    pagerefsInuse := Function.update root.pagerefsInuse j true
    numinuse := root.numinuse + 1 }

def unmark (root : KheapRoot) (j : Fin npagerefsPerPage) : KheapRoot :=
  { root with
    pagerefsInuse := Function.update root.pagerefsInuse j false
    numinuse := root.numinuse - 1 }

/-- The loop of `allocpageref` over the roots, up to the bit that it finds. -/
def findFree (kheaproots : Fin numPagerefpages → KheapRoot) : List (Fin numPagerefpages) → Option Ref
  | [] => none
  | w :: rest =>
    if npagerefsPerPage ≤ (kheaproots w).numinuse then findFree kheaproots rest
    else
      match (List.finRange npagerefsPerPage).find? fun j => !(kheaproots w).pagerefsInuse j with
      | none => findFree kheaproots rest
      | some j => some (w, j)

/-- The loop of `freepageref` over the roots that are left. -/
def freeFrom (kheaproots : Fin numPagerefpages → KheapRoot) (p : Ref) :
    List (Fin numPagerefpages) → Outcome (Fin numPagerefpages → KheapRoot)
  | [] => .panic
  | w :: rest =>
    let root := kheaproots w
    if root.page = 0 then do
      Outcome.kassert (root.numinuse = 0)
      freeFrom kheaproots p rest
    else if p.1 = w then do
      Outcome.kassert (root.pagerefsInuse p.2 = true)
      Outcome.kassert (0 < root.numinuse)
      return Function.update kheaproots w (unmark root p.2)
    else freeFrom kheaproots p rest

variable {C : Type} [DecidableEq C]

namespace State

def setRoot (s : State C) (w : Fin numPagerefpages) (root : KheapRoot) : State C :=
  { s with kheaproots := Function.update s.kheaproots w root }

def setCall (s : State C) (c : C) (call : Option Call) : State C :=
  { s with call := Function.update s.call c call }

/-- The call returns the pageref, or NULL if its root has no page. -/
def finish (s : State C) (c : C) (p : Ref) : State C :=
  let s := s.setCall c none
  if (s.kheaproots p.1).page = 0 then s else { s with live := p :: s.live }

/-- `allocpageref`, up to where `allocpagerefpage` releases the spinlock. -/
def allocpageref (s : State C) (c : C) : Outcome (State C) := do
  Outcome.await (s.call c = none)
  match findFree s.kheaproots (List.finRange numPagerefpages) with
  | none => return s
  | some p =>
    let s := s.setRoot p.1 (mark (s.kheaproots p.1) p.2)
    if (s.kheaproots p.1).page = 0 then return s.setCall c (some (.allocating p))
    else return s.finish c p

/-- `allocpagerefpage` once it has the spinlock again. -/
def allocKpages (s : State C) (c : C) (va : Nat) : Outcome (State C) := do
  let some (.allocating p) := s.call c | .blocked
  if va = 0 then return s.finish c p
  else do
    Outcome.await (Fresh s.kpages va 1)
    let s := { s with kpages := (va, 1) :: s.kpages }
    Outcome.kassert (va % pageSize = 0)
    if (s.kheaproots p.1).page ≠ 0 then return s.setCall c (some (.freeing p va))
    else return (s.setRoot p.1 { s.kheaproots p.1 with page := va }).finish c p

/-- The rest of it once `free_kpages` is over. -/
def freeKpages (s : State C) (c : C) : Outcome (State C) := do
  let some (.freeing p va) := s.call c | .blocked
  let s := { s with kpages := s.kpages.filter fun held => held.1 ≠ va }
  Outcome.kassert ((s.kheaproots p.1).page ≠ 0)
  return s.finish c p

/-- Callers free what they have. -/
def freepageref (s : State C) (p : Ref) : Outcome (State C) := do
  Outcome.await (p ∈ s.live)
  let kheaproots ← freeFrom s.kheaproots p (List.finRange numPagerefpages)
  return { s with kheaproots := kheaproots, live := s.live.erase p }

def step (s : State C) : Action C → Outcome (State C)
  | .allocpageref c => s.allocpageref c
  | .allocKpages c va => s.allocKpages c va
  | .freeKpages c => s.freeKpages c
  | .freepageref p => s.freepageref p

end State

def machine : Machine (State C) (Action C) where
  initial s := (∀ w, s.kheaproots w = ⟨0, fun _ => false, 0⟩) ∧ (∀ c, s.call c = none) ∧ s.live = []
  step := State.step

/-- The loop is the one of the heap without its other variables. -/
theorem freeFrom_heap (s : Kmalloc.Heap) (p : Ref) (ws : List (Fin numPagerefpages)) :
    Kmalloc.Heap.freeFrom p ws s = (freeFrom s.kheaproots p ws).bind fun kheaproots =>
      .done { s with kheaproots := kheaproots } := by
  induction ws with
  | nil => rfl
  | cons w ws ih =>
    unfold Kmalloc.Heap.freeFrom freeFrom
    dsimp only
    split
    · by_cases zero : (s.kheaproots w).numinuse = 0
      · simp [zero, Outcome.kassert, ih]
      · simp [zero, Outcome.kassert, Outcome.bind]
    · split
      · rename_i here
        by_cases marked : (s.kheaproots w).pagerefsInuse p.2 = true
        · by_cases positive : 0 < (s.kheaproots w).numinuse
          · simp [marked, positive, Outcome.kassert, Outcome.pure_def, Outcome.bind, unmark,
              Kmalloc.Heap.setRoot]
          · simp [marked, positive, Outcome.kassert, Outcome.bind]
        · simp [marked, Outcome.kassert, Outcome.bind]
      · exact ih

/-! ### The roots -/

theorem mark_counted {root : KheapRoot} (h : root.Counted) {j : Fin npagerefsPerPage}
    (clear : root.pagerefsInuse j = false) : (mark root j).Counted := Counted.mark h clear

theorem unmark_counted {root : KheapRoot} (h : root.Counted) {j : Fin npagerefsPerPage}
    (set : root.pagerefsInuse j = true) : (unmark root j).Counted := Counted.unmark h set

theorem numinuse_of_full {root : KheapRoot} (h : root.Counted)
    (full : ∀ j, root.pagerefsInuse j = true) : root.numinuse = npagerefsPerPage := by
  rw [h, Finset.filter_true_of_mem fun j _ => full j, Finset.card_univ, Fintype.card_fin]

section Roots

variable {kheaproots : Fin numPagerefpages → KheapRoot} {p q : Ref} {ws : List (Fin numPagerefpages)}

/-- The bit is clear, and the roots before it are full. -/
theorem findFree_spec (counted : ∀ w, (kheaproots w).Counted) (sorted : ws.Pairwise (· < ·))
    (found : findFree kheaproots ws = some p) : (kheaproots p.1).pagerefsInuse p.2 = false ∧
      ∀ v ∈ ws, v < p.1 → npagerefsPerPage ≤ (kheaproots v).numinuse := by
  induction ws with
  | nil => cases found
  | cons w ws ih =>
    obtain ⟨least, sorted⟩ := List.pairwise_cons.mp sorted
    have skip : npagerefsPerPage ≤ (kheaproots w).numinuse → findFree kheaproots ws = some p →
        (kheaproots p.1).pagerefsInuse p.2 = false ∧
          ∀ v ∈ w :: ws, v < p.1 → npagerefsPerPage ≤ (kheaproots v).numinuse := by
      intro full found
      obtain ⟨clear, before⟩ := ih sorted found
      refine ⟨clear, fun v member less => ?_⟩
      obtain rfl | member := List.mem_cons.mp member
      · exact full
      · exact before v member less
    unfold findFree at found
    split at found
    · rename_i full
      exact skip full found
    · split at found
      · rename_i none
        refine skip (numinuse_of_full (counted w) fun j => ?_).ge found
        have set := List.find?_eq_none.mp none j (List.mem_finRange j)
        simpa using set
      · rename_i j first
        cases found
        refine ⟨by simpa using List.find?_some first, fun v member less => ?_⟩
        obtain rfl | member := List.mem_cons.mp member
        · exact absurd less (lt_irrefl v)
        · exact absurd (less.trans (least v member)) (lt_irrefl v)

/-- The pageref is found on its root, and the roots before it that have no page are empty. -/
theorem freeFrom_goes (sorted : ws.Pairwise (· < ·)) (member : p.1 ∈ ws)
    (page : (kheaproots p.1).page ≠ 0) (before : ∀ v < p.1, (kheaproots v).page ≠ 0)
    (set : (kheaproots p.1).pagerefsInuse p.2 = true) (counted : (kheaproots p.1).Counted) :
    freeFrom kheaproots p ws =
      .done (Function.update kheaproots p.1 (unmark (kheaproots p.1) p.2)) := by
  induction ws with
  | nil => cases member
  | cons w ws ih =>
    obtain ⟨least, sorted⟩ := List.pairwise_cons.mp sorted
    unfold freeFrom
    by_cases here : p.1 = w
    · subst here
      have positive := Counted.positive counted set
      simp [page, set, positive, Outcome.kassert, Outcome.pure_def]
    · have rest : p.1 ∈ ws := (List.mem_cons.mp member).resolve_left here
      simp [before w (least _ rest), here, ih sorted rest]

/-- Whether the bit of a pageref is set. -/
def Inuse (kheaproots : Fin numPagerefpages → KheapRoot) (p : Ref) : Prop :=
  (kheaproots p.1).pagerefsInuse p.2 = true

theorem inuse_mark :
    Inuse (Function.update kheaproots p.1 (mark (kheaproots p.1) p.2)) q ↔ Inuse kheaproots q ∨ q = p := by
  unfold Inuse
  by_cases root : q.1 = p.1
  · rw [root, Function.update_self]
    show Function.update (kheaproots p.1).pagerefsInuse p.2 true q.2 = true ↔ _
    by_cases place : q.2 = p.2
    · simp [Prod.ext root place]
    · have other : q ≠ p := fun same => place (congrArg Prod.snd same)
      simp [Function.update_of_ne place, other]
  · have other : q ≠ p := fun same => root (congrArg Prod.fst same)
    rw [Function.update_of_ne root]
    simp [other]

theorem inuse_unmark :
    Inuse (Function.update kheaproots p.1 (unmark (kheaproots p.1) p.2)) q ↔ Inuse kheaproots q ∧ q ≠ p := by
  unfold Inuse
  by_cases root : q.1 = p.1
  · rw [root, Function.update_self]
    show Function.update (kheaproots p.1).pagerefsInuse p.2 false q.2 = true ↔ _
    by_cases place : q.2 = p.2
    · simp [Prod.ext root place]
    · have other : q ≠ p := fun same => place (congrArg Prod.snd same)
      simp [Function.update_of_ne place, other]
  · have other : q ≠ p := fun same => root (congrArg Prod.fst same)
    rw [Function.update_of_ne root]
    simp [other]

end Roots

/-! ### The invariant -/

namespace State

variable (s : State C)

/-- A call in progress has the pageref. -/
def Pending (p : Ref) : Prop := ∃ c call, s.call c = some call ∧ call.ref = p

structure Inv : Prop where
  counted : ∀ w, (s.kheaproots w).Counted
  owned : ∀ p, Inuse s.kheaproots p ↔ p ∈ s.live ∨ s.Pending p
  alone : ∀ c d a b, s.call c = some a → s.call d = some b → a.ref = b.ref → c = d
  pending : ∀ p, s.Pending p → p ∉ s.live
  nodup : s.live.Nodup
  paged : ∀ p ∈ s.live, (s.kheaproots p.1).page ≠ 0
  /-- A root is used once those before it have their pages. -/
  order : ∀ p, Inuse s.kheaproots p → ∀ v < p.1, (s.kheaproots v).page ≠ 0
  pages : ∀ w, (s.kheaproots w).page ≠ 0 → ((s.kheaproots w).page, 1) ∈ s.kpages
  aligned : ∀ w, (s.kheaproots w).page % pageSize = 0
  apart : ∀ w v, (s.kheaproots w).page ≠ 0 → (s.kheaproots w).page = (s.kheaproots v).page → w = v
  /-- The page that a call is to free is nobody else's. -/
  spare : ∀ c p va, s.call c = some (.freeing p va) → (va, 1) ∈ s.kpages ∧
    (∀ w, (s.kheaproots w).page ≠ va) ∧ (s.kheaproots p.1).page ≠ 0
  spares : ∀ c d p q va, s.call c = some (.freeing p va) → s.call d = some (.freeing q va) → c = d

end State

/-- No page is asked for in vain while its root has none, and no call passes over a full root that
has no page. -/
def Served (s : State C) : Action C → Prop
  | .allocpageref _ => ∀ w, (s.kheaproots w).page = 0 → (s.kheaproots w).numinuse < npagerefsPerPage
  | .allocKpages c va => va = 0 → ∀ p, s.call c = some (.allocating p) → (s.kheaproots p.1).page ≠ 0
  | _ => True

section Steps

variable {s : State C} {c : C} {p : Ref}

theorem finRange_sorted : (List.finRange numPagerefpages).Pairwise (· < ·) := List.pairwise_lt_finRange _

/-- The call returns with the pageref that it has marked. -/
theorem State.Inv.finish (h : s.Inv) {a : Call} (call : s.call c = some a)
    (page : (s.kheaproots a.ref.1).page ≠ 0) : (s.finish c a.ref).Inv := by
  have mine : s.Pending a.ref := ⟨c, a, call, rfl⟩
  have others : ∀ d b, (s.setCall c none).call d = some b → d ≠ c ∧ s.call d = some b := by
    intro d b is
    by_cases same : d = c
    · subst same
      simp [State.setCall] at is
    · exact ⟨same, by simpa [State.setCall, Function.update_of_ne same] using is⟩
  have still : ∀ p, p ≠ a.ref → s.Pending p → (s.setCall c none).Pending p := by
    rintro p other ⟨d, b, is, rfl⟩
    refine ⟨d, b, ?_, rfl⟩
    have away : d ≠ c := by
      rintro rfl
      rw [is] at call
      cases call
      exact other rfl
    exact (Function.update_of_ne away ..).trans is
  have was : ∀ p, (s.setCall c none).Pending p → s.Pending p ∧ p ≠ a.ref := by
    rintro p ⟨d, b, is, rfl⟩
    obtain ⟨away, is⟩ := others d b is
    exact ⟨⟨d, b, is, rfl⟩, fun same => away (h.alone d c b a is call same)⟩
  unfold State.finish
  rw [if_neg (show ¬ ((s.setCall c none).kheaproots a.ref.1).page = 0 from page)]
  constructor
  · exact h.counted
  · intro p
    refine (h.owned p).trans ?_
    constructor
    · rintro (live | pending)
      · exact .inl (List.mem_cons_of_mem _ live)
      · by_cases same : p = a.ref
        · exact .inl (List.mem_cons.mpr (.inl same))
        · exact .inr (still p same pending)
    · rintro (live | pending)
      · obtain rfl | live := List.mem_cons.mp live
        · exact .inr mine
        · exact .inl live
      · exact .inr (was p pending).1
  · intro d e b b' isd ise same
    exact h.alone d e b b' (others d b isd).2 (others e b' ise).2 same
  · intro p pending member
    obtain ⟨pending, other⟩ := was p pending
    exact h.pending p pending ((List.mem_cons.mp member).resolve_left other)
  · exact List.nodup_cons.mpr ⟨h.pending _ mine, h.nodup⟩
  · intro p member
    obtain rfl | member := List.mem_cons.mp member
    · exact page
    · exact h.paged p member
  · exact h.order
  · exact h.pages
  · exact h.aligned
  · exact h.apart
  · exact fun d p va is => h.spare d p va (others d _ is).2
  · exact fun d e p q va isd ise => h.spares d e p q va (others d _ isd).2 (others e _ ise).2

theorem finish_setCall (s : State C) (c : C) (call : Option Call) (p : Ref) :
    (s.setCall c call).finish c p = s.finish c p := by
  simp only [State.finish, State.setCall, Function.update_idem]
  rfl

/-- The call marks a bit that is clear. -/
theorem State.Inv.marked (h : s.Inv) (idle : s.call c = none) (clear : ¬ Inuse s.kheaproots p)
    (before : ∀ v < p.1, (s.kheaproots v).page ≠ 0) :
    ((s.setRoot p.1 (mark (s.kheaproots p.1) p.2)).setCall c (some (.allocating p))).Inv := by
  set t := (s.setRoot p.1 (mark (s.kheaproots p.1) p.2)).setCall c (some (.allocating p))
  have pages : ∀ w, (t.kheaproots w).page = (s.kheaproots w).page := by
    intro w
    show (Function.update s.kheaproots p.1 _ w).page = _
    by_cases same : w = p.1
    · rw [same, Function.update_self]
      rfl
    · rw [Function.update_of_ne same]
  have free : p ∉ s.live ∧ ¬ s.Pending p := not_or.mp fun owned => clear ((h.owned p).mpr owned)
  have calls : ∀ d b, t.call d = some b → d = c ∧ b = .allocating p ∨ s.call d = some b := by
    intro d b is
    by_cases same : d = c
    · subst same
      rw [show t.call d = some (.allocating p) from Function.update_self ..] at is
      exact .inl ⟨rfl, (Option.some.inj is).symm⟩
    · exact .inr ((Function.update_of_ne same ..).symm.trans is)
  have pending : ∀ q, t.Pending q ↔ s.Pending q ∨ q = p := by
    intro q
    constructor
    · rintro ⟨d, b, is, rfl⟩
      obtain ⟨_, rfl⟩ | is := calls d b is
      · exact .inr rfl
      · exact .inl ⟨d, b, is, rfl⟩
    · rintro (⟨d, b, is, rfl⟩ | rfl)
      · have away : d ≠ c := by
          rintro rfl
          rw [is] at idle
          cases idle
        exact ⟨d, b, (Function.update_of_ne away ..).trans is, rfl⟩
      · exact ⟨c, _, Function.update_self .., rfl⟩
  have old : ∀ d b, s.call d = some b → b.ref ≠ p := by
    rintro d b is same
    exact free.2 ⟨d, b, is, same⟩
  constructor
  · intro w
    show (Function.update s.kheaproots p.1 _ w).Counted
    by_cases same : w = p.1
    · rw [same, Function.update_self]
      exact mark_counted (h.counted p.1) (Bool.eq_false_iff.mpr clear)
    · rw [Function.update_of_ne same]
      exact h.counted w
  · intro q
    rw [pending, ← or_assoc, ← show _ ↔ q ∈ t.live ∨ s.Pending q from h.owned q]
    exact inuse_mark
  · intro d e a b isd ise same
    obtain ⟨rfl, rfl⟩ | isd' := calls d a isd
    · obtain ⟨rfl, _⟩ | ise' := calls e b ise
      · rfl
      · exact absurd same.symm (old e b ise')
    · obtain ⟨rfl, rfl⟩ | ise' := calls e b ise
      · exact absurd same (old d a isd')
      · exact h.alone d e a b isd' ise' same
  · intro q is
    obtain is | rfl := (pending q).mp is
    · exact h.pending q is
    · exact free.1
  · exact h.nodup
  · intro q live
    rw [pages]
    exact h.paged q live
  · intro q set v less
    rw [pages]
    obtain set | rfl := inuse_mark.mp set
    · exact h.order q set v less
    · exact before v less
  · intro w
    rw [pages]
    exact h.pages w
  · intro w
    rw [pages]
    exact h.aligned w
  · intro w v
    rw [pages, pages]
    exact h.apart w v
  · intro d q va is
    obtain ⟨_, is⟩ | is := calls d _ is
    · cases is
    · simp only [pages]
      exact h.spare d q va is
  · intro d e q q' va isd ise
    obtain ⟨_, isd⟩ | isd := calls d _ isd
    · cases isd
    · obtain ⟨_, ise⟩ | ise := calls e _ ise
      · cases ise
      · exact h.spares d e q q' va isd ise

/-- The pages of the roots and those that are to be freed are not the new one. -/
theorem fresh_other {kpages : List (Nat × Nat)} {va page : Nat} (fresh : Fresh kpages va 1)
    (held : (page, 1) ∈ kpages) : page ≠ va := by
  rintro rfl
  have apart := fresh.2.2.2 _ held
  simp only [pageSize] at apart
  omega

theorem fresh_nonzero {kpages : List (Nat × Nat)} {va : Nat} (fresh : Fresh kpages va 1) : va ≠ 0 := by
  have low := fresh.2.1
  simp only [mipsKseg0] at low
  omega

/-- The root of a call gets its page. -/
theorem State.Inv.setPage (h : s.Inv) {w : Fin numPagerefpages} {va : Nat} (fresh : Fresh s.kpages va 1)
    (none : (s.kheaproots w).page = 0) :
    (State.setRoot { s with kpages := (va, 1) :: s.kpages } w { s.kheaproots w with page := va }).Inv := by
  set t := State.setRoot { s with kpages := (va, 1) :: s.kpages } w { s.kheaproots w with page := va }
  have root : ∀ v, t.kheaproots v = if v = w then { s.kheaproots w with page := va } else s.kheaproots v :=
    fun v => Function.update_apply ..
  have inuse : ∀ q, Inuse t.kheaproots q ↔ Inuse s.kheaproots q := by
    intro q
    unfold Inuse
    rw [root]
    split
    · rename_i same
      rw [same]
    · rfl
  have keeps : ∀ v, (s.kheaproots v).page ≠ 0 → (t.kheaproots v).page = (s.kheaproots v).page := by
    intro v some
    rw [root, if_neg]
    rintro rfl
    exact some none
  have page : ∀ v, (t.kheaproots v).page ≠ 0 → v = w ∧ (t.kheaproots v).page = va ∨
      v ≠ w ∧ (s.kheaproots v).page ≠ 0 := by
    intro v some
    rw [root] at some ⊢
    split
    · rename_i same
      exact .inl ⟨same, rfl⟩
    · rename_i other
      rw [if_neg other] at some
      exact .inr ⟨other, some⟩
  constructor
  · intro v
    rw [root]
    split
    · exact h.counted w
    · exact h.counted v
  · exact fun q => (inuse q).trans (h.owned q)
  · exact h.alone
  · exact h.pending
  · exact h.nodup
  · intro q live
    rw [keeps _ (h.paged q live)]
    exact h.paged q live
  · intro q set v less
    have before := h.order q ((inuse q).mp set) v less
    rw [keeps v before]
    exact before
  · intro v some
    obtain ⟨_, new⟩ | ⟨_, old⟩ := page v some
    · rw [new]
      exact List.mem_cons_self
    · rw [keeps v old]
      exact List.mem_cons_of_mem _ (h.pages v old)
  · intro v
    rw [root]
    split
    · exact fresh.1
    · exact h.aligned v
  · intro v u some same
    have some' := same ▸ some
    obtain ⟨rfl, new⟩ | ⟨_, old⟩ := page v some
    · obtain ⟨rfl, _⟩ | ⟨_, old⟩ := page u some'
      · rfl
      · rw [new, keeps u old] at same
        exact absurd same.symm (fresh_other fresh (h.pages u old))
    · obtain ⟨rfl, new⟩ | ⟨_, old'⟩ := page u some'
      · rw [new, keeps v old] at same
        exact absurd same (fresh_other fresh (h.pages v old))
      · rw [keeps v old, keeps u old'] at same
        exact h.apart v u old same
  · intro d q va' is
    obtain ⟨held, nobody, some⟩ := h.spare d q va' is
    refine ⟨List.mem_cons_of_mem _ held, fun v => ?_, ?_⟩
    · rw [root]
      split
      · exact (fresh_other fresh held).symm
      · exact nobody v
    · rw [keeps _ some]
      exact some
  · exact h.spares

/-- The call has a page that it does not need. -/
theorem State.Inv.spared (h : s.Inv) {va : Nat} (call : s.call c = some (.allocating p))
    (fresh : Fresh s.kpages va 1) (page : (s.kheaproots p.1).page ≠ 0) :
    (State.setCall { s with kpages := (va, 1) :: s.kpages } c (some (.freeing p va))).Inv := by
  set t := State.setCall { s with kpages := (va, 1) :: s.kpages } c (some (.freeing p va))
  have calls : ∀ d b, t.call d = some b →
      d = c ∧ b = .freeing p va ∨ d ≠ c ∧ s.call d = some b := by
    intro d b is
    by_cases same : d = c
    · subst same
      rw [show t.call d = some (.freeing p va) from Function.update_self ..] at is
      exact .inl ⟨rfl, (Option.some.inj is).symm⟩
    · exact .inr ⟨same, (Function.update_of_ne same ..).symm.trans is⟩
  -- it has the pageref that it had
  have same : ∀ d b, t.call d = some b → ∃ b', s.call d = some b' ∧ b'.ref = b.ref := by
    intro d b is
    obtain ⟨rfl, rfl⟩ | ⟨_, is⟩ := calls d b is
    · exact ⟨_, call, rfl⟩
    · exact ⟨b, is, rfl⟩
  have pending : ∀ q, t.Pending q ↔ s.Pending q := by
    intro q
    constructor
    · rintro ⟨d, b, is, rfl⟩
      obtain ⟨b', is, ref⟩ := same d b is
      exact ⟨d, b', is, ref⟩
    · rintro ⟨d, b, is, rfl⟩
      by_cases own : d = c
      · subst own
        rw [call] at is
        cases is
        exact ⟨d, _, Function.update_self .., rfl⟩
      · exact ⟨d, b, (Function.update_of_ne own ..).trans is, rfl⟩
  constructor
  · exact h.counted
  · intro q
    rw [pending]
    exact h.owned q
  · intro d e a b isd ise ref
    obtain ⟨a', isd, refa⟩ := same d a isd
    obtain ⟨b', ise, refb⟩ := same e b ise
    exact h.alone d e a' b' isd ise (refa.trans (ref.trans refb.symm))
  · exact fun q is => h.pending q ((pending q).mp is)
  · exact h.nodup
  · exact h.paged
  · exact h.order
  · exact fun w some => List.mem_cons_of_mem _ (h.pages w some)
  · exact h.aligned
  · exact h.apart
  · intro d q va' is
    obtain ⟨rfl, new⟩ | ⟨_, is⟩ := calls d _ is
    · cases new
      refine ⟨List.mem_cons_self, fun w same => ?_, page⟩
      by_cases some : (s.kheaproots w).page = 0
      · exact fresh_nonzero fresh (same.symm.trans some)
      · exact fresh_other fresh (h.pages w some) same
    · obtain ⟨held, nobody, some⟩ := h.spare d q va' is
      exact ⟨List.mem_cons_of_mem _ held, nobody, some⟩
  · intro d e q q' va' isd ise
    obtain ⟨rfl, isd'⟩ | ⟨_, isd'⟩ := calls d _ isd
    · cases isd'
      obtain ⟨rfl, _⟩ | ⟨_, ise'⟩ := calls e _ ise
      · rfl
      · exact absurd rfl (fresh_other fresh (h.spare e q' va ise').1)
    · obtain ⟨rfl, ise'⟩ | ⟨_, ise'⟩ := calls e _ ise
      · cases ise'
        exact absurd rfl (fresh_other fresh (h.spare d q va isd').1)
      · exact h.spares d e q q' va' isd' ise'

/-- A page is freed that no root has and no call is to free. -/
theorem State.Inv.dropped (h : s.Inv) {va : Nat} (roots : ∀ w, (s.kheaproots w).page ≠ va)
    (calls : ∀ d q, s.call d ≠ some (.freeing q va)) :
    State.Inv { s with kpages := s.kpages.filter fun held => held.1 ≠ va } := by
  have stays : ∀ page, page ≠ va → (page, 1) ∈ s.kpages →
      (page, 1) ∈ s.kpages.filter fun held => held.1 ≠ va :=
    fun page other held => List.mem_filter.mpr ⟨held, decide_eq_true other⟩
  exact ⟨h.counted, h.owned, h.alone, h.pending, h.nodup, h.paged, h.order,
    fun w some => stays _ (roots w) (h.pages w some), h.aligned, h.apart,
    fun d q va' is => ⟨stays va' (fun same => calls d q (same ▸ is)) (h.spare d q va' is).1,
      (h.spare d q va' is).2⟩, h.spares⟩

/-- A pageref is freed. -/
theorem State.Inv.freed (h : s.Inv) (live : p ∈ s.live) :
    State.Inv { s with
      kheaproots := Function.update s.kheaproots p.1 (unmark (s.kheaproots p.1) p.2)
      live := s.live.erase p } := by
  have set : Inuse s.kheaproots p := (h.owned p).mpr (.inl live)
  have pages : ∀ w, (Function.update s.kheaproots p.1 (unmark (s.kheaproots p.1) p.2) w).page =
      (s.kheaproots w).page := by
    intro w
    by_cases same : w = p.1
    · rw [same, Function.update_self]
      rfl
    · rw [Function.update_of_ne same]
  constructor
  · intro w
    dsimp only
    by_cases same : w = p.1
    · rw [same, Function.update_self]
      exact unmark_counted (h.counted p.1) set
    · rw [Function.update_of_ne same]
      exact h.counted w
  · intro q
    refine inuse_unmark.trans ?_
    rw [h.nodup.mem_erase_iff, h.owned q]
    constructor
    · rintro ⟨live | pending, other⟩
      · exact .inl ⟨other, live⟩
      · exact .inr pending
    · rintro (⟨other, live⟩ | pending)
      · exact ⟨.inl live, other⟩
      · refine ⟨.inr pending, ?_⟩
        rintro rfl
        exact h.pending q pending live
  · exact h.alone
  · exact fun q pending member => h.pending q pending (List.mem_of_mem_erase member)
  · exact h.nodup.erase p
  · intro q member
    rw [pages]
    exact h.paged q (List.mem_of_mem_erase member)
  · intro q is v less
    rw [pages]
    exact h.order q (inuse_unmark.mp is).1 v less
  · intro w
    rw [pages]
    exact h.pages w
  · intro w
    rw [pages]
    exact h.aligned w
  · intro w v
    rw [pages, pages]
    exact h.apart w v
  · intro d q va is
    simp only [pages]
    exact h.spare d q va is
  · exact h.spares

theorem allocpageref_inv (h : s.Inv) (c : C) (served : Served s (.allocpageref c)) :
    (s.allocpageref c).Meets State.Inv := by
  simp only [State.allocpageref, Outcome.meets_bind, Outcome.meets_await]
  intro idle
  split
  · exact h
  · rename_i p found
    obtain ⟨clear, full⟩ := findFree_spec h.counted finRange_sorted found
    have before : ∀ v < p.1, (s.kheaproots v).page ≠ 0 := by
      intro v less none
      have room := served v none
      have none' := full v (List.mem_finRange v) less
      omega
    have marked := h.marked (p := p) idle (Bool.eq_false_iff.mp clear) before
    split
    · exact marked
    · rename_i page
      have done := marked.finish (c := c) (a := .allocating p) (Function.update_self ..) page
      rwa [finish_setCall] at done

theorem allocKpages_inv (h : s.Inv) (c : C) (va : Nat) (served : Served s (.allocKpages c va)) :
    (s.allocKpages c va).Meets State.Inv := by
  unfold State.allocKpages
  split
  · rename_i p call
    split
    · rename_i zero
      exact h.finish call (served zero p call)
    · simp only [Outcome.meets_bind, Outcome.meets_await, Outcome.meets_kassert]
      intro fresh
      refine ⟨fresh.1, ?_⟩
      split
      · rename_i page
        exact h.spared call fresh page
      · rename_i page
        have none : (s.kheaproots p.1).page = 0 := not_not.mp page
        refine (h.setPage fresh none).finish (a := .allocating p) call ?_
        show (Function.update s.kheaproots p.1 _ p.1).page ≠ 0
        rw [Function.update_self]
        exact fresh_nonzero fresh
  · trivial

theorem freeKpages_inv (h : s.Inv) (c : C) : (s.freeKpages c).Meets State.Inv := by
  unfold State.freeKpages
  split
  · rename_i p va call
    obtain ⟨_, roots, page⟩ := h.spare c p va call
    rw [Outcome.meets_bind, Outcome.meets_kassert, Outcome.meets_pure]
    refine ⟨page, ?_⟩
    have finish : s.finish c p = { s.setCall c none with live := p :: s.live } := if_neg page
    have done : State.Inv { s.setCall c none with live := p :: s.live } := finish ▸ h.finish call page
    rw [show State.finish { s with kpages := s.kpages.filter fun held => held.1 ≠ va } c p = _ from
      if_neg page]
    refine done.dropped roots fun d q is => ?_
    by_cases own : d = c
    · subst own
      simp [State.setCall] at is
    · have is' : s.call d = some (.freeing q va) := (Function.update_of_ne own ..).symm.trans is
      exact own (h.spares d c q p va is' call)
  · trivial

theorem freepageref_inv (h : s.Inv) (p : Ref) : (s.freepageref p).Meets State.Inv := by
  simp only [State.freepageref, Outcome.meets_bind, Outcome.meets_await]
  intro live
  have set : Inuse s.kheaproots p := (h.owned p).mpr (.inl live)
  rw [freeFrom_goes finRange_sorted (List.mem_finRange p.1) (h.paged p live) (h.order p set) set
    (h.counted p.1)]
  exact h.freed live

theorem step_inv (h : s.Inv) (a : Action C) (served : Served s a) : (s.step a).Meets State.Inv := by
  cases a with
  | allocpageref c => exact allocpageref_inv h c served
  | allocKpages c va => exact allocKpages_inv h c va served
  | freeKpages c => exact freeKpages_inv h c
  | freepageref p => exact freepageref_inv h p

theorem initial_inv (start : machine.initial s) : s.Inv := by
  obtain ⟨roots, calls, live⟩ := start
  have clear : ∀ p, ¬ Inuse s.kheaproots p := by
    intro p
    simp [Inuse, roots]
  have idle : ∀ p, ¬ s.Pending p := by
    rintro p ⟨c, a, is, _⟩
    rw [calls] at is
    cases is
  constructor
  · intro w
    rw [roots]
    simp [KheapRoot.Counted]
  · exact fun p => iff_of_false (clear p) (by simp [live, idle])
  · intro c d a b is
    rw [calls] at is
    cases is
  · exact fun p is => absurd is (idle p)
  · rw [live]
    exact List.nodup_nil
  · simp [live]
  · exact fun p is => absurd is (clear p)
  · simp [roots]
  · simp [roots]
  · simp [roots]
  · simp [calls]
  · simp [calls]

theorem reached_inv (h : machine.ReachableBy Served s) : s.Inv :=
  machine.invariant (fun _ => initial_inv) (fun _ a _ inv served step => (step_inv inv a served).of_done step)
    h

end Steps

/-- The address of a pageref. -/
def State.address (s : State C) (p : Ref) : Nat := (s.kheaproots p.1).page + 16 * p.2

/-- What `numinuse` and the bits say, and that pagerefs are apart. -/
structure State.Kept (s : State C) : Prop where
  counted : ∀ w, (s.kheaproots w).Counted
  handed : (∀ c, s.call c = none) → ∀ w,
    (s.kheaproots w).numinuse = (s.live.filter fun p => p.1 = w).length
  rootless : (∀ c, s.call c = none) → ∀ w, (s.kheaproots w).page = 0 → (s.kheaproots w).numinuse = 0
  frees : ∀ p ∈ s.live, ∃ t, s.freepageref p = .done t
  nodup : s.live.Nodup
  apart : ∀ p ∈ s.live, ∀ q ∈ s.live, s.address p = s.address q → p = q

section Runs

variable {s : State C}

end Runs

/-- Before the first call. -/
def empty (C : Type) : State C := ⟨fun _ => ⟨0, fun _ => false, 0⟩, [], fun _ => none, []⟩

end Os161.Pagerefs
