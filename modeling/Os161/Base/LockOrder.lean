import Mathlib.Data.Finset.Max
import Mathlib.Data.List.Count
import Mathlib.Logic.Relation
import Os161.Base.LockCode

/-!
# The order of locks

`Code.Obeys` is the calculus of the locks that are held: it says which locks code asks for while it
holds which, and with which it ends. From it follows what a whole system of threads does, and that
no threads wait for each other if they wait in an order.
-/

set_option linter.unusedSectionVars false

namespace Os161.Locks

variable {S T L C Call α β : Type} [DecidableEq T] [DecidableEq L]

/-! ### Waiting in order -/

section Rank

variable {s : State S T L C} {rank : L → Nat}

/-- A thread that waits for a lock has only locks of lower rank. -/
def State.InOrder (s : State S T L C) (rank : L → Nat) : Prop :=
  ∀ t l next, s.status t = .waiting l next → ∀ l', s.Holds t l' → rank l' < rank l

theorem State.InOrder.rank_lt (h : s.InOrder rank) {l l' : L} (waits : s.Waits l l') :
    rank l < rank l' := by
  obtain ⟨t, next, holds, waiting⟩ := waits
  exact h t l' next waiting l holds

theorem State.InOrder.acyclic (h : s.InOrder rank) (l : L) : ¬ Relation.TransGen s.Waits l l := by
  have up : ∀ l', Relation.TransGen s.Waits l l' → rank l < rank l' := by
    intro l' path
    induction path with
    | single waits => exact h.rank_lt waits
    | tail _ waits ih => exact ih.trans (h.rank_lt waits)
  exact fun cycle => Nat.lt_irrefl _ (up l cycle)

/-- No threads wait for locks of each other only. -/
theorem State.InOrder.no_deadlock (h : s.InOrder rank) (stuck : Finset T) (some' : stuck.Nonempty) :
    ¬ ∀ t ∈ stuck, ∃ l next, s.status t = .waiting l next ∧ ∃ u ∈ stuck, s.Holds u l := by
  intro each
  have waits : ∀ t : stuck, ∃ l next, s.status t = .waiting l next ∧ ∃ u ∈ stuck, s.Holds u l :=
    fun t => each t t.2
  choose wanted next waiting holder using waits
  obtain ⟨t, _, top⟩ := Finset.exists_max_image stuck.attach (fun t => rank (wanted t))
    (Finset.attach_nonempty_iff.mpr some')
  obtain ⟨u, member, holds⟩ := holder t
  have higher := h u _ _ (waiting ⟨u, member⟩) (wanted t) holds
  have lower := top ⟨u, member⟩ (Finset.mem_attach ..)
  omega

end Rank

/-! ### What code holds -/

section Obeys

variable {recursive : L → Bool} {ok ok' : List L → L → Prop} {h : List L}
variable {post post' : List L → α → Prop} {c : Code S L C α}

/-- With the locks `h` the code asks for a lock only when `ok` lets it, and ends with locks and a
result that meet `post`, unless the machine stops. -/
def Code.Obeys (recursive : L → Bool) (ok : List L → L → Prop) :
    Code S L C α → List L → (List L → α → Prop) → Prop
  | .pure a, h, post => post h a
  | .look next, h, post => ∀ s, (next s).Obeys recursive ok h post
  | .act _ next, h, post => next.Obeys recursive ok h post
  | .choose next, h, post => ∀ c, (next c).Obeys recursive ok h post
  | .acquire l next, h, post => (l ∉ h → ok h l) ∧
      ((l ∈ h → recursive l = true) → next.Obeys recursive ok (l :: h) post)
  | .release l next, h, post => l ∈ h → next.Obeys recursive ok (h.erase l) post
  | .destroy _ next, h, post => next.Obeys recursive ok h post
  | .panic, _, _ => True

theorem Code.Obeys.mono (obeys : c.Obeys recursive ok h post) (imp : ∀ h a, post h a → post' h a) :
    c.Obeys recursive ok h post' := by
  induction c generalizing h with
  | pure a => exact imp h a obeys
  | look next ih => exact fun s => ih s (obeys s)
  | act f next ih => exact ih obeys
  | choose next ih => exact fun c => ih c (obeys c)
  | acquire l next ih => exact ⟨obeys.1, fun again => ih (obeys.2 again)⟩
  | release l next ih => exact fun held => ih (obeys held)
  | destroy l next ih => exact ih obeys
  | panic => trivial

@[simp] theorem obeys_pure {a : α} :
    (pure a : Code S L C α).Obeys recursive ok h post = post h a := rfl

@[simp] theorem obeys_bind {f : α → Code S L C β} {post : List L → β → Prop} :
    (c >>= f).Obeys recursive ok h post =
      c.Obeys recursive ok h fun h' a => (f a).Obeys recursive ok h' post := by
  apply propext
  show (c.bind f).Obeys recursive ok h post ↔ _
  induction c generalizing h with
  | pure a => exact Iff.rfl
  | look next ih => exact forall_congr' fun s => ih s
  | act g next ih => exact ih
  | choose next ih => exact forall_congr' fun c => ih c
  | acquire l next ih => exact and_congr_right fun _ => imp_congr_right fun _ => ih
  | release l next ih => exact imp_congr_right fun _ => ih
  | destroy l next ih => exact ih
  | panic => exact Iff.rfl

@[simp] theorem obeys_look {post : List L → S → Prop} :
    (look : Code S L C S).Obeys recursive ok h post = (∀ s, post h s) := rfl

@[simp] theorem obeys_act {f : S → Outcome S} {post : List L → Unit → Prop} :
    (act f : Code S L C Unit).Obeys recursive ok h post = post h () := rfl

@[simp] theorem obeys_choose {post : List L → C → Prop} :
    (choose : Code S L C C).Obeys recursive ok h post = (∀ c, post h c) := rfl

@[simp] theorem obeys_acquire {l : L} {post : List L → Unit → Prop} :
    (acquire l : Code S L C Unit).Obeys recursive ok h post =
      ((l ∉ h → ok h l) ∧ ((l ∈ h → recursive l = true) → post (l :: h) ())) := rfl

@[simp] theorem obeys_release {l : L} {post : List L → Unit → Prop} :
    (release l : Code S L C Unit).Obeys recursive ok h post = (l ∈ h → post (h.erase l) ()) :=
  rfl

@[simp] theorem obeys_destroy {l : L} {post : List L → Unit → Prop} :
    (destroy l : Code S L C Unit).Obeys recursive ok h post = post h () := rfl

@[simp] theorem obeys_panic : (Code.panic : Code S L C α).Obeys recursive ok h post := trivial

@[simp] theorem obeys_kassert {p : Prop} [Decidable p] {post : List L → Unit → Prop} :
    (kassert p : Code S L C Unit).Obeys recursive ok h post = (p → post h ()) := by
  unfold kassert
  split
  · rename_i true
    exact propext ⟨fun holds _ => holds, fun imp => imp true⟩
  · rename_i false
    exact propext ⟨fun _ is => absurd is false, fun _ => obeys_panic⟩

@[simp] theorem obeys_deref {o : Option α} :
    (deref o : Code S L C α).Obeys recursive ok h post = (∀ a, o = some a → post h a) := by
  cases o with
  | none => exact propext ⟨fun _ a is => (nomatch is), fun _ => obeys_panic⟩
  | some a => exact propext ⟨fun holds b is => Option.some.inj is ▸ holds, fun each => each a rfl⟩

/-! The same for proofs that go through code step by step. -/

theorem look_obeys {post : List L → S → Prop} (after : ∀ s, post h s) :
    (look : Code S L C S).Obeys recursive ok h post := after

theorem choose_obeys {post : List L → C → Prop} (after : ∀ c, post h c) :
    (choose : Code S L C C).Obeys recursive ok h post := after

theorem act_obeys {f : S → Outcome S} {post : List L → Unit → Prop} (after : post h ()) :
    (act f : Code S L C Unit).Obeys recursive ok h post := after

theorem kassert_obeys {p : Prop} [Decidable p] {post : List L → Unit → Prop} (after : post h ()) :
    (kassert p : Code S L C Unit).Obeys recursive ok h post := obeys_kassert.mpr fun _ => after

theorem deref_obeys {o : Option α} (after : ∀ a, post h a) :
    (deref o : Code S L C α).Obeys recursive ok h post := obeys_deref.mpr fun a _ => after a

theorem acquire_obeys {l : L} {post : List L → Unit → Prop} (may : l ∉ h → ok h l)
    (after : post (l :: h) ()) : (acquire l : Code S L C Unit).Obeys recursive ok h post :=
  ⟨may, fun _ => after⟩

/-- The lock that was taken last is released. -/
theorem release_obeys {l : L} {post : List L → Unit → Prop} (after : post h ()) :
    (release l : Code S L C Unit).Obeys recursive ok (l :: h) post := by
  simp [after]

/-- The lock that was taken before the last is released. -/
theorem release_under_obeys {l l' : L} {post : List L → Unit → Prop} (differ : l' ≠ l)
    (after : post (l' :: h) ()) :
    (release l : Code S L C Unit).Obeys recursive ok (l' :: l :: h) post := by
  simp [differ, after]

theorem destroy_obeys {l : L} {post : List L → Unit → Prop} (after : post h ()) :
    (destroy l : Code S L C Unit).Obeys recursive ok h post := after

/-- Code that asks for some locks only may be run where these may be asked for. -/
theorem Code.Obeys.within {asks : L → Prop} (obeys : c.Obeys recursive (fun _ l => asks l) h post)
    (allowed : ∀ h' l, asks l → (∀ l' ∈ h', asks l' ∨ l' ∈ h) → l ∉ h' → ok h' l) :
    c.Obeys recursive ok h post := by
  have general : ∀ now, (∀ l' ∈ now, asks l' ∨ l' ∈ h) →
      c.Obeys recursive (fun _ l => asks l) now post → c.Obeys recursive ok now post := by
    clear obeys
    induction c with
    | pure a => exact fun _ _ obeys => obeys
    | look next ih => exact fun now known obeys s => ih s now known (obeys s)
    | act f next ih => exact ih
    | choose next ih => exact fun now known obeys c => ih c now known (obeys c)
    | acquire l next ih =>
      intro now known ⟨ask, rest⟩
      refine ⟨fun free => allowed now l (ask free) known free, fun again => ?_⟩
      apply ih (l :: now) ?_ (rest again)
      intro l' member
      rcases List.mem_cons.mp member with rfl | before
      · by_cases held : l' ∈ now
        · exact known l' held
        · exact .inl (ask held)
      · exact known l' before
    | release l next ih =>
      intro now known obeys held
      exact ih (now.erase l) (fun l' member => known l' (List.mem_of_mem_erase member)) (obeys held)
    | destroy l next ih => exact ih
    | panic => exact fun _ _ _ => trivial
  exact general h (fun _ member => .inr member) obeys

/-- Code that asks for some locks only, and gives back what it takes. -/
structure Balanced (recursive : L → Bool) (asks : L → Prop) (S C α : Type) where
  code : Code S L C α
  balanced : ∀ h, code.Obeys recursive (fun _ l => asks l) h fun h' _ => h' = h

/-- Balanced code in the middle of other code. -/
theorem Balanced.obeys {asks : L → Prop} (b : Balanced recursive asks S C α)
    (allowed : ∀ h' l, asks l → (∀ l' ∈ h', asks l' ∨ l' ∈ h) → l ∉ h' → ok h' l)
    (after : ∀ a, post h a) : b.code.Obeys recursive ok h post := by
  refine ((b.balanced h).within allowed).mono fun h' a same => ?_
  subst same
  exact after a

end Obeys

/-! ### Systems -/

section Systems

variable {M : System S T L C Call} {ok : T → List L → L → Prop} {s u : State S T L C}
variable {t : T} {h : List L} {guard : State S T L C → Action T Call C → Prop}

/-- Every call obeys, and ends without locks. -/
def System.Obeys (M : System S T L C Call) (ok : T → List L → L → Prop) : Prop :=
  ∀ t call, (M.code t call).Obeys M.recursive (ok t) [] fun h _ => h = []

/-- What a thread does next, with these locks. -/
def Status.Obeys (recursive : L → Bool) (ok : List L → L → Prop) (h : List L) :
    Status S L C → Prop
  | .idle => h = []
  | .running code => code.Obeys recursive ok h fun h' _ => h' = []
  | .waiting l next =>
    l ∉ h ∧ ok h l ∧ next.Obeys recursive ok (l :: h) fun h' _ => h' = []

/-- A thread and the locks that it has, newest first. -/
structure Fits (M : System S T L C Call) (ok : T → List L → L → Prop) (s : State S T L C) (t : T)
    (h : List L) : Prop where
  times : ∀ l, h.count l = s.times t l
  obeys : (s.status t).Obeys M.recursive (ok t) h

structure Inv (M : System S T L C Call) (ok : T → List L → L → Prop) (s : State S T L C) : Prop where
  positive : ∀ l t n, s.locks l = some (t, n) → 0 < n
  fits : ∀ t, ∃ h, Fits M ok s t h
  asked : ∀ l t n, s.locks l = some (t, n) → ∃ h, l ∉ h ∧ ok t h l
  /-- A thread waits only for what another may have. -/
  shared : ∀ t l next, s.status t = .waiting l next → ∃ u, u ≠ t ∧ ∃ h, l ∉ h ∧ ok u h l

theorem Fits.mem_iff (fits : Fits M ok s t h) {l : L} : l ∈ h ↔ s.Holds t l := by
  rw [State.Holds, ← fits.times l, ← List.count_pos_iff]
  omega

theorem status_self (s : State S T L C) (t : T) (status : Status S L C) :
    (s.goOn t status).status t = status := Function.update_self ..

theorem locks_self (s : State S T L C) (l : L) (o : Option (T × Nat)) :
    (s.setLock l o).locks l = o := Function.update_self ..

theorem locks_other (s : State S T L C) {l l' : L} (o : Option (T × Nat)) (differ : l' ≠ l) :
    (s.setLock l o).locks l' = s.locks l' := Function.update_of_ne differ ..

theorem times_other (s : State S T L C) {l l' : L} (o : Option (T × Nat)) (v : T) (differ : l' ≠ l) :
    (s.setLock l o).times v l' = s.times v l' := by
  rw [State.times, locks_other s o differ]
  rfl

theorem times_self (s : State S T L C) (l : L) (t v : T) (n : Nat) :
    (s.setLock l (some (t, n))).times v l = if t = v then n else 0 := by
  rw [State.times, locks_self]

theorem times_none (s : State S T L C) (l : L) (v : T) : (s.setLock l none).times v l = 0 := by
  rw [State.times, locks_self]

/-- One thread goes on; the others have what they had. -/
theorem Inv.move (inv : Inv M ok s) {next : Status S L C}
    (status : u.status = Function.update s.status t next)
    (others : ∀ v, v ≠ t → ∀ l, u.times v l = s.times v l)
    (positive : ∀ l t n, u.locks l = some (t, n) → 0 < n)
    (asked : ∀ l t n, u.locks l = some (t, n) → ∃ h, l ∉ h ∧ ok t h l)
    (times : ∀ l, h.count l = u.times t l) (obeys : next.Obeys M.recursive (ok t) h)
    (shared : ∀ l after, next = .waiting l after → ∃ v, v ≠ t ∧ ∃ h, l ∉ h ∧ ok v h l) :
    Inv M ok u := by
  refine ⟨positive, fun v => ?_, asked, fun v l after is => ?_⟩
  · by_cases here : v = t
    · subst here
      refine ⟨h, times, ?_⟩
      rwa [status, Function.update_self]
    · obtain ⟨h', fits⟩ := inv.fits v
      refine ⟨h', fun l => (fits.times l).trans (others v here l).symm, ?_⟩
      rw [status, Function.update_of_ne here]
      exact fits.obeys
  · rw [status] at is
    by_cases here : v = t
    · subst here
      rw [Function.update_self] at is
      exact shared l after is
    · rw [Function.update_of_ne here] at is
      exact inv.shared v l after is

/-- The thread goes on with the locks that it had. -/
theorem Inv.stay (inv : Inv M ok s) {data : S} {next : Status S L C} (fits : Fits M ok s t h)
    (obeys : next.Obeys M.recursive (ok t) h)
    (shared : ∀ l after, next = .waiting l after → ∃ v, v ≠ t ∧ ∃ h, l ∉ h ∧ ok v h l) :
    Inv M ok ({ s with data := data }.goOn t next) :=
  inv.move rfl (fun _ _ _ => rfl) inv.positive inv.asked fits.times obeys shared

theorem Inv.goOn (inv : Inv M ok s) {data : S} {code : Code S L C Unit} (fits : Fits M ok s t h)
    (obeys : code.Obeys M.recursive (ok t) h fun h' _ => h' = []) :
    Inv M ok ({ s with data := data }.goOn t (.running code)) :=
  inv.stay fits obeys fun _ _ is => nomatch is

/-- The thread gets a lock, for the first time or again. -/
theorem Inv.take (inv : Inv M ok s) {l : L} {code : Code S L C Unit} (fits : Fits M ok s t h)
    (mine : ∀ v n, s.locks l = some (v, n) → v = t)
    (asked : ∃ h, l ∉ h ∧ ok t h l)
    (obeys : code.Obeys M.recursive (ok t) (l :: h) fun h' _ => h' = []) :
    Inv M ok ((s.setLock l (some (t, s.times t l + 1))).goOn t (.running code)) := by
  have free : ∀ v, v ≠ t → s.times v l = 0 := by
    intro v other
    unfold State.times
    split
    · rename_i w n held
      rw [if_neg]
      rintro rfl
      exact other (mine _ n held)
    · rfl
  have cases' : ∀ m v n, (s.setLock l (some (t, s.times t l + 1))).locks m = some (v, n) →
      m = l ∧ v = t ∧ n = s.times t l + 1 ∨ s.locks m = some (v, n) := by
    intro m v n held
    by_cases here : m = l
    · subst here
      rw [locks_self] at held
      cases held
      exact .inl ⟨rfl, rfl, rfl⟩
    · rw [locks_other s _ here] at held
      exact .inr held
  refine inv.move (h := l :: h) rfl (fun v other m => ?_) (fun m v n held => ?_) (fun m v n held => ?_)
    (fun m => ?_) obeys (fun _ _ is => nomatch is)
  · by_cases here : m = l
    · subst here
      exact (times_self s m t v _).trans ((if_neg (Ne.symm other)).trans (free v other).symm)
    · exact times_other s _ v here
  · rcases cases' m v n held with ⟨_, _, rfl⟩ | before
    · exact Nat.succ_pos _
    · exact inv.positive m v n before
  · rcases cases' m v n held with ⟨rfl, rfl, _⟩ | before
    · exact asked
    · exact inv.asked m v n before
  · by_cases here : m = l
    · subst here
      rw [List.count_cons_self, fits.times]
      exact ((times_self s m t t _).trans (if_pos rfl)).symm
    · rw [List.count_cons_of_ne (Ne.symm here), fits.times]
      exact (times_other s _ t here).symm

/-- The thread gives a lock back. -/
theorem Inv.give (inv : Inv M ok s) {l : L} {n : Nat} {code : Code S L C Unit}
    (fits : Fits M ok s t h) (held : s.locks l = some (t, n))
    (obeys : code.Obeys M.recursive (ok t) (h.erase l) fun h' _ => h' = []) :
    Inv M ok ((s.setLock l (if n = 1 then none else some (t, n - 1))).goOn t (.running code)) := by
  have positive := inv.positive l t n held
  have mine : s.times t l = n := by simp [State.times, held]
  have after : ∀ v, (s.setLock l (if n = 1 then none else some (t, n - 1))).times v l =
      if t = v then n - 1 else 0 := by
    intro v
    by_cases last : n = 1
    · rw [if_pos last, times_none, last]
      simp
    · rw [if_neg last, times_self]
  have cases' : ∀ m v k, (s.setLock l (if n = 1 then none else some (t, n - 1))).locks m = some (v, k) →
      m = l ∧ v = t ∧ k = n - 1 ∧ n ≠ 1 ∨ s.locks m = some (v, k) := by
    intro m v k is
    by_cases here : m = l
    · subst here
      rw [locks_self] at is
      split at is
      · cases is
      · rename_i more
        cases is
        exact .inl ⟨rfl, rfl, rfl, more⟩
    · rw [locks_other s _ here] at is
      exact .inr is
  refine inv.move (h := h.erase l) rfl (fun v other m => ?_) (fun m v k is => ?_) (fun m v k is => ?_)
    (fun m => ?_) obeys (fun _ _ is => nomatch is)
  · by_cases here : m = l
    · subst here
      have none : s.times v m = 0 := by simp [State.times, held, Ne.symm other]
      exact (after v).trans ((if_neg (Ne.symm other)).trans none.symm)
    · exact times_other s _ v here
  · rcases cases' m v k is with ⟨_, _, rfl, more⟩ | before
    · omega
    · exact inv.positive m v k before
  · rcases cases' m v k is with ⟨rfl, rfl, _⟩ | before
    · exact inv.asked m v n held
    · exact inv.asked m v k before
  · by_cases here : m = l
    · subst here
      rw [List.count_erase_self, fits.times, mine]
      exact ((after t).trans (if_pos rfl)).symm
    · rw [List.count_erase_of_ne here, fits.times]
      exact (times_other s _ t here).symm

/-- Every step keeps the invariant. -/
theorem Inv.run (inv : Inv M ok s) {code : Code S L C Unit} (running : s.status t = .running code)
    (choice : C) : (s.run M.recursive t choice code).Ensures (Inv M ok) := by
  obtain ⟨h, fits⟩ := inv.fits t
  have obeys := fits.obeys
  rw [running] at obeys
  unfold State.run
  split
  · exact Outcome.ensures_pure.mpr (inv.stay fits obeys fun _ _ is => nomatch is)
  · exact Outcome.ensures_pure.mpr (inv.goOn fits (obeys s.data))
  · rw [Outcome.ensures_bind]
    intro data _
    exact Outcome.ensures_pure.mpr (inv.goOn fits obeys)
  · exact Outcome.ensures_pure.mpr (inv.goOn fits (obeys choice))
  · rename_i l next
    obtain ⟨ask, rest⟩ := obeys
    split
    · rename_i free
      have none : s.times t l = 0 := by simp [State.times, free]
      have absent : l ∉ h := by
        rw [← List.count_eq_zero, fits.times]
        exact none
      have taken := inv.take fits (fun v n held => nomatch free.symm.trans held)
        ⟨h, absent, ask absent⟩ (rest fun member => absurd member absent)
      rw [none] at taken
      exact Outcome.ensures_pure.mpr taken
    · rename_i v n held
      split
      · rename_i mine
        subst mine
        split
        · rename_i again
          have times : s.times v l = n := by simp [State.times, held]
          have taken := inv.take fits
            (fun w k held' => (Prod.mk.inj (Option.some.inj (held'.symm.trans held))).1)
            (inv.asked l v n held) (rest fun _ => again)
          rw [times] at taken
          exact Outcome.ensures_pure.mpr taken
        · exact Outcome.ensures_panic
      · rename_i other
        have absent : l ∉ h := by
          rw [← List.count_eq_zero, fits.times]
          simp [State.times, held, other]
        refine Outcome.ensures_pure.mpr (inv.stay fits
          ⟨absent, ask absent, rest fun member => absurd member absent⟩ fun m after is => ?_)
        cases is
        exact ⟨v, other, inv.asked l v n held⟩
  · rename_i l next
    split
    · exact Outcome.ensures_panic
    · rename_i v n held
      split
      · rename_i mine
        subst mine
        have member : l ∈ h := by
          rw [← List.count_pos_iff, fits.times]
          have times : s.times v l = n := by simp [State.times, held]
          rw [times]
          exact inv.positive l v n held
        exact Outcome.ensures_pure.mpr (inv.give fits held (obeys member))
      · exact Outcome.ensures_panic
  · split
    · exact Outcome.ensures_pure.mpr (inv.goOn fits obeys)
    · exact Outcome.ensures_panic
  · exact Outcome.ensures_panic

theorem Inv.step (inv : Inv M ok s) (obeys : M.Obeys ok) (action : Action T Call C) :
    (s.step M action).Ensures (Inv M ok) := by
  cases action with
  | call t call =>
    simp only [State.step]
    split
    · rename_i idle
      rw [Outcome.ensures_bind, Outcome.ensures_await]
      intro _
      obtain ⟨h, fits⟩ := inv.fits t
      have none := fits.obeys
      rw [idle] at none
      subst none
      exact Outcome.ensures_pure.mpr (inv.goOn fits (obeys t call))
    · exact Outcome.ensures_blocked
  | step t choice =>
    simp only [State.step]
    split
    · exact Outcome.ensures_blocked
    · rename_i code running
      exact inv.run running choice
    · rename_i l next waiting
      split
      · rename_i free
        obtain ⟨h, fits⟩ := inv.fits t
        have obeys := fits.obeys
        rw [waiting] at obeys
        have none : s.times t l = 0 := by simp [State.times, free]
        have taken := inv.take fits (fun v n held => nomatch free.symm.trans held)
          ⟨h, obeys.1, obeys.2.1⟩ obeys.2.2
        rw [none] at taken
        exact Outcome.ensures_pure.mpr taken
      · exact Outcome.ensures_blocked

theorem Inv.start (start : M.machine.initial s) : Inv M ok s := by
  obtain ⟨_, free, idle⟩ := start
  refine ⟨fun l t n held => ?_, fun t => ⟨[], ?_, ?_⟩, fun l t n held => ?_, fun t l next is => ?_⟩
  · exact nomatch (free l).symm.trans held
  · intro l
    simp [State.times, free]
  · rw [idle]
    rfl
  · exact nomatch (free l).symm.trans held
  · exact nomatch (idle t).symm.trans is

/-- In every run the threads have the locks that their code says. -/
theorem inv_reachable (obeys : M.Obeys ok) (reached : M.machine.ReachableBy guard s) : Inv M ok s :=
  M.machine.invariant_ensures (fun _ start => Inv.start start)
    (fun _ action inv _ => inv.step obeys action) reached

/-- A thread that is in no call has no lock. -/
theorem Inv.idle_free (inv : Inv M ok s) (idle : s.status t = .idle) (l : L) : ¬ s.Holds t l := by
  obtain ⟨h, fits⟩ := inv.fits t
  have none := fits.obeys
  rw [idle] at none
  rw [← fits.mem_iff, none]
  exact List.not_mem_nil

/-! ### What waits -/

/-- What a step of one thread does to the others, and how it comes to wait. -/
structure Frame (s u : State S T L C) (t : T) (code : Code S L C Unit) : Prop where
  status : ∀ v, v ≠ t → u.status v = s.status v
  times : ∀ v, v ≠ t → ∀ l, u.times v l = s.times v l
  waits : ∀ l next, u.status t = .waiting l next →
    code = .acquire l next ∧ (∃ v n, v ≠ t ∧ s.locks l = some (v, n)) ∧
      ∀ l', u.times t l' = s.times t l'

/-- A lock that no other thread has changes. -/
theorem times_setLock {l : L} {n : Nat} {o : Option (T × Nat)}
    (mine : s.locks l = none ∨ s.locks l = some (t, n))
    (still : o = none ∨ ∃ k, o = some (t, k)) (v : T) (other : v ≠ t) (m : L) :
    (s.setLock l o).times v m = s.times v m := by
  by_cases here : m = l
  · subst here
    have before : s.times v m = 0 := by
      rcases mine with is | is <;> simp [State.times, is, Ne.symm other]
    rw [before]
    rcases still with rfl | ⟨k, rfl⟩
    · exact times_none s m v
    · exact (times_self s m t v k).trans (if_neg (Ne.symm other))
  · exact times_other s o v here

theorem frame_running {code after : Code S L C Unit} (status : u.status = Function.update s.status t
    (.running after)) (times : ∀ v, v ≠ t → ∀ l, u.times v l = s.times v l) : Frame s u t code := by
  refine ⟨fun v other => ?_, times, fun l next is => ?_⟩
  · rw [status, Function.update_of_ne other]
  · rw [status, Function.update_self] at is
    cases is

theorem run_frame (recursive : L → Bool) (choice : C) (code : Code S L C Unit) :
    (s.run recursive t choice code).Ensures fun u => Frame s u t code := by
  have idle : ∀ code : Code S L C Unit, Frame s (s.goOn t .idle) t code := by
    intro code
    refine ⟨fun v other => Function.update_of_ne other .., fun _ _ _ => rfl, fun l next is => ?_⟩
    exact nomatch (status_self s t .idle).symm.trans is
  unfold State.run
  split
  · exact Outcome.ensures_pure.mpr (idle _)
  · exact Outcome.ensures_pure.mpr (frame_running rfl fun _ _ _ => rfl)
  · rw [Outcome.ensures_bind]
    intro data _
    exact Outcome.ensures_pure.mpr (frame_running rfl fun _ _ _ => rfl)
  · exact Outcome.ensures_pure.mpr (frame_running rfl fun _ _ _ => rfl)
  · rename_i l next
    split
    · rename_i free
      exact Outcome.ensures_pure.mpr (frame_running rfl
        (times_setLock (n := 0) (.inl free) (.inr ⟨1, rfl⟩)))
    · rename_i v n held
      split
      · rename_i mine
        subst mine
        split
        · exact Outcome.ensures_pure.mpr (frame_running rfl
            (times_setLock (.inr held) (.inr ⟨n + 1, rfl⟩)))
        · exact Outcome.ensures_panic
      · rename_i other
        refine Outcome.ensures_pure.mpr ⟨fun w different => Function.update_of_ne different ..,
          fun _ _ _ => rfl, fun m after is => ?_⟩
        cases (status_self s t (.waiting l next)).symm.trans is
        exact ⟨rfl, ⟨v, n, other, held⟩, fun _ => rfl⟩
  · split
    · exact Outcome.ensures_panic
    · rename_i v n held
      split
      · rename_i mine
        subst mine
        refine Outcome.ensures_pure.mpr (frame_running rfl (times_setLock (.inr held) ?_))
        by_cases last : n = 1
        · exact .inl (if_pos last)
        · exact .inr ⟨n - 1, if_neg last⟩
      · exact Outcome.ensures_panic
  · split
    · exact Outcome.ensures_pure.mpr (frame_running rfl fun _ _ _ => rfl)
    · exact Outcome.ensures_panic
  · exact Outcome.ensures_panic

variable {rank : L → Nat}

/-- The other threads wait as they did. -/
theorem Frame.inOrder {code : Code S L C Unit} (frame : Frame s u t code) (before : s.InOrder rank)
    (new : ∀ l next, u.status t = .waiting l next → ∀ l', u.Holds t l' → rank l' < rank l) :
    u.InOrder rank := by
  intro v l next waiting l' holds
  by_cases here : v = t
  · subst here
    exact new l next waiting l' holds
  · rw [frame.status v here] at waiting
    rw [State.Holds, frame.times v here] at holds
    exact before v l next waiting l' holds

/-- If every wait that begins is in order, then every wait is. -/
theorem inOrder_step (before : s.InOrder rank) (action : Action T Call C)
    (begins : ∀ t choice l next, action = .step t choice → s.status t = .running (.acquire l next) →
      (∃ v n, v ≠ t ∧ s.locks l = some (v, n)) → ∀ l', s.Holds t l' → rank l' < rank l) :
    (s.step M action).Ensures fun u => u.InOrder rank := by
  cases action with
  | call t call =>
    simp only [State.step]
    split
    · rw [Outcome.ensures_bind, Outcome.ensures_await]
      intro _
      have frame : Frame s (s.goOn t (.running (M.code t call))) t (M.code t call) :=
        frame_running rfl fun _ _ _ => rfl
      refine Outcome.ensures_pure.mpr (frame.inOrder before fun l next is => ?_)
      exact nomatch (status_self s t (.running (M.code t call))).symm.trans is
    · exact Outcome.ensures_blocked
  | step t choice =>
    simp only [State.step]
    split
    · exact Outcome.ensures_blocked
    · rename_i code running
      refine (run_frame M.recursive choice code).mono fun u frame => ?_
      refine frame.inOrder before fun l next waiting l' holds => ?_
      obtain ⟨rfl, busy, same⟩ := frame.waits l next waiting
      rw [State.Holds, same] at holds
      exact begins t choice l next rfl running busy l' holds
    · rename_i l next waiting
      split
      · rename_i free
        have frame : Frame s ((s.setLock l (some (t, 1))).goOn t (.running next)) t next :=
          frame_running rfl (times_setLock (n := 0) (.inl free) (.inr ⟨1, rfl⟩))
        refine Outcome.ensures_pure.mpr (frame.inOrder before fun m after is => ?_)
        exact nomatch (status_self _ t (.running next)).symm.trans is
      · exact Outcome.ensures_blocked

/-- A thread that is about to wait for a lock does not have it, and may ask for it. -/
theorem Inv.asks (inv : Inv M ok s) {l : L} {next : Code S L C Unit}
    (running : s.status t = .running (.acquire l next))
    (busy : ∃ v n, v ≠ t ∧ s.locks l = some (v, n)) : ∃ h, Fits M ok s t h ∧ l ∉ h ∧ ok t h l := by
  obtain ⟨v, n, other, held⟩ := busy
  obtain ⟨h, fits⟩ := inv.fits t
  have now := fits.obeys
  rw [running] at now
  have absent : l ∉ h := by
    rw [← List.count_eq_zero, fits.times]
    simp [State.times, held, other]
  exact ⟨h, fits, absent, now.1 absent⟩

/-- In every run whose waits all begin in order the threads wait in order. -/
theorem inOrder_reachable (obeys : M.Obeys ok)
    (begins : ∀ s t choice l next, Inv M ok s → guard s (.step t choice) →
      s.status t = .running (.acquire l next) → (∃ v n, v ≠ t ∧ s.locks l = some (v, n)) →
        ∀ l', s.Holds t l' → rank l' < rank l)
    (reached : M.machine.ReachableBy guard s) : s.InOrder rank := by
  have both : Inv M ok s ∧ s.InOrder rank := by
    refine M.machine.invariant_ensures (P := fun s => Inv M ok s ∧ s.InOrder rank)
      (fun s start => ⟨Inv.start start, fun t l next is => ?_⟩)
      (fun s action ⟨inv, before⟩ holds => ?_) reached
    · exact nomatch (start.2.2 t).symm.trans is
    · refine (inv.step obeys action).and (inOrder_step before action ?_)
      rintro t choice l next rfl running busy
      exact begins s t choice l next inv holds running busy
  exact both.2

/-- Locks that a thread may wait for are asked for in order. -/
theorem inOrder_of_asks (obeys : M.Obeys ok)
    (order : ∀ t v h h' l, t ≠ v → ok t h l → ok v h' l → ∀ l' ∈ h, rank l' < rank l)
    (reached : M.machine.Reachable s) : s.InOrder rank := by
  refine inOrder_reachable obeys (fun s t choice l next inv _ running busy l' holds => ?_) reached
  obtain ⟨h, fits, _, asks⟩ := inv.asks running busy
  obtain ⟨v, n, other, held⟩ := busy
  obtain ⟨h', _, asked⟩ := inv.asked l v n held
  exact order t v h h' l (Ne.symm other) asks asked l' (fits.mem_iff.mpr holds)

end Systems

end Os161.Locks
