import Os161.File.Refcount
import Os161.Proc.LifeInv

/-!
# Parent pointers

`p_proc` is set once, when the process gets its thread, and nothing looks for the children of a
process that exits. It stays right in the runs in which only childless processes exit.
-/

set_option linter.unusedSectionVars false

namespace Os161.Life

open Files

variable {Id F V : Type} [DecidableEq Id] [DecidableEq F] [DecidableEq V]

namespace State

/-- In the table, and not exited. -/
def Live (s : State Id F V) (q : Id) : Prop :=
  (∃ proc, s.kernel.heap q = some proc ∧ s.kernel.pTable proc.pPid = some q) ∧
    s.exited (s.birth q) = false

structure ParentsLive (s : State Id F V) : Prop where
  parents : ∀ i p, s.kernel.pTable i = some p → ∃ proc, s.kernel.heap p = some proc ∧
    ∀ q, proc.pProc = some q → s.Live q ∧ s.forker p = some (s.birth q)
  removed : ∀ i p f, s.kernel.pTable i = some p → s.forker p = some f →
    ¬ (s.exited (s.birth p) = true ∧ s.exited f = true)

/-- No process in the table has `cur` as its parent. -/
def Childless (s : State Id F V) (cur : Id) : Prop :=
  ∀ i, ∀ p ∈ s.kernel.pTable i, ∀ proc ∈ s.kernel.heap p, proc.pProc ≠ some cur

instance (s : State Id F V) (cur : Id) : Decidable (s.Childless cur) :=
  inferInstanceAs (Decidable (∀ _, _))

/-- Only processes without children exit. -/
def Waited (s : State Id F V) : Action Id F V → Prop
  | .exit cur _ _ => s.Childless cur
  | _ => True

instance (s : State Id F V) (a : Action Id F V) : Decidable (s.Waited a) :=
  match a with
  | .exit cur _ _ => inferInstanceAs (Decidable (s.Childless cur))
  | .prog .. | .startup .. | .fork .. | .wait .. | .reap .. | .open .. | .dup2 .. | .close .. =>
    .isTrue trivial

/-- The tree of processes, while parents wait for their children. -/
structure Tree (s : State Id F V) : Prop where
  parents : ∀ p proc q, s.kernel.heap p = some proc → proc.pProc = some q →
    (∃ parent, s.kernel.heap q = some parent) ∧ s.exited (s.birth q) = false ∧
      s.forker p = some (s.birth q)
  roots : ∀ p proc, s.kernel.heap p = some proc → proc.pProc = none → s.forker p = none
  older : ∀ p proc f, s.kernel.heap p = some proc → s.forker p = some f → f < s.birth p
  young : ∀ p proc, s.kernel.heap p = some proc → s.birth p < s.clock
  apart : ∀ p q proc proc', s.kernel.heap p = some proc → s.kernel.heap q = some proc' →
    s.birth p = s.birth q → p = q
  future : ∀ n, s.clock ≤ n → s.exited n = false
  alive : ∀ p, s.status p ≠ .ended → s.exited (s.birth p) = false
  dead : ∀ p proc, s.kernel.heap p = some proc → proc.pIsDead = true → s.exited (s.birth p) = true

variable {s t : State Id F V} {p0 p cur : Id} {proc : Proc Id Id Unit} {files : Files Id F V}

theorem Tree.parentsLive (h : s.Tree) (placed : s.Placed p0) : s.ParentsLive := by
  constructor
  · intro i p entry
    obtain ⟨proc, found, _⟩ := placed.placed i p entry
    refine ⟨proc, found, fun q parent => ?_⟩
    obtain ⟨⟨above, there⟩, alive, forked⟩ := h.parents p proc q found parent
    exact ⟨⟨⟨above, there, placed.tabled q above there⟩, alive⟩, forked⟩
  · intro i p f entry forked ⟨_, gone⟩
    obtain ⟨proc, found, _⟩ := placed.placed i p entry
    cases parent : proc.pProc with
    | none =>
      rw [h.roots p proc found parent] at forked
      cases forked
    | some q =>
      obtain ⟨_, alive, forked'⟩ := h.parents p proc q found parent
      obtain rfl : s.birth q = f := Option.some.inj (forked'.symm.trans forked)
      rw [alive] at gone
      cases gone

theorem Tree.withFiles (h : s.Tree) (n : Nat) : (s.withFiles n files).Tree :=
  ⟨h.parents, h.roots, h.older, h.young, h.apart, h.future, h.alive, h.dead⟩

theorem Tree.goTo (h : s.Tree) (status : Status Id)
    (alive : status ≠ .ended → s.status cur ≠ .ended) : (s.goTo cur status).Tree := by
  refine ⟨h.parents, h.roots, h.older, h.young, h.apart, h.future, ?_, h.dead⟩
  intro p
  rw [goTo_status]
  split
  · rename_i same
    exact fun runs => h.alive p (same ▸ alive runs)
  · exact h.alive p

/-- A process can go that no process has as its parent. -/
theorem Tree.drop (h : s.Tree) {pid : Fin 32}
    (childless : ∀ q other, s.kernel.heap q = some other → other.pProc ≠ some p) :
    (s.drop p pid files).Tree := by
  have there : ∀ q other, (s.drop p pid files).kernel.heap q = some other →
      s.kernel.heap q = some other := fun q other here => (drop_heap.mp here).2
  constructor
  case parents =>
    intro q other r here parent
    obtain ⟨⟨above, stays⟩, rest⟩ := h.parents q other r (there q other here) parent
    refine ⟨⟨above, drop_heap.mpr ⟨?_, stays⟩⟩, rest⟩
    rintro rfl
    exact childless q other (there q other here) parent
  case roots => exact fun q other here => h.roots q other (there q other here)
  case older => exact fun q other f here => h.older q other f (there q other here)
  case young => exact fun q other here => h.young q other (there q other here)
  case apart =>
    exact fun q r one two here here' => h.apart q r one two (there q one here) (there r two here')
  case future => exact h.future
  case alive => exact h.alive
  case dead => exact fun q other here => h.dead q other (there q other here)

/-- A childless process exits. -/
theorem Tree.leave (h : s.Tree) (placed : s.Placed p0) (found : s.kernel.heap cur = some proc)
    (childless : ∀ q other, s.kernel.heap q = some other → other.pProc ≠ some cur) :
    (s.leave cur).Tree := by
  have others : ∀ q other, q ≠ cur → s.kernel.heap q = some other →
      s.exited (s.birth q) = false → (s.leave cur).exited (s.birth q) = false := by
    intro q other away here alive
    have apart : s.birth q ≠ s.birth cur := fun same => away (h.apart q cur other proc here found same)
    exact (Function.update_of_ne apart ..).trans alive
  have stays : ∀ n, s.exited n = true → (s.leave cur).exited n = true := by
    intro n gone
    simp only [State.leave, State.goTo, Function.update_apply]
    split <;> simp [gone]
  refine ⟨?_, h.roots, h.older, h.young, h.apart, ?_, ?_, ?_⟩
  · intro p other q here parent
    obtain ⟨⟨above, there⟩, alive, forked⟩ := h.parents p other q here parent
    refine ⟨⟨above, there⟩, others q above ?_ there alive, forked⟩
    rintro rfl
    exact childless p other here parent
  · intro n late
    have apart : n ≠ s.birth cur := by
      have young := h.young cur proc found
      have clock : s.clock ≤ n := late
      omega
    exact (Function.update_of_ne apart ..).trans (h.future n late)
  · intro p runs
    have away : p ≠ cur := by
      rintro rfl
      exact runs (Function.update_self ..)
    have going : s.status p ≠ .ended := (goTo_status.trans (if_neg away)).symm.trans_ne runs
    obtain ⟨other, here⟩ := placed.found going
    exact others p other away here (h.alive p going)
  · exact fun p other here gone => stays _ (h.dead p other here gone)

theorem Tree.revise (h : s.Tree) {new : Proc Id Id Unit} (found : s.kernel.heap p = some proc)
    (parent : new.pProc = proc.pProc) (gone : s.exited (s.birth p) = true) :
    (s.revise p new files).Tree := by
  have there : ∀ q other, (s.revise p new files).kernel.heap q = some other →
      ∃ before, s.kernel.heap q = some before ∧ other.pProc = before.pProc ∧
        (q = p ∨ other = before) := by
    intro q other here
    rcases revise_heap.mp here with ⟨rfl, rfl⟩ | ⟨_, here⟩
    · exact ⟨proc, found, parent, .inl rfl⟩
    · exact ⟨other, here, rfl, .inr rfl⟩
  constructor
  case parents =>
    intro q other r here up
    obtain ⟨before, here, same, _⟩ := there q other here
    obtain ⟨⟨above, stays⟩, rest⟩ := h.parents q before r here (same ▸ up)
    by_cases own : r = p
    · exact ⟨⟨new, revise_heap.mpr (.inl ⟨own, rfl⟩)⟩, rest⟩
    · exact ⟨⟨above, revise_heap.mpr (.inr ⟨own, stays⟩)⟩, rest⟩
  case roots =>
    intro q other here root
    obtain ⟨before, here, same, _⟩ := there q other here
    exact h.roots q before here (same ▸ root)
  case older =>
    intro q other f here
    obtain ⟨before, here, _⟩ := there q other here
    exact h.older q before f here
  case young =>
    intro q other here
    obtain ⟨before, here, _⟩ := there q other here
    exact h.young q before here
  case apart =>
    intro q r one two here here'
    obtain ⟨before, here, _⟩ := there q one here
    obtain ⟨before', here', _⟩ := there r two here'
    exact h.apart q r before before' here here'
  case future => exact h.future
  case alive => exact h.alive
  case dead =>
    intro q other here isDead
    obtain ⟨before, here, _, same | same⟩ := there q other here
    · exact same ▸ gone
    · exact h.dead q before here (same ▸ isDead)

/-- A process gets a child. -/
theorem Tree.spawn (h : s.Tree) {parent : Id} {pid : Fin 32} {n : Nat} {status : Status Id}
    {tPid : BitVec 32} {above : Proc Id Id Unit} (stays : s.kernel.heap parent = some above)
    (runs : s.status parent ≠ .ended) (free : s.kernel.heap p = none) :
    ((s.enter p (newProc pid (some parent)) n files).spawn parent p status tPid).Tree := by
  have away : ∀ q other, s.kernel.heap q = some other → q ≠ p := by
    rintro q other here rfl
    rw [free] at here
    cases here
  set t := (s.enter p (newProc pid (some parent)) n files).spawn parent p status tPid
  have here : t.kernel.heap p = some (newProc pid (some parent)) := Function.update_self ..
  have birth : t.birth p = s.clock := Function.update_self ..
  have forker : t.forker p = some (s.birth parent) := Function.update_self ..
  have status' : ∀ q, q ≠ p → t.status q = s.status q := fun q other => Function.update_of_ne other ..
  have heap' : ∀ q, q ≠ p → t.kernel.heap q = s.kernel.heap q := fun q other =>
    Function.update_of_ne other ..
  have birth' : ∀ q, q ≠ p → t.birth q = s.birth q := fun q other => Function.update_of_ne other ..
  have forker' : ∀ q, q ≠ p → t.forker q = s.forker q := fun q other =>
    Function.update_of_ne other ..
  have young := h.young parent above stays
  have upper := away parent above stays
  constructor
  case parents =>
    intro q other r there up
    by_cases same : q = p
    · subst same
      obtain rfl := Option.some.inj (here.symm.trans there)
      obtain rfl : parent = r := Option.some.inj up
      rw [heap' _ upper, birth' _ upper]
      exact ⟨⟨above, stays⟩, h.alive _ runs, forker⟩
    · rw [heap' q same] at there
      obtain ⟨⟨before, stays'⟩, rest⟩ := h.parents q other r there up
      have upper' := away r before stays'
      rw [heap' _ upper', birth' _ upper', forker' q same]
      exact ⟨⟨before, stays'⟩, rest⟩
  case roots =>
    intro q other there root
    by_cases same : q = p
    · subst same
      obtain rfl := Option.some.inj (here.symm.trans there)
      cases root
    · rw [forker' q same]
      exact h.roots q other ((heap' q same).symm.trans there) root
  case older =>
    intro q other f there forked
    by_cases same : q = p
    · subst same
      obtain rfl := Option.some.inj (forker.symm.trans forked)
      rw [birth]
      exact young
    · rw [birth' q same]
      exact h.older q other f ((heap' q same).symm.trans there) ((forker' q same).symm.trans forked)
  case young =>
    intro q other there
    show t.birth q < s.clock + 1
    by_cases same : q = p
    · rw [same, birth]
      omega
    · have before := h.young q other ((heap' q same).symm.trans there)
      rw [birth' q same]
      omega
  case apart =>
    intro q r one two there there' births
    by_cases same : q = p <;> by_cases same' : r = p
    · rw [same, same']
    · have before := h.young r two ((heap' r same').symm.trans there')
      rw [same, birth, birth' r same'] at births
      omega
    · have before := h.young q one ((heap' q same).symm.trans there)
      rw [same', birth, birth' q same] at births
      omega
    · rw [birth' q same, birth' r same'] at births
      exact h.apart q r one two ((heap' q same).symm.trans there)
        ((heap' r same').symm.trans there') births
  case future =>
    intro m late
    have later : s.clock + 1 ≤ m := late
    exact h.future m (by omega)
  case alive =>
    intro q going
    by_cases same : q = p
    · rw [same, birth]
      exact h.future _ (by omega)
    · rw [birth' q same]
      exact h.alive q (status' q same ▸ going)
  case dead =>
    intro q other there isDead
    by_cases same : q = p
    · subst same
      obtain rfl := Option.some.inj (here.symm.trans there)
      cases isDead
    · rw [birth' q same]
      exact h.dead q other ((heap' q same).symm.trans there) isDead

theorem Tree.start (start : (machine p0).initial s) : s.Tree := by
  have only := initial_heap start
  obtain ⟨-, -, -, -, -, birth, forker, -, exited, clock⟩ := start
  have alive : ∀ n, s.exited n = false := fun n => congrFun exited n
  constructor
  case parents =>
    intro p proc q here parent
    obtain ⟨rfl, rfl⟩ := only p proc here
    cases parent
  case roots => exact fun p proc here _ => (only p proc here).1 ▸ forker
  case older =>
    intro p proc f here forked
    rw [(only p proc here).1, forker] at forked
    cases forked
  case young =>
    intro p proc here
    rw [(only p proc here).1, birth, clock]
    omega
  case apart => exact fun p q one two here here' _ => (only p one here).1.trans (only q two here').1.symm
  case future => exact fun n _ => alive n
  case alive => exact fun p _ => alive _
  case dead =>
    intro p proc here isDead
    rw [(only p proc here).2] at isDead
    cases isDead

theorem Childless.alone (lone : s.Childless cur) (placed : s.Placed p0) :
    ∀ q other, s.kernel.heap q = some other → other.pProc ≠ some cur :=
  fun q other here => lone _ q (placed.tabled q other here) other here

theorem Tree.step (h : s.Tree) (placed : s.Placed p0) {a : Action Id F V} (waited : s.Waited a)
    (effect : s.Effect p0 a t) : t.Tree := by
  cases effect with
  | quiet => exact h.withFiles _
  | prog running _ next free _ =>
    obtain ⟨root, there, _⟩ := placed.root
    apply (h.spawn there placed.stays free).goTo
    intro _
    rw [spawn_status]
    split
    · exact nofun
    · exact placed.stays
  | startup starting => exact h.goTo _ fun _ => by simp [starting]
  | @fork cur p _ _ tPid _ pid n files user _ next free _ =>
    have runs : s.status cur ≠ .ended := by simp [user.1]
    obtain ⟨above, stays⟩ := placed.found runs
    obtain ⟨parents, roots, older, young, apart, future, alive, dead⟩ :
        ((s.enter p (newProc pid (some cur)) n files).spawn cur p .running tPid).Tree :=
      h.spawn stays runs free
    exact ⟨parents, roots, older, young, apart, future, alive, dead⟩
  | exitAlone user found _ _ =>
    have lone := Childless.alone waited placed
    exact (h.leave placed found lone).drop lone
  | exitChild user found _ _ _ =>
    have lone := Childless.alone waited placed
    exact (h.leave placed found lone).revise found rfl (Function.update_self ..)
  | turnBack may => exact h.goTo _ fun _ => may.not_ended
  | wait may _ _ => exact h.goTo _ fun _ => may.not_ended
  | @reap cur p proc files waits found isDead near =>
    have gone := h.dead _ _ found isDead
    have lone : ∀ q other, s.kernel.heap q = some other → other.pProc ≠ some p := by
      intro q other here parent
      rw [(h.parents q other p here parent).2.1] at gone
      cases gone
    apply (h.drop lone).goTo
    intro _
    show s.status cur ≠ .ended
    simp [waits]

/-- The child of a process that exits is left with a parent that is not live. -/
theorem Tree.exit_wrong (h : s.Tree) (placed : s.Placed p0) {exitcode : BitVec 32}
    {reclaims : Reclaims V} (child : ¬ s.Childless cur)
    (effect : s.Effect p0 (.exit cur exitcode reclaims) t) : ¬ t.ParentsLive := by
  simp only [Childless, not_forall, not_not] at child
  obtain ⟨i, p, entry, proc, found, parent⟩ := child
  obtain ⟨other, there, slot⟩ := placed.placed i p entry
  obtain rfl : proc = other := Option.some.inj (found.symm.trans there)
  have away : p ≠ cur := by
    rintro rfl
    obtain ⟨_, _, forked⟩ := h.parents p proc p found parent
    have older := h.older p proc _ found forked
    omega
  intro live
  have stays : t.kernel.pTable i = some p ∧ t.kernel.heap p = some proc ∧
      t.exited (t.birth cur) = true := by
    cases effect with
    | quiet stays => exact (stays _ _ _ rfl).elim
    | @exitAlone _ _ _ gone _ _ here =>
      have apart : i ≠ gone.pPid := by
        intro same
        have entry' := placed.tabled cur gone here
        rw [← same, entry] at entry'
        exact away (Option.some.inj entry')
      exact ⟨drop_pTable.mpr ⟨apart, entry⟩, drop_heap.mpr ⟨away, found⟩, Function.update_self ..⟩
    | exitChild =>
      exact ⟨entry, revise_heap.mpr (.inr ⟨away, found⟩), Function.update_self ..⟩
  obtain ⟨entry', found', exits⟩ := stays
  obtain ⟨other, there, parents⟩ := live.parents i p entry'
  obtain rfl : proc = other := Option.some.inj (found'.symm.trans there)
  have alive := (parents cur parent).1.2
  rw [exits] at alive
  cases alive

theorem Tree.step_iff (h : s.Tree) (placed : s.Placed p0) {a : Action Id F V}
    (step : s.step p0 a = .done t) : t.ParentsLive ↔ s.Waited a := by
  have effect := step_effect t step
  constructor
  · intro live
    cases a with
    | exit cur exitcode reclaims =>
      by_contra child
      exact h.exit_wrong placed child effect live
    | _ => trivial
  · exact fun waited => (h.step placed waited effect).parentsLive (placed.step effect)

end State

/-- Where only processes without children exit, every parent pointer is that of a live parent, and
any other exit ends that. -/
theorem parents_live {p0 : Id} {s : State Id F V} (h : (machine p0).ReachableBy State.Waited s) :
    s.ParentsLive ∧ ∀ a t, (machine p0).step s a = .done t → (t.ParentsLive ↔ s.Waited a) := by
  have kept := (machine p0).invariant_ensures (P := fun s => s.Placed p0 ∧ s.Tree)
    (fun _ start => ⟨.start start, .start start⟩)
    (fun _ _ ⟨placed, tree⟩ waited => State.step_effect.mono fun _ effect =>
      ⟨placed.step effect, tree.step placed waited effect⟩) h
  exact ⟨kept.2.parentsLive kept.1, fun _ _ => kept.2.step_iff kept.1⟩

/-! ### Runs with two programs -/

section Runs

/-- The menu's process `0` before anything is opened. -/
def boot : State (Fin 3) Nat Unit where
  kernel := {
    heap := Function.update (fun _ => none) 0 (some ⟨0, none, some none, some 0, some (), 0, false⟩)
    pTable := Function.update (fun _ => none) 0 (some 0)
    nextPid := 1
    lkAllproc := none }
  files := FileCalls.boot.files
  status := Function.update (fun _ => .ended) 0 .running
  tPid _ := 0
  birth _ := 0
  forker _ := none
  returned _ := none
  exited _ := false
  clock := 1

theorem boot_initial : (machine 0).initial boot := by simp [machine, boot]

/-- Process `1` is started from the menu and forks process `2`. -/
def family : List (Action (Fin 3) Nat Unit) :=
  [.prog 1 true (fun i => FileCalls.good i) true true 0 fun _ => false,
    .startup 1 ⟨none, true, none, none⟩, .fork 1 2 true true 0 fun _ => false]

/-- Process `2` exits first, is waited for, and then so is process `1`. -/
theorem parents_live_family :
    ∃ s : State (Fin 3) Nat Unit, (machine 0).ReachableBy State.Waited s ∧
      s.kernel.pTable = Function.update (fun _ => none) 0 (some 0) ∧ s.clock = 3 ∧ s.ParentsLive := by
  have passes : ((machine (0 : Fin 3)).runIf (fun s a => decide (s.Waited a)) boot
      (family ++ [.exit 2 0 fun _ => false, .wait 1 2 0, .reap 1, .exit 1 0 fun _ => false,
        .wait 0 1 0, .reap 0])).passes
      (fun s => decide (s.kernel.pTable = Function.update (fun _ => none) 0 (some 0) ∧ s.clock = 3)) = true := by
    decide +kernel
  obtain ⟨s, run, gone⟩ := Outcome.passes_done passes
  have reached : (machine 0).ReachableBy State.Waited s :=
    .runIf _ _ (.initial boot_initial) (fun _ _ => of_decide_eq_true) run
  obtain ⟨table, clock⟩ := of_decide_eq_true gone
  exact ⟨s, reached, table, clock, (parents_live reached).1⟩

/-- Process `1` exits first and the menu reaps it: the parent pointer of process `2` is stale. -/
theorem parents_live_wrong :
    ∃ s : State (Fin 3) Nat Unit, (machine 0).Reachable s ∧ ¬ s.ParentsLive ∧
      s.kernel.pTable 2 = some 2 ∧ (∃ proc, s.kernel.heap 2 = some proc ∧ proc.pProc = some 1) ∧
        s.kernel.heap 1 = none := by
  have passes : ((machine (0 : Fin 3)).run boot
      (family ++ [.exit 1 0 fun _ => false, .wait 0 1 0, .reap 0])).passes
      (fun s => decide (s.kernel.pTable 2 = some 2 ∧ ((s.kernel.heap 2).bind Proc.pProc) = some 1 ∧
        (s.kernel.heap 1).isNone = true)) = true := by
    decide +kernel
  obtain ⟨s, run, stale⟩ := Outcome.passes_done passes
  obtain ⟨entry, parent, gone⟩ := of_decide_eq_true stale
  obtain ⟨proc, found, parent⟩ := Option.bind_eq_some_iff.mp parent
  rw [Option.isNone_iff_eq_none] at gone
  refine ⟨s, .run _ (.initial boot_initial) run, fun live => ?_, entry, ⟨proc, found, parent⟩, gone⟩
  obtain ⟨other, there, parents⟩ := live.parents 2 2 entry
  obtain rfl : proc = other := Option.some.inj (found.symm.trans there)
  obtain ⟨⟨⟨_, stays, _⟩, _⟩, _⟩ := parents 1 parent
  rw [gone] at stays
  cases stays

end Runs

end Os161.Life
