import Os161.Proc.LifeSpec

/-!
# What holds in every run

The process table and the waiting parents, whatever programs do.
-/

set_option linter.unusedSectionVars false

namespace Os161.Life

open Files

variable {Id F V : Type} [DecidableEq Id] [DecidableEq F] [DecidableEq V]

namespace State

structure Placed (s : State Id F V) (p0 : Id) : Prop where
  lkAllproc : s.kernel.lkAllproc = none
  locks : ∀ p proc, s.kernel.heap p = some proc → proc.lock = some none
  placed : ∀ i p, s.kernel.pTable i = some p → ∃ proc, s.kernel.heap p = some proc ∧ proc.pPid = i
  tabled : ∀ p proc, s.kernel.heap p = some proc → s.kernel.pTable proc.pPid = some p
  alive : ∀ p, s.status p ≠ .ended →
    ∃ proc, s.kernel.heap p = some proc ∧ proc.pIsDead = false
  waits : ∀ q p, s.status q = .waiting p →
    ∃ proc, s.kernel.heap p = some proc ∧ proc.pProc = some q
  starts : ∀ p, s.status p = .starting →
    ∃ proc, s.kernel.heap p = some proc ∧ proc.pProc ≠ none
  root : ∃ proc, s.kernel.heap p0 = some proc ∧ proc.pPid = 0 ∧ proc.pProc = none
  stays : s.status p0 ≠ .ended

variable {s t : State Id F V} {p0 p q cur : Id} {proc : Proc Id Id Unit} {files : Files Id F V}

theorem Placed.found (h : s.Placed p0) (runs : s.status p ≠ .ended) :
    ∃ proc, s.kernel.heap p = some proc :=
  (h.alive p runs).imp fun _ => And.left

/-- Only one process waits for another, its parent. -/
theorem Placed.one_waits (h : s.Placed p0) (first : s.status cur = .waiting p)
    (second : s.status q = .waiting p) : q = cur := by
  obtain ⟨proc, found, parent⟩ := h.waits cur p first
  obtain ⟨other, found', parent'⟩ := h.waits q p second
  obtain rfl := Option.some.inj (found.symm.trans found')
  exact Option.some.inj (parent'.symm.trans parent)

theorem Placed.withFiles (h : s.Placed p0) (n : Nat) : (s.withFiles n files).Placed p0 :=
  ⟨h.lkAllproc, h.locks, h.placed, h.tabled, h.alive, h.waits, h.starts, h.root, h.stays⟩

theorem Placed.goTo (h : s.Placed p0) {status : Status Id} (runs : s.status cur ≠ .ended)
    (menu : cur = p0 → status ≠ .ended) (begun : status ≠ .starting)
    (waits : ∀ p, status = .waiting p →
      ∃ proc, s.kernel.heap p = some proc ∧ proc.pProc = some cur) :
    (s.goTo cur status).Placed p0 := by
  refine ⟨h.lkAllproc, h.locks, h.placed, h.tabled, ?_, ?_, ?_, h.root, ?_⟩
  · intro p
    rw [goTo_status]
    split
    · rename_i same
      exact fun _ => same ▸ h.alive cur runs
    · exact h.alive p
  · intro q p
    rw [goTo_status]
    split
    · rename_i same
      exact fun at_ => same ▸ waits p at_
    · exact h.waits q p
  · intro p
    rw [goTo_status]
    split
    · exact fun at_ => (begun at_).elim
    · exact h.starts p
  · rw [goTo_status]
    split
    · rename_i same
      exact menu same.symm
    · exact h.stays

theorem Placed.spawn (h : s.Placed p0) {parent : Id} {pid : Fin 32} {n : Nat} {status : Status Id}
    {tPid : BitVec 32} (empty : s.kernel.pTable pid = none) (free : s.kernel.heap p = none)
    (fresh : status = .running ∨ status = .starting) :
    ((s.enter p (newProc pid (some parent)) n files).spawn parent p status tPid).Placed p0 := by
  have kept : ∀ q proc, s.kernel.heap q = some proc → q ≠ p ∧
      (s.enter p (newProc pid (some parent)) n files).kernel.heap q = some proc := by
    intro q proc found
    have away : q ≠ p := by
      rintro rfl
      rw [free] at found
      cases found
    exact ⟨away, enter_heap.mpr (.inr ⟨away, found⟩)⟩
  have new : (s.enter p (newProc pid (some parent)) n files).kernel.heap p =
      some (newProc pid (some parent)) := enter_heap_self
  obtain ⟨root, there, zero, alone⟩ := h.root
  constructor
  case lkAllproc => exact h.lkAllproc
  case locks =>
    intro q proc found
    rw [spawn_kernel, enter_heap] at found
    rcases found with ⟨_, rfl⟩ | ⟨_, found⟩
    · rfl
    · exact h.locks q proc found
  case placed =>
    intro i q entry
    rw [spawn_kernel, enter_pTable] at entry
    rcases entry with ⟨rfl, rfl⟩ | ⟨_, entry⟩
    · exact ⟨_, new, rfl⟩
    · obtain ⟨proc, found, same⟩ := h.placed i q entry
      exact ⟨proc, (kept q proc found).2, same⟩
  case tabled =>
    intro q proc found
    rw [spawn_kernel, enter_heap] at found
    rcases found with ⟨rfl, rfl⟩ | ⟨_, found⟩
    · exact Function.update_self ..
    · have entry := h.tabled q proc found
      have away : proc.pPid ≠ pid := by
        intro slot
        rw [slot, empty] at entry
        cases entry
      exact (Function.update_of_ne away ..).trans entry
  case alive =>
    intro q
    rw [spawn_status]
    split
    · rename_i same
      subst same
      exact fun _ => ⟨_, new, rfl⟩
    · intro runs
      obtain ⟨proc, found, alive⟩ := h.alive q runs
      exact ⟨proc, (kept q proc found).2, alive⟩
  case waits =>
    intro r q
    rw [spawn_status]
    split
    · rcases fresh with rfl | rfl <;> exact nofun
    · intro waits
      obtain ⟨proc, found, up⟩ := h.waits r q waits
      exact ⟨proc, (kept q proc found).2, up⟩
  case starts =>
    intro q
    rw [spawn_status]
    split
    · rename_i same
      subst same
      exact fun _ => ⟨_, new, by simp [newProc]⟩
    · intro starts
      obtain ⟨proc, found, up⟩ := h.starts q starts
      exact ⟨proc, (kept q proc found).2, up⟩
  case root => exact ⟨root, (kept p0 root there).2, zero, alone⟩
  case stays =>
    rw [spawn_status, if_neg (kept p0 root there).1]
    exact h.stays

/-- A process goes that has no thread and that nobody waits for. -/
theorem Placed.drop (h : s.Placed p0) (found : s.kernel.heap p = some proc)
    (ended : s.status p = .ended) (alone : ∀ q, s.status q ≠ .waiting p) :
    (s.drop p proc.pPid files).Placed p0 := by
  have runs : ∀ q, s.status q ≠ .ended → q ≠ p := by
    rintro q runs rfl
    exact runs ended
  have kept : ∀ q other, q ≠ p → s.kernel.heap q = some other →
      (s.drop p proc.pPid files).kernel.heap q = some other := fun q other away found =>
    drop_heap.mpr ⟨away, found⟩
  constructor
  case lkAllproc => exact h.lkAllproc
  case locks => exact fun q other here => h.locks q other (drop_heap.mp here).2
  case placed =>
    intro i q entry
    obtain ⟨away, entry⟩ := drop_pTable.mp entry
    obtain ⟨other, here, pid⟩ := h.placed i q entry
    refine ⟨other, kept q other ?_ here, pid⟩
    rintro rfl
    obtain rfl : other = proc := Option.some.inj (here.symm.trans found)
    exact away pid.symm
  case tabled =>
    intro q other here
    obtain ⟨away, here⟩ := drop_heap.mp here
    have entry := h.tabled q other here
    refine drop_pTable.mpr ⟨fun same => ?_, entry⟩
    rw [same, h.tabled p proc found] at entry
    exact away (Option.some.inj entry).symm
  case alive =>
    intro q going
    obtain ⟨other, here, alive⟩ := h.alive q going
    exact ⟨other, kept q other (runs q going) here, alive⟩
  case waits =>
    intro r q waits
    obtain ⟨other, here, up⟩ := h.waits r q waits
    refine ⟨other, kept q other ?_ here, up⟩
    rintro rfl
    exact alone r waits
  case starts =>
    intro q starts
    obtain ⟨other, here, up⟩ := h.starts q starts
    have going : s.status q ≠ .ended := by
      rw [show s.status q = .starting from starts]
      exact nofun
    exact ⟨other, kept q other (runs q going) here, up⟩
  case root =>
    obtain ⟨root, there, rest⟩ := h.root
    exact ⟨root, kept p0 root (runs p0 h.stays) there, rest⟩
  case stays => exact h.stays

/-- A process with a parent exits, and stays in the table. -/
theorem Placed.exit (h : s.Placed p0) {exitcode : BitVec 32} {n : Nat}
    (found : s.kernel.heap cur = some proc) (away : cur ≠ p0) :
    ((s.leave cur).revise cur (dead proc exitcode n) files).Placed p0 := by
  have back : ∀ q other, s.kernel.heap q = some other → ∃ after,
      ((s.leave cur).revise cur (dead proc exitcode n) files).kernel.heap q = some after ∧
        after.pPid = other.pPid ∧ after.pProc = other.pProc := by
    intro q other here
    by_cases same : q = cur
    · subst same
      obtain rfl := Option.some.inj (found.symm.trans here)
      exact ⟨_, revise_heap.mpr (.inl ⟨rfl, rfl⟩), rfl, rfl⟩
    · exact ⟨other, revise_heap.mpr (.inr ⟨same, here⟩), rfl, rfl⟩
  have runs : ∀ q, q ≠ cur → (s.leave cur).status q = s.status q := fun q other =>
    goTo_status.trans (if_neg other)
  have stopped : (s.leave cur).status cur = .ended := Function.update_self ..
  constructor
  case lkAllproc => exact h.lkAllproc
  case locks =>
    intro q other here
    rcases revise_heap.mp here with ⟨_, rfl⟩ | ⟨_, here⟩
    · rfl
    · exact h.locks q other here
  case placed =>
    intro i q entry
    obtain ⟨other, here, slot⟩ := h.placed i q entry
    obtain ⟨after, here', pid, _⟩ := back q other here
    exact ⟨after, here', pid.trans slot⟩
  case tabled =>
    intro q other here
    rcases revise_heap.mp here with ⟨rfl, rfl⟩ | ⟨_, here⟩
    · exact h.tabled q proc found
    · exact h.tabled q other here
  case alive =>
    intro q going
    have other : q ≠ cur := by
      rintro rfl
      exact going stopped
    obtain ⟨below, here, alive⟩ := h.alive q ((runs q other).symm.trans_ne going)
    exact ⟨below, revise_heap.mpr (.inr ⟨other, here⟩), alive⟩
  case waits =>
    intro r q waits
    have other : r ≠ cur := by
      rintro rfl
      cases stopped.symm.trans waits
    obtain ⟨below, here, up⟩ := h.waits r q ((runs r other).symm.trans waits)
    obtain ⟨after, here', _, same⟩ := back q below here
    exact ⟨after, here', same.trans up⟩
  case starts =>
    intro q starts
    have other : q ≠ cur := by
      rintro rfl
      cases stopped.symm.trans starts
    obtain ⟨below, here, up⟩ := h.starts q ((runs q other).symm.trans starts)
    obtain ⟨after, here', _, same⟩ := back q below here
    exact ⟨after, here', same ▸ up⟩
  case root =>
    obtain ⟨root, there, zero, alone⟩ := h.root
    exact ⟨root, revise_heap.mpr (.inr ⟨away.symm, there⟩), zero, alone⟩
  case stays => exact (runs p0 away.symm).trans_ne h.stays

theorem Placed.not_waited (h : s.Placed p0) (found : s.kernel.heap p = some proc)
    (parent : proc.pProc = none) : s.status q ≠ .waiting p := by
  intro waits
  obtain ⟨other, here, up⟩ := h.waits q p waits
  obtain rfl := Option.some.inj (found.symm.trans here)
  rw [parent] at up
  cases up

theorem Placed.step (h : s.Placed p0) {a : Action Id F V} (effect : s.Effect p0 a t) :
    t.Placed p0 := by
  cases effect with
  | quiet _ _ => exact h.withFiles _
  | prog running _ next free _ =>
    have away : p0 ≠ _ := fun same => by
      obtain ⟨_, there, _⟩ := h.root
      rw [same, free] at there
      cases there
    refine (h.spawn next.1 free (.inr rfl)).goTo ?_ nofun nofun nofun
    rw [spawn_status, if_neg away]
    exact h.stays
  | @startup p _ starting =>
    refine h.goTo (by simp [starting]) ?_ ?_ ?_
    · rintro rfl
      obtain ⟨root, there, _, alone⟩ := h.root
      obtain ⟨other, here, parent⟩ := h.starts p starting
      obtain rfl := Option.some.inj (there.symm.trans here)
      exact (parent alone).elim
    · split <;> exact nofun
    · split <;> exact nofun
  | @fork cur p _ _ tPid _ pid n files user _ next free _ =>
    obtain ⟨lkAllproc, locks, placed, tabled, alive, waits, starts, root, stays⟩ :
        ((s.enter p (newProc pid (some cur)) n files).spawn cur p .running tPid).Placed p0 :=
      h.spawn next.1 free (.inl rfl)
    exact ⟨lkAllproc, locks, placed, tabled, alive, waits, starts, root, stays⟩
  | @exitAlone cur _ _ proc files user found parent _ =>
    have gone : (s.goTo cur .ended).Placed p0 :=
      h.goTo (by simp [user.1]) (fun same => (user.2 same).elim) nofun nofun
    obtain ⟨lkAllproc, locks, placed, tabled, alive, waits, starts, root, stays⟩ :
        ((s.goTo cur .ended).drop cur proc.pPid files).Placed p0 :=
      gone.drop found (Function.update_self ..) fun q => gone.not_waited found parent
    exact ⟨lkAllproc, locks, placed, tabled, alive, waits, starts, root, stays⟩
  | exitChild user found _ _ _ => exact h.exit found user.2
  | turnBack may => exact h.goTo may.not_ended nofun nofun nofun
  | wait may found parent =>
    refine h.goTo may.not_ended nofun nofun fun q waits => ?_
    cases waits
    exact ⟨_, found, parent⟩
  | @reap cur p proc files waits found isDead near =>
    have after : (s.goTo cur .running).Placed p0 := h.goTo (by simp [waits]) nofun nofun nofun
    have ended : s.status p = .ended := by
      by_contra runs
      obtain ⟨other, here, alive⟩ := h.alive p runs
      obtain rfl := Option.some.inj (found.symm.trans here)
      rw [isDead] at alive
      cases alive
    have other : p ≠ cur := by
      rintro rfl
      cases ended.symm.trans waits
    refine after.drop found ?_ ?_
    · rw [goTo_status, if_neg other, ended]
    · intro q
      rw [goTo_status]
      split
      · exact nofun
      · rename_i away
        exact fun again => away (h.one_waits waits again)

theorem initial_heap (start : (machine p0).initial s) (p : Id) (proc : Proc Id Id Unit)
    (here : s.kernel.heap p = some proc) : p = p0 ∧ proc = ⟨0, none, some none, some 0, some (), 0, false⟩ := by
  rw [start.1, update_some] at here
  simpa using here

theorem Placed.start (start : (machine p0).initial s) : s.Placed p0 := by
  have only := initial_heap start
  obtain ⟨heap, table, -, lkAllproc, status, -⟩ := start
  have here : s.kernel.heap p0 = some ⟨0, none, some none, some 0, some (), 0, false⟩ := by
    rw [heap, Function.update_self]
  have entry : s.kernel.pTable 0 = some p0 := by rw [table, Function.update_self]
  have runs : s.status p0 = .running := by rw [status, Function.update_self]
  have quiet : ∀ p, s.status p ≠ .ended → p = p0 := by
    intro p going
    rw [status, Function.update_apply] at going
    split at going
    · assumption
    · exact (going rfl).elim
  constructor
  case lkAllproc => exact lkAllproc
  case locks => exact fun p proc here => by rw [(only p proc here).2]
  case placed =>
    intro i p there
    rw [table, update_some] at there
    obtain ⟨rfl, rfl⟩ : i = 0 ∧ p = p0 := by simpa using there
    exact ⟨_, here, rfl⟩
  case tabled =>
    intro p proc there
    obtain ⟨rfl, rfl⟩ := only p proc there
    exact entry
  case alive =>
    intro p going
    obtain rfl := quiet p going
    exact ⟨_, here, rfl⟩
  case waits =>
    intro q p waits
    obtain rfl := quiet q (by simp [waits])
    cases runs.symm.trans waits
  case starts =>
    intro p starts
    obtain rfl := quiet p (by simp [starts])
    cases runs.symm.trans starts
  case root => exact ⟨_, here, rfl, rfl⟩
  case stays => simp [runs]

end State

theorem reached_placed {p0 : Id} {s : State Id F V} {guard : State Id F V → Action Id F V → Prop}
    (h : (machine p0).ReachableBy guard s) : s.Placed p0 :=
  (machine p0).invariant_ensures (fun _ => State.Placed.start)
    (fun _ _ placed _ => State.step_effect.mono fun _ => placed.step) h

end Os161.Life
