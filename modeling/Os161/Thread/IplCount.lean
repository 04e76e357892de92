import Os161.Thread.Interrupts

/-!
# What the interrupt count counts

`t_iplhigh_count` is the number of spinlocks of the thread, and one for its level; a thread that is
switched out counts one more for the run queue lock that passes from one thread to the next. Interrupts
are on where the count is 0.
-/

set_option linter.unusedSectionVars false

namespace Os161.Interrupts

variable {n : Nat} {T W O L K : Type} [DecidableEq T] [DecidableEq W] [DecidableEq O] [DecidableEq L]
  [DecidableEq K]

namespace Thread

variable (t : Thread K)

def charges : Int := t.held.card + (if t.handover then 1 else 0) + t.tCurspl.charge

end Thread

namespace Frame

def isInterrupt : Frame K → Bool
  | .interrupt .. => true
  | _ => false

/-- An interrupt that has come while the cpu was idle. -/
def isWindow : Frame K → Bool
  | .interrupt .window _ _ => true
  | _ => false

end Frame

/-- From this level the frames can be gone back through: each finds the level with which it was
left. -/
def Returns : Ipl → List (Frame K) → Prop
  | _, [] => True
  | _, .saved spl :: rest => Returns spl rest
  | _, .startup :: rest => Returns .none rest
  | spl, .trap mode irq held :: rest =>
    (irq = true ↔ held = ∅ ∧ spl = .none) ∧
      (mode = .user ∧ spl = .none ∧ held = ∅ ∧ rest = [] ∨ mode = .kernel ∧ Returns spl rest)
  | spl, .interrupt mode doadjust oldIn :: rest =>
    spl = .high ∧ oldIn = rest.any Frame.isInterrupt ∧
      (doadjust = true ∧ (mode = .kernel ∧ Returns .none rest ∨ mode = .user ∧ rest = []) ∨
        doadjust = false ∧ mode = .window ∧ rest.any Frame.isWindow = false ∧ Returns .high rest)

namespace Thread

variable (t : Thread K)

structure Good : Prop where
  counted : t.tIplhighCount = t.charges
  returns : Returns t.tCurspl t.frames
  inInterrupt : t.tInInterrupt = t.frames.any Frame.isInterrupt

/-- A thread in the loop of `thread_switch`, or switched out. -/
structure Away (handover : Bool) : Prop where
  handover : t.handover = handover
  high : t.tCurspl = .high
  outside : t.frames.any Frame.isWindow = false

end Thread

namespace Core

/-- The core whose count and interrupt flag are what the thread's other fields say. -/
def of (t : Thread K) : Core K :=
  ⟨{ t with tIplhighCount := t.charges }, decide (t.charges = 0)⟩

def Synced (l : Core K) : Prop := l = of l.thread

theorem of_synced (t : Thread K) : (of t).Synced := rfl

theorem Synced.irq_iff {l : Core K} (h : l.Synced) : l.irq = true ↔ l.thread.tIplhighCount = 0 := by
  rw [h]
  exact decide_eq_true_iff

theorem charges_nonneg (t : Thread K) : 0 ≤ t.charges := by
  unfold Thread.charges Ipl.charge
  split <;> split <;> omega

theorem charges_zero_iff {t : Thread K} (handover : t.handover = false) :
    t.charges = 0 ↔ t.held = ∅ ∧ t.tCurspl = .none := by
  rw [← Finset.card_eq_zero]
  cases level : t.tCurspl <;> simp [Thread.charges, handover, level, Ipl.charge]
  omega

theorem synced_of_zero {l : Core K} (irq : l.irq = true) (count : l.thread.tIplhighCount = 0)
    (charges : l.thread.charges = 0) : l.Synced := by
  obtain ⟨t, flag⟩ := l
  obtain ⟨level, number, inInterrupt, frames, held, handover⟩ := t
  simp only at irq count
  subst irq count
  simp [Synced, of, charges]

/-- A thread with its level up has interrupts off. -/
theorem of_high {t : Thread K} (counted : t.tIplhighCount = t.charges) (high : t.tCurspl = .high) :
    (⟨t, false⟩ : Core K) = of t := by
  have on : t.charges ≠ 0 := by
    simp only [Thread.charges, high, Ipl.charge]
    split <;> omega
  rw [← counted] at on
  simp [of, on, ← counted]

/-- One charge more turns interrupts off. -/
theorem of_splraise (t : Thread K) :
    (of t).splraise = ⟨{ t with tIplhighCount := t.charges + 1 }, false⟩ := by
  by_cases zero : t.charges = 0 <;> simp [splraise, of, zero]

theorem spllower_of (t : Thread K) {count : Int} (positive : 0 < count) :
    spllower ⟨{ t with tIplhighCount := count }, decide (count = 0)⟩ =
      .done ⟨{ t with tIplhighCount := count - 1 }, decide (count - 1 = 0)⟩ := by
  have above : ¬ count - 1 < 0 := by omega
  have on : count ≠ 0 := by omega
  by_cases last : count - 1 = 0 <;> simp [spllower, above, last, on]

/-- What is raised is lowered to what it was. -/
theorem spllower_splraise (t : Thread K) : (of t).splraise.spllower = .done (of t) := by
  have nonneg := charges_nonneg t
  have positive : 0 < t.charges + 1 := by omega
  have on : t.charges + 1 ≠ 0 := by omega
  have done := spllower_of t positive
  simp only [on, decide_false, Int.add_sub_cancel] at done
  rw [of_splraise, done]
  rfl

theorem of_of_more {t u : Thread K} (more : u.charges = t.charges + 1) :
    of u = ⟨{ u with tIplhighCount := t.charges + 1 }, false⟩ := by
  have nonneg := charges_nonneg t
  have on : t.charges + 1 ≠ 0 := by omega
  simp [of, more, on]

theorem of_of_less {t u : Thread K} (less : u.charges = t.charges - 1) :
    of u = ⟨{ u with tIplhighCount := t.charges - 1 }, decide (t.charges - 1 = 0)⟩ := by
  simp [of, less]

@[simp] theorem of_splx (t : Thread K) (spl : Ipl) :
    (of t).splx spl = .done (t.tCurspl, of { t with tCurspl := spl }) := by
  have nonneg := charges_nonneg { t with tCurspl := .none }
  have charge : ∀ spl, ({ t with tCurspl := spl } : Thread K).charges =
      t.charges - t.tCurspl.charge + spl.charge := by
    intro spl
    simp only [Thread.charges]
    omega
  cases level : t.tCurspl <;> cases spl
  · have same := charge .none
    rw [level] at same
    simp [splx, of, level, Outcome.pure_def, same]
  · have more := charge .high
    rw [level] at more
    have done := of_splraise t
    have next := of_of_more (u := { t with tCurspl := .high }) (by simpa [Ipl.charge] using more)
    simp only [splx, show (of t).thread.tCurspl = .none from level, done, next]
    rfl
  · have less := charge .none
    rw [level] at less
    have next := of_of_less (u := { t with tCurspl := .none }) (t := t) (by simpa [Ipl.charge] using less)
    have positive : 0 < t.charges := by
      simp only [Ipl.charge] at less
      omega
    have done := spllower_of { t with tCurspl := .none } positive
    simp only [splx, show (of t).thread.tCurspl = .high from level, next]
    rw [show spllower { of t with thread := { (of t).thread with tCurspl := .none } } = _ from done]
    rfl
  · have same := charge .high
    rw [level] at same
    simp [splx, of, level, Outcome.pure_def, same]

/-- The start of `mips_trap`: interrupts are off already. -/
theorem splx_high_of_off {t : Thread K} (counted : t.tIplhighCount = t.charges) :
    (⟨t, false⟩ : Core K).splx .high = .done (t.tCurspl, of { t with tCurspl := .high }) := by
  have same := of_splx t .high
  cases level : t.tCurspl with
  | high =>
    rw [of_high counted level, same, level]
  | none =>
    have off : (⟨t, false⟩ : Core K).splraise = (of t).splraise := by
      rw [of_splraise]
      simp [splraise, counted]
    simp only [splx, level, off] at same ⊢
    rw [show (of t).thread.tCurspl = .none from level] at same
    exact same

theorem of_take {t : Thread K} {k : K} (new : k ∉ t.held) :
    (of t).splraise.take k = of { t with held := insert k t.held } := by
  have more : ({ t with held := insert k t.held } : Thread K).charges = t.charges + 1 := by
    simp only [Thread.charges, Finset.card_insert_of_notMem new]
    omega
  rw [of_splraise, of_of_more more]
  rfl

theorem of_give {t : Thread K} {k : K} (mine : k ∈ t.held) :
    ∃ l, (of t).spllower = .done l ∧ l.give k = of { t with held := t.held.erase k } := by
  have card := Finset.card_pos.mpr ⟨k, mine⟩
  have less : ({ t with held := t.held.erase k } : Thread K).charges = t.charges - 1 := by
    simp only [Thread.charges, Finset.card_erase_of_mem mine]
    omega
  have positive : 0 < t.charges := by
    have nonneg := charges_nonneg { t with held := t.held.erase k }
    omega
  refine ⟨_, spllower_of t positive, ?_⟩
  rw [of_of_less less]
  rfl

/-- The same under one more spinlock. -/
theorem raised_give {t : Thread K} {k : K} (mine : k ∈ t.held) :
    ∃ l, (of t).splraise.spllower = .done l ∧
      l.give k = (of { t with held := t.held.erase k }).splraise := by
  have card := Finset.card_pos.mpr ⟨k, mine⟩
  have less : ({ t with held := t.held.erase k } : Thread K).charges = t.charges - 1 := by
    simp only [Thread.charges, Finset.card_erase_of_mem mine]
    omega
  have on : t.charges ≠ 0 := by
    have nonneg := charges_nonneg { t with held := t.held.erase k }
    omega
  refine ⟨_, spllower_splraise t, ?_⟩
  rw [of_splraise, less, Int.sub_add_cancel]
  simp [of, give, on]

theorem of_handover {t : Thread K} (before : t.handover = false) :
    (of t).splraise.setHandover true = of { t with handover := true } := by
  have more : ({ t with handover := true } : Thread K).charges = t.charges + 1 := by
    simp [Thread.charges, before]
    omega
  rw [of_splraise, of_of_more more]
  rfl

theorem of_handed {t : Thread K} (before : t.handover = true) :
    ∃ l, (of t).spllower = .done l ∧ l.setHandover false = of { t with handover := false } := by
  have less : ({ t with handover := false } : Thread K).charges = t.charges - 1 := by
    simp [Thread.charges, before]
    omega
  have positive : 0 < t.charges := by
    have nonneg := charges_nonneg { t with handover := false }
    omega
  refine ⟨_, spllower_of t positive, ?_⟩
  rw [of_of_less less]
  rfl

end Core

/-! ### Who has which spinlock -/

/-- A spinlock that a thread has is not free and nobody else has it; one that is handed over is its
cpu's and no thread has it. -/
structure LockInv (holder : Spinlock n W L → Option (Fin n)) (held : T → Finset (Spinlock n W L))
    (handed : Fin n → Prop) : Prop where
  owned : ∀ t, ∀ k ∈ held t, holder k ≠ none
  apart : ∀ t u k, k ∈ held t → k ∈ held u → t = u
  handed : ∀ c, handed c → holder (.runqueue c) = some c ∧ ∀ t, .runqueue c ∉ held t

section LockInv

variable {holder : Spinlock n W L → Option (Fin n)} {held : T → Finset (Spinlock n W L)}
  {handed handed' : Fin n → Prop} {c : Fin n} {k : Spinlock n W L} {x : T}

theorem LockInv.mono (h : LockInv holder held handed) (fewer : ∀ c, handed' c → handed c) :
    LockInv holder held handed' :=
  ⟨h.owned, h.apart, fun c is => h.handed c (fewer c is)⟩

theorem LockInv.new (h : LockInv holder held handed) (free : holder k = none) (t : T) : k ∉ held t :=
  fun mine => h.owned t k mine free

theorem LockInv.take (h : LockInv holder held handed) (free : holder k = none) (c : Fin n) (x : T) :
    LockInv (Function.update holder k (some c)) (Function.update held x (insert k (held x))) handed := by
  have mem : ∀ t j, j ∈ Function.update held x (insert k (held x)) t ↔ j = k ∧ t = x ∨ j ∈ held t := by
    intro t j
    by_cases same : t = x
    · subst same
      rw [Function.update_self, Finset.mem_insert]
      simp
    · rw [Function.update_of_ne same]
      simp [same]
  constructor
  · intro t j mine
    obtain ⟨rfl, _⟩ | mine := (mem t j).mp mine
    · rw [Function.update_self]
      exact nofun
    · have other : j ≠ k := fun same => h.new free t (same ▸ mine)
      rw [Function.update_of_ne other]
      exact h.owned t j mine
  · intro t u j first second
    obtain ⟨rfl, rfl⟩ | mine := (mem t j).mp first
    · obtain ⟨_, rfl⟩ | theirs := (mem u j).mp second
      · rfl
      · exact absurd theirs (h.new free u)
    · obtain ⟨rfl, _⟩ | theirs := (mem u j).mp second
      · exact absurd mine (h.new free t)
      · exact h.apart t u j mine theirs
  · intro d is
    obtain ⟨locked, nobody⟩ := h.handed d is
    have other : Spinlock.runqueue d ≠ k := by
      rintro rfl
      rw [free] at locked
      cases locked
    refine ⟨by rwa [Function.update_of_ne other], fun t mine => ?_⟩
    obtain ⟨same, _⟩ | mine := (mem t _).mp mine
    · exact other same
    · exact nobody t mine

theorem LockInv.give (h : LockInv holder held handed) (mine : k ∈ held x) :
    LockInv (Function.update holder k none) (Function.update held x ((held x).erase k)) handed := by
  have mem : ∀ t j, j ∈ Function.update held x ((held x).erase k) t ↔ j ∈ held t ∧ j ≠ k := by
    intro t j
    by_cases same : t = x
    · subst same
      rw [Function.update_self, Finset.mem_erase, and_comm]
    · rw [Function.update_of_ne same]
      refine ⟨fun theirs => ⟨theirs, ?_⟩, And.left⟩
      rintro rfl
      exact same (h.apart t x j theirs mine)
  constructor
  · intro t j theirs
    obtain ⟨theirs, other⟩ := (mem t j).mp theirs
    rw [Function.update_of_ne other]
    exact h.owned t j theirs
  · intro t u j first second
    exact h.apart t u j ((mem t j).mp first).1 ((mem u j).mp second).1
  · intro d is
    obtain ⟨locked, nobody⟩ := h.handed d is
    have other : Spinlock.runqueue d ≠ k := by
      rintro rfl
      exact nobody x mine
    exact ⟨by rwa [Function.update_of_ne other], fun t theirs => nobody t ((mem t _).mp theirs).1⟩

/-- A cpu locks its run queue for a hand-over. -/
theorem LockInv.lock (h : LockInv holder held handed) (free : holder (.runqueue c) = none) :
    LockInv (Function.update holder (.runqueue c) (some c)) held fun d => d = c ∨ handed d := by
  constructor
  · intro t j mine
    have other : j ≠ .runqueue c := fun same => h.new free t (same ▸ mine)
    rw [Function.update_of_ne other]
    exact h.owned t j mine
  · exact h.apart
  · intro d is
    by_cases same : d = c
    · subst same
      rw [Function.update_self]
      exact ⟨rfl, h.new free⟩
    · have other : (Spinlock.runqueue d : Spinlock n W L) ≠ .runqueue c := fun eq =>
        same (Spinlock.runqueue.inj eq)
      rw [Function.update_of_ne other]
      exact h.handed d (is.resolve_left same)

/-- The lock that was handed over is free again. -/
theorem LockInv.unlock (h : LockInv holder held handed) (is : handed c) :
    LockInv (Function.update holder (.runqueue c) none) held fun d => d ≠ c ∧ handed d := by
  obtain ⟨_, nobody⟩ := h.handed c is
  constructor
  · intro t j mine
    have other : j ≠ .runqueue c := fun same => nobody t (same ▸ mine)
    rw [Function.update_of_ne other]
    exact h.owned t j mine
  · exact h.apart
  · intro d ⟨same, is⟩
    have other : (Spinlock.runqueue d : Spinlock n W L) ≠ .runqueue c := fun eq =>
      same (Spinlock.runqueue.inj eq)
    rw [Function.update_of_ne other]
    exact h.handed d is

/-- A thread that starts anew has no spinlock. -/
theorem LockInv.forget (h : LockInv holder held handed) (x : T) :
    LockInv holder (Function.update held x ∅) handed := by
  have mem : ∀ t j, j ∈ Function.update held x ∅ t → j ∈ held t := by
    intro t j mine
    by_cases same : t = x
    · subst same
      rw [Function.update_self] at mine
      cases Finset.notMem_empty j mine
    · rwa [Function.update_of_ne same] at mine
  exact ⟨fun t j mine => h.owned t j (mem t j mine),
    fun t u j first second => h.apart t u j (mem t j first) (mem u j second),
    fun d is => ⟨(h.handed d is).1, fun t mine => (h.handed d is).2 t (mem t _ mine)⟩⟩

end LockInv

/-! ### The invariant -/

/-- What a cpu and its current thread are at in each mode. -/
def Core.At (l : Core K) (idle : Bool) : Mode → Prop
  | .kernel => l.Synced ∧ l.thread.handover = false ∧ idle = l.thread.frames.any Frame.isWindow
  | .user => l.Synced ∧ l.thread.handover = false ∧ l.thread.tCurspl = .none ∧ l.thread.held = ∅ ∧
      l.thread.frames = [] ∧ idle = false
  | .resuming => l.Synced ∧ l.thread.Away true ∧ idle = false
  | .idle => l.Synced ∧ l.thread.Away true ∧ idle = true
  | .idling | .idled => l.Synced ∧ l.thread.Away false ∧ idle = true
  | .window => l.irq = true ∧ l.thread.Away false ∧ idle = true

/-- The cpu has its run queue locked for a hand-over. -/
def Mode.handed (mode : Mode) : Bool := mode = .resuming || mode = .idle

namespace State

def held (s : State n T W O L) (t : T) : Finset (Spinlock n W L) := (s.thread t).held

def Locks (s : State n T W O L) : Prop :=
  LockInv s.splkHolder s.held fun c => (s.mode c).handed = true

structure Inv (s : State n T W O L) : Prop where
  placed : Scheduler.Placed s.sched
  good : ∀ t, s.sched.live t = true → (s.thread t).Good
  cpus : ∀ c, (s.core c).At (s.sched.cIsidle c) (s.mode c)
  away : ∀ t, s.sched.live t = true → (∀ c, s.sched.cCurthread c ≠ t) → (s.thread t).Away true
  locks : s.Locks

end State

section Frame

variable {s t : State n T W O L} {c d : Fin n} {l : Core (Spinlock n W L)} {mode : Mode}

theorem cur_home (h : Scheduler.Placed s.sched) (c : Fin n) :
    s.sched.tCpu (s.sched.cCurthread c) = c := by
  cases busy : s.sched.cIsidle c with
  | false => exact h.home (.running c) c _ rfl (Scheduler.running_mem busy)
  | true => exact (h.idle c busy).1

theorem cur_injective (h : Scheduler.Placed s.sched)
    (same : s.sched.cCurthread c = s.sched.cCurthread d) : c = d := by
  rw [← cur_home h c, same, cur_home h d]

theorem cur_live (h : Scheduler.Placed s.sched) (c : Fin n) :
    s.sched.live (s.sched.cCurthread c) = true := by
  rw [h.live]
  cases busy : s.sched.cIsidle c with
  | false => exact ⟨.running c, Scheduler.running_mem busy⟩
  | true =>
    obtain ⟨_, p, _, there⟩ := h.idle c busy
    exact ⟨p, there⟩

@[simp] theorem core_setCore (s : State n T W O L) (c : Fin n) (l : Core (Spinlock n W L)) :
    (s.setCore c l).core c = l := by
  simp [State.core, State.setCore]

@[simp] theorem setCore_setCore (s : State n T W O L) (c : Fin n) (l l' : Core (Spinlock n W L)) :
    (s.setCore c l).setCore c l' = s.setCore c l' := by
  simp [State.setCore]

@[simp] theorem core_setHolder (s : State n T W O L) (k : Spinlock n W L) (holder : Option (Fin n)) :
    (s.setHolder k holder).core c = s.core c := rfl

/-- A cpu changes its mode and its current thread, while the scheduler stays as it is. -/
theorem State.Inv.change (h : s.Inv) (sched : t.sched = s.sched)
    (thread : t.thread = Function.update s.thread (s.sched.cCurthread c) l.thread)
    (irq : t.irq = Function.update s.irq c l.irq) (modes : t.mode = Function.update s.mode c mode)
    (good : l.thread.Good) (at_ : l.At (s.sched.cIsidle c) mode) (locks : t.Locks) : t.Inv := by
  constructor
  · rw [sched]
    exact h.placed
  · intro x live
    rw [sched] at live
    rw [thread, Function.update_apply]
    split
    · exact good
    · exact h.good x live
  · intro d
    by_cases same : d = c
    · subst same
      have core : t.core d = l := by
        simp [State.core, sched, thread, irq]
      rw [core, sched, modes, Function.update_self]
      exact at_
    · have other : s.sched.cCurthread d ≠ s.sched.cCurthread c := fun eq =>
        same (cur_injective h.placed eq)
      have core : t.core d = s.core d := by
        simp [State.core, sched, thread, irq, Function.update_of_ne same, Function.update_of_ne other]
      rw [core, sched, modes, Function.update_of_ne same]
      exact h.cpus d
  · intro x live away
    rw [sched] at live away
    rw [thread, Function.update_of_ne (Ne.symm (away c))]
    exact h.away x live away
  · exact locks

theorem held_setCore (s : State n T W O L) (c : Fin n) (l : Core (Spinlock n W L)) :
    (s.setCore c l).held = Function.update s.held (s.sched.cCurthread c) l.thread.held := by
  funext x
  simp only [State.held, State.setCore, Function.update_apply]
  split <;> rfl

theorem held_core (s : State n T W O L) (c : Fin n) :
    s.held (s.sched.cCurthread c) = (s.core c).thread.held := rfl

theorem held_same (held : l.thread.held = (s.core c).thread.held) : (s.setCore c l).held = s.held := by
  rw [held_setCore, held, ← held_core, Function.update_eq_self]

/-- A thread goes on with the spinlocks that it has. -/
theorem State.Inv.setCore (h : s.Inv) (good : l.thread.Good) (at_ : l.At (s.sched.cIsidle c) mode)
    (held : l.thread.held = (s.core c).thread.held)
    (handed : mode.handed = true → (s.mode c).handed = true) : ((s.setCore c l).setMode c mode).Inv := by
  refine h.change rfl rfl rfl rfl good at_ ?_
  have same : ((s.setCore c l).setMode c mode).held = s.held := held_same held
  unfold State.Locks
  rw [same]
  apply h.locks.mono
  intro d is
  by_cases own : d = c
  · subst own
    exact handed (by simpa [State.setMode] using is)
  · simpa [State.setMode, State.setCore, Function.update_of_ne own] using is

/-- The same in the mode that it is in. -/
theorem State.Inv.setThread (h : s.Inv) (good : l.thread.Good)
    (at_ : l.At (s.sched.cIsidle c) (s.mode c)) (held : l.thread.held = (s.core c).thread.held) :
    (s.setCore c l).Inv := by
  have inv : ((s.setCore c l).setMode c (s.mode c)).Inv := h.setCore good at_ held id
  have same : (s.setCore c l).setMode c (s.mode c) = s.setCore c l := by
    show { s.setCore c l with mode := Function.update s.mode c (s.mode c) } = _
    rw [Function.update_eq_self]
    rfl
  rwa [same] at inv

end Frame

/-! ### What the parts of a step do -/

section Parts

variable {s u : State n T W O L} {c : Fin n} {t : Thread (Spinlock n W L)} {k : Spinlock n W L}

theorem good_of {t : Thread K} (returns : Returns t.tCurspl t.frames)
    (inInterrupt : t.tInInterrupt = t.frames.any Frame.isInterrupt) : (Core.of t).thread.Good :=
  ⟨rfl, returns, inInterrupt⟩

theorem splx_of (sync : s.core c = .of t) (spl : Ipl) :
    s.splx c spl = .done (t.tCurspl, s.setCore c (.of { t with tCurspl := spl })) := by
  simp [State.splx, sync, Outcome.pure_def]

theorem spinlockAcquire_of (sync : s.core c = .of t) (k : Spinlock n W L) :
    (s.spinlockAcquire c k).Faultless fun u =>
      s.splkHolder k = none ∧ u = (s.setHolder k (some c)).setCore c (Core.of t).splraise := by
  simp only [State.spinlockAcquire, Outcome.faultless_bind, Outcome.faultless_kassert,
    Outcome.faultless_await, Outcome.faultless_pure, sync]
  exact fun _ free => ⟨free, rfl⟩

theorem spinlockRelease_of {l : Core (Spinlock n W L)} (lower : (s.core c).spllower = .done l)
    (k : Spinlock n W L) : (s.spinlockRelease c k).Faultless fun u =>
      s.splkHolder k = some c ∧ u = (s.setHolder k none).setCore c l := by
  simp only [State.spinlockRelease, lower, Outcome.faultless_bind, Outcome.faultless_kassert,
    Outcome.faultless_done, Outcome.faultless_pure]
  exact fun held => ⟨held, trivial⟩

end Parts

/-! ### Steps of a thread -/

section Steps

variable {s : State n T W O L} {c : Fin n}

theorem State.Inv.kernel (h : s.Inv) (mode : s.mode c = .kernel) : (s.core c).Synced ∧
    (s.core c).thread.handover = false ∧
      s.sched.cIsidle c = (s.core c).thread.frames.any Frame.isWindow := by
  have at_ := h.cpus c
  rwa [mode] at at_

theorem State.Inv.cur_good (h : s.Inv) (c : Fin n) : (s.core c).thread.Good :=
  h.good _ (cur_live h.placed c)

theorem splSave_inv (h : s.Inv) (spl : Ipl) : (s.splSave c spl).Faultless State.Inv := by
  simp only [State.splSave, Outcome.faultless_bind, Outcome.faultless_await]
  intro mode
  obtain ⟨sync, handover, idle⟩ := h.kernel mode
  have good := h.cur_good c
  rw [splx_of sync]
  simp only [Outcome.faultless_done, Outcome.faultless_pure, core_setCore, setCore_setCore]
  apply h.setThread
  · exact good_of (t := { (s.core c).thread with
      tCurspl := spl, frames := .saved (s.core c).thread.tCurspl :: (s.core c).thread.frames })
      good.returns good.inInterrupt
  · rw [mode]
    exact ⟨rfl, handover, idle⟩
  · rfl

theorem splRestore_inv (h : s.Inv) : (s.splRestore c).Faultless State.Inv := by
  simp only [State.splRestore, Outcome.faultless_bind, Outcome.faultless_await]
  intro mode
  obtain ⟨sync, handover, idle⟩ := h.kernel mode
  have good := h.cur_good c
  split
  · rename_i spl frames top
    rw [top] at idle
    have returns := good.returns
    have inInterrupt := good.inInterrupt
    rw [top] at returns inInterrupt
    rw [splx_of sync]
    simp only [Outcome.faultless_done, Outcome.faultless_pure, Outcome.faultless_bind, core_setCore,
      setCore_setCore]
    apply h.setThread
    · exact good_of (t := { (s.core c).thread with tCurspl := spl, frames := frames }) returns inInterrupt
    · rw [mode]
      exact ⟨rfl, handover, idle⟩
    · rfl
  · trivial

theorem threadStartup_inv (h : s.Inv) : (s.threadStartup c).Faultless State.Inv := by
  simp only [State.threadStartup, Outcome.faultless_bind, Outcome.faultless_await]
  intro mode
  obtain ⟨sync, handover, idle⟩ := h.kernel mode
  have good := h.cur_good c
  split
  · rename_i frames top
    rw [top] at idle
    have returns := good.returns
    have inInterrupt := good.inInterrupt
    rw [top] at returns inInterrupt
    rw [splx_of sync]
    simp only [Outcome.faultless_done, Outcome.faultless_pure, Outcome.faultless_bind, core_setCore,
      setCore_setCore]
    apply h.setThread
    · exact good_of (t := { (s.core c).thread with tCurspl := .none, frames := frames }) returns inInterrupt
    · rw [mode]
      exact ⟨rfl, handover, idle⟩
    · rfl
  · trivial

theorem acquire_inv (h : s.Inv) (k : Spinlock n W L) : (s.acquire c k).Faultless State.Inv := by
  simp only [State.acquire, Outcome.faultless_bind, Outcome.faultless_await]
  intro mode
  obtain ⟨sync, handover, idle⟩ := h.kernel mode
  have good := h.cur_good c
  refine (spinlockAcquire_of sync k).mono ?_
  rintro u ⟨free, is⟩
  subst is
  have new : k ∉ (s.core c).thread.held := h.locks.new free (s.sched.cCurthread c)
  simp only [Outcome.faultless_pure, core_setCore, setCore_setCore, Core.of_take new]
  refine h.change rfl rfl rfl (Function.update_eq_self ..).symm
    (good_of (t := { (s.core c).thread with held := insert k (s.core c).thread.held }) good.returns
      good.inInterrupt) ?_ ?_
  · show (Core.of _).At _ (s.mode c)
    rw [mode]
    exact ⟨rfl, handover, idle⟩
  · unfold State.Locks
    rw [held_setCore]
    exact h.locks.take free c (s.sched.cCurthread c)

theorem release_inv (h : s.Inv) (k : Spinlock n W L) : (s.release c k).Faultless State.Inv := by
  simp only [State.release, Outcome.faultless_bind, Outcome.faultless_await]
  rintro ⟨mode, mine⟩
  obtain ⟨sync, handover, idle⟩ := h.kernel mode
  have good := h.cur_good c
  obtain ⟨l, lower, given⟩ := Core.of_give mine
  have lower := (congrArg Core.spllower sync).trans lower
  refine (spinlockRelease_of lower k).mono ?_
  rintro u ⟨_, is⟩
  subst is
  simp only [Outcome.faultless_pure, core_setCore, setCore_setCore, given]
  refine h.change rfl rfl rfl (Function.update_eq_self ..).symm
    (good_of (t := { (s.core c).thread with held := (s.core c).thread.held.erase k }) good.returns
      good.inInterrupt) ?_ ?_
  · show (Core.of _).At _ (s.mode c)
    rw [mode]
    exact ⟨rfl, handover, idle⟩
  · unfold State.Locks
    rw [held_setCore]
    exact h.locks.give mine

/-! ### Traps -/

theorem any_interrupt_of_window {frames : List (Frame K)} (h : frames.any Frame.isInterrupt = false) :
    frames.any Frame.isWindow = false := by
  rw [List.any_eq_false] at h ⊢
  intro frame member is
  apply h frame member
  cases frame <;> first | rfl | cases is

theorem interrupt_inv (h : s.Inv) : (s.interrupt c).Faultless State.Inv := by
  simp only [State.interrupt, Outcome.faultless_bind, Outcome.faultless_await]
  rintro ⟨on, mode⟩
  have good := h.cur_good c
  have at_ := h.cpus c
  by_cases level : (s.core c).thread.tCurspl = .none
  · -- in the kernel and in user mode
    have facts : (s.core c).thread.handover = false ∧
        (s.mode c = .kernel ∨ s.mode c = .user ∧ (s.core c).thread.frames = []) ∧
        s.sched.cIsidle c = (s.core c).thread.frames.any Frame.isWindow := by
      obtain is | is | is := mode
      · rw [is] at at_
        exact ⟨at_.2.1, .inl is, at_.2.2⟩
      · rw [is] at at_
        obtain ⟨_, handover, _, _, frames, idle⟩ := at_
        exact ⟨handover, .inr ⟨is, frames⟩, by rw [frames, idle]; rfl⟩
      · rw [is] at at_
        obtain ⟨_, away, _⟩ := at_
        rw [away.high] at level
        cases level
    obtain ⟨handover, mode, idle⟩ := facts
    simp only [level, decide_true, if_true, Outcome.faultless_bind, Outcome.faultless_kassert,
      Outcome.faultless_pure]
    intro zero
    have more : ({ (s.core c).thread with
        tCurspl := .high
        tInInterrupt := true
        frames := .interrupt (s.mode c) true (s.core c).thread.tInInterrupt :: (s.core c).thread.frames }
          : Thread (Spinlock n W L)).charges = (s.core c).thread.charges + 1 := by
      simp [Thread.charges, level, Ipl.charge]
    have core := Core.of_of_more more
    rw [← good.counted] at core
    rw [← core]
    apply h.setCore
    · refine good_of ⟨rfl, good.inInterrupt, .inl ⟨rfl, ?_⟩⟩ rfl
      obtain is | ⟨is, none⟩ := mode
      · exact .inl ⟨is, level ▸ good.returns⟩
      · exact .inr ⟨is, none⟩
    · refine ⟨rfl, handover, idle.trans ?_⟩
      obtain is | ⟨is, _⟩ := mode <;> simp [Core.of, is, Frame.isWindow]
    · rfl
    · rintro ⟨⟩
  · -- in the window of an idle cpu
    have high : (s.core c).thread.tCurspl = .high := by
      cases is : (s.core c).thread.tCurspl with
      | none => exact absurd is level
      | high => rfl
    have off : ¬ (s.core c).Synced := by
      intro sync
      have synced := Core.of_high good.counted high
      have flags := congrArg Core.irq (synced.trans sync.symm)
      rw [show (s.core c).irq = true from on] at flags
      cases flags
    have is : s.mode c = .window := by
      obtain is | is | is := mode
      · rw [is] at at_
        exact absurd at_.1 off
      · rw [is] at at_
        exact absurd at_.1 off
      · exact is
    rw [is] at at_
    obtain ⟨_, away, idle⟩ := at_
    simp only [level, decide_false, Bool.false_eq_true, if_false, Outcome.pure_def, Outcome.done_bind, is]
    apply h.setCore
    · exact ⟨good.counted, ⟨high, good.inInterrupt, .inr ⟨rfl, rfl, away.outside, high ▸ good.returns⟩⟩,
        rfl⟩
    · exact ⟨Core.of_high good.counted high, away.handover, idle⟩
    · rfl
    · rintro ⟨⟩

theorem interruptDone_inv (h : s.Inv) : (s.interruptDone c).Faultless State.Inv := by
  simp only [State.interruptDone, Outcome.faultless_bind, Outcome.faultless_await]
  intro mode
  obtain ⟨sync, handover, idle⟩ := h.kernel mode
  have good := h.cur_good c
  split
  · rename_i back doadjust oldIn frames top
    rw [top] at idle
    have returns := good.returns
    rw [top] at returns
    obtain ⟨high, old, returns⟩ := returns
    obtain ⟨rfl, returns⟩ | ⟨rfl, rfl, outside, returns⟩ := returns
    · simp only [if_true, Outcome.faultless_bind, Outcome.faultless_kassert, Outcome.faultless_pure]
      intro _ one
      have charges : (s.core c).thread.charges = 1 := good.counted.symm.trans one
      have less : ({ (s.core c).thread with
          tIplhighCount := (s.core c).thread.tIplhighCount - 1
          tCurspl := .none
          tInInterrupt := oldIn
          frames := frames } : Thread (Spinlock n W L)).charges = 0 := by
        have charge : (s.core c).thread.charges =
            (s.core c).thread.held.card + (if (s.core c).thread.handover then 1 else 0) + 1 := by
          rw [Thread.charges, high]
          rfl
        simp only [Thread.charges, Ipl.charge]
        omega
      have count : (s.core c).thread.tIplhighCount - 1 = 0 := by omega
      have none := ((Core.charges_zero_iff (t := { (s.core c).thread with
        tIplhighCount := (s.core c).thread.tIplhighCount - 1
        tCurspl := .none
        tInInterrupt := oldIn
        frames := frames }) handover).mp less).1
      apply h.setCore
      · refine ⟨?_, ?_, old⟩
        · exact count.trans less.symm
        · obtain ⟨_, returns⟩ | ⟨_, rfl⟩ := returns
          · exact returns
          · trivial
      · obtain ⟨rfl, _⟩ | ⟨rfl, rfl⟩ := returns
        · exact ⟨Core.synced_of_zero rfl count less, handover, idle⟩
        · exact ⟨Core.synced_of_zero rfl count less, handover, rfl, none, rfl, idle⟩
      · rfl
      · obtain ⟨rfl, _⟩ | ⟨rfl, _⟩ := returns <;> rintro ⟨⟩
    · simp only [Bool.false_eq_true, if_false, Outcome.pure_def, Outcome.done_bind]
      apply h.setCore
      · exact ⟨good.counted, high ▸ returns, old⟩
      · exact ⟨rfl, ⟨handover, high, outside⟩, idle⟩
      · rfl
      · rintro ⟨⟩
  · trivial

theorem trap_inv (h : s.Inv) (isSyscall : Bool) : (s.trap c isSyscall).Faultless State.Inv := by
  simp only [State.trap, Outcome.faultless_bind, Outcome.faultless_await]
  intro mode
  have good := h.cur_good c
  have at_ := h.cpus c
  have facts : (s.core c).Synced ∧ (s.core c).thread.handover = false ∧
      s.sched.cIsidle c = (s.core c).thread.frames.any Frame.isWindow ∧
      (s.mode c = .user ∧ (s.core c).thread.tCurspl = .none ∧ (s.core c).thread.held = ∅ ∧
        (s.core c).thread.frames = [] ∨ s.mode c = .kernel) := by
    obtain is | ⟨is, _⟩ := mode
    · rw [is] at at_
      obtain ⟨sync, handover, level, held, frames, idle⟩ := at_
      exact ⟨sync, handover, by rw [frames, idle]; rfl, .inl ⟨is, level, held, frames⟩⟩
    · rw [is] at at_
      exact ⟨at_.1, at_.2.1, at_.2.2, .inr is⟩
  obtain ⟨sync, handover, idle, back⟩ := facts
  -- `splhigh` and `splx` bring the flag back to what the count says
  have raised : (s.setCore c { s.core c with irq := false }).splx c .high =
      .done ((s.core c).thread.tCurspl, s.setCore c (.of { (s.core c).thread with tCurspl := .high })) := by
    simp [State.splx, Core.splx_high_of_off good.counted, Outcome.pure_def]
  rw [raised]
  simp only [Outcome.faultless_done]
  rw [splx_of (core_setCore ..)]
  simp only [Outcome.faultless_done, Outcome.faultless_kassert, Outcome.faultless_pure, core_setCore,
    setCore_setCore]
  intro _ _
  apply h.setCore
  · refine good_of (t := { (s.core c).thread with
      frames := .trap (s.mode c) (s.irq c) (s.core c).thread.held :: (s.core c).thread.frames }) ?_
      good.inInterrupt
    refine ⟨?_, ?_⟩
    · rw [← Core.charges_zero_iff handover, ← good.counted]
      exact sync.irq_iff
    · obtain ⟨is, level, held, frames⟩ | is := back
      · exact .inl ⟨is, level, held, frames⟩
      · exact .inr ⟨is, good.returns⟩
  · exact ⟨rfl, handover, idle⟩
  · rfl
  · rintro ⟨⟩

theorem trapDone_inv (h : s.Inv) : (s.trapDone c).Faultless State.Inv := by
  simp only [State.trapDone, Outcome.faultless_bind, Outcome.faultless_await]
  intro mode
  obtain ⟨sync, handover, idle⟩ := h.kernel mode
  have good := h.cur_good c
  split
  · rename_i back irq held frames top
    simp only [Outcome.faultless_bind, Outcome.faultless_await, Outcome.faultless_pure]
    intro same
    rw [top] at idle
    have returns := good.returns
    have inInterrupt := good.inInterrupt
    rw [top] at returns inInterrupt
    obtain ⟨flag, returns⟩ := returns
    have core : { (s.core c).setFrames frames with irq := irq } =
        Core.of { (s.core c).thread with frames := frames } := by
      have zero := Core.charges_zero_iff handover
      rw [same, ← flag] at zero
      have irqs : irq = decide ((s.core c).thread.charges = 0) := by
        rw [Bool.eq_iff_iff, decide_eq_true_iff, zero]
      rw [irqs, sync]
      rfl
    rw [core]
    apply h.setCore
    · refine good_of (t := { (s.core c).thread with frames := frames }) ?_ inInterrupt
      obtain ⟨_, _, _, rfl⟩ | ⟨_, returns⟩ := returns
      · trivial
      · exact returns
    · obtain ⟨rfl, level, none, rfl⟩ | ⟨rfl, _⟩ := returns
      · exact ⟨rfl, handover, level, same.trans none, rfl, idle⟩
      · exact ⟨rfl, handover, idle⟩
    · rfl
    · obtain ⟨rfl, _⟩ | ⟨rfl, _⟩ := returns <;> rintro ⟨⟩
  · trivial

theorem mipsUsermode_inv (h : s.Inv) : (s.mipsUsermode c).Faultless State.Inv := by
  simp only [State.mipsUsermode, Outcome.faultless_bind, Outcome.faultless_await]
  rintro ⟨mode, outside, held⟩
  obtain ⟨sync, handover, idle⟩ := h.kernel mode
  have good := h.cur_good c
  rw [splx_of sync]
  simp only [Outcome.faultless_done, Outcome.faultless_pure, core_setCore, setCore_setCore]
  have zero : ({ (s.core c).thread with tCurspl := .none, frames := [] } :
      Thread (Spinlock n W L)).charges = 0 :=
    (Core.charges_zero_iff (t := { (s.core c).thread with tCurspl := .none, frames := [] })
      handover).mpr ⟨held, rfl⟩
  have none : s.sched.cIsidle c = false := by
    rw [idle]
    exact any_interrupt_of_window (good.inInterrupt.symm.trans outside)
  apply h.setCore
  · exact ⟨rfl, trivial, outside⟩
  · exact ⟨Core.synced_of_zero rfl zero zero, handover, rfl, held, rfl, none⟩
  · rfl
  · rintro ⟨⟩

end Steps

end Os161.Interrupts
