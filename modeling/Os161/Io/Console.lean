import Os161.Thread.Interrupts

/-!
# Messages on the console

`kprintf` and `putch`, in any state of the cpus. Both decide with `c_spinlocks` whether they may
sleep. `cpu_create` gives that field no value, and the lines of `spinlock.c` that would count are
commented out, so what it is after the boot is a parameter.
-/

set_option linter.unusedSectionVars false

namespace Os161.Console

open Interrupts (Spinlock)

/-- What a message does to get its bytes out. -/
inductive Call where
  | lockAcquire
  | lockRelease
  /-- Into the buffer for the time before there is a console. -/
  | delayed (ch : UInt8)
  | polled (ch : UInt8)
  /-- `P` on `cs_wsem`, and then the byte is sent. -/
  | intr (ch : UInt8)
  deriving DecidableEq

/-- The calls that may put the thread to sleep. -/
def Call.sleeps : Call → Bool
  | .lockAcquire | .intr _ => true
  | .lockRelease | .delayed _ | .polled _ => false

structure State (n : Nat) (T W O L : Type) where
  cpus : Interrupts.State n T W O L
  cSpinlocks : Fin n → Nat
  /-- `kprintf_bootstrap` has made the lock. -/
  kprintfLock : Bool
  theConsole : Bool
  delayedOutbuf : List UInt8

variable {n : Nat} {T W O L : Type} [DecidableEq T] [DecidableEq W] [DecidableEq O] [DecidableEq L]

namespace State

def thread (s : State n T W O L) (c : Fin n) : Interrupts.Thread (Spinlock n W L) :=
  (s.cpus.core c).thread

def delaybufsize : Nat := 1024

def putch (s : State n T W O L) (c : Fin n) (ch : UInt8) : Outcome (Call × State n T W O L) :=
  if s.theConsole = false then do
    Outcome.kassert (s.delayedOutbuf.length < delaybufsize)
    return (.delayed ch, { s with delayedOutbuf := s.delayedOutbuf ++ [ch] })
  else if (s.thread c).tInInterrupt = true ∨ (s.thread c).tCurspl ≠ .none ∨ 0 < s.cSpinlocks c then
    return (.polled ch, s)
  else return (.intr ch, s)

def consoleSend (s : State n T W O L) (c : Fin n) : List UInt8 → Outcome (List Call × State n T W O L)
  | [] => return ([], s)
  | ch :: data => do
    let (call, s) ← s.putch c ch
    let (calls, s) ← s.consoleSend c data
    return (call :: calls, s)

def dolock (s : State n T W O L) (c : Fin n) : Bool :=
  s.kprintfLock && !(s.thread c).tInInterrupt && (s.thread c).tCurspl = .none && s.cSpinlocks c = 0

/-- `kprintf` of a text. `lock_acquire` may sleep, and comes back in the state and on the cpu of
`back`. -/
def kprintf (s : State n T W O L) (kprintfSpinlock : L) (c : Fin n) (back : State n T W O L × Fin n)
    (text : List UInt8) : Outcome (List Call × State n T W O L) :=
  if s.dolock c then do
    let (calls, s) ← back.1.consoleSend back.2 text
    return (.lockAcquire :: calls ++ [.lockRelease], s)
  else do
    let cpus ← s.cpus.spinlockAcquire c (.other kprintfSpinlock)
    let (calls, s) ← { s with cpus := cpus }.consoleSend c text
    let cpus ← s.cpus.spinlockRelease c (.other kprintfSpinlock)
    return (calls, { s with cpus := cpus })

/-- `attach_console_to_vfs` is behind it; what was delayed goes out. -/
def configCon (s : State n T W O L) (c : Fin n) : Outcome (State n T W O L) := do
  Outcome.kassert (s.theConsole = false)
  let (_, s) ← { s with theConsole := true }.consoleSend c s.delayedOutbuf
  return { s with delayedOutbuf := [] }

def kprintfBootstrap (s : State n T W O L) : Outcome (State n T W O L) := do
  Outcome.kassert (s.kprintfLock = false)
  return { s with kprintfLock := true }

end State

inductive Action (n : Nat) (T W O L : Type) where
  | cpus (a : Interrupts.Action n T W O L)
  | kprintfBootstrap
  | configCon (c : Fin n)
  | putch (c : Fin n) (ch : UInt8)

def State.step (s : State n T W O L) : Action n T W O L → Outcome (State n T W O L)
  | .cpus a => return { s with cpus := ← s.cpus.step a }
  | .kprintfBootstrap => s.kprintfBootstrap
  | .configCon c => s.configCon c
  | .putch c ch => return (← s.putch c ch).2

/-- A message is a run of these steps, with the lock of `kprintf` among the spinlocks. -/
def machine (boot : Fin n → Nat) : Machine (State n T W O L) (Action n T W O L) where
  initial s := Interrupts.machine.initial s.cpus ∧ s.cSpinlocks = boot ∧ s.kprintfLock = false ∧
    s.theConsole = false ∧ s.delayedOutbuf = []
  step := State.step

namespace State

variable {boot : Fin n → Nat} {s t : State n T W O L} {c : Fin n} {kprintfSpinlock : L}

/-- The thread must not sleep now. -/
def Guarded (s : State n T W O L) (c : Fin n) : Prop :=
  (s.thread c).held ≠ ∅ ∨ (s.thread c).tInInterrupt = true ∨ (s.thread c).tCurspl ≠ .none

/-- No message from here may sleep. -/
def Quiet (s : State n T W O L) (kprintfSpinlock : L) (c : Fin n) : Prop :=
  (∀ ch call t, s.putch c ch = .done (call, t) → call.sleeps = false) ∧
    ∀ back text calls t, s.kprintf kprintfSpinlock c back text = .done (calls, t) →
      ∀ call ∈ calls, call.sleeps = false

/-- The number of spinlocks that the cpu holds. -/
def HoldsSpinlocks (s : State n T W O L) (c : Fin n) (count : Nat) : Prop :=
  ∃ held : Finset (Spinlock n W L), (∀ k, k ∈ held ↔ s.cpus.splkHolder k = some c) ∧ held.card = count

/-- Messages do not sleep where they must not, and `c_spinlocks` counts. -/
structure Right (s : State n T W O L) (kprintfSpinlock : L) (c : Fin n) : Prop where
  quiet : s.Guarded c → s.Quiet kprintfSpinlock c
  counted : s.HoldsSpinlocks c (s.cSpinlocks c)

/-- The thread shows in another way that it must not sleep, or nothing that could sleep is there yet;
and the cpu holds as many spinlocks as `c_spinlocks` has said since the boot. -/
structure Lucky (s : State n T W O L) (boot : Fin n → Nat) (c : Fin n) : Prop where
  shown : (s.thread c).held ≠ ∅ → (s.thread c).tInInterrupt = true ∨ (s.thread c).tCurspl ≠ .none ∨
    0 < boot c ∨ s.kprintfLock = false ∧ s.theConsole = false
  held : s.HoldsSpinlocks c (boot c)

/-- `putch` does not sleep. -/
def Polls (s : State n T W O L) (c : Fin n) : Prop :=
  s.theConsole = false ∨ (s.thread c).tInInterrupt = true ∨ (s.thread c).tCurspl ≠ .none ∨
    0 < s.cSpinlocks c

theorem putch_polls (h : s.Polls c) (ch : UInt8) :
    (s.putch c ch).Ensures fun (call, t) => call.sleeps = false ∧ t.Polls c := by
  unfold putch
  split
  · rename_i early
    rw [Outcome.ensures_bind, Outcome.ensures_kassert]
    exact fun _ => Outcome.ensures_pure.mpr ⟨rfl, .inl early⟩
  · rename_i late
    rw [if_pos (h.resolve_left late)]
    exact Outcome.ensures_pure.mpr ⟨rfl, h⟩

theorem consoleSend_polls (data : List UInt8) (h : s.Polls c) :
    (s.consoleSend c data).Ensures fun (calls, _) => ∀ call ∈ calls, call.sleeps = false := by
  induction data generalizing s with
  | nil => exact Outcome.ensures_pure.mpr fun _ member => (List.not_mem_nil member).elim
  | cons ch data ih =>
    rw [consoleSend]
    refine (putch_polls h ch).then fun (call, t) ⟨awake, polls⟩ => ?_
    refine (ih polls).then fun (calls, u) rest => ?_
    refine Outcome.ensures_pure.mpr fun one member => ?_
    obtain rfl | member := List.mem_cons.mp member
    · exact awake
    · exact rest one member

/-- Taking a spinlock shows in neither of the two fields. -/
theorem spinlockAcquire_fields {s t : Interrupts.State n T W O L} {k : Spinlock n W L}
    (h : s.spinlockAcquire c k = .done t) :
    (t.core c).thread.tInInterrupt = (s.core c).thread.tInInterrupt ∧
      (t.core c).thread.tCurspl = (s.core c).thread.tCurspl := by
  simp only [Interrupts.State.spinlockAcquire, Outcome.bind_done, Outcome.kassert_done,
    Outcome.await_done, Outcome.pure_done] at h
  obtain ⟨_, _, _, _, rfl⟩ := h
  have here : (((s.setCore c (s.core c).splraise).setHolder k (some c)).core c).thread =
      (s.core c).splraise.thread := Function.update_self ..
  rw [here]
  exact ⟨rfl, rfl⟩

theorem kprintf_polls (h : s.Polls c) (quick : s.dolock c = false) (back : State n T W O L × Fin n)
    (text : List UInt8) : (s.kprintf kprintfSpinlock c back text).Ensures fun (calls, _) =>
      ∀ call ∈ calls, call.sleeps = false := by
  unfold kprintf
  rw [if_neg (by simp [quick]), Outcome.ensures_bind]
  intro cpus acquired
  obtain ⟨same, level⟩ := spinlockAcquire_fields acquired
  have polls : State.Polls { s with cpus := cpus } c := by
    unfold Polls thread
    rw [same, level]
    exact h
  refine (consoleSend_polls text polls).then fun (calls, t) rest => ?_
  rw [Outcome.ensures_bind]
  exact fun _ _ => Outcome.ensures_pure.mpr rest

/-! ### Along a run -/

theorem putch_boot (ch : UInt8) (h : s.cSpinlocks = boot) :
    (s.putch c ch).Ensures fun (_, t) => t.cSpinlocks = boot := by
  unfold putch
  split
  · rw [Outcome.ensures_bind, Outcome.ensures_kassert]
    exact fun _ => Outcome.ensures_pure.mpr h
  · split
    · exact Outcome.ensures_pure.mpr h
    · exact Outcome.ensures_pure.mpr h

theorem consoleSend_boot (data : List UInt8) (h : s.cSpinlocks = boot) :
    (s.consoleSend c data).Ensures fun (_, t) => t.cSpinlocks = boot := by
  induction data generalizing s with
  | nil => exact Outcome.ensures_pure.mpr h
  | cons ch data ih =>
    rw [consoleSend]
    refine (putch_boot ch h).then fun (_, t) same => ?_
    exact (ih same).then fun _ same => Outcome.ensures_pure.mpr same

theorem step_boot (h : s.cSpinlocks = boot) (a : Action n T W O L) :
    (s.step a).Ensures fun t => t.cSpinlocks = boot := by
  cases a with
  | cpus a =>
    unfold step
    dsimp only
    rw [Outcome.ensures_bind]
    exact fun _ _ => Outcome.ensures_pure.mpr h
  | kprintfBootstrap =>
    unfold step kprintfBootstrap
    dsimp only
    rw [Outcome.ensures_bind, Outcome.ensures_kassert]
    exact fun _ => Outcome.ensures_pure.mpr h
  | configCon c =>
    unfold step configCon
    dsimp only
    rw [Outcome.ensures_bind, Outcome.ensures_kassert]
    intro _
    have attached : State.cSpinlocks { s with theConsole := true } = boot := h
    exact (consoleSend_boot _ attached).then fun _ same => Outcome.ensures_pure.mpr same
  | putch c ch => exact (putch_boot ch h).then fun _ same => Outcome.ensures_pure.mpr same

/-- Nothing ever writes `c_spinlocks`. -/
theorem reachable_boot (h : (machine boot).Reachable s) : s.cSpinlocks = boot :=
  (machine boot).invariant_ensures (fun _ start => start.2.1) (fun _ a same _ => step_boot same a) h

/-- A state from which no message sleeps, though it must not, and the lock of `kprintf` or the console
is there, shows it. -/
theorem shown_of_quiet (h : s.Quiet kprintfSpinlock c) :
    (s.thread c).tInInterrupt = true ∨ (s.thread c).tCurspl ≠ .none ∨ 0 < s.cSpinlocks c ∨
      s.kprintfLock = false ∧ s.theConsole = false := by
  by_contra hidden
  simp only [not_or, not_not, not_and] at hidden
  obtain ⟨outside, level, zero, there⟩ := hidden
  cases console : s.theConsole with
  | true =>
    have sleeps : s.putch c 0 = .done (.intr 0, s) := by
      unfold putch
      rw [if_neg (by simp [console]), if_neg (by simp only [not_or, not_not]; exact ⟨outside, level, zero⟩)]
      rfl
    cases h.1 0 _ _ sleeps
  | false =>
    have lock : s.kprintfLock = true := by
      cases made : s.kprintfLock with
      | true => rfl
      | false => exact (there made console).elim
    have locks : s.dolock c = true := by
      simp only [dolock, lock, level, Bool.eq_false_iff.mpr outside, Nat.eq_zero_of_not_pos zero]
      rfl
    have sleeps : s.kprintf kprintfSpinlock c (s, c) [] = .done ([.lockAcquire, .lockRelease], s) := by
      unfold kprintf
      rw [if_pos locks]
      rfl
    cases h.2 _ _ _ _ sleeps .lockAcquire (by simp)

theorem quiet_of_shown
    (shown : (s.thread c).tInInterrupt = true ∨ (s.thread c).tCurspl ≠ .none ∨ 0 < s.cSpinlocks c ∨
      s.kprintfLock = false ∧ s.theConsole = false) : s.Quiet kprintfSpinlock c := by
  have polls : s.Polls c := by
    rcases shown with inside | raised | counted | ⟨_, early⟩
    · exact .inr (.inl inside)
    · exact .inr (.inr (.inl raised))
    · exact .inr (.inr (.inr counted))
    · exact .inl early
  have quick : s.dolock c = false := by
    rcases shown with inside | raised | counted | ⟨early, _⟩
    · simp [dolock, inside]
    · simp [dolock, raised]
    · simp [dolock, Nat.ne_of_gt counted]
    · simp [dolock, early]
  constructor
  · exact fun ch call t goes => (putch_polls polls ch _ goes).1
  · exact fun back text calls t goes => kprintf_polls polls quick back text _ goes

/-- What makes the messages and the count right in a reachable state. -/
theorem messages_right_iff (reached : (machine boot).Reachable s) (kprintfSpinlock : L) (c : Fin n) :
    s.Right kprintfSpinlock c ↔ s.Lucky boot c := by
  have same := reachable_boot reached
  constructor
  · intro right
    constructor
    · intro holds
      have shown := shown_of_quiet (right.quiet (.inl holds))
      rwa [same] at shown
    · exact same ▸ right.counted
  · intro lucky
    constructor
    · intro guarded
      apply quiet_of_shown
      rcases guarded with holds | inside | raised
      · rw [same]
        exact lucky.shown holds
      · exact .inl inside
      · exact .inr (.inl raised)
    · exact same ▸ lucky.held

/-- Two cpus after the boot, in memory that was zero. -/
def booted : State 2 Nat Unit Unit Bool where
  cpus := ⟨Scheduler.booted, fun _ => Interrupts.bootThread, fun _ => none, fun _ => false,
    fun _ => .kernel⟩
  cSpinlocks _ := 0
  kprintfLock := false
  theConsole := false
  delayedOutbuf := []

theorem booted_initial : (machine fun _ => 0).initial booted :=
  ⟨⟨Scheduler.booted_initial, fun _ => rfl, fun _ => rfl, fun _ => rfl, fun _ => rfl⟩, rfl, rfl, rfl, rfl⟩

/-- With its console up and no spinlock held a cpu has it right. -/
theorem messages_right_booted : ∃ s : State 2 Nat Unit Unit Bool, (machine fun _ => 0).Reachable s ∧
    s.kprintfLock = true ∧ s.theConsole = true ∧ s.Right false 0 := by
  have start : (machine fun _ => 0).Reachable booted := .initial booted_initial
  have locked := start.step .kprintfBootstrap trivial rfl
  have attached := locked.step (.configCon 0) trivial rfl
  refine ⟨_, attached, rfl, rfl, (messages_right_iff attached false 0).mpr ?_⟩
  constructor
  · exact fun holds => (holds rfl).elim
  · exact ⟨∅, fun k => ⟨fun member => (Finset.notMem_empty k member).elim, nofun⟩, rfl⟩

/-- Under a spinlock at level 0, like the message of `allocpagerefpage`, a message takes the lock of
`kprintf`, and a byte waits for the semaphore of the console. -/
theorem message_sleeps : ∃ s : State 2 Nat Unit Unit Bool, (machine fun _ => 0).Reachable s ∧
    s.cpus.splkHolder (.other true) = some 0 ∧ .other true ∈ (s.thread 0).held ∧ s.cSpinlocks 0 = 0 ∧
    (∃ calls t, s.kprintf false 0 (s, 0) [0x6b] = .done (calls, t) ∧ .lockAcquire ∈ calls) ∧
    ∃ t, s.putch 0 0x6b = .done (.intr 0x6b, t) := by
  have passes : ((machine fun _ => 0).run booted [.kprintfBootstrap, .configCon 0,
      .cpus (.splSave 0 .none), .cpus (.acquire 0 (.other true))]).passes (fun s =>
        decide (s.cpus.splkHolder (.other true) = some 0 ∧ .other true ∈ (s.thread 0).held ∧
          s.cSpinlocks 0 = 0) &&
        (s.kprintf false 0 (s, 0) [0x6b]).passes (fun out => decide (.lockAcquire ∈ out.1)) &&
        (s.putch 0 0x6b).passes fun out => out.1 = .intr 0x6b) = true := by
    decide +kernel
  obtain ⟨s, run, done⟩ := Outcome.passes_done passes
  simp only [Bool.and_eq_true, decide_eq_true_eq] at done
  obtain ⟨⟨⟨holder, held, zero⟩, locks⟩, waits⟩ := done
  obtain ⟨⟨calls, t⟩, prints, taken⟩ := Outcome.passes_done locks
  obtain ⟨⟨call, u⟩, puts, same⟩ := Outcome.passes_done waits
  obtain rfl : call = .intr 0x6b := of_decide_eq_true same
  exact ⟨s, .run _ (.initial booted_initial) run, holder, held, zero,
    ⟨calls, t, prints, of_decide_eq_true taken⟩, u, puts⟩

end State

end Os161.Console
