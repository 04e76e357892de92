import Os161.Base.Sync
import Os161.Io.Lhd

/-!
# Threads that share a disk

`lhd_io` by any number of threads, with `lhd_irq` and the card itself. The semaphores are correct ones, and
the card carries every command out once.
-/

namespace Os161.LhdThreads

/-- What a thread works on: what `lhd_io` reads of its `uio`, and the rest of it with the memory behind it. -/
structure Job (U : Type) where
  uioOffset : Int
  uioResid : UInt32
  uioRw : UioRw
  uio : U

/-- `uiomove` of a sector into the card's buffer, and out of it. -/
structure Mover (U : Type) where
  write : Bytes → U → Option Errno × Bytes × U
  read : Bytes → U → Option Errno × U

/-- Where a thread is in `lhd_io`; `i` counts the sectors. -/
inductive Pc where
  | out
  | head (i : Nat)
  -- past P(lh_clear)
  | move (i : Nat)
  | failed (err : Errno)
  | sect (i : Nat)
  | stat (i : Nat)
  | wait (i : Nat)
  -- past P(lh_done)
  | result (i : Nat)
  | fetch (i : Nat) (result : Option Errno)
  | clear (i : Nat) (result : Option Errno)
  deriving DecidableEq

/-- A command to the card, with its number. -/
structure Command where
  id : Nat
  sect : UInt32
  statval : UInt32
  deriving DecidableEq

/-- How the card has carried out a command: the status, and its buffer before and after. -/
structure Completion where
  command : Command
  val : UInt32
  before : Bytes
  after : Bytes

/-- A thread. The last three fields are there for the proofs: what it has moved into the buffer, the command
it has given, and the number of the one whose completion it has taken. -/
structure Caller (U : Type) where
  pc : Pc
  sector : UInt32
  len : UInt32
  uioRw : UioRw
  uio : U
  result : Option Errno
  moved : Bytes
  command : Command
  consumed : Nat

/-- Where `lhd_irq` is, with the result it reports and the number of the command. -/
inductive Handler where
  | idle
  | clear (err : Option Errno) (id : Nat)
  | result (err : Option Errno) (id : Nat)
  | post (id : Nat)
  deriving DecidableEq

/-- `struct lhd_softc` with the card: `sect` and `stat` are its registers. The rest is there for the proofs: the
commands that are not carried out yet, the number of the one in the status register, those that `lh_done` has
been raised for, how many there have been, and how they were carried out. -/
structure Softc where
  lhClear : Nat
  lhDone : Nat
  lhResult : Option Errno
  lh : Lhd
  sect : UInt32
  stat : UInt32
  handler : Handler
  outstanding : List Command
  finished : Option Nat
  posted : List Nat
  issued : Nat
  completions : Nat → Option Completion

structure State (T U : Type) where
  card : Softc
  threads : T → Caller U

inductive Action (T U : Type) where
  | call (t : T) (job : Job U)
  | thread (t : T)
  | complete (attempt : Attempt)
  | irq

variable {T U : Type} [DecidableEq T]

/-- The value for the status register. -/
def Caller.statval (c : Caller U) : UInt32 :=
  if c.uioRw = .write then lhdWorking ||| lhdIswrite else lhdWorking

def Caller.goto (c : Caller U) (pc : Pc) : Caller U := { c with pc := pc }

def Caller.leave (c : Caller U) (result : Option Errno) : Caller U :=
  { c with pc := .out, result := result }

/-- The beginning of `lhd_io`, up to its loop. -/
def Caller.call (c : Caller U) (dBlocks : UInt32) (job : Job U) : Caller U :=
  let sector := UInt32.ofInt (job.uioOffset.tdiv 512)
  let sectoff := UInt32.ofInt (job.uioOffset.tmod 512)
  let len := job.uioResid / 512
  let lenoff := job.uioResid % 512
  let c := { c with sector := sector, len := len, uioRw := job.uioRw, uio := job.uio }
  if sectoff ≠ 0 ∨ lenoff ≠ 0 then c.leave (some .einval)
  else if dBlocks < sector + len then c.leave (some .einval)
  else c.goto (.head 0)

/-- The next step of a thread in `lhd_io`. -/
def advance (mover : Mover U) (card : Softc) (c : Caller U) : Outcome (Softc × Caller U) :=
  match c.pc with
  | .out => .blocked
  | .head i =>
    if i < c.len.toNat then do
      let lhClear ← AtomicSem.acquire card.lhClear
      return ({ card with lhClear := lhClear }, c.goto (.move i))
    else return (card, c.leave none)
  | .move i =>
    if c.uioRw = .write then
      let (result, buf, uio) := mover.write card.lh.lhBuf c.uio
      let card := { card with lh := card.lh.withBuf buf }
      let c := { c with uio := uio, moved := buf }
      match result with
      | some err => return (card, c.goto (.failed err))
      | none => return (card, c.goto (.sect i))
    else return (card, c.goto (.sect i))
  | .failed err => return ({ card with lhClear := AtomicSem.release card.lhClear }, c.leave (some err))
  | .sect i => return ({ card with sect := c.sector + UInt32.ofNat i }, c.goto (.stat i))
  | .stat i =>
    let command : Command := ⟨card.issued, card.sect, c.statval⟩
    return ({ card with
      stat := c.statval
      outstanding := card.outstanding ++ [command]
      issued := card.issued + 1 }, { c with pc := .wait i, command := command })
  | .wait i => do
    let lhDone ← AtomicSem.acquire card.lhDone
    return ({ card with lhDone := lhDone, posted := card.posted.tail },
      { c with pc := .result i, consumed := card.posted.headD 0 })
  | .result i => return (card, c.goto (.fetch i card.lhResult))
  | .fetch i result =>
    if result = none ∧ c.uioRw = .read then
      let (result, uio) := mover.read card.lh.lhBuf c.uio
      return (card, { c with pc := .clear i result, uio := uio })
    else return (card, c.goto (.clear i result))
  | .clear i result =>
    let card := { card with lhClear := AtomicSem.release card.lhClear }
    match result with
    | some err => return (card, c.leave (some err))
    | none => return (card, c.goto (.head (i + 1)))

/-- The card carries out a command and puts the status where `lhd_irq` finds it. -/
def Softc.complete (card : Softc) (attempt : Attempt) : Outcome Softc :=
  match card.outstanding with
  | [] => .blocked
  | command :: rest =>
    let (val, lh) := card.lh.operate (fun _ => attempt) command.sect command.statval
    .done { card with
      lh := lh
      stat := val
      outstanding := rest
      finished := some command.id
      completions := Function.update card.completions command.id
        (some ⟨command, val, card.lh.lhBuf, lh.lhBuf⟩) }

/-- The next step of `lhd_irq`. It can begin at any time. -/
def Softc.irq (card : Softc) : Softc :=
  match card.handler with
  | .idle =>
    match lhdIrq card.stat with
    | none => card
    | some err => { card with handler := .clear err (card.finished.getD 0) }
  | .clear err id => { card with stat := lhdIdle, finished := none, handler := .result err id }
  | .result err id => { card with lhResult := err, handler := .post id }
  | .post id => { card with
      lhDone := AtomicSem.release card.lhDone
      posted := card.posted ++ [id]
      handler := .idle }

def State.setCaller (s : State T U) (t : T) (c : Caller U) : State T U :=
  { s with threads := Function.update s.threads t c }

/-- What `config_lhd` leaves: one for `lh_clear`, none for `lh_done`, and an idle card. -/
def Softc.Initial (card : Softc) : Prop :=
  card.lhClear = 1 ∧ card.lhDone = 0 ∧ card.stat = lhdIdle ∧ card.handler = .idle ∧
    card.outstanding = [] ∧ card.finished = none ∧ card.posted = []

def machine (mover : Mover U) : Machine (State T U) (Action T U) where
  initial s := s.card.Initial ∧ ∀ t, (s.threads t).pc = .out
  step s
    | .call t job =>
      if (s.threads t).pc = .out then
        .done (s.setCaller t ((s.threads t).call s.card.lh.dBlocks job))
      else .blocked
    | .thread t => do
      let (card, c) ← advance mover s.card (s.threads t)
      return { s.setCaller t c with card := card }
    | .complete attempt => do
      let card ← s.card.complete attempt
      return { s with card := card }
    | .irq => return { s with card := s.card.irq }

/-! ### Who has the card -/

/-- Between the `P` and the `V` of `lh_clear`. -/
def Pc.Inside : Pc → Prop
  | .out => False
  | .head _ => False
  | _ => True

/-- The thread takes its next step with the buffer of the card. -/
def Caller.Touches (c : Caller U) : Prop :=
  match c.pc with
  | .move _ => c.uioRw = .write
  | .fetch _ result => result = none ∧ c.uioRw = .read
  | _ => False

/-- Nothing is under way. -/
def Softc.Quiet (card : Softc) : Prop :=
  card.outstanding = [] ∧ card.finished = none ∧ card.posted = [] ∧ card.handler = .idle ∧
    lhdIrq card.stat = none

/-- How a thread's own command has been carried out, with the buffer still as the card has left it. -/
def Own (card : Softc) (c : Caller U) (done : Completion) : Prop :=
  card.completions c.command.id = some done ∧ done.command = c.command ∧
    (c.uioRw = .write → done.before = c.moved) ∧ card.lh.lhBuf = done.after

/-- The command of the `i`-th sector. -/
def Caller.Asks (c : Caller U) (i : Nat) : Prop :=
  c.command.sect = c.sector + UInt32.ofNat i ∧ c.command.statval = c.statval

/-- From the write to the status register to the `P` of `lh_done`, the stations of the thread's own command. -/
inductive Waiting (card : Softc) (c : Caller U) : Prop where
  | working : card.outstanding = [c.command] → card.finished = none → card.posted = [] →
      card.handler = .idle → lhdIrq card.stat = none →
      (c.uioRw = .write → card.lh.lhBuf = c.moved) → Waiting card c
  | finished {done : Completion} : card.outstanding = [] → card.finished = some c.command.id →
      card.posted = [] → card.handler = .idle → card.stat = done.val → Own card c done → Waiting card c
  | clearing {done : Completion} : card.outstanding = [] → card.posted = [] →
      card.handler = .clear (lhdCodeToErrno done.val) c.command.id → Own card c done → Waiting card c
  | recording {done : Completion} : card.outstanding = [] → card.finished = none → card.posted = [] →
      card.handler = .result (lhdCodeToErrno done.val) c.command.id → lhdIrq card.stat = none →
      Own card c done → Waiting card c
  | posting {done : Completion} : card.outstanding = [] → card.finished = none → card.posted = [] →
      card.handler = .post c.command.id → lhdIrq card.stat = none →
      card.lhResult = lhdCodeToErrno done.val → Own card c done → Waiting card c
  | posted {done : Completion} : card.outstanding = [] → card.finished = none →
      card.posted = [c.command.id] → card.handler = .idle → lhdIrq card.stat = none →
      card.lhResult = lhdCodeToErrno done.val → Own card c done → Waiting card c

/-- What the thread that has the card knows of it. -/
def Held (card : Softc) (c : Caller U) : Prop :=
  match c.pc with
  | .out => False
  | .head _ => False
  | .move _ => card.Quiet
  | .failed _ => card.Quiet
  | .sect _ => card.Quiet ∧ (c.uioRw = .write → card.lh.lhBuf = c.moved)
  | .stat i => card.Quiet ∧ (c.uioRw = .write → card.lh.lhBuf = c.moved) ∧
      card.sect = c.sector + UInt32.ofNat i
  | .wait i => c.Asks i ∧ Waiting card c
  | .result i => card.Quiet ∧ c.consumed = c.command.id ∧ c.Asks i ∧
      ∃ done, Own card c done ∧ card.lhResult = lhdCodeToErrno done.val
  | .fetch i result => card.Quiet ∧ c.consumed = c.command.id ∧ c.Asks i ∧
      ∃ done, Own card c done ∧ result = lhdCodeToErrno done.val
  | .clear _ _ => card.Quiet

section Steps

variable {mover : Mover U} {card : Softc} {c : Caller U}

theorem lhdIrq_statval : lhdIrq c.statval = none := by
  unfold Caller.statval
  split <;> decide

theorem Softc.Quiet.irq (quiet : card.Quiet) : card.irq = card := by
  obtain ⟨-, -, -, handler, stat⟩ := quiet
  unfold Softc.irq
  rw [handler, stat]

theorem Softc.Quiet.complete (quiet : card.Quiet) (attempt : Attempt) :
    card.complete attempt = .blocked := by
  unfold Softc.complete
  rw [quiet.1]

theorem Held.inside (held : Held card c) : c.pc.Inside := by
  unfold Held at held
  unfold Pc.Inside
  split at held <;> simp_all

/-- A thread outside can only take the card. -/
theorem advance_outside (outside : ¬ c.pc.Inside) :
    (advance mover card c).Ensures fun out =>
      out.1 = card ∧ ¬ out.2.pc.Inside ∨
        ∃ m i, card.lhClear = m + 1 ∧ out = ({ card with lhClear := m }, c.goto (.move i)) := by
  unfold advance
  cases pc : c.pc with
  | out => exact Outcome.ensures_blocked
  | head i =>
    dsimp only
    split
    · have first : (AtomicSem.acquire card.lhClear).Ensures fun m => card.lhClear = m + 1 :=
        AtomicSem.acquire_ensures.mpr fun m more => more
      exact first.then fun m more => Outcome.ensures_done.mpr (.inr ⟨m, i, more, rfl⟩)
    · exact Outcome.ensures_done.mpr (.inl ⟨rfl, id⟩)
  | _ => exact (outside (by rw [pc]; trivial)).elim

/-- The thread that has the card keeps it in order and gives it back quiet. -/
theorem advance_held (count : card.lhDone = card.posted.length) (taken : card.lhClear = 0)
    (held : Held card c) :
    (advance mover card c).Ensures fun out => out.1.lhDone = out.1.posted.length ∧
      (out.1.lhClear = 0 ∧ Held out.1 out.2 ∨
        out.1.lhClear = 1 ∧ ¬ out.2.pc.Inside ∧ out.1.Quiet) := by
  unfold advance
  unfold Held at held
  cases pc : c.pc with
  | out =>
    rw [pc] at held
    exact held.elim
  | head i =>
    rw [pc] at held
    exact held.elim
  | move i =>
    rw [pc] at held
    dsimp only
    split
    · cases (mover.write card.lh.lhBuf c.uio).1 with
      | none => exact Outcome.ensures_done.mpr ⟨count, .inl ⟨taken, held, fun _ => rfl⟩⟩
      | some err => exact Outcome.ensures_done.mpr ⟨count, .inl ⟨taken, held⟩⟩
    · rename_i read
      exact Outcome.ensures_done.mpr ⟨count, .inl ⟨taken, held, fun write => (read write).elim⟩⟩
  | failed err =>
    rw [pc] at held
    exact Outcome.ensures_done.mpr ⟨count, .inr ⟨congrArg (· + 1) taken, id, held⟩⟩
  | sect i =>
    rw [pc] at held
    exact Outcome.ensures_done.mpr ⟨count, .inl ⟨taken, held.1, held.2, rfl⟩⟩
  | stat i =>
    rw [pc] at held
    obtain ⟨⟨outstanding, finished, posted, handler, -⟩, moved, sect⟩ := held
    refine Outcome.ensures_done.mpr ⟨count, .inl ⟨taken, ⟨sect, rfl⟩, .working ?_ finished posted handler
      lhdIrq_statval moved⟩⟩
    dsimp only
    rw [outstanding]
    rfl
  | wait i =>
    rw [pc] at held
    obtain ⟨asks, waiting⟩ := held
    have first : (AtomicSem.acquire card.lhDone).Ensures fun m => card.lhDone = m + 1 :=
      AtomicSem.acquire_ensures.mpr fun m more => more
    refine first.then fun m more => ?_
    rw [more] at count
    cases waiting with
    | posted outstanding finished posted handler stat result own =>
      rw [posted] at count ⊢
      exact Outcome.ensures_done.mpr ⟨Nat.succ.inj count, .inl ⟨taken,
        ⟨outstanding, finished, rfl, handler, stat⟩, rfl, asks, _, own, result⟩⟩
    | working _ _ posted => simp [posted] at count
    | finished _ _ posted => simp [posted] at count
    | clearing _ posted => simp [posted] at count
    | recording _ _ posted => simp [posted] at count
    | posting _ _ posted => simp [posted] at count
  | result i =>
    rw [pc] at held
    exact Outcome.ensures_done.mpr ⟨count, .inl ⟨taken, held⟩⟩
  | fetch i result =>
    rw [pc] at held
    dsimp only
    split <;> exact Outcome.ensures_done.mpr ⟨count, .inl ⟨taken, held.1⟩⟩
  | clear i result =>
    rw [pc] at held
    cases result with
    | none => exact Outcome.ensures_done.mpr ⟨count, .inr ⟨congrArg (· + 1) taken, id, held⟩⟩
    | some err => exact Outcome.ensures_done.mpr ⟨count, .inr ⟨congrArg (· + 1) taken, id, held⟩⟩

/-- Something is under way only while the thread waits for it. -/
theorem Held.quiet_or_waiting (held : Held card c) :
    card.Quiet ∨ ∃ i, c.pc = .wait i ∧ c.Asks i ∧ Waiting card c := by
  unfold Held at held
  split at held
  · exact held.elim
  · exact held.elim
  · exact .inl held
  · exact .inl held
  · exact .inl held.1
  · exact .inl held.1
  · rename_i i pc
    exact .inr ⟨i, pc, held⟩
  · exact .inl held.1
  · exact .inl held.1
  · exact .inl held

theorem held_waiting {i : Nat} (pc : c.pc = .wait i) (asks : c.Asks i) (waiting : Waiting card c) :
    Held card c := by
  unfold Held
  rw [pc]
  exact ⟨asks, waiting⟩

theorem Waiting.outstanding (waiting : Waiting card c) :
    card.outstanding = [] ∨
      card.outstanding = [c.command] ∧ (c.uioRw = .write → card.lh.lhBuf = c.moved) := by
  cases waiting with
  | working outstanding _ _ _ _ moved => exact .inr ⟨outstanding, moved⟩
  | finished outstanding => exact .inl outstanding
  | clearing outstanding => exact .inl outstanding
  | recording outstanding => exact .inl outstanding
  | posting outstanding => exact .inl outstanding
  | posted outstanding => exact .inl outstanding

theorem Waiting.irq (count : card.lhDone = card.posted.length) (waiting : Waiting card c) :
    card.irq.lhDone = card.irq.posted.length ∧ card.irq.lhClear = card.lhClear ∧
      Waiting card.irq c := by
  unfold Softc.irq
  cases waiting with
  | working outstanding finished posted handler stat moved =>
    rw [handler, stat]
    exact ⟨count, rfl, .working outstanding finished posted handler stat moved⟩
  | finished outstanding finished posted handler stat own =>
    rw [handler]
    cases irq : lhdIrq card.stat with
    | none => exact ⟨count, rfl, .finished outstanding finished posted handler stat own⟩
    | some err =>
      refine ⟨count, rfl, .clearing outstanding posted ?_ own⟩
      dsimp only
      rw [finished, Option.getD_some, ← stat]
      unfold lhdIrq at irq
      split at irq
      · rw [← Option.some.inj irq]
      · cases irq
  | clearing outstanding posted handler own =>
    rw [handler]
    have idle : lhdIrq lhdIdle = none := by decide
    exact ⟨count, rfl, .recording outstanding rfl posted rfl idle own⟩
  | recording outstanding finished posted handler stat own =>
    rw [handler]
    exact ⟨count, rfl, .posting outstanding finished posted rfl stat rfl own⟩
  | posting outstanding finished posted handler stat result own =>
    rw [handler]
    refine ⟨?_, rfl, .posted outstanding finished ?_ rfl stat result own⟩
    · dsimp only
      rw [List.length_append, ← count]
      rfl
    · dsimp only
      rw [posted]
      rfl
  | posted outstanding finished posted handler stat result own =>
    rw [handler, stat]
    exact ⟨count, rfl, .posted outstanding finished posted handler stat result own⟩

theorem Held.irq (count : card.lhDone = card.posted.length) (held : Held card c) :
    card.irq.lhDone = card.irq.posted.length ∧ card.irq.lhClear = card.lhClear ∧ Held card.irq c := by
  rcases held.quiet_or_waiting with quiet | ⟨i, pc, asks, waiting⟩
  · rw [quiet.irq]
    exact ⟨count, rfl, held⟩
  · obtain ⟨count', clear, waiting'⟩ := waiting.irq count
    exact ⟨count', clear, held_waiting pc asks waiting'⟩

/-- The buffer before and after a command: a write leaves it alone. -/
theorem Held.complete {attempt : Attempt} (held : Held card c) :
    (card.complete attempt).Ensures fun next => next.lhDone = card.lhDone ∧ next.posted = card.posted ∧
      next.lhClear = card.lhClear ∧ Held next c := by
  rcases held.quiet_or_waiting with quiet | ⟨i, pc, asks, waiting⟩
  · rw [quiet.complete]
    exact Outcome.ensures_blocked
  · unfold Softc.complete
    cases waiting with
    | working outstanding finished posted handler stat moved =>
      rw [outstanding]
      refine Outcome.ensures_done.mpr ⟨rfl, rfl, rfl, held_waiting pc asks (.finished rfl rfl posted handler
        rfl ⟨Function.update_self .., rfl, moved, rfl⟩)⟩
    | finished outstanding =>
      rw [outstanding]
      exact Outcome.ensures_blocked
    | clearing outstanding =>
      rw [outstanding]
      exact Outcome.ensures_blocked
    | recording outstanding =>
      rw [outstanding]
      exact Outcome.ensures_blocked
    | posting outstanding =>
      rw [outstanding]
      exact Outcome.ensures_blocked
    | posted outstanding =>
      rw [outstanding]
      exact Outcome.ensures_blocked

end Steps

section Runs

variable {mover : Mover U} {s : State T U} {t : T} {c : Caller U}

/-- Nobody has the card, or one thread has it. -/
def Inv (s : State T U) : Prop :=
  s.card.lhDone = s.card.posted.length ∧
    (s.card.lhClear = 1 ∧ (∀ t, ¬ (s.threads t).pc.Inside) ∧ s.card.Quiet ∨
      ∃ t, s.card.lhClear = 0 ∧ (∀ u, (s.threads u).pc.Inside → u = t) ∧ Held s.card (s.threads t))

@[simp] theorem setCaller_self : (s.setCaller t c).threads t = c := Function.update_self ..

theorem setCaller_other {u : T} (other : u ≠ t) : (s.setCaller t c).threads u = s.threads u :=
  Function.update_of_ne other ..

/-- A step outside changes nothing. -/
theorem Inv.outside (inv : Inv s) (before : ¬ (s.threads t).pc.Inside) (behind : ¬ c.pc.Inside) :
    Inv (s.setCaller t c) := by
  obtain ⟨count, ⟨free, nobody, quiet⟩ | ⟨u, taken, only, held⟩⟩ := inv
  · refine ⟨count, .inl ⟨free, fun v => ?_, quiet⟩⟩
    by_cases here : v = t
    · rw [here, setCaller_self]
      exact behind
    · rw [setCaller_other here]
      exact nobody v
  · have other : u ≠ t := by
      rintro rfl
      exact before held.inside
    refine ⟨count, .inr ⟨u, taken, fun v inside => ?_, ?_⟩⟩
    · by_cases here : v = t
      · rw [here, setCaller_self] at inside
        exact (behind inside).elim
      · rw [setCaller_other here] at inside
        exact only v inside
    · rw [setCaller_other other]
      exact held

theorem call_outside (dBlocks : UInt32) (job : Job U) : ¬ (c.call dBlocks job).pc.Inside := by
  unfold Caller.call
  dsimp only
  split
  · exact id
  · split <;> exact id

theorem step_inv (inv : Inv s) (a : Action T U) : ((machine mover).step s a).Ensures Inv := by
  cases a with
  | call t job =>
    dsimp only [machine]
    split
    · rename_i out
      have before : ¬ (s.threads t).pc.Inside := by
        rw [out]
        exact id
      exact Outcome.ensures_done.mpr (inv.outside before (call_outside _ _))
    · exact Outcome.ensures_blocked
  | thread t =>
    by_cases inside : (s.threads t).pc.Inside
    · obtain ⟨count, ⟨-, nobody, -⟩ | ⟨u, taken, only, held⟩⟩ := inv
      · exact (nobody t inside).elim
      · obtain rfl := only t inside
        refine (advance_held count taken held).then fun out after => Outcome.ensures_done.mpr ?_
        have alone : ∀ v, v ≠ t → ¬ (s.threads v).pc.Inside := fun v other inside' => other (only v inside')
        obtain ⟨count', ⟨taken', held'⟩ | ⟨free, outside, quiet⟩⟩ := after
        · refine ⟨count', .inr ⟨t, taken', fun v inside' => ?_, ?_⟩⟩
          · by_contra other
            dsimp only at inside'
            rw [setCaller_other other] at inside'
            exact alone v other inside'
          · dsimp only
            rw [setCaller_self]
            exact held'
        · refine ⟨count', .inl ⟨free, fun v => ?_, quiet⟩⟩
          dsimp only
          by_cases here : v = t
          · rw [here, setCaller_self]
            exact outside
          · rw [setCaller_other here]
            exact alone v here
    · refine (advance_outside inside).then fun out after => Outcome.ensures_done.mpr ?_
      rcases after with ⟨same, outside⟩ | ⟨m, i, more, rfl⟩
      · rw [same]
        exact inv.outside inside outside
      · obtain ⟨count, ⟨free, nobody, quiet⟩ | ⟨u, taken, -⟩⟩ := inv
        · refine ⟨count, .inr ⟨t, by dsimp only; omega, fun v inside' => ?_, ?_⟩⟩
          · by_contra other
            dsimp only at inside'
            rw [setCaller_other other] at inside'
            exact nobody v inside'
          · dsimp only
            rw [setCaller_self]
            exact quiet
        · omega
  | complete attempt =>
    obtain ⟨count, ⟨free, nobody, quiet⟩ | ⟨t, taken, only, held⟩⟩ := inv
    · change ((s.card.complete attempt) >>= _).Ensures Inv
      rw [quiet.complete]
      exact Outcome.ensures_blocked
    · refine held.complete.then fun next after => Outcome.ensures_done.mpr ?_
      obtain ⟨done, posted, clear, held'⟩ := after
      refine ⟨?_, .inr ⟨t, clear.trans taken, only, held'⟩⟩
      dsimp only
      rw [done, posted]
      exact count
  | irq =>
    refine Outcome.ensures_done.mpr ?_
    obtain ⟨count, ⟨free, nobody, quiet⟩ | ⟨t, taken, only, held⟩⟩ := inv
    · rw [quiet.irq]
      exact ⟨count, .inl ⟨free, nobody, quiet⟩⟩
    · obtain ⟨count', clear, held'⟩ := held.irq count
      exact ⟨count', .inr ⟨t, clear.trans taken, only, held'⟩⟩

theorem reachable_inv (reached : (machine mover).Reachable s) : Inv s := by
  apply (machine mover).invariant_ensures (P := Inv) ?_ (fun s a inv _ => step_inv inv a) reached
  rintro s ⟨⟨clear, done, stat, handler, outstanding, finished, posted⟩, out⟩
  refine ⟨?_, .inl ⟨clear, fun t inside => ?_, outstanding, finished, posted, handler, ?_⟩⟩
  · rw [done, posted]
    rfl
  · rw [out t] at inside
    exact inside
  · rw [stat]
    decide

theorem touches_inside (touches : c.Touches) : c.pc.Inside := by
  unfold Caller.Touches at touches
  unfold Pc.Inside
  split at touches <;> simp_all

/-- A step that does not touch the buffer leaves it, and the disk, as they are. -/
theorem advance_untouched {card : Softc} (other : ¬ c.Touches) :
    (advance mover card c).Ensures fun out => out.1.lh = card.lh := by
  unfold advance
  unfold Caller.Touches at other
  cases pc : c.pc with
  | out => exact Outcome.ensures_blocked
  | head i =>
    dsimp only
    split
    · have first : (AtomicSem.acquire card.lhClear).Ensures fun _ => True := fun _ _ => trivial
      exact first.then fun m _ => Outcome.ensures_done.mpr rfl
    · exact Outcome.ensures_done.mpr rfl
  | move i =>
    rw [pc] at other
    dsimp only
    rw [if_neg other]
    exact Outcome.ensures_done.mpr rfl
  | wait i =>
    have first : (AtomicSem.acquire card.lhDone).Ensures fun _ => True := fun _ _ => trivial
    exact first.then fun m _ => Outcome.ensures_done.mpr rfl
  | fetch i result =>
    rw [pc] at other
    dsimp only
    rw [if_neg other]
    exact Outcome.ensures_done.mpr rfl
  | clear i result => cases result <;> exact Outcome.ensures_done.mpr rfl
  | _ => exact Outcome.ensures_done.mpr rfl

/-- What threads that share the disk count on. -/
structure Safe (mover : Mover U) (s : State T U) : Prop where
  /-- The card has one thing to do at most. -/
  one : s.card.outstanding.length ≤ 1
  /-- While a thread has the card, no other one is about to touch the buffer, and their steps leave it alone. -/
  buffer : ∀ t u, (s.threads t).pc.Inside → u ≠ t → ¬ (s.threads u).Touches ∧
    ∀ s', (machine mover).step s (.thread u) = .done s' → s'.card.lh.lhBuf = s.card.lh.lhBuf
  /-- What a thread has moved into the buffer is there until the card is done. -/
  kept : ∀ t i, (s.threads t).uioRw = .write →
    (s.threads t).pc = .sect i ∨ (s.threads t).pc = .stat i ∨
      (s.threads t).pc = .wait i ∧ s.card.outstanding ≠ [] →
    s.card.lh.lhBuf = (s.threads t).moved
  /-- The completion that a thread has taken is that of its own command, for its sector. -/
  own : ∀ t i, (s.threads t).pc = .result i → (s.threads t).consumed = (s.threads t).command.id ∧
    (s.threads t).Asks i ∧
    ∃ done, Own s.card (s.threads t) done ∧ s.card.lhResult = lhdCodeToErrno done.val
  /-- It has read its own result, and what the card has read for it is still in the buffer. -/
  sees : ∀ t i result, (s.threads t).pc = .fetch i result →
    (s.threads t).consumed = (s.threads t).command.id ∧ (s.threads t).Asks i ∧
    ∃ done, Own s.card (s.threads t) done ∧ result = lhdCodeToErrno done.val
  /-- `lh_clear` is there when nobody has the card. -/
  clear : s.card.lhClear = 1 ↔ ∀ t, ¬ (s.threads t).pc.Inside
  /-- It is there after every exit. -/
  exits : ∀ t s', (s.threads t).pc.Inside → (machine mover).step s (.thread t) = .done s' →
    ¬ (s'.threads t).pc.Inside → s'.card.lhClear = 1

omit [DecidableEq T] in
theorem Inv.clear (inv : Inv s) : s.card.lhClear = 1 ↔ ∀ t, ¬ (s.threads t).pc.Inside := by
  obtain ⟨-, ⟨free, nobody, -⟩ | ⟨u, taken, only, held⟩⟩ := inv
  · exact ⟨fun _ => nobody, fun _ => free⟩
  · constructor
    · intro free
      omega
    · exact fun nobody => (nobody u held.inside).elim

omit [DecidableEq T] in
theorem Inv.alone (inv : Inv s) {u : T} (here : (s.threads t).pc.Inside)
    (there : (s.threads u).pc.Inside) : u = t := by
  obtain ⟨-, ⟨-, nobody, -⟩ | ⟨v, -, only, -⟩⟩ := inv
  · exact (nobody t here).elim
  · exact (only u there).trans (only t here).symm

omit [DecidableEq T] in
theorem Inv.held (inv : Inv s) (here : (s.threads t).pc.Inside) : Held s.card (s.threads t) := by
  obtain ⟨-, ⟨-, nobody, -⟩ | ⟨v, -, only, held⟩⟩ := inv
  · exact (nobody t here).elim
  · rw [only t here]
    exact held

theorem Held.outstanding {card : Softc} (held : Held card c) : card.outstanding.length ≤ 1 := by
  rcases held.quiet_or_waiting with quiet | ⟨i, -, -, waiting⟩
  · rw [quiet.1]
    exact Nat.zero_le 1
  · rcases waiting.outstanding with none | ⟨one, -⟩
    · rw [none]
      exact Nat.zero_le 1
    · rw [one]
      exact Nat.le_refl 1

theorem Held.kept {card : Softc} {i : Nat} (held : Held card c) (write : c.uioRw = .write)
    (still : c.pc = .sect i ∨ c.pc = .stat i ∨ c.pc = .wait i ∧ card.outstanding ≠ []) :
    card.lh.lhBuf = c.moved := by
  unfold Held at held
  rcases still with pc | pc | ⟨pc, some⟩
  · rw [pc] at held
    exact held.2 write
  · rw [pc] at held
    exact held.2.1 write
  · rw [pc] at held
    rcases held.2.outstanding with none | ⟨-, moved⟩
    · exact (some none).elim
    · exact moved write

theorem Inv.safe (inv : Inv s) : Safe mover s := by
  constructor
  · obtain ⟨-, ⟨-, -, quiet⟩ | ⟨t, -, -, held⟩⟩ := inv
    · rw [quiet.1]
      exact Nat.zero_le 1
    · exact held.outstanding
  · intro t u here other
    have untouched : ¬ (s.threads u).Touches := fun touches => other (inv.alone here (touches_inside touches))
    refine ⟨untouched, fun s' goes => ?_⟩
    obtain ⟨out, moved, value⟩ := Outcome.bind_done.mp goes
    cases value
    exact congrArg Lhd.lhBuf (advance_untouched untouched out moved)
  · intro t i write still
    have here : (s.threads t).pc.Inside := by
      rcases still with pc | pc | ⟨pc, -⟩ <;> (rw [pc]; trivial)
    exact (inv.held here).kept write still
  · intro t i pc
    have held := inv.held (t := t) (by rw [pc]; trivial)
    unfold Held at held
    rw [pc] at held
    exact held.2
  · intro t i result pc
    have held := inv.held (t := t) (by rw [pc]; trivial)
    unfold Held at held
    rw [pc] at held
    exact held.2
  · exact inv.clear
  · intro t s' here goes gone
    have inv' : Inv s' := step_inv inv (.thread t) s' goes
    refine inv'.clear.mpr fun u => ?_
    obtain ⟨out, -, value⟩ := Outcome.bind_done.mp goes
    cases value
    by_cases same : u = t
    · rw [same]
      exact gone
    · dsimp only
      rw [setCaller_other same]
      exact fun there => same (inv.alone here there)

/-- Whatever the threads ask for, and however their steps mix with those of the card and the interrupts. -/
theorem lhd_safe (reached : (machine mover).Reachable s) : Safe mover s := (reachable_inv reached).safe

/-- Two threads read a sector each, and one of them has read what the card has left for it. -/
theorem lhd_safe_reading :
    ∃ s : State (Fin 2) Unit, (s.threads 0).pc = .fetch 0 none ∧ (s.threads 1).pc = .head 0 ∧
      Safe ⟨fun buf u => (none, buf, u), fun _ u => (none, u)⟩ s := by
  have start : (machine ⟨fun buf u => (none, buf, u), fun _ u => (none, u)⟩).Reachable
      (⟨⟨1, 0, none, ⟨8, fun _ => 0, fun _ _ => 7, 0⟩, 0, lhdIdle, .idle, [], none, [], 0, fun _ => none⟩,
        fun _ => ⟨.out, 0, 0, .read, (), none, fun _ => 0, ⟨0, 0, 0⟩, 0⟩⟩ : State (Fin 2) Unit) :=
    .initial ⟨⟨rfl, rfl, rfl, rfl, rfl, rfl, rfl⟩, fun _ => rfl⟩
  exact ⟨_, rfl, rfl, lhd_safe (start.run [.call 0 ⟨512, 512, .read, ()⟩, .call 1 ⟨0, 512, .read, ()⟩,
    .thread 0, .thread 0, .thread 0, .thread 0, .complete .ok, .irq, .irq, .irq, .irq, .thread 0,
    .thread 0] rfl)⟩

end Runs

end Os161.LhdThreads
