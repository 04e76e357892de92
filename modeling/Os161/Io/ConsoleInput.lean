import Os161.Base.Ring
import Os161.Base.Sync

/-!
# Characters from the console

`con_input` and `getch_intr` of `console.c`, statement by statement. Interrupts come one at a time, on any
cpu, while one thread reads.
-/

namespace Os161.ConsoleInput

def consoleInputBufferSize : Nat := 32

/-- Where `con_input` is. -/
inductive InputPc where
  | idle
  | test (ch : Int)
  | store (ch : Int) (nexthead : Nat)
  | head (nexthead : Nat)
  | post
  deriving DecidableEq

/-- Where the reader is in `getch_intr`. -/
inductive ReaderPc where
  | out
  | wait
  -- past the P
  | load
  | tail (ret : UInt8)
  deriving DecidableEq

/-- `struct con_softc`, where both sides are, and for the proofs the characters that `con_input` has let in,
those that it has dropped, and those that the reader has got. -/
structure State where
  csRsem : Nat
  csGotchars : Nat → UInt8
  csGotcharsHead : Nat
  csGotcharsTail : Nat
  input : InputPc
  reader : ReaderPc
  accepted : List UInt8
  dropped : List UInt8
  received : List UInt8

inductive Action where
  | interrupt (ch : Int)
  | input
  | getch
  | reader

namespace State

/-- The next step of `con_input`. A character becomes an `unsigned char`. -/
def conInput (s : State) : Outcome State :=
  match s.input with
  | .idle => .blocked
  | .test ch =>
    let nexthead := (s.csGotcharsHead + 1) % consoleInputBufferSize
    -- overflow; drop character
    if nexthead = s.csGotcharsTail then
      .done { s with input := .idle, dropped := s.dropped ++ [UInt8.ofInt ch] }
    else .done { s with input := .store ch nexthead, accepted := s.accepted ++ [UInt8.ofInt ch] }
  | .store ch nexthead => .done { s with
      csGotchars := Function.update s.csGotchars s.csGotcharsHead (UInt8.ofInt ch)
      input := .head nexthead }
  | .head nexthead => .done { s with csGotcharsHead := nexthead, input := .post }
  | .post => .done { s with csRsem := AtomicSem.release s.csRsem, input := .idle }

/-- The next step of `getch_intr`. -/
def getchIntr (s : State) : Outcome State :=
  match s.reader with
  | .out => .blocked
  | .wait => do
    let csRsem ← AtomicSem.acquire s.csRsem
    return { s with csRsem := csRsem, reader := .load }
  | .load => .done { s with reader := .tail (s.csGotchars s.csGotcharsTail) }
  | .tail ret => .done { s with
      csGotcharsTail := (s.csGotcharsTail + 1) % consoleInputBufferSize
      reader := .out
      received := s.received ++ [ret] }

end State

def machine : Machine State Action where
  initial s := s.csRsem = 0 ∧ s.csGotcharsHead = 0 ∧ s.csGotcharsTail = 0 ∧ s.input = .idle ∧
    s.reader = .out ∧ s.accepted = [] ∧ s.dropped = [] ∧ s.received = []
  step s
    | .interrupt ch => if s.input = .idle then .done { s with input := .test ch } else .blocked
    | .input => s.conInput
    | .getch => if s.reader = .out then .done { s with reader := .wait } else .blocked
    | .reader => s.getchIntr

namespace State

variable {s t : State}

def ring (s : State) : Ring UInt8 consoleInputBufferSize :=
  ⟨s.csGotchars, s.csGotcharsHead, s.csGotcharsTail⟩

/-- What `con_input` has let in and not put between the tail and the head yet. -/
def pending (s : State) : List UInt8 :=
  match s.input with
  | .store ch _ => [UInt8.ofInt ch]
  | .head _ => [s.csGotchars s.csGotcharsHead]
  | _ => []

/-- The reader is between its `P` and its tail update. -/
def reading (s : State) : Nat :=
  match s.reader with
  | .load => 1
  | .tail _ => 1
  | _ => 0

/-- `con_input` is between its head update and its `V`. -/
def posting (s : State) : Nat :=
  match s.input with
  | .post => 1
  | _ => 0

structure Inv (s : State) : Prop where
  inside : s.ring.Inside
  room : ∀ ch nexthead, s.input = .store ch nexthead ∨ s.input = .head nexthead →
    nexthead = (s.csGotcharsHead + 1) % consoleInputBufferSize ∧ nexthead ≠ s.csGotcharsTail
  count : s.csRsem + s.reading + s.posting = s.ring.held
  order : s.accepted = s.received ++ s.ring.contents ++ s.pending
  next : ∀ ret, s.reader = .tail ret → ∃ rest, s.ring.contents = ret :: rest

theorem conInput_inv (inv : s.Inv) : s.conInput.Ensures Inv := by
  have inside := inv.inside
  unfold conInput
  cases input : s.input with
  | idle => exact Outcome.ensures_blocked
  | test ch =>
    dsimp only
    have pending : s.pending = [] := by rw [State.pending, input]
    have posting : s.posting = 0 := by rw [State.posting, input]
    have count := inv.count
    have order := inv.order
    rw [posting] at count
    rw [pending, List.append_nil] at order
    split
    · refine Outcome.ensures_done.mpr ⟨inside, ?_, count, ?_, inv.next⟩
      · rintro _ _ (here | here) <;> cases here
      · rw [State.pending, List.append_nil]
        exact order
    · rename_i room
      refine Outcome.ensures_done.mpr ⟨inside, ?_, count, ?_, inv.next⟩
      · rintro _ _ (here | here)
        · cases here
          exact ⟨rfl, room⟩
        · cases here
      · rw [State.pending, order]
        rfl
  | store ch nexthead =>
    have posting : s.posting = 0 := by rw [State.posting, input]
    have pending : s.pending = [UInt8.ofInt ch] := by rw [State.pending, input]
    have count := inv.count
    have order := inv.order
    rw [posting] at count
    rw [pending] at order
    refine Outcome.ensures_done.mpr ⟨inside.store, ?_, count, ?_, ?_⟩
    · rintro _ _ (here | here)
      · cases here
      · cases here
        exact inv.room ch nexthead (.inl input)
    · rw [State.pending]
      dsimp only
      rw [Function.update_self, order]
      exact congrArg (s.received ++ · ++ _) inside.store_contents.symm
    · intro ret taken
      obtain ⟨rest, first⟩ := inv.next ret taken
      exact ⟨rest, inside.store_contents.trans first⟩
  | head nexthead =>
    obtain ⟨rfl, room⟩ := inv.room 0 nexthead (.inr input)
    have posting : s.posting = 0 := by rw [State.posting, input]
    have pending : s.pending = [s.csGotchars s.csGotcharsHead] := by rw [State.pending, input]
    have count := inv.count
    have order := inv.order
    rw [posting] at count
    rw [pending] at order
    have more : s.ring.advance.held = s.ring.held + 1 := inside.advance_held room
    have contents : s.ring.advance.contents = s.ring.contents ++ [s.csGotchars s.csGotcharsHead] :=
      inside.advance_contents room
    refine Outcome.ensures_done.mpr ⟨inside.advance, ?_, ?_, ?_, ?_⟩
    · rintro _ _ (here | here) <;> cases here
    · change s.csRsem + s.reading + 1 = s.ring.advance.held
      rw [more]
      omega
    · change s.accepted = s.received ++ s.ring.advance.contents ++ []
      rw [order, contents]
      simp only [List.append_assoc, List.append_nil]
    · intro ret taken
      obtain ⟨rest, first⟩ := inv.next ret taken
      exact ⟨rest ++ [s.csGotchars s.csGotcharsHead], contents.trans (by rw [first]; rfl)⟩
  | post =>
    have posting : s.posting = 1 := by rw [State.posting, input]
    have pending : s.pending = [] := by rw [State.pending, input]
    have count := inv.count
    have order := inv.order
    rw [posting] at count
    rw [pending] at order
    refine Outcome.ensures_done.mpr ⟨inside, ?_, ?_, order, inv.next⟩
    · rintro _ _ (here | here) <;> cases here
    · change s.csRsem + 1 + s.reading + 0 = s.ring.held
      omega

theorem getchIntr_inv (inv : s.Inv) : s.getchIntr.Ensures Inv := by
  have inside := inv.inside
  have count := inv.count
  unfold getchIntr
  cases reader : s.reader with
  | out => exact Outcome.ensures_blocked
  | wait =>
    have reading : s.reading = 0 := by rw [State.reading, reader]
    rw [reading] at count
    have first : (AtomicSem.acquire s.csRsem).Ensures fun m => s.csRsem = m + 1 :=
      AtomicSem.acquire_ensures.mpr fun m more => more
    refine first.then fun m more => Outcome.ensures_done.mpr ⟨inside, inv.room, ?_, inv.order, nofun⟩
    change m + 1 + s.posting = s.ring.held
    omega
  | load =>
    have reading : s.reading = 1 := by rw [State.reading, reader]
    rw [reading] at count
    refine Outcome.ensures_done.mpr ⟨inside, inv.room, count, inv.order, ?_⟩
    intro ret taken
    cases taken
    exact ⟨s.ring.take.contents, inside.take_contents (by omega)⟩
  | tail ret =>
    have reading : s.reading = 1 := by rw [State.reading, reader]
    rw [reading] at count
    have some : 0 < s.ring.held := by omega
    have fewer : s.ring.take.held = s.ring.held - 1 := inside.take_held some
    have taken := inside.take_contents some
    obtain ⟨rest, first⟩ := inv.next ret reader
    rw [taken] at first
    obtain ⟨here, -⟩ := List.cons.inj first
    refine Outcome.ensures_done.mpr ⟨inside.take, ?_, ?_, ?_, nofun⟩
    · intro ch nexthead midway
      obtain ⟨rfl, -⟩ := inv.room ch nexthead midway
      refine ⟨rfl, fun full => ?_⟩
      have all := inside.take.full_iff.mp full
      have held := inside.held_lt
      omega
    · change s.csRsem + 0 + s.posting = s.ring.take.held
      rw [fewer]
      omega
    · change s.accepted = s.received ++ [ret] ++ s.ring.take.contents ++ s.pending
      rw [inv.order, taken, here, List.append_assoc s.received [ret]]
      rfl

theorem step_inv (inv : s.Inv) (a : Action) : (machine.step s a).Ensures Inv := by
  cases a with
  | interrupt ch =>
    dsimp only [machine]
    split
    · rename_i idle
      have count := inv.count
      have order := inv.order
      rw [State.posting, idle] at count
      rw [State.pending, idle] at order
      refine Outcome.ensures_done.mpr ⟨inv.inside, ?_, count, order, inv.next⟩
      rintro _ _ (here | here) <;> cases here
    · exact Outcome.ensures_blocked
  | input => exact conInput_inv inv
  | getch =>
    dsimp only [machine]
    split
    · rename_i out
      have count := inv.count
      rw [State.reading, out] at count
      exact Outcome.ensures_done.mpr ⟨inv.inside, inv.room, count, inv.order, nofun⟩
    · exact Outcome.ensures_blocked
  | reader => exact getchIntr_inv inv

theorem reachable_inv (reached : machine.Reachable s) : s.Inv := by
  apply machine.invariant_ensures (P := Inv) ?_ (fun s a inv _ => step_inv inv a) reached
  rintro s ⟨rsem, head, tail, input, reader, accepted, -, received⟩
  have inside : s.ring.Inside := by
    refine ⟨?_, ?_⟩
    · change s.csGotcharsHead < 32
      omega
    · change s.csGotcharsTail < 32
      omega
  have held : s.ring.held = 0 := by
    have cases := s.ring.held_cases
    dsimp only [ring] at cases ⊢
    omega
  refine ⟨inside, ?_, ?_, ?_, ?_⟩
  · rintro _ _ (here | here) <;> (rw [input] at here; cases here)
  · have reading : s.reading = 0 := by rw [State.reading, reader]
    have posting : s.posting = 0 := by rw [State.posting, input]
    omega
  · rw [accepted, received, Ring.contents, held, State.pending, input]
    rfl
  · intro ret taken
    rw [reader] at taken
    cases taken

/-- What the reader and the console driver count on. -/
structure Safe (s : State) : Prop where
  /-- The reader has got the first of the accepted characters; the others are in the ring, in order, or on
  their way there. -/
  order : s.accepted = s.received ++ s.ring.contents ++ s.pending
  /-- A character that is not let in finds the ring full. -/
  drops : ∀ t, s.conInput = .done t → t.dropped ≠ s.dropped →
    s.ring.held = consoleInputBufferSize - 1
  /-- The characters in the ring are those that the semaphore counts, the one that the reader is taking and
  the one that `con_input` has not posted yet. -/
  accounts : s.csRsem + s.reading + s.posting = s.ring.held
  /-- The reader has the oldest character of the ring. -/
  fresh : ∀ ret, s.reader = .tail ret → ∃ rest, s.ring.contents = ret :: rest

theorem Inv.drops (inv : s.Inv) (goes : s.conInput = .done t) (more : t.dropped ≠ s.dropped) :
    s.ring.held = consoleInputBufferSize - 1 := by
  unfold conInput at goes
  split at goes
  · cases goes
  · dsimp only at goes
    split at goes
    · rename_i full
      have held := inv.inside.full_iff.mp full
      omega
    · cases goes
      exact (more rfl).elim
  all_goals
    cases goes
    exact (more rfl).elim

/-- Whatever is typed, and however the interrupts mix with the reader. -/
theorem console_safe (reached : machine.Reachable s) : s.Safe :=
  have inv := reachable_inv reached
  ⟨inv.order, fun _ => inv.drops, inv.count, inv.next⟩

def booted : State := ⟨0, fun _ => 0, 0, 0, .idle, .out, [], [], []⟩

theorem booted_reachable : machine.Reachable booted :=
  .initial ⟨rfl, rfl, rfl, rfl, rfl, rfl, rfl, rfl⟩

/-- The second character comes while the reader has the first. -/
theorem console_safe_two :
    ∃ s : State, s.reader = .tail 97 ∧ s.accepted = [97, 98] ∧ s.received = [] ∧ s.Safe :=
  ⟨_, rfl, rfl, rfl, console_safe (booted_reachable.run [.getch, .interrupt 97, .input, .input, .input,
    .input, .reader, .reader, .interrupt 98, .input] rfl)⟩

/-- With the head moved and the `V` still to come there is a character in the ring that nothing counts. -/
theorem console_uncounted :
    ∃ s : State, machine.Reachable s ∧ s.csRsem + s.reading ≠ s.ring.held :=
  ⟨_, booted_reachable.run [.interrupt 97, .input, .input, .input] rfl, by decide⟩

end State

end Os161.ConsoleInput
