import Mathlib.Data.List.DropRight
import Os161.Base.Outcome

/-!
# Reading a line

`lib/kgets.c`. What is typed edits a line, which lies in the caller's buffer from its beginning to `pos`.
When the characters run out, the call waits for more.
-/

namespace Os161.Kgets

structure State where
  buf : List UInt8
  pos : Nat
  /-- What has been sent to the console. -/
  echo : List UInt8

namespace State

def putch (s : State) (ch : UInt8) : State := { s with echo := s.echo ++ [ch] }

/-- `buf[i] = ch`. -/
def store (s : State) (i : Nat) (ch : UInt8) : Outcome State :=
  if i < s.buf.length then return { s with buf := s.buf.set i ch } else .fault

/-- `buf[i]`. -/
def load (s : State) (i : Nat) : Outcome UInt8 := Outcome.deref s.buf[i]?

end State

/-- `'\b'`, a blank, and `'\b'` again. -/
def backsp (s : State) : State := ((s.putch 8).putch 32).putch 8

/-- `'\a'`. -/
def beep (s : State) : State := s.putch 7

/-- The string in the buffer. -/
def stringOf (buf : List UInt8) : List UInt8 := buf.takeWhile (· ≠ 0)

/-- The loop for `^U`. -/
def eraseLine (s : State) : Nat → State
  | 0 => s
  | pos + 1 => eraseLine { backsp s with pos } pos

/-- The loops for `^W`: as long as the character before `pos` passes the test. -/
def eraseWhile (test : UInt8 → Bool) (s : State) : Nat → Outcome State
  | 0 => return s
  | pos + 1 => do
    let ch ← s.load pos
    if test ch then eraseWhile test { backsp s with pos } pos else return s

/-- The body of the loop; `true` is for its `break`. -/
def body (maxlen : UInt32) (s : State) (ch : UInt8) : Outcome (Bool × State) :=
  if ch = 10 ∨ ch = 13 then return (true, s.putch 10)
  else if 32 ≤ ch ∧ ch < 127 ∧ s.pos < (maxlen - 1).toNat then do
    let s ← (s.putch ch).store s.pos ch
    return (false, { s with pos := s.pos + 1 })
  else if (ch = 8 ∨ ch = 127) ∧ 0 < s.pos then return (false, { backsp s with pos := s.pos - 1 })
  else if ch = 3 then return (true, { ((s.putch 94).putch 67).putch 10 with pos := 0 })
  else if ch = 18 then do
    let s ← s.store s.pos 0
    return (false, { s with echo := s.echo ++ [94, 82, 10] ++ stringOf s.buf })
  else if ch = 21 then return (false, eraseLine s s.pos)
  else if ch = 23 then do
    let s ← eraseWhile (· = 32) s s.pos
    let s ← eraseWhile (· ≠ 32) s s.pos
    return (false, s)
  else return (false, beep s)

def loop (maxlen : UInt32) (s : State) : List UInt8 → Outcome State
  | [] => .blocked
  | ch :: rest => do
    match ← body maxlen s ch with
    | (true, s) => return s
    | (false, s) => loop maxlen s rest

/-- `kgets`; `getch` takes the characters from a list. -/
def kgets (maxlen : UInt32) (buf chars : List UInt8) : Outcome State := do
  let s ← loop maxlen ⟨buf, 0, []⟩ chars
  s.store s.pos 0

/-! ### The rules -/

/-- `\n`, `\r` and `^C` end the line. -/
def Ends (ch : UInt8) : Prop := ch = 10 ∨ ch = 13 ∨ ch = 3

def eraseWord (line : List UInt8) : List UInt8 := (line.rdropWhile (· = 32)).rdropWhile (· ≠ 32)

/-- What a character does to the line. -/
def edit (maxlen : UInt32) (line : List UInt8) (ch : UInt8) : List UInt8 :=
  if 32 ≤ ch ∧ ch < 127 then (if line.length < maxlen.toNat - 1 then line ++ [ch] else line)
  else if ch = 8 ∨ ch = 127 then line.dropLast
  else if ch = 21 then []
  else if ch = 23 then eraseWord line
  else line

/-- The line that some characters make, up to the one that ends it. -/
def typed (maxlen : UInt32) (before : List UInt8) (last : UInt8) : List UInt8 :=
  if last = 3 then [] else before.foldl (edit maxlen) []

/-- The line is what the buffer holds, and nothing behind the buffer has changed. -/
structure Holds (maxlen : UInt32) (buf : List UInt8) (s : State) (line : List UInt8) : Prop where
  length : s.buf.length = buf.length
  pos : s.pos = line.length
  text : s.buf.take s.pos = line
  short : line.length < maxlen.toNat
  plain : 0 ∉ line
  behind : s.buf.drop maxlen.toNat = buf.drop maxlen.toNat

variable {maxlen : UInt32} {buf line : List UInt8} {s : State} {ch : UInt8}

/-- The line gets shorter. -/
theorem Holds.shorter (h : Holds maxlen buf s line) {t : State} (same : t.buf = s.buf) (less : t.pos ≤ s.pos) :
    Holds maxlen buf t (line.take t.pos) := by
  have inside := h.short
  have pos := h.pos
  have length := h.length
  refine ⟨by rw [same, length], ?_, ?_, ?_, ?_, by rw [same, h.behind]⟩
  · rw [List.length_take]
    omega
  · rw [same, ← h.text, List.take_take, Nat.min_eq_left less]
  · rw [List.length_take]
    omega
  · exact fun mem => h.plain (List.mem_of_mem_take mem)

theorem eraseLine_state (pos : Nat) (at' : s.pos = pos) : (eraseLine s pos).buf = s.buf ∧ (eraseLine s pos).pos = 0 := by
  induction pos generalizing s with
  | zero => exact ⟨rfl, at'⟩
  | succ pos ih => exact ih rfl

theorem eraseWhile_holds (test : UInt8 → Bool) (h : Holds maxlen buf s line) :
    ∃ t, eraseWhile test s s.pos = .done t ∧ Holds maxlen buf t (line.rdropWhile test) := by
  induction line using List.reverseRecOn generalizing s with
  | nil =>
    rw [h.pos]
    exact ⟨s, rfl, h⟩
  | append_singleton line ch ih =>
    have pos : s.pos = line.length + 1 := by rw [h.pos, List.length_append, List.length_singleton]
    have last : s.buf[line.length]? = some ch := by
      have text := congrArg (·[line.length]?) h.text
      simpa [pos] using text
    have load : s.load line.length = .done ch := by
      unfold State.load
      rw [last]
      rfl
    rw [pos, eraseWhile, load, Outcome.done_bind, List.rdropWhile_concat]
    split
    · have less : line.length ≤ s.pos := by omega
      have rest := h.shorter (t := { backsp s with pos := line.length }) rfl less
      rw [List.take_append_of_le_length (Nat.le_refl _), List.take_length] at rest
      exact ih rest
    · exact ⟨s, rfl, h⟩

theorem store_inside {i : Nat} (inside : i < s.buf.length) : s.store i ch = .done { s with buf := s.buf.set i ch } :=
  if_pos inside

theorem top (positive : 1 ≤ maxlen) : (maxlen - 1).toNat = maxlen.toNat - 1 :=
  UInt32.toNat_sub_of_le _ _ positive

/-- Another character at the end. -/
theorem Holds.append (h : Holds maxlen buf s line) (room : maxlen.toNat ≤ buf.length)
    (fits : s.pos < maxlen.toNat - 1) (nonzero : ch ≠ 0) (echo : List UInt8) :
    Holds maxlen buf ⟨s.buf.set s.pos ch, s.pos + 1, echo⟩ (line ++ [ch]) := by
  have pos := h.pos
  have inside : s.pos < s.buf.length := by
    rw [h.length]
    omega
  refine ⟨by rw [List.length_set, h.length], by rw [List.length_append, pos, List.length_singleton], ?_, ?_, ?_, ?_⟩
  · rw [List.take_add_one, List.take_set_of_le (Nat.le_refl _), h.text, List.getElem?_set_self inside]
    rfl
  · rw [List.length_append, List.length_singleton]
    omega
  · rw [List.mem_append, List.mem_singleton]
    exact fun mem => mem.elim h.plain fun zero => nonzero zero.symm
  · rw [List.drop_set_of_lt (by omega), h.behind]

/-- A 0 behind the line. -/
theorem Holds.terminate (h : Holds maxlen buf s line) (echo : List UInt8) :
    Holds maxlen buf ⟨s.buf.set s.pos 0, s.pos, echo⟩ line := by
  have pos := h.pos
  have short := h.short
  refine ⟨by rw [List.length_set, h.length], pos, ?_, short, h.plain, ?_⟩
  · rw [List.take_set_of_le (Nat.le_refl _), h.text]
  · rw [List.drop_set_of_lt (by omega), h.behind]

/-- A character that does not end the line edits it. -/
theorem body_edits (positive : 1 ≤ maxlen) (room : maxlen.toNat ≤ buf.length) (goes : ¬ Ends ch)
    (h : Holds maxlen buf s line) : ∃ t, body maxlen s ch = .done (false, t) ∧ Holds maxlen buf t (edit maxlen line ch) := by
  have pos := h.pos
  have short := h.short
  have inside : s.pos < s.buf.length := by
    rw [h.length]
    omega
  unfold body
  rw [if_neg fun newline => goes (newline.elim .inl fun cr => .inr (.inl cr)), top positive]
  by_cases append : 32 ≤ ch ∧ ch < 127 ∧ s.pos < maxlen.toNat - 1
  · have nonzero : ch ≠ 0 := by
      rintro rfl
      exact absurd append.1 (by decide)
    have stored : (s.putch ch).store s.pos ch = .done { s.putch ch with buf := s.buf.set s.pos ch } := if_pos inside
    rw [if_pos append, stored, Outcome.done_bind]
    refine ⟨_, rfl, ?_⟩
    unfold edit
    rw [if_pos ⟨append.1, append.2.1⟩, if_pos (by omega)]
    exact h.append room append.2.2 nonzero _
  rw [if_neg append]
  by_cases back : (ch = 8 ∨ ch = 127) ∧ 0 < s.pos
  · rw [if_pos back]
    refine ⟨_, rfl, ?_⟩
    have unprinted : ¬ (32 ≤ ch ∧ ch < 127) := by
      obtain ⟨rfl | rfl, -⟩ := back <;> decide
    unfold edit
    rw [if_neg unprinted, if_pos back.1, List.dropLast_eq_take, ← pos]
    exact h.shorter rfl (Nat.sub_le ..)
  rw [if_neg back, if_neg fun interrupt => goes (.inr (.inr interrupt))]
  by_cases reprint : ch = 18
  · subst reprint
    rw [if_pos rfl, store_inside inside, Outcome.done_bind]
    exact ⟨_, rfl, h.terminate _⟩
  rw [if_neg reprint]
  by_cases erase : ch = 21
  · subst erase
    rw [if_pos rfl]
    obtain ⟨same, zero⟩ := eraseLine_state s.pos (s := s) rfl
    have none : Holds maxlen buf (eraseLine s s.pos) (line.take (eraseLine s s.pos).pos) := h.shorter same (by omega)
    rw [zero] at none
    exact ⟨_, rfl, none⟩
  rw [if_neg erase]
  by_cases word : ch = 23
  · subst word
    rw [if_pos rfl]
    obtain ⟨t, blanks, h⟩ := eraseWhile_holds (· = 32) h
    obtain ⟨u, rest, h⟩ := eraseWhile_holds (· ≠ 32) h
    rw [blanks, Outcome.done_bind, rest, Outcome.done_bind]
    exact ⟨u, rfl, h⟩
  rw [if_neg word]
  have kept : edit maxlen line ch = line := by
    unfold edit
    split
    · rw [if_neg (by grind)]
    · split
      · rename_i deletes
        have empty : line.length = 0 := by
          have stuck : ¬ 0 < s.pos := fun more => back ⟨deletes, more⟩
          omega
        rw [List.length_eq_zero_iff.mp empty]
        rfl
      · rfl
  rw [kept]
  exact ⟨_, rfl, ⟨h.length, h.pos, h.text, h.short, h.plain, h.behind⟩⟩

/-- What ends the line leaves it, or empties it. -/
theorem body_ends (ends : Ends ch) (h : Holds maxlen buf s line) : ∃ t, body maxlen s ch = .done (true, t) ∧
    Holds maxlen buf t (if ch = 3 then [] else line) := by
  unfold body
  by_cases newline : ch = 10 ∨ ch = 13
  · have kept : ch ≠ 3 := by
      obtain rfl | rfl := newline <;> decide
    rw [if_pos newline, if_neg kept]
    exact ⟨_, rfl, ⟨h.length, h.pos, h.text, h.short, h.plain, h.behind⟩⟩
  · obtain rfl : ch = 3 := by
      unfold Ends at ends
      tauto
    refine ⟨{ ((s.putch 94).putch 67).putch 10 with pos := 0 }, rfl, ?_⟩
    exact h.shorter rfl (Nat.zero_le _)

/-- The loop up to the end of the line. -/
theorem loop_ends (positive : 1 ≤ maxlen) (room : maxlen.toNat ≤ buf.length) {before : List UInt8}
    (after : List UInt8) (goes : ∀ ch ∈ before, ¬ Ends ch) (ends : Ends ch) (h : Holds maxlen buf s line) :
    ∃ t, loop maxlen s (before ++ ch :: after) = .done t ∧
      Holds maxlen buf t (if ch = 3 then [] else before.foldl (edit maxlen) line) := by
  induction before generalizing s line with
  | nil =>
    obtain ⟨t, last, h⟩ := body_ends ends h
    refine ⟨t, ?_, h⟩
    rw [List.nil_append, loop, last]
    rfl
  | cons first before ih =>
    obtain ⟨this, goes⟩ := List.forall_mem_cons.mp goes
    obtain ⟨t, edits, h⟩ := body_edits positive room this h
    rw [List.cons_append, loop, edits]
    exact ih goes h

/-- Without an end the call waits. -/
theorem loop_waits (positive : 1 ≤ maxlen) (room : maxlen.toNat ≤ buf.length) {chars : List UInt8}
    (goes : ∀ ch ∈ chars, ¬ Ends ch) (h : Holds maxlen buf s line) : loop maxlen s chars = .blocked := by
  induction chars generalizing s line with
  | nil => rfl
  | cons first rest ih =>
    obtain ⟨this, goes⟩ := List.forall_mem_cons.mp goes
    obtain ⟨t, edits, h⟩ := body_edits positive room this h
    rw [loop, edits]
    exact ih goes h

/-- The string that the 0 behind the line ends. -/
theorem Holds.string (h : Holds maxlen buf s line) (room : maxlen.toNat ≤ buf.length) :
    stringOf (s.buf.set s.pos 0) = line := by
  have pos := h.pos
  have short := h.short
  have inside : s.pos < s.buf.length := by
    rw [h.length]
    omega
  have parts : s.buf.set s.pos 0 = line ++ 0 :: s.buf.drop (s.pos + 1) := by
    rw [List.set_eq_take_append_cons_drop, if_pos inside, h.text]
  have nonzero : ∀ ch ∈ line, decide (ch ≠ 0) = true := by
    intro ch mem
    exact decide_eq_true fun zero => h.plain (zero ▸ mem)
  unfold stringOf
  rw [parts, List.takeWhile_append_of_pos nonzero, List.takeWhile_cons_of_neg (by simp), List.append_nil]

/-- `kgets` stays inside the buffer, and when a character has ended the line, the buffer holds what the
characters before it have typed. -/
theorem kgets_types (maxlen : UInt32) (buf : List UInt8) (positive : 1 ≤ maxlen) (room : maxlen.toNat ≤ buf.length) :
    (∀ chars, (∀ ch ∈ chars, ¬ Ends ch) → kgets maxlen buf chars = .blocked) ∧
      ∀ before last after, (∀ ch ∈ before, ¬ Ends ch) → Ends last →
        ∃ t, kgets maxlen buf (before ++ last :: after) = .done t ∧ stringOf t.buf = typed maxlen before last ∧
          (typed maxlen before last).length < maxlen.toNat ∧ t.buf.length = buf.length ∧
          t.buf.drop maxlen.toNat = buf.drop maxlen.toNat := by
  have start : Holds maxlen buf ⟨buf, 0, []⟩ [] := by
    have some : 0 < maxlen.toNat := UInt32.le_iff_toNat_le.mp positive
    exact ⟨rfl, rfl, rfl, some, nofun, rfl⟩
  refine ⟨fun chars goes => ?_, fun before last after goes ends => ?_⟩
  · unfold kgets
    rw [loop_waits positive room goes start]
    rfl
  · obtain ⟨t, loops, h⟩ := loop_ends positive room after goes ends start
    have pos := h.pos
    have short := h.short
    have inside : t.pos < t.buf.length := by
      rw [h.length]
      omega
    unfold kgets
    rw [loops, Outcome.done_bind, store_inside inside]
    exact ⟨_, rfl, h.string room, short, (h.terminate t.echo).length, (h.terminate t.echo).behind⟩

/-- `ab c`, `^W`, a backspace, `d`, and too much for five bytes. -/
theorem kgets_types_five : ∃ t, kgets 5 [1, 1, 1, 1, 1, 1] [97, 98, 32, 99, 23, 8, 100, 101, 102, 10, 103] = .done t ∧
    stringOf t.buf = [97, 98, 100, 101] ∧ t.buf.drop 5 = [1] := by
  obtain ⟨t, goes, string, -, -, behind⟩ := (kgets_types 5 [1, 1, 1, 1, 1, 1] (by decide) (by decide)).2
    [97, 98, 32, 99, 23, 8, 100, 101, 102] 10 [103] (by simp [Ends]) (.inl rfl)
  exact ⟨t, goes, string, behind⟩

end Os161.Kgets
