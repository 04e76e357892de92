import Mathlib.Data.Int.ModEq
import Os161.Base.Outcome
import Os161.Vm.CopyInOut

/-!
# The arguments of `execv`

`copy_args` of `fork.c` and its helpers. The two buffers of the file are bytes with a size; touching
anything past their ends is a fault. An index into a buffer stands for a pointer into it.
-/

namespace Os161

/-- The size of `karg` and of `kargbuf`. -/
def bufSize : Nat := 64 * 1024

structure ExecBufs where
  karg : Bytes
  kargbuf : Bytes

/-- What a number of type `int` is after an addition. -/
def int32 (n : Int) : Int := n.bmod (2 ^ 32)

namespace ExecBufs

def store (buf : Bytes) (p : Nat) (bytes : List UInt8) : Outcome Bytes :=
  if p + bytes.length ≤ bufSize then return buf.put p bytes else .fault

/-- The loop of `align_arg` and `get_aligned_length` that looks for the end of the string. -/
def strlen (arg : Bytes) (len : Nat) : Outcome Nat :=
  if len < bufSize then
    if arg len = 0 then return len else strlen arg (len + 1)
  else .fault
termination_by bufSize - len

/-- The loop of `align_arg` that pads; `p` is moved before it is written to. -/
def pad (arg : Bytes) (p : Nat) : (diff : Nat) → Outcome Bytes
  | 0 => return arg
  | diff + 1 => do
    let arg ← store arg (p + 1) [0]
    pad arg (p + 1) diff

/-- `align_arg`. Its first loop leaves `p` behind the end of the string. -/
def alignArg (arg : Bytes) (align : Nat) : Outcome (Nat × Bytes) := do
  let len ← strlen arg 0
  let p := len + 1
  let len := len + 1
  if len % align = 0 then return (len, arg)
  else do
    let diff := align - len % align
    let arg ← pad arg p diff
    return (len + diff, arg)

def getAlignedLength (arg : Bytes) (alignment : Nat) : Outcome Nat := do
  let len ← strlen arg 0
  let len := len + 1
  if len % 4 = 0 then return len
  else return len + (alignment - len % alignment)

/-- `memcpy( p_end, karg, nlast )`. -/
def copyArg (kargbuf : Bytes) (pEnd : Nat) (karg : Bytes) (nlast : Nat) : Outcome Bytes :=
  if pEnd + nlast ≤ bufSize ∧ nlast ≤ bufSize then return kargbuf.memmove pEnd karg 0 nlast
  else .fault

/-- The bytes of an offset as `copy_args` stores them, the lowest first. -/
def offsetBytes (offset : UInt32) : List UInt8 :=
  [offset.toUInt8, (offset >>> 8).toUInt8, (offset >>> 16).toUInt8, (offset >>> 24).toUInt8]

end ExecBufs

open ExecBufs

/-- What the first loop of `copy_args` ends with. -/
structure Counted where
  /-- `i`, and `*nargs`. -/
  i : Nat
  err : Option Errno
  buflen : Int

/-- What `copy_args` sets, and how far the second loop has filled `kargbuf`. -/
structure CopiedArgs where
  nargs : Nat
  buflen : Int
  pEnd : Nat

/-! ### What lies behind a pointer that is passed as `argv` -/

/-- What ends the arguments: the terminator, a word that cannot be read, or a string that cannot. -/
inductive ArgvEnd where
  | null
  | word (err : Errno)
  | string (err : Errno)
  deriving DecidableEq

/-- The strings behind an array of pointers up to its end. -/
inductive Argv (mem : UserMem) : UInt32 → List (List UInt8) → ArgvEnd → Prop where
  | null {p : UInt32} : mem.copyinPtr p = .ok 0 → Argv mem p [] .null
  | word {p : UInt32} {err : Errno} : mem.copyinPtr p = .error err → Argv mem p [] (.word err)
  | string {p ptr : UInt32} {err : Errno} : mem.copyinPtr p = .ok ptr → ptr ≠ 0 →
      (mem.copyinstr ptr (fun _ => 0) 0x10000).1 = some err → Argv mem p [] (.string err)
  | cons {p ptr : UInt32} {s : List UInt8} {rest : List (List UInt8)} {e : ArgvEnd} :
      mem.copyinPtr p = .ok ptr → ptr ≠ 0 → mem.StringAt ptr.toNat s → s.length < bufSize →
      ptr.toNat + s.length < 2 ^ 31 → Argv mem (p + 4) rest e → Argv mem p (s :: rest) e

/-- The length of a string with its NUL, aligned to 4. -/
def alignedLen (s : List UInt8) : Nat := (s.length + 4) / 4 * 4

/-- The length of the strings in the image. -/
def stringsLen (args : List (List UInt8)) : Nat := (args.map alignedLen).sum

/-- The length of the whole image: a pointer for each argument, a null pointer, and the strings. -/
def imageLen (args : List (List UInt8)) : Nat := (args.length + 1) * 4 + stringsLen args

/-! ### The functions -/

/-- A pointer that the loops of `copy_args` can read is not at the end of the address space. -/
theorem copyinPtr_next {mem : UserMem} {p ptr : UInt32} (read : mem.copyinPtr p = .ok ptr) :
    (p + 4).toNat = p.toNat + 4 ∧ p.toNat + 4 ≤ 2 ^ 31 := by
  have fits := UserMem.copyinPtr_ok read
  refine ⟨?_, fits⟩
  rw [UInt32.toNat_add, show (4 : UInt32).toNat = 4 from rfl]
  omega

/-- More words than an array in user space can have. The loops of `copy_args` end before it is used
up, at the latest where `copyin` finds the end of user space. -/
def argvWords : Nat := 2 ^ 29 + 1

/-- One round of the first loop of `copy_args`; `p` is `uargs + i * 4`. -/
def countArg (mem : UserMem) (p : UInt32) (i : Nat) (buflen : Int) (karg : Bytes)
    (next : UInt32 → Nat → Int → Bytes → Outcome (Except Errno Counted × Bytes)) :
    Outcome (Except Errno Counted × Bytes) :=
  match mem.copyinPtr p with
  | .error err => return (.ok ⟨i, some err, buflen⟩, karg)
  | .ok ptr =>
    if ptr = 0 then return (.ok ⟨i, none, buflen⟩, karg)
    else
      match mem.copyinstr ptr karg 0x10000 with
      | (some err, karg) => return (.error err, karg)
      | (none, karg) => do
        let len ← getAlignedLength karg 4
        next (p + 4) (i + 1) (int32 (buflen + (len + 4))) karg

/-- The first loop of `copy_args`. -/
def countArgs (mem : UserMem) : (words : Nat) → (p : UInt32) → (i : Nat) → (buflen : Int) →
    (karg : Bytes) → Outcome (Except Errno Counted × Bytes)
  | 0, _, _, _, _ => .panic
  | words + 1, p, i, buflen, karg => countArg mem p i buflen karg (countArgs mem words)

/-- One round of the second loop of `copy_args`. The loop comes with `p_begin` and `p_end`. -/
def layArg (mem : UserMem) (p : UInt32) (pBegin pEnd nlast : Nat) (lastOffset : UInt32)
    (bufs : ExecBufs) (next : UInt32 → Nat → Nat → Nat → UInt32 → ExecBufs →
      Outcome (Except Errno (Nat × Nat) × ExecBufs)) :
    Outcome (Except Errno (Nat × Nat) × ExecBufs) :=
  match mem.copyinPtr p with
  | .error _ => return (.ok (pBegin, pEnd), bufs)
  | .ok ptr =>
    if ptr = 0 then return (.ok (pBegin, pEnd), bufs)
    else
      match mem.copyinstr ptr bufs.karg 0x10000 with
      | (some err, karg) => return (.error err, { bufs with karg := karg })
      | (none, karg) => do
        let offset := lastOffset + UInt32.ofNat nlast
        let (nlast, karg) ← alignArg karg 4
        let kargbuf ← store bufs.kargbuf pBegin (offsetBytes offset)
        let kargbuf ← copyArg kargbuf pEnd karg nlast
        next (p + 4) (pBegin + 4) (pEnd + nlast) nlast offset ⟨karg, kargbuf⟩

/-- The second loop of `copy_args`. -/
def layArgs (mem : UserMem) : (words : Nat) → (p : UInt32) → (pBegin pEnd nlast : Nat) →
    (lastOffset : UInt32) → ExecBufs → Outcome (Except Errno (Nat × Nat) × ExecBufs)
  | 0, _, _, _, _, _, _ => .panic
  | words + 1, p, pBegin, pEnd, nlast, lastOffset, bufs =>
    layArg mem p pBegin pEnd nlast lastOffset bufs (layArgs mem words)

/-- The part of `copy_args` after its first loop. -/
def placeArgs (mem : UserMem) (uargs : UInt32) (i : Nat) (buflen : Int) (bufs : ExecBufs) :
    Outcome (Except Errno CopiedArgs × ExecBufs) := do
  let nargs := i + 1
  let buflen := int32 (buflen + 4)
  let (laid, bufs) ← layArgs mem argvWords uargs 0 (nargs * 4) 0 (UInt32.ofNat (nargs * 4)) bufs
  match laid with
  | .error err => return (.error err, bufs)
  | .ok (pBegin, pEnd) => do
    let kargbuf ← store bufs.kargbuf pBegin [0, 0, 0, 0]
    return (.ok ⟨nargs, buflen, pEnd⟩, { bufs with kargbuf := kargbuf })

def copyArgs (mem : UserMem) (uargs : UInt32) (bufs : ExecBufs) :
    Outcome (Except Errno CopiedArgs × ExecBufs) :=
  if uargs = 0 then return (.error .efault, bufs)
  else do
    let (counted, karg) ← countArgs mem argvWords uargs 0 0 bufs.karg
    let bufs := { bufs with karg := karg }
    match counted with
    | .error err => return (.error err, bufs)
    | .ok ⟨0, some err, _⟩ => return (.error err, bufs)
    | .ok ⟨i, _, buflen⟩ => placeArgs mem uargs i buflen bufs

/-- `old_offset` of `adjust_kargbuf`. -/
def oldOffset (kargbuf : Bytes) (index : Nat) : UInt32 :=
  (0xff &&& (kargbuf (index + 3)).toUInt32) <<< 24 ||| (0xff &&& (kargbuf (index + 2)).toUInt32) <<< 16 |||
    (0xff &&& (kargbuf (index + 1)).toUInt32) <<< 8 ||| (0xff &&& (kargbuf index).toUInt32)

/-- The loop of `adjust_kargbuf` from `i` on, with the number of entries that are left. -/
def adjustFrom (stackPtr : UInt32) (kargbuf : Bytes) (i : Nat) : Nat → Outcome Bytes
  | 0 => return kargbuf
  | left + 1 => do
    let index := i * 4
    let newOffset := stackPtr + oldOffset kargbuf index
    let kargbuf ← store kargbuf index (wordBytes newOffset)
    adjustFrom stackPtr kargbuf (i + 1) left

def adjustKargbuf (nparams : Nat) (stackPtr : UInt32) (kargbuf : Bytes) : Outcome Bytes :=
  adjustFrom stackPtr kargbuf 0 (nparams - 1)

/-! ### One argument -/

section Argument

variable {arg : Bytes} {s : List UInt8}

theorem alignedLen_bounds (s : List UInt8) : s.length + 1 ≤ alignedLen s ∧ 4 ≤ alignedLen s := by
  unfold alignedLen
  omega

theorem strlen_done {n len : Nat} (inside : n < bufSize) (zero : arg n = 0) (before : len ≤ n)
    (nonzero : ∀ i, i < n → arg i ≠ 0) : strlen arg len = .done n := by
  induction h : n - len generalizing len with
  | zero =>
    obtain rfl : len = n := by omega
    unfold strlen
    rw [if_pos inside, if_pos zero]
    rfl
  | succ left ih =>
    unfold strlen
    rw [if_pos (by omega), if_neg (nonzero len (by omega))]
    exact ih (by omega) (by omega)

/-- The buffer holds a string. -/
structure Holds (arg : Bytes) (s : List UInt8) : Prop where
  fits : s.length < bufSize
  nonzero : 0 ∉ s
  has : arg.Has 0 (s ++ [0])

theorem Holds.strlen (h : Holds arg s) : strlen arg 0 = .done s.length := by
  have at_ : ∀ i (_ : i < (s ++ [0]).length), arg i = (s ++ [0])[i] := fun i inside => by
    simpa using h.has i inside
  refine strlen_done h.fits ?_ (Nat.zero_le _) fun i before => ?_
  · rw [at_ s.length (by simp)]
    simp
  · rw [at_ i (by simp; omega), List.getElem_append_left before]
    exact fun zero => h.nonzero (zero ▸ List.getElem_mem before)

theorem Holds.getAlignedLength (h : Holds arg s) : getAlignedLength arg 4 = .done (alignedLen s) := by
  unfold ExecBufs.getAlignedLength alignedLen
  rw [h.strlen, Outcome.done_bind]
  dsimp only
  split
  · exact congrArg Outcome.done (by omega)
  · exact congrArg Outcome.done (by omega)

/-- Padding writes behind `p` only, and stays in the buffer just when its last byte does. -/
theorem pad_cases (arg : Bytes) (p diff : Nat) : (∃ arg', pad arg p diff = .done arg' ∧
      (diff = 0 ∨ p + diff < bufSize) ∧ ∀ b, b ≤ p → arg' b = arg b) ∨
    (pad arg p diff = .fault ∧ bufSize ≤ p + diff) := by
  induction diff generalizing arg p with
  | zero => exact .inl ⟨arg, rfl, .inl rfl, fun _ _ => rfl⟩
  | succ diff ih =>
    unfold pad store
    by_cases inside : p + 1 + 1 ≤ bufSize
    · rw [if_pos (by simpa using inside)]
      rcases ih (arg.put (p + 1) [0]) (p + 1) with ⟨arg', pads, bound, same⟩ | ⟨pads, bound⟩
      · refine .inl ⟨arg', pads, .inr (by omega), fun b below => ?_⟩
        rw [same b (by omega), Bytes.put_outside (by omega)]
      · exact .inr ⟨pads, by omega⟩
    · rw [if_neg (by simpa using inside)]
      exact .inr ⟨rfl, by omega⟩

/-- `align_arg` on a string: what it returns is what `get_aligned_length` returns, unless it writes
past the end of the buffer. -/
theorem Holds.alignArg (h : Holds arg s) : (∃ arg', alignArg arg 4 = .done (alignedLen s, arg') ∧
      arg'.Has 0 (s ++ [0]) ∧ alignedLen s ≤ bufSize) ∨
    (alignArg arg 4 = .fault ∧ bufSize ≤ alignedLen s) := by
  unfold ExecBufs.alignArg
  rw [h.strlen, Outcome.done_bind]
  dsimp only
  have size : bufSize = 65536 := rfl
  have fits := h.fits
  split
  · rename_i aligned
    refine .inl ⟨arg, ?_, h.has, ?_⟩
    · exact congrArg (fun n => Outcome.done (n, arg)) (by unfold alignedLen; omega)
    · unfold alignedLen
      omega
  · rename_i unaligned
    have len : s.length + 1 + (4 - (s.length + 1) % 4) = alignedLen s := by
      unfold alignedLen
      omega
    rcases pad_cases arg (s.length + 1) (4 - (s.length + 1) % 4)
      with ⟨arg', pads, bound, same⟩ | ⟨pads, bound⟩
    · rw [pads, Outcome.done_bind, len]
      refine .inl ⟨arg', rfl, h.has.frame fun b _ below => same b ?_, by omega⟩
      simp at below
      omega
    · rw [pads, Outcome.fault_bind]
      exact .inr ⟨rfl, by omega⟩

end Argument

/-! ### The first loop -/

section Loops

variable {mem : UserMem} {p ptr uargs : UInt32} {args rest : List (List UInt8)} {s : List UInt8}
variable {e : ArgvEnd}

theorem bufSize_word : (0x10000 : UInt32).toNat = bufSize := rfl

theorem copyinstr_string {karg karg' : Bytes} : mem.copyinstr ptr karg 0x10000 = (none, karg') ↔
    ∃ s, mem.StringAt ptr.toNat s ∧ s.length < bufSize ∧ ptr.toNat + s.length < 2 ^ 31 ∧
      karg' = karg.put 0 (s ++ [0]) := by
  rw [UserMem.copyinstr_done (by decide) (by decide), bufSize_word]

theorem holds_put {karg : Bytes} (string : mem.StringAt ptr.toNat s) (fits : s.length < bufSize) :
    Holds (karg.put 0 (s ++ [0])) s :=
  ⟨fits, string.nonzero, Bytes.put_has⟩

/-- Behind every pointer there are some strings and an end. -/
theorem exists_argv (mem : UserMem) (p : UInt32) : ∃ args e, Argv mem p args e := by
  induction left : 2 ^ 32 - p.toNat using Nat.strong_induction_on generalizing p with
  | _ n ih =>
    cases read : mem.copyinPtr p with
    | error err => exact ⟨[], _, .word read⟩
    | ok ptr =>
      by_cases null : ptr = 0
      · subst null
        exact ⟨[], _, .null read⟩
      · cases copied : mem.copyinstr ptr (fun _ => 0) 0x10000 with
        | mk result karg =>
          cases result with
          | some err => exact ⟨[], _, .string read null (congrArg Prod.fst copied)⟩
          | none =>
            obtain ⟨s, string, fits, user, _⟩ := copyinstr_string.mp copied
            have next := copyinPtr_next read
            obtain ⟨rest, e, behind⟩ := ih _ (by omega) (p + 4) rfl
            exact ⟨s :: rest, e, .cons read null string fits user behind⟩

/-- The array lies in user space. -/
theorem Argv.words (h : Argv mem p args e) : args.length < argvWords := by
  have inside : args = [] ∨ p.toNat + args.length * 4 ≤ 2 ^ 31 := by
    induction h with
    | null | word | string => exact .inl rfl
    | cons read _ _ _ _ behind ih =>
      have next := copyinPtr_next read
      simp only [List.length_cons]
      rcases ih with rfl | ih
      · exact .inr (by simpa using next.2)
      · exact .inr (by omega)
  have limit : argvWords = 2 ^ 29 + 1 := rfl
  rcases inside with rfl | inside
  · simp [limit]
  · omega

/-- The copy of a string that is an argument. -/
theorem copyinstr_arg {karg : Bytes} (string : mem.StringAt ptr.toNat s) (fits : s.length < bufSize)
    (user : ptr.toNat + s.length < 2 ^ 31) :
    mem.copyinstr ptr karg 0x10000 = (none, karg.put 0 (s ++ [0])) :=
  copyinstr_string.mpr ⟨s, string, fits, user, rfl⟩

/-- The copy of a string that cannot be copied. -/
theorem copyinstr_fails (karg : Bytes) {err : Errno}
    (fails : (mem.copyinstr ptr (fun _ => 0) 0x10000).1 = some err) :
    ∃ karg', mem.copyinstr ptr karg 0x10000 = (some err, karg') :=
  ⟨_, Prod.ext ((UserMem.copyinstr_fst karg _ ptr _).trans fails) rfl⟩

/-- `*buflen` after the first loop. -/
def countLen (buflen : Int) (args : List (List UInt8)) : Int :=
  args.foldl (fun buflen s => int32 (buflen + (alignedLen s + 4))) buflen

/-- What the first loop makes of each end. -/
def ArgvEnd.counted (i : Nat) (buflen : Int) : ArgvEnd → Except Errno Counted
  | .null => .ok ⟨i, none, buflen⟩
  | .word err => .ok ⟨i, some err, buflen⟩
  | .string err => .error err

section CountStep

variable {words i : Nat} {karg karg' : Bytes} {buflen : Int}

theorem countArgs_null (read : mem.copyinPtr p = .ok ptr) (null : ptr = 0) :
    countArgs mem (words + 1) p i buflen karg = .done (.ok ⟨i, none, buflen⟩, karg) := by
  rw [countArgs, countArg, read]
  dsimp only
  rw [if_pos null]
  rfl

theorem countArgs_refused {err : Errno} (read : mem.copyinPtr p = .ok ptr) (nonnull : ptr ≠ 0)
    (copied : mem.copyinstr ptr karg 0x10000 = (some err, karg')) :
    countArgs mem (words + 1) p i buflen karg = .done (.error err, karg') := by
  rw [countArgs, countArg, read]
  dsimp only
  rw [if_neg nonnull, copied]
  rfl

theorem countArgs_next (read : mem.copyinPtr p = .ok ptr) (nonnull : ptr ≠ 0)
    (copied : mem.copyinstr ptr karg 0x10000 = (none, karg')) :
    countArgs mem (words + 1) p i buflen karg = getAlignedLength karg' 4 >>= fun len =>
      countArgs mem words (p + 4) (i + 1) (int32 (buflen + (len + 4))) karg' := by
  rw [countArgs, countArg, read]
  dsimp only
  rw [if_neg nonnull, copied]

end CountStep

theorem countArgs_done (h : Argv mem p args e) {words : Nat} (enough : args.length < words) (i : Nat)
    (buflen : Int) (karg : Bytes) : ∃ karg', countArgs mem words p i buflen karg =
      .done (e.counted (i + args.length) (countLen buflen args), karg') := by
  obtain ⟨words, rfl⟩ : ∃ n, words = n + 1 := ⟨words - 1, by omega⟩
  induction h generalizing words i buflen karg with
  | null read =>
    rw [countArgs_null read rfl]
    exact ⟨karg, rfl⟩
  | word read =>
    rw [countArgs, countArg, read]
    exact ⟨karg, rfl⟩
  | string read nonnull fails =>
    obtain ⟨karg', fails⟩ := copyinstr_fails karg fails
    rw [countArgs_refused read nonnull fails]
    exact ⟨karg', rfl⟩
  | @cons p ptr s rest e read nonnull string fits user behind ih =>
    have holds : Holds (karg.put 0 (s ++ [0])) s := holds_put string fits
    rw [countArgs_next read nonnull (copyinstr_arg string fits user)]
    rw [List.length_cons] at enough
    obtain ⟨words, rfl⟩ : ∃ n, words = n + 1 := ⟨words - 1, by omega⟩
    rw [holds.getAlignedLength, Outcome.done_bind, List.length_cons,
      show i + (rest.length + 1) = i + 1 + rest.length by omega]
    exact ih (i + 1) _ _ words (by omega)

/-! ### The second loop -/

/-- The words at `b` are those of a base and the places of the strings, of which the first is `e`. -/
def Table (buf : Bytes) (enc : UInt32 → List UInt8) (base : UInt32) : Nat → Nat → List (List UInt8) → Prop
  | _, _, [] => True
  | b, e, s :: rest => buf.Has b (enc (base + UInt32.ofNat e)) ∧
      Table buf enc base (b + 4) (e + alignedLen s) rest

/-- The strings from `e` on, each in its aligned space. -/
def Strings (buf : Bytes) : Nat → List (List UInt8) → Prop
  | _, [] => True
  | e, s :: rest => buf.Has e (s ++ [0]) ∧ Strings buf (e + alignedLen s) rest

theorem stringsLen_cons : stringsLen (s :: rest) = alignedLen s + stringsLen rest := by
  simp [stringsLen]

theorem Table.frame {buf buf' : Bytes} {enc : UInt32 → List UInt8} {base : UInt32} {b e : Nat}
    (four : ∀ word, (enc word).length = 4) (h : Table buf enc base b e args)
    (same : ∀ a, b ≤ a → a < b + args.length * 4 → buf' a = buf a) : Table buf' enc base b e args := by
  induction args generalizing b e with
  | nil => trivial
  | cons s rest ih =>
    simp only [List.length_cons] at same
    refine ⟨h.1.frame fun a above below => same a above ?_, ih h.2 fun a above below => same a ?_ ?_⟩
    · rw [four] at below
      omega
    · omega
    · omega

theorem Strings.frame {buf buf' : Bytes} {e : Nat} (h : Strings buf e args)
    (same : ∀ a, e ≤ a → a < e + stringsLen args → buf' a = buf a) : Strings buf' e args := by
  induction args generalizing e with
  | nil => trivial
  | cons s rest ih =>
    have bounds := alignedLen_bounds s
    rw [stringsLen_cons] at same
    refine ⟨h.1.frame fun a above below => same a above ?_, ih h.2 fun a above below => same a ?_ ?_⟩
    · simp only [List.length_append, List.length_singleton] at below
      omega
    · omega
    · omega

section LayStep

variable {words pBegin pEnd nlast : Nat} {lastOffset : UInt32} {bufs : ExecBufs}

theorem layArgs_null (read : mem.copyinPtr p = .ok ptr) (null : ptr = 0) :
    layArgs mem (words + 1) p pBegin pEnd nlast lastOffset bufs = .done (.ok (pBegin, pEnd), bufs) := by
  rw [layArgs, layArg, read]
  change (if ptr = 0 then _ else _) = _
  rw [if_pos null]
  rfl

theorem layArgs_next {karg : Bytes} (read : mem.copyinPtr p = .ok ptr) (nonnull : ptr ≠ 0)
    (copied : mem.copyinstr ptr bufs.karg 0x10000 = (none, karg)) :
    layArgs mem (words + 1) p pBegin pEnd nlast lastOffset bufs =
      alignArg karg 4 >>= fun (aligned, karg) =>
        store bufs.kargbuf pBegin (offsetBytes (lastOffset + UInt32.ofNat nlast)) >>= fun kargbuf =>
        copyArg kargbuf pEnd karg aligned >>= fun kargbuf =>
        layArgs mem words (p + 4) (pBegin + 4) (pEnd + aligned) aligned
          (lastOffset + UInt32.ofNat nlast) ⟨karg, kargbuf⟩ := by
  rw [layArgs, layArg, read]
  change (if ptr = 0 then _ else _) = _
  rw [if_neg nonnull, copied]

theorem layArgs_error {err : Errno} (read : mem.copyinPtr p = .error err) :
    layArgs mem (words + 1) p pBegin pEnd nlast lastOffset bufs = .done (.ok (pBegin, pEnd), bufs) := by
  rw [layArgs, layArg, read]
  rfl

end LayStep

/-- When the strings fit behind the table, the second loop lays out the table and the strings. -/
theorem layArgs_done (h : Argv mem p args e) (read : ∀ err, e ≠ .string err)
    {words : Nat} (enough : args.length < words) {pBegin pEnd nlast : Nat} {lastOffset : UInt32} {bufs : ExecBufs}
    (offset : lastOffset + UInt32.ofNat nlast = UInt32.ofNat pEnd)
    (room : pEnd + stringsLen args ≤ bufSize) (apart : pBegin + args.length * 4 ≤ pEnd) :
    ∃ bufs', layArgs mem words p pBegin pEnd nlast lastOffset bufs =
        .done (.ok (pBegin + args.length * 4, pEnd + stringsLen args), bufs') ∧
      Table bufs'.kargbuf offsetBytes 0 pBegin pEnd args ∧ Strings bufs'.kargbuf pEnd args ∧
      ∀ b, b < pBegin ∨ (pBegin + args.length * 4 ≤ b ∧ b < pEnd) →
        bufs'.kargbuf b = bufs.kargbuf b := by
  obtain ⟨words, rfl⟩ : ∃ n, words = n + 1 := ⟨words - 1, by omega⟩
  induction h generalizing words pBegin pEnd nlast lastOffset bufs with
  | null null =>
    rw [layArgs_null null rfl]
    exact ⟨bufs, rfl, trivial, trivial, fun _ _ => rfl⟩
  | word unread =>
    rw [layArgs_error unread]
    exact ⟨bufs, rfl, trivial, trivial, fun _ _ => rfl⟩
  | string => exact (read _ rfl).elim
  | @cons p ptr s rest e here nonnull string fits user behind ih =>
    have holds : Holds (bufs.karg.put 0 (s ++ [0])) s := holds_put string fits
    have bounds := alignedLen_bounds s
    have size : bufSize = 65536 := rfl
    rw [stringsLen_cons] at room
    simp only [List.length_cons] at apart enough
    obtain ⟨words, rfl⟩ : ∃ n, words = n + 1 := ⟨words - 1, by omega⟩
    rw [layArgs_next here nonnull (copyinstr_arg string fits user)]
    rcases holds.alignArg with ⟨karg, aligns, has, short⟩ | ⟨_, long⟩
    · let table := bufs.kargbuf.put pBegin (offsetBytes (UInt32.ofNat pEnd))
      let filled := table.memmove pEnd karg 0 (alignedLen s)
      obtain ⟨bufs', lays, later, strings, same⟩ := @ih read (pBegin + 4) (pEnd + alignedLen s)
        (alignedLen s) (UInt32.ofNat pEnd) ⟨karg, filled⟩ (UInt32.ofNat_add ..).symm (by omega)
        (by omega) words (by omega)
      have stores : store bufs.kargbuf pBegin (offsetBytes (UInt32.ofNat pEnd)) = .done table :=
        if_pos (by simp only [offsetBytes, List.length_cons, List.length_nil]; omega)
      have copies : copyArg table pEnd karg (alignedLen s) = .done filled :=
        if_pos ⟨by omega, short⟩
      rw [aligns, Outcome.done_bind]
      dsimp only
      rw [offset, stores, Outcome.done_bind, copies, Outcome.done_bind, lays, stringsLen_cons,
        List.length_cons]
      -- the rest of the loop leaves this word and this string alone
      have word : bufs'.kargbuf.Has pBegin (offsetBytes (0 + UInt32.ofNat pEnd)) := by
        rw [UInt32.zero_add]
        have put : table.Has pBegin (offsetBytes (UInt32.ofNat pEnd)) := Bytes.put_has
        refine put.frame fun b above below => ?_
        simp only [offsetBytes, List.length_cons, List.length_nil] at below
        rw [same b (.inl (by omega))]
        exact Bytes.memmove_outside (.inl (by omega))
      have copied : bufs'.kargbuf.Has pEnd (s ++ [0]) := by
        have moved : filled.Has pEnd (s ++ [0]) := has.memmove (by simp; omega)
        refine moved.frame fun b above below => ?_
        simp only [List.length_append, List.length_singleton] at below
        exact same b (.inr ⟨by omega, by omega⟩)
      refine ⟨bufs', ?_, ⟨word, later⟩, ⟨copied, strings⟩, fun b beside => ?_⟩
      · rw [show pBegin + 4 + rest.length * 4 = pBegin + (rest.length + 1) * 4 by omega, Nat.add_assoc]
      · rw [same b (by omega)]
        have away : filled b = table b := Bytes.memmove_outside (.inl (by omega))
        refine away.trans ?_
        exact Bytes.put_outside (by simp only [offsetBytes, List.length_cons, List.length_nil]; omega)
    · omega

/-- When the strings do not fit, the second loop writes past the end of a buffer. -/
theorem layArgs_fault (h : Argv mem p args e) (read : ∀ err, e ≠ .string err)
    {words : Nat} (enough : args.length < words) {pBegin pEnd nlast : Nat} {lastOffset : UInt32} {bufs : ExecBufs}
    (past : bufSize < pEnd + stringsLen args) (more : args ≠ []) :
    layArgs mem words p pBegin pEnd nlast lastOffset bufs = .fault := by
  obtain ⟨words, rfl⟩ : ∃ n, words = n + 1 := ⟨words - 1, by omega⟩
  induction h generalizing words pBegin pEnd nlast lastOffset bufs with
  | null => exact (more rfl).elim
  | word => exact (more rfl).elim
  | string => exact (more rfl).elim
  | @cons p ptr s rest e here nonnull string fits user behind ih =>
    have holds : Holds (bufs.karg.put 0 (s ++ [0])) s := holds_put string fits
    rw [stringsLen_cons] at past
    rw [List.length_cons] at enough
    obtain ⟨words, rfl⟩ : ∃ n, words = n + 1 := ⟨words - 1, by omega⟩
    rw [layArgs_next here nonnull (copyinstr_arg string fits user)]
    rcases holds.alignArg with ⟨karg, aligns, has, short⟩ | ⟨aligns, _⟩
    · rw [aligns, Outcome.done_bind]
      dsimp only
      unfold store
      split
      · rw [Outcome.pure_def, Outcome.done_bind]
        unfold copyArg
        split
        · rename_i room
          rw [Outcome.pure_def, Outcome.done_bind]
          refine ih read (by omega) ?_ words (by omega)
          rintro rfl
          simp only [stringsLen, List.map_nil, List.sum_nil] at past
          omega
        · rfl
      · rfl
    · rw [aligns]
      rfl

/-! ### The whole of `copy_args` -/

theorem int32_small {n : Nat} (small : n ≤ bufSize) : int32 n = n := by
  have size : bufSize = 65536 := rfl
  apply Int.bmod_eq_of_le <;> omega

theorem countLen_cons (buflen : Int) : countLen buflen (s :: rest) =
    countLen (int32 (buflen + (alignedLen s + 4))) rest := rfl

theorem countLen_eq {n : Nat} (fits : n + args.length * 4 + stringsLen args ≤ bufSize) :
    countLen n args = (n + args.length * 4 + stringsLen args : Nat) := by
  induction args generalizing n with
  | nil => simp [countLen, stringsLen]
  | cons s rest ih =>
    rw [stringsLen_cons, List.length_cons] at *
    have step : int32 (n + (alignedLen s + 4)) = (n + (alignedLen s + 4) : Nat) := by
      rw [show (n : Int) + (alignedLen s + 4) = (n + (alignedLen s + 4) : Nat) by omega]
      exact int32_small (by omega)
    rw [countLen_cons, step, ih (by omega)]
    omega

/-- `*buflen` when the image fits. -/
theorem buflen_eq (fits : imageLen args ≤ bufSize) : int32 (countLen 0 args + 4) = imageLen args := by
  unfold imageLen at *
  have counted : countLen 0 args = (0 + args.length * 4 + stringsLen args : Nat) :=
    countLen_eq (n := 0) (by omega)
  rw [counted, show ((0 + args.length * 4 + stringsLen args : Nat) : Int) + 4 =
    ((args.length + 1) * 4 + stringsLen args : Nat) by omega]
  exact int32_small fits

/-- The first loop comes to an end without an error that `copy_args` looks at. -/
def Passed (args : List (List UInt8)) : ArgvEnd → Prop
  | .null => True
  | .word _ => args ≠ []
  | .string _ => False

/-- The kernel buffer with an image of the arguments, its pointers still offsets. -/
structure Image (buf : Bytes) (enc : UInt32 → List UInt8) (base : UInt32)
    (args : List (List UInt8)) : Prop where
  table : Table buf enc base 0 ((args.length + 1) * 4) args
  null : buf.Has (args.length * 4) [0, 0, 0, 0]
  strings : Strings buf ((args.length + 1) * 4) args

theorem placeArgs_done (h : Argv mem uargs args e) (read : ∀ err, e ≠ .string err)
    {buflen : Int} {bufs : ExecBufs} (fits : imageLen args ≤ bufSize) :
    ∃ bufs', placeArgs mem uargs args.length buflen bufs =
        .done (.ok ⟨args.length + 1, int32 (buflen + 4), imageLen args⟩, bufs') ∧
      Image bufs'.kargbuf offsetBytes 0 args := by
  unfold imageLen at fits
  have offset : UInt32.ofNat ((args.length + 1) * 4) + UInt32.ofNat 0 =
      UInt32.ofNat ((args.length + 1) * 4) := by simp
  have lays := @layArgs_done mem uargs args e h read argvWords h.words 0 ((args.length + 1) * 4) 0
    (UInt32.ofNat ((args.length + 1) * 4)) bufs offset fits (by omega)
  obtain ⟨bufs', lays, table, strings, _⟩ := lays
  rw [Nat.zero_add] at lays
  have stores : store bufs'.kargbuf (args.length * 4) [0, 0, 0, 0] =
      .done (bufs'.kargbuf.put (args.length * 4) [0, 0, 0, 0]) :=
    if_pos (by simp only [List.length_cons, List.length_nil]; omega)
  have beside : ∀ a, a < args.length * 4 ∨ (args.length + 1) * 4 ≤ a →
      bufs'.kargbuf.put (args.length * 4) [0, 0, 0, 0] a = bufs'.kargbuf a := by
    intro a away
    apply Bytes.put_outside
    simp only [List.length_cons, List.length_nil]
    omega
  unfold placeArgs
  dsimp only
  rw [lays, Outcome.done_bind]
  dsimp only
  rw [stores, Outcome.done_bind]
  refine ⟨_, rfl, ?_, Bytes.put_has, ?_⟩
  · exact table.frame (fun _ => rfl) fun a _ below => beside a (.inl (by omega))
  · exact strings.frame fun a above _ => beside a (.inr above)

theorem placeArgs_fault (h : Argv mem uargs args e) (read : ∀ err, e ≠ .string err)
    {buflen : Int} {bufs : ExecBufs} (past : bufSize < imageLen args) (more : args ≠ []) :
    placeArgs mem uargs args.length buflen bufs = .fault := by
  unfold placeArgs
  dsimp only
  rw [layArgs_fault h read h.words past more]
  rfl

theorem copyArgs_passed (h : Argv mem uargs args e) (null : uargs ≠ 0) (passed : Passed args e)
    (bufs : ExecBufs) : ∃ karg, copyArgs mem uargs bufs =
      placeArgs mem uargs args.length (countLen 0 args) { bufs with karg := karg } := by
  obtain ⟨karg, counts⟩ := countArgs_done h h.words 0 0 bufs.karg
  refine ⟨karg, ?_⟩
  rw [copyArgs, if_neg null, counts, Outcome.done_bind, Nat.zero_add]
  cases e with
  | null => cases args <;> rfl
  | string err => exact passed.elim
  | word err =>
    cases args with
    | nil => exact (passed rfl).elim
    | cons s rest => rfl

theorem Passed.read (passed : Passed args e) : ∀ err, e ≠ .string err := by
  rintro err rfl
  exact passed

/-- Everything that `copy_args` does. -/
theorem copyArgs_cases (h : Argv mem uargs args e) (bufs : ExecBufs) :
    (uargs = 0 ∧ copyArgs mem uargs bufs = .done (.error .efault, bufs)) ∨
    (uargs ≠ 0 ∧ ¬ Passed args e ∧ ∃ err bufs', (e = .string err ∨ e = .word err) ∧
      copyArgs mem uargs bufs = .done (.error err, bufs')) ∨
    (uargs ≠ 0 ∧ Passed args e ∧ imageLen args ≤ bufSize ∧ ∃ bufs', copyArgs mem uargs bufs =
        .done (.ok ⟨args.length + 1, imageLen args, imageLen args⟩, bufs') ∧
      Image bufs'.kargbuf offsetBytes 0 args) ∨
    (uargs ≠ 0 ∧ Passed args e ∧ bufSize < imageLen args ∧ copyArgs mem uargs bufs = .fault) := by
  by_cases null : uargs = 0
  · exact .inl ⟨null, if_pos null⟩
  right
  by_cases passed : Passed args e
  · right
    obtain ⟨karg, places⟩ := copyArgs_passed h null passed bufs
    rw [places]
    by_cases fits : imageLen args ≤ bufSize
    · obtain ⟨bufs', done, image⟩ := placeArgs_done h passed.read fits
      rw [buflen_eq fits] at done
      exact .inl ⟨null, passed, fits, bufs', done, image⟩
    · refine .inr ⟨null, passed, by omega, placeArgs_fault h passed.read (by omega) ?_⟩
      rintro rfl
      exact fits (by decide)
  · left
    obtain ⟨karg, counts⟩ := countArgs_done h h.words 0 0 bufs.karg
    have code : copyArgs mem uargs bufs = _ := if_neg null
    rw [counts, Outcome.done_bind] at code
    cases e with
    | null => exact (passed trivial).elim
    | string err => exact ⟨null, passed, err, _, .inl rfl, code⟩
    | word err =>
      obtain rfl : args = [] := not_not.mp passed
      exact ⟨null, passed, err, _, .inr rfl, code⟩

end Loops

end Os161
