import Os161.Syscall.ExecArgs

/-!
# The image of the arguments

What `copy_args`, `adjust_kargbuf` and the `copyout` of `sys_execv` leave in the memory of the new
program.
-/

set_option linter.unusedSectionVars false

namespace Os161

open ExecBufs

def userstack : UInt32 := 0x80000000

/-- The arguments as the new program finds them. -/
structure UserImage (new : UserMem) (stackPtr : Nat) (args : List (List UInt8)) : Prop where
  aligned : stackPtr % 4 = 0
  pointers : ∀ i (_ : i < args.length), ∃ ptr : UInt32,
    new.readBytes (stackPtr + i * 4) 4 = some (wordBytes ptr) ∧ stackPtr ≤ ptr.toNat ∧
      ptr.toNat + args[i].length < userstack.toNat ∧ new.StringAt ptr.toNat args[i]
  null : new.readBytes (stackPtr + args.length * 4) 4 = some (wordBytes 0)

section

variable {mem new : UserMem} {uargs stackPtr : UInt32} {buf : Bytes} {args rest : List (List UInt8)}
variable {s : List UInt8}

/-- Where the string of an argument starts. -/
def placeOf (args : List (List UInt8)) (i : Nat) : Nat :=
  (args.length + 1) * 4 + stringsLen (args.take i)

theorem Table.get {enc : UInt32 → List UInt8} {base : UInt32} {b e i : Nat}
    (h : Table buf enc base b e args) (inside : i < args.length) :
    buf.Has (b + i * 4) (enc (base + UInt32.ofNat (e + stringsLen (args.take i)))) := by
  induction args generalizing b e i with
  | nil => cases inside
  | cons s rest ih =>
    cases i with
    | zero => simpa [stringsLen] using h.1
    | succ i =>
      have later := ih h.2 (Nat.lt_of_succ_lt_succ inside)
      rw [List.take_succ_cons, stringsLen_cons, ← Nat.add_assoc,
        show b + (i + 1) * 4 = b + 4 + i * 4 by omega]
      exact later

theorem Strings.get {e i : Nat} (h : Strings buf e args) (inside : i < args.length) :
    buf.Has (e + stringsLen (args.take i)) (args[i] ++ [0]) := by
  induction args generalizing e i with
  | nil => cases inside
  | cons s rest ih =>
    cases i with
    | zero => simpa [stringsLen] using h.1
    | succ i =>
      have later := ih h.2 (Nat.lt_of_succ_lt_succ inside)
      rw [List.take_succ_cons, stringsLen_cons, ← Nat.add_assoc]
      exact later

theorem stringsLen_take {i : Nat} (inside : i < args.length) :
    stringsLen (args.take i) + alignedLen args[i] ≤ stringsLen args := by
  induction args generalizing i with
  | nil => cases inside
  | cons s rest ih =>
    rw [stringsLen_cons]
    cases i with
    | zero => simp [stringsLen]
    | succ i =>
      have later := ih (Nat.lt_of_succ_lt_succ inside)
      rw [List.take_succ_cons, stringsLen_cons, List.getElem_cons_succ]
      omega

theorem imageLen_aligned (args : List (List UInt8)) : imageLen args % 4 = 0 := by
  have strings : stringsLen args % 4 = 0 := by
    induction args with
    | nil => rfl
    | cons s rest ih =>
      rw [stringsLen_cons]
      unfold alignedLen
      omega
  unfold imageLen
  omega

/-- User memory that holds the bytes of a kernel buffer. -/
theorem readBytes_has {bytes : List UInt8} {a b n : Nat} (h : buf.Has b bytes)
    (copied : ∀ i, i < n → new (a + i) = some (buf i)) (inside : b + bytes.length ≤ n) :
    new.readBytes (a + b) bytes.length = some bytes := by
  induction bytes generalizing b with
  | nil => rfl
  | cons byte bytes ih =>
    have first : buf b = byte := h 0 (by simp)
    have rest : buf.Has (b + 1) bytes := fun i short => by
      rw [show b + 1 + i = b + (i + 1) by omega]
      exact h (i + 1) (by simpa using short)
    simp only [List.length_cons] at inside ⊢
    rw [UserMem.readBytes, copied b (by omega), Nat.add_assoc, ih rest (by omega), first]
    rfl

theorem stringAt_has {a b n : Nat} (h : buf.Has b (s ++ [0])) (nonzero : 0 ∉ s)
    (copied : ∀ i, i < n → new (a + i) = some (buf i)) (inside : b + s.length < n) :
    new.StringAt (a + b) s := by
  refine ⟨fun i short => ?_, ?_, nonzero⟩
  · rw [Nat.add_assoc, copied (b + i) (by omega), h i (by simp; omega),
      List.getElem_append_left short]
  · rw [Nat.add_assoc, copied (b + s.length) (by omega), h s.length (by simp)]
    simp

theorem Argv.nonzero {e : ArgvEnd} (h : Argv mem uargs args e) : ∀ s ∈ args, 0 ∉ s := by
  induction h with
  | null | word | string => exact nofun
  | cons _ _ string _ _ _ ih =>
    intro s member
    rcases List.mem_cons.mp member with rfl | member
    · exact string.nonzero
    · exact ih s member

/-- The bytes of an image with its pointers set, copied to the top of user memory. -/
theorem Image.copied (h : Image buf wordBytes stackPtr args) (nonzero : ∀ s ∈ args, 0 ∉ s)
    (fits : imageLen args ≤ bufSize) (top : stackPtr.toNat = userstack.toNat - imageLen args)
    (copied : ∀ i, i < imageLen args → new (stackPtr.toNat + i) = some (buf i)) :
    UserImage new stackPtr.toNat args := by
  have size : bufSize = 65536 := rfl
  have userTop : userstack.toNat = 2 ^ 31 := rfl
  have aligned := imageLen_aligned args
  have whole : imageLen args = (args.length + 1) * 4 + stringsLen args := rfl
  refine ⟨by omega, fun i inside => ?_, ?_⟩
  · let place := (args.length + 1) * 4 + stringsLen (args.take i)
    have before := stringsLen_take inside
    have bounds := alignedLen_bounds args[i]
    have ptr : (stackPtr + UInt32.ofNat place).toNat = stackPtr.toNat + place := by
      rw [UInt32.toNat_add, UInt32.toNat_ofNat']
      omega
    have word := h.table.get inside
    rw [Nat.zero_add] at word
    refine ⟨stackPtr + UInt32.ofNat place, ?_, by omega, ?_, ?_⟩
    · exact readBytes_has word copied (by simp only [wordBytes, List.length_cons, List.length_nil]; omega)
    · rw [ptr]
      omega
    · rw [ptr]
      exact stringAt_has (h.strings.get inside) (nonzero _ (List.getElem_mem inside)) copied (by omega)
  · exact readBytes_has h.null copied (by simp only [List.length_cons, List.length_nil]; omega)

end

/-! ### Runs on small arguments -/

/-- Two words, of which the second is the terminator, and the string that the first points to. -/
def oneArg (bytes : Nat → UInt8) : UserMem := fun a =>
  if a < 0x1000 then none
  else if a < 0x1008 then some (if a = 0x1002 then 0x20 else 0)
  else if a < 0x2000 then none
  else some (bytes (a - 0x2000))

theorem oneArg_string (bytes : Nat → UInt8) (i : Nat) :
    oneArg bytes ((0x2000 : UInt32).toNat + i) = some (bytes i) := by
  rw [show (0x2000 : UInt32).toNat = 0x2000 from rfl]
  unfold oneArg
  rw [if_neg (by omega), if_neg (by omega), if_neg (by omega), Nat.add_sub_cancel_left]

theorem oneArg_argv {bytes : Nat → UInt8} {s : List UInt8} (fits : s.length < bufSize)
    (string : ∀ i (_ : i < s.length), bytes i = s[i]) (nul : bytes s.length = 0) (nonzero : 0 ∉ s) :
    Argv (oneArg bytes) 0x1000 [s] .null := by
  have size : bufSize = 65536 := rfl
  have pointer : (oneArg bytes).copyinPtr 0x1000 = .ok 0x2000 := rfl
  refine .cons pointer (by decide) ⟨fun i inside => ?_, ?_, nonzero⟩ fits ?_ (.null rfl)
  · exact (oneArg_string bytes i).trans (congrArg some (string i inside))
  · exact (oneArg_string bytes s.length).trans (congrArg some nul)
  · change 0x2000 + s.length < 2 ^ 31
    omega

end Os161
