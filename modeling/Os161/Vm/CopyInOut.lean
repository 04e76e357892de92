import Mathlib.Tactic.SplitIfs
import Os161.Errno
import Os161.Base.Memory
import Os161.Base.Words

/-!
# Copying between user and kernel memory

The functions of `copyinout.c`. A byte that cannot be touched takes the way of `copyfail`: the copy
ends there with `EFAULT`, and what was copied before stays copied.
-/

namespace Os161

/-- The user memory of an address space: the bytes that can be touched. -/
abbrev UserMem := Nat → Option UInt8

namespace UserMem

def userspacetop : UInt32 := 0x80000000

/-- `copycheck` with the `stoplen` that it sets. -/
def copycheck (userptr len : UInt32) : Except Errno UInt32 :=
  let top := userptr + len - 1
  -- addresses wrapped around
  if top < userptr then .error .efault
  -- region is within the kernel
  else if userspacetop ≤ userptr then .error .efault
  -- region overlaps the kernel
  else if userspacetop ≤ top then .ok (userspacetop - userptr)
  else .ok len

/-- The `memcpy` of `copyin`. -/
def readBytes (mem : UserMem) (src : Nat) : Nat → Option (List UInt8)
  | 0 => some []
  | n + 1 => do
    let byte ← mem src
    let rest ← readBytes mem (src + 1) n
    return byte :: rest

def copyin (mem : UserMem) (usersrc len : UInt32) : Except Errno (List UInt8) :=
  match copycheck usersrc len with
  | .error err => .error err
  | .ok stoplen =>
    if stoplen ≠ len then .error .efault
    else match mem.readBytes usersrc.toNat len.toNat with
      | none => .error .efault
      | some bytes => .ok bytes

/-- `copyin` of a pointer. -/
def copyinPtr (mem : UserMem) (usersrc : UInt32) : Except Errno UInt32 :=
  (mem.copyin usersrc 4).map bytesWord

/-- The `memcpy` of `copyout`. -/
def writeBytes (mem : UserMem) (dst : Nat) : List UInt8 → Option Errno × UserMem
  | [] => (none, mem)
  | byte :: rest =>
    match mem dst with
    | none => (some .efault, mem)
    | some _ => writeBytes (Function.update mem dst (some byte)) (dst + 1) rest

def copyout (mem : UserMem) (src : List UInt8) (userdest : UInt32) : Option Errno × UserMem :=
  let len := UInt32.ofNat src.length
  match copycheck userdest len with
  | .error err => (some err, mem)
  | .ok stoplen =>
    if stoplen ≠ len then (some .efault, mem) else mem.writeBytes userdest.toNat src

/-- The loop of `copystr` from `i` on, with what is in `dest` when it ends. -/
def copystr (mem : UserMem) (dest : Bytes) (src maxlen stoplen i : Nat) : Option Errno × Bytes :=
  if i < maxlen ∧ i < stoplen then
    match mem (src + i) with
    | none => (some .efault, dest)
    | some byte =>
      let dest : Bytes := Function.update dest i byte
      if byte = 0 then (none, dest) else copystr mem dest src maxlen stoplen (i + 1)
  -- ran into user-kernel boundary
  else if stoplen < maxlen then (some .efault, dest)
  else (some .enametoolong, dest)
termination_by maxlen - i

def copyinstr (mem : UserMem) (usersrc : UInt32) (dest : Bytes) (len : UInt32) :
    Option Errno × Bytes :=
  match copycheck usersrc len with
  | .error err => (some err, dest)
  | .ok stoplen => mem.copystr dest usersrc.toNat len.toNat stoplen.toNat 0

/-! ### What the copies do -/

/-- The string that starts at an address. -/
structure StringAt (mem : UserMem) (a : Nat) (s : List UInt8) : Prop where
  bytes : ∀ i (_ : i < s.length), mem (a + i) = some s[i]
  nul : mem (a + s.length) = some 0
  nonzero : 0 ∉ s

variable {mem : UserMem}

theorem userspacetop_toNat : userspacetop.toNat = 2 ^ 31 := rfl

/-- A region that does not wrap around is cut off at the end of user space. -/
theorem copycheck_eq (a len : UInt32) (pos : 0 < len.toNat) (short : len.toNat < 2 ^ 31) :
    (a.toNat < 2 ^ 31 ∧ ∃ stop : UInt32, copycheck a len = .ok stop ∧
      stop.toNat = min len.toNat (2 ^ 31 - a.toNat)) ∨
    (2 ^ 31 ≤ a.toNat ∧ copycheck a len = .error .efault) := by
  have small := a.toNat_lt
  by_cases user : a.toNat < 2 ^ 31
  · left
    have top : (a + len - 1).toNat = a.toNat + len.toNat - 1 := by
      rw [UInt32.toNat_sub, UInt32.toNat_add, UInt32.toNat_one]
      omega
    have ordered : ¬ a + len - 1 < a := by
      rw [UInt32.lt_iff_toNat_lt, top]
      omega
    have inside : ¬ userspacetop ≤ a := by
      rw [UInt32.le_iff_toNat_le, userspacetop_toNat]
      omega
    refine ⟨user, ?_⟩
    simp only [copycheck, if_neg ordered, if_neg inside]
    split_ifs with beyond
    · rw [UInt32.le_iff_toNat_le, userspacetop_toNat, top] at beyond
      refine ⟨_, rfl, ?_⟩
      rw [UInt32.toNat_sub, userspacetop_toNat]
      omega
    · rw [UInt32.le_iff_toNat_le, userspacetop_toNat, top] at beyond
      exact ⟨_, rfl, by omega⟩
  · right
    have inside : userspacetop ≤ a := by
      rw [UInt32.le_iff_toNat_le, userspacetop_toNat]
      omega
    refine ⟨by omega, ?_⟩
    simp only [copycheck, if_pos inside]
    split_ifs <;> rfl

theorem copyin_ok {a len : UInt32} {bytes : List UInt8} (pos : 0 < len.toNat)
    (short : len.toNat < 2 ^ 31) : mem.copyin a len = .ok bytes ↔
      a.toNat + len.toNat ≤ 2 ^ 31 ∧ mem.readBytes a.toNat len.toNat = some bytes := by
  rcases copycheck_eq a len pos short with ⟨user, stop, check, limit⟩ | ⟨kernel, check⟩
  · simp only [copyin, check]
    by_cases whole : stop = len
    · subst whole
      rw [if_neg (not_not.mpr rfl)]
      cases mem.readBytes a.toNat stop.toNat with
      | none => simp
      | some read =>
        simp only [Except.ok.injEq, Option.some.injEq, iff_and_self]
        omega
    · have cut : ¬ a.toNat + len.toNat ≤ 2 ^ 31 := fun fits => whole (UInt32.toNat_inj.mp (by omega))
      rw [if_pos whole]
      exact ⟨nofun, fun both => (cut both.1).elim⟩
  · simp only [copyin, check, reduceCtorEq, false_iff, not_and]
    omega

theorem copycheck_error {a len : UInt32} {err : Errno} (h : copycheck a len = .error err) :
    err = .efault := by
  unfold copycheck at h
  dsimp only at h
  split_ifs at h <;> exact (Except.error.inj h).symm

theorem copyin_error {a len : UInt32} {err : Errno} (h : mem.copyin a len = .error err) :
    err = .efault := by
  unfold copyin at h
  split at h
  · rename_i check
    obtain rfl := Except.error.inj h
    exact copycheck_error check
  · split at h
    · exact (Except.error.inj h).symm
    · split at h
      · exact (Except.error.inj h).symm
      · cases h

theorem copyinPtr_ok {a word : UInt32} (h : mem.copyinPtr a = .ok word) :
    a.toNat + 4 ≤ 2 ^ 31 := by
  cases read : mem.copyin a 4 with
  | error err =>
    rw [copyinPtr, read] at h
    cases h
  | ok bytes =>
    have four : (4 : UInt32).toNat = 4 := rfl
    have short : (4 : UInt32).toNat < 2 ^ 31 := by rw [four]; omega
    obtain ⟨fits, _⟩ := (copyin_ok (by decide) short).mp read
    rwa [four] at fits

theorem copyinPtr_error {a : UInt32} {err : Errno} (h : mem.copyinPtr a = .error err) :
    err = .efault := by
  cases read : mem.copyin a 4 with
  | error err' =>
    rw [copyinPtr, read] at h
    obtain rfl : err' = err := Except.error.inj h
    exact copyin_error read
  | ok bytes =>
    rw [copyinPtr, read] at h
    cases h

/-- What `copystr` returns does not depend on what was in the buffer. -/
theorem copystr_fst (dest dest' : Bytes) (src maxlen stoplen i : Nat) :
    (mem.copystr dest src maxlen stoplen i).1 = (mem.copystr dest' src maxlen stoplen i).1 := by
  induction h : maxlen - i generalizing i dest dest' with
  | zero =>
    have done : ¬ (i < maxlen ∧ i < stoplen) := by omega
    unfold copystr
    rw [if_neg done, if_neg done]
    split <;> rfl
  | succ n ih =>
    unfold copystr
    split
    · cases mem (src + i) with
      | none => rfl
      | some byte =>
        dsimp only
        split
        · rfl
        · exact ih _ _ (i + 1) (by omega)
    · split <;> rfl

theorem copyinstr_fst (dest dest' : Bytes) (a len : UInt32) :
    (mem.copyinstr a dest len).1 = (mem.copyinstr a dest' len).1 := by
  simp only [copyinstr]
  split
  · rfl
  · exact copystr_fst ..

theorem StringAt.tail {a : Nat} {byte : UInt8} {s : List UInt8} (h : mem.StringAt a (byte :: s)) :
    mem a = some byte ∧ byte ≠ 0 ∧ mem.StringAt (a + 1) s := by
  have nonzero := h.nonzero
  rw [List.mem_cons, not_or] at nonzero
  refine ⟨h.bytes 0 (by simp), Ne.symm nonzero.1, fun i inside => ?_, ?_, nonzero.2⟩
  · have here := h.bytes (i + 1) (by simpa using inside)
    rw [List.getElem_cons_succ] at here
    rw [← here]
    congr 1
    omega
  · rw [← h.nul]
    congr 1
    simp only [List.length_cons]
    omega

theorem StringAt.cons {a : Nat} {byte : UInt8} {s : List UInt8} (here : mem a = some byte)
    (nonzero : byte ≠ 0) (h : mem.StringAt (a + 1) s) : mem.StringAt a (byte :: s) := by
  refine ⟨fun i inside => ?_, ?_, ?_⟩
  · cases i with
    | zero => exact here
    | succ i =>
      rw [List.getElem_cons_succ, ← h.bytes i (by simpa using inside)]
      congr 1
      omega
  · rw [List.length_cons, ← h.nul]
    congr 1
    omega
  · rw [List.mem_cons, not_or]
    exact ⟨Ne.symm nonzero, h.nonzero⟩

/-- `copystr` goes through just when a string ends before both limits, and then has copied it. -/
theorem copystr_done {dest dest' : Bytes} {src maxlen stoplen i : Nat} :
    mem.copystr dest src maxlen stoplen i = (none, dest') ↔
      ∃ s, mem.StringAt (src + i) s ∧ i + s.length < min maxlen stoplen ∧
        dest' = dest.put i (s ++ [0]) := by
  induction h : maxlen - i generalizing i dest with
  | zero =>
    have done : ¬ (i < maxlen ∧ i < stoplen) := by omega
    unfold copystr
    rw [if_neg done]
    constructor
    · split <;> exact nofun
    · rintro ⟨s, _, short, _⟩
      omega
  | succ n ih =>
    unfold copystr
    split
    · rename_i inside
      cases here : mem (src + i) with
      | none =>
        refine ⟨nofun, fun ⟨s, string, _⟩ => ?_⟩
        cases s with
        | nil => exact absurd (here.symm.trans string.nul) (by simp)
        | cons byte s => exact absurd (here.symm.trans string.tail.1) (by simp)
      | some byte =>
        dsimp only
        split
        · rename_i zero
          subst zero
          have stops : ∀ s, mem.StringAt (src + i) s → s = [] := by
            intro s string
            cases s with
            | nil => rfl
            | cons byte s =>
              obtain ⟨first, nonzero, _⟩ := string.tail
              exact absurd (Option.some.inj (here.symm.trans first)).symm nonzero
          constructor
          · intro copied
            obtain rfl := (Prod.mk.inj copied).2
            refine ⟨[], ⟨nofun, here, List.not_mem_nil⟩, Nat.lt_min.mpr (by simpa using inside), ?_⟩
            rw [List.nil_append, Bytes.put_cons, Bytes.put_nil]
          · rintro ⟨s, string, _, rfl⟩
            obtain rfl := stops s string
            rw [List.nil_append, Bytes.put_cons, Bytes.put_nil]
        · rename_i nonzero
          rw [ih (by omega)]
          constructor
          · rintro ⟨s, string, short, rfl⟩
            refine ⟨byte :: s, .cons here nonzero (by rwa [Nat.add_assoc]), ?_, ?_⟩
            · simp only [List.length_cons]
              omega
            · rw [List.cons_append, Bytes.put_cons]
          · rintro ⟨s, string, short, rfl⟩
            cases s with
            | nil => exact absurd (Option.some.inj (here.symm.trans string.nul)) nonzero
            | cons byte' s =>
              obtain ⟨first, _, rest⟩ := string.tail
              obtain rfl := Option.some.inj (here.symm.trans first)
              simp only [List.length_cons] at short
              refine ⟨s, by rwa [Nat.add_assoc] at rest, by omega, ?_⟩
              rw [List.cons_append, Bytes.put_cons]
    · rename_i outside
      constructor
      · split <;> exact nofun
      · rintro ⟨s, _, short, _⟩
        omega

/-- `copyinstr` goes through just when there is a string that ends in user space and fits. -/
theorem copyinstr_done {a len : UInt32} {dest dest' : Bytes} (pos : 0 < len.toNat)
    (short : len.toNat < 2 ^ 31) : mem.copyinstr a dest len = (none, dest') ↔
      ∃ s, mem.StringAt a.toNat s ∧ s.length < len.toNat ∧ a.toNat + s.length < 2 ^ 31 ∧
        dest' = dest.put 0 (s ++ [0]) := by
  rcases copycheck_eq a len pos short with ⟨user, stop, check, limit⟩ | ⟨kernel, check⟩
  · simp only [copyinstr, check]
    rw [copystr_done]
    constructor
    · rintro ⟨s, string, fits, rfl⟩
      exact ⟨s, string, by omega, by omega, rfl⟩
    · rintro ⟨s, string, fits, user, rfl⟩
      exact ⟨s, string, by omega, rfl⟩
  · simp only [copyinstr, check]
    constructor
    · exact nofun
    · rintro ⟨s, _, _, user, _⟩
      omega

/-- A string has one end. -/
theorem StringAt.unique {a : Nat} {s s' : List UInt8} (h : mem.StringAt a s)
    (h' : mem.StringAt a s') : s = s' := by
  induction s generalizing a s' with
  | nil =>
    cases s' with
    | nil => rfl
    | cons byte s' =>
      obtain ⟨first, nonzero, _⟩ := h'.tail
      exact absurd (Option.some.inj (h.nul.symm.trans first)).symm nonzero
  | cons byte s ih =>
    obtain ⟨first, nonzero, rest⟩ := h.tail
    cases s' with
    | nil => exact absurd (Option.some.inj (h'.nul.symm.trans first)).symm nonzero
    | cons byte' s' =>
      obtain ⟨first', _, rest'⟩ := h'.tail
      obtain rfl := Option.some.inj (first.symm.trans first')
      rw [ih rest rest']

/-- The bytes that `copyout` has copied, and those beside them. -/
theorem writeBytes_done {src : List UInt8} {dst : Nat} {mem' : UserMem}
    (h : mem.writeBytes dst src = (none, mem')) :
    (∀ i (_ : i < src.length), mem' (dst + i) = some src[i]) ∧
      ∀ b, b < dst ∨ dst + src.length ≤ b → mem' b = mem b := by
  induction src generalizing mem dst with
  | nil =>
    obtain rfl := (Prod.mk.inj h).2
    exact ⟨nofun, fun _ _ => rfl⟩
  | cons byte src ih =>
    unfold writeBytes at h
    split at h
    · cases h
    · obtain ⟨inside, outside⟩ := ih h
      constructor
      · intro i short
        cases i with
        | zero =>
          rw [Nat.add_zero, outside dst (by omega)]
          exact Function.update_self ..
        | succ i =>
          rw [List.getElem_cons_succ, ← inside i (by simpa using short)]
          congr 1
          omega
      · intro b beside
        simp only [List.length_cons] at beside
        rw [outside b (by omega)]
        exact Function.update_of_ne (by omega) ..

theorem copyout_done {src : List UInt8} {a : UInt32} {mem' : UserMem} (pos : 0 < src.length)
    (short : src.length < 2 ^ 31) (h : mem.copyout src a = (none, mem')) :
    a.toNat + src.length ≤ 2 ^ 31 ∧ (∀ i (_ : i < src.length), mem' (a.toNat + i) = some src[i]) ∧
      ∀ b, b < a.toNat ∨ a.toNat + src.length ≤ b → mem' b = mem b := by
  have len : (UInt32.ofNat src.length).toNat = src.length := by
    rw [UInt32.toNat_ofNat']
    omega
  rcases copycheck_eq a (UInt32.ofNat src.length) (by omega) (by omega)
    with ⟨user, stop, check, limit⟩ | ⟨kernel, check⟩
  · simp only [copyout, check] at h
    split at h
    · cases h
    · rename_i whole
      rw [not_not] at whole
      rw [whole, len] at limit
      exact ⟨by omega, writeBytes_done h⟩
  · simp only [copyout, check] at h
    cases h

end UserMem

end Os161
