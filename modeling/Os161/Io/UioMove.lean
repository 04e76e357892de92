import Mathlib.Algebra.BigOperators.Group.List.Basic
import Os161.Io.Uio

/-!
# Moves over many blocks

What `uiomove` moves, for any list of blocks, and what it has moved when a copy fails. A move that asks
for more than `uio_resid` only stops there if the end of a block is there.
-/

namespace Os161

/-- The addresses that a list of blocks names, in order. -/
def addresses (iovs : List Iovec) : List Nat := iovs.flatMap fun iov => List.range' iov.iovBase iov.iovLen

/-- The total length of the blocks. -/
def total (iovs : List Iovec) : Nat := (iovs.map Iovec.iovLen).sum

/-- The blocks when so many bytes more have been moved. -/
def consume : List Iovec → Nat → List Iovec
  | [], _ => []
  | iov :: rest, n =>
    if n = 0 then iov :: rest
    else if n ≤ iov.iovLen then ⟨iov.iovBase + n, iov.iovLen - n⟩ :: rest
    else consume rest (n - iov.iovLen)

/-- Some of the blocks end just after so many bytes. -/
def Ends (iovs : List Iovec) (n : Nat) : Prop := ∃ k, total (iovs.take k) = n

section Blocks

variable {iov : Iovec} {iovs rest : List Iovec} {m n : Nat}

@[simp] theorem addresses_cons :
    addresses (iov :: rest) = List.range' iov.iovBase iov.iovLen ++ addresses rest := rfl

@[simp] theorem total_nil : total [] = 0 := rfl

@[simp] theorem total_cons : total (iov :: rest) = iov.iovLen + total rest := rfl

theorem addresses_length : (addresses iovs).length = total iovs := by
  induction iovs with
  | nil => rfl
  | cons iov rest ih => simp [ih]

@[simp] theorem consume_zero : consume iovs 0 = iovs := by
  cases iovs with
  | nil => rfl
  | cons iov rest => exact if_pos rfl

theorem consume_inside (some : 0 < n) (inside : n ≤ iov.iovLen) :
    consume (iov :: rest) n = ⟨iov.iovBase + n, iov.iovLen - n⟩ :: rest := by
  rw [consume, if_neg (by omega), if_pos inside]

theorem consume_past (past : iov.iovLen < n) : consume (iov :: rest) n = consume rest (n - iov.iovLen) := by
  rw [consume, if_neg (by omega), if_neg (by omega)]

theorem consume_empty (empty : iov.iovLen = 0) (some : 0 < n) :
    consume (iov :: rest) n = consume rest n := by
  rw [consume_past (by omega), empty, Nat.sub_zero]

theorem consume_first (some : 0 < m) (inside : m ≤ iov.iovLen) :
    consume (iov :: rest) (m + n) =
      consume (⟨iov.iovBase + m, iov.iovLen - m⟩ :: rest) n := by
  by_cases none : n = 0
  · rw [none, Nat.add_zero, consume_zero, consume_inside some inside]
  · by_cases all : m + n ≤ iov.iovLen
    · rw [consume_inside (by omega) all, consume_inside (by omega) (by dsimp only; omega)]
      dsimp only
      congr 2 <;> omega
    · rw [consume_past (by omega), consume_past (by dsimp only; omega)]
      dsimp only
      congr 1
      omega

theorem consume_consume : consume (consume iovs m) n = consume iovs (m + n) := by
  induction iovs generalizing m with
  | nil => rfl
  | cons iov rest ih =>
    by_cases none : m = 0
    · rw [none, consume_zero, Nat.zero_add]
    · by_cases inside : m ≤ iov.iovLen
      · rw [consume_inside (by omega) inside, consume_first (by omega) inside]
      · rw [consume_past (by omega), consume_past (by omega), ih]
        congr 1
        omega

theorem addresses_first (inside : m ≤ iov.iovLen) :
    addresses (iov :: rest) = List.range' iov.iovBase m ++
      addresses (⟨iov.iovBase + m, iov.iovLen - m⟩ :: rest) := by
  rw [addresses_cons, addresses_cons, ← List.append_assoc]
  dsimp only
  rw [List.range'_append_1, Nat.add_sub_cancel' inside]

theorem ends_empty (empty : iov.iovLen = 0) : Ends (iov :: rest) n ↔ Ends rest n := by
  constructor
  · rintro ⟨k, ends⟩
    cases k with
    | zero => exact ⟨0, ends⟩
    | succ k =>
      rw [List.take_succ_cons, total_cons, empty, Nat.zero_add] at ends
      exact ⟨k, ends⟩
  · rintro ⟨k, ends⟩
    refine ⟨k + 1, ?_⟩
    rw [List.take_succ_cons, total_cons, empty, Nat.zero_add, ends]

/-- An end that is not at the start lies behind the first block. -/
theorem Ends.first_le (ends : Ends (iov :: rest) n) (some : 0 < n) : iov.iovLen ≤ n := by
  obtain ⟨k, ends⟩ := ends
  cases k with
  | zero =>
    rw [← ends] at some
    exact absurd some (Nat.lt_irrefl 0)
  | succ k =>
    rw [List.take_succ_cons, total_cons] at ends
    omega

theorem ends_first (inside : m ≤ iov.iovLen) (whole : iov.iovLen ≤ n) :
    Ends (⟨iov.iovBase + m, iov.iovLen - m⟩ :: rest) (n - m) ↔ Ends (iov :: rest) n := by
  constructor
  · rintro ⟨k, ends⟩
    cases k with
    | zero =>
      rw [List.take_zero, total_nil] at ends
      refine ⟨1, ?_⟩
      rw [List.take_succ_cons, total_cons, List.take_zero, total_nil]
      omega
    | succ k =>
      rw [List.take_succ_cons, total_cons] at ends
      dsimp only at ends
      refine ⟨k + 1, ?_⟩
      rw [List.take_succ_cons, total_cons]
      omega
  · rintro ⟨k, ends⟩
    cases k with
    | zero =>
      rw [List.take_zero, total_nil] at ends
      exact ⟨0, by rw [List.take_zero, total_nil]; omega⟩
    | succ k =>
      rw [List.take_succ_cons, total_cons] at ends
      refine ⟨k + 1, ?_⟩
      rw [List.take_succ_cons, total_cons]
      dsimp only
      omega

theorem total_consume (inside : n ≤ total iovs) : total (consume iovs n) = total iovs - n := by
  induction iovs generalizing n with
  | nil => exact (Nat.zero_sub n).symm
  | cons iov rest ih =>
    rw [total_cons] at inside
    by_cases none : n = 0
    · rw [none, consume_zero, Nat.sub_zero]
    · by_cases first : n ≤ iov.iovLen
      · rw [consume_inside (by omega) first, total_cons, total_cons]
        dsimp only
        omega
      · rw [consume_past (by omega), ih (by omega), total_cons]
        omega

theorem Ends.consume (ends : Ends iovs n) (inside : m ≤ n) : Ends (Os161.consume iovs m) (n - m) := by
  induction iovs generalizing m n with
  | nil =>
    obtain ⟨k, ends⟩ := ends
    rw [List.take_nil, total_nil] at ends
    exact ⟨0, by rw [List.take_zero, total_nil]; omega⟩
  | cons iov rest ih =>
    by_cases none : m = 0
    · rw [none, consume_zero]
      exact ends
    · have whole := ends.first_le (by omega)
      by_cases first : m ≤ iov.iovLen
      · rw [consume_inside (by omega) first]
        exact (ends_first first whole).mpr ends
      · rw [consume_past (by omega)]
        have past : Ends rest (n - iov.iovLen) := by
          have moved := (ends_first (Nat.le_refl _) whole).mpr ends
          rwa [ends_empty (Nat.sub_self _)] at moved
        have later : Ends (Os161.consume rest (m - iov.iovLen)) (n - iov.iovLen - (m - iov.iovLen)) :=
          ih past (by omega)
        have same : n - iov.iovLen - (m - iov.iovLen) = n - m := by omega
        rwa [same] at later

end Blocks

/-- `uio_resid` lets all `n` bytes pass, or it ends where a block ends. -/
def Uio.Whole {Space : Type} (uio : Uio Space) (n : Nat) : Prop :=
  n ≤ uio.uioResid.toNat ∨ Ends uio.uioIov uio.uioResid.toNat

namespace Transfer

variable {Space User : Type} {copy : UserCopy User} {byte : User → Bytes}

/-- From `t` to `u` so many bytes have been moved between the blocks, in order, and the buffer from
`ptr` on, and the `uio` is that much further. -/
structure Moved (byte : User → Bytes) (ptr n : Nat) (t u : Transfer Space User) : Prop where
  uio : u.uio = { t.uio with
    uioIov := u.uio.uioIov
    uioOffset := t.uio.uioOffset + n
    uioResid := t.uio.uioResid - UInt32.ofNat n }
  iov : addresses u.uio.uioIov = (addresses t.uio.uioIov).drop n
  space : u.memory.tAddrspace = t.memory.tAddrspace
  other : if t.uio.uioSegflg = .sysspace then u.memory.user = t.memory.user
    else u.memory.kernel = t.memory.kernel
  write : t.uio.uioRw = .write → u.memory = t.memory ∧
    u.buf = t.buf.gather ptr (t.memory.at byte t.uio.uioSegflg) ((addresses t.uio.uioIov).take n)
  read : t.uio.uioRw = .read → u.buf = t.buf ∧ u.memory.at byte t.uio.uioSegflg =
    (t.memory.at byte t.uio.uioSegflg).scatter ((addresses t.uio.uioIov).take n) t.buf ptr

/-- What comes back from a move of `n` bytes: all of them that `uio_resid` lets pass, or the fault of the
copy that comes behind `k` of them. -/
inductive Right (copy : UserCopy User) (byte : User → Bytes) (ptr n : Nat) (t : Transfer Space User) :
    Option Errno × Transfer Space User → Prop where
  | all {u : Transfer Space User} : Moved byte ptr (min n t.uio.uioResid.toNat) t u →
      u.uio.uioIov = consume t.uio.uioIov (min n t.uio.uioResid.toNat) → Right copy byte ptr n t (none, u)
  | fault {k : Nat} {mid u : Transfer Space User} {iov : Iovec} {rest : List Iovec} :
      k < min n t.uio.uioResid.toNat → Moved byte ptr k t mid → mid.uio.uioIov = iov :: rest →
      mid.moveBlock copy (ptr + k) iov.iovBase (min iov.iovLen (n - k)) = (some .efault, u) →
      Right copy byte ptr n t (some .efault, u)

section Moved

variable {t u v : Transfer Space User} {ptr m n : Nat} {iov : Iovec} {rest : List Iovec}

theorem Moved.refl (byte : User → Bytes) (ptr : Nat) (t : Transfer Space User) : Moved byte ptr 0 t t where
  uio := by simp
  iov := rfl
  space := rfl
  other := by split <;> rfl
  write _ := ⟨rfl, rfl⟩
  read _ := ⟨rfl, rfl⟩

theorem Moved.segflg (h : Moved byte ptr n t u) : u.uio.uioSegflg = t.uio.uioSegflg := by
  rw [h.uio]

theorem Moved.rw (h : Moved byte ptr n t u) : u.uio.uioRw = t.uio.uioRw := by
  rw [h.uio]

theorem Moved.trans (first : Moved byte ptr m t u) (inside : m ≤ total t.uio.uioIov)
    (second : Moved byte (ptr + m) n u v) : Moved byte ptr (m + n) t v := by
  have taken : ((addresses t.uio.uioIov).take m).length = m := by
    rw [List.length_take, addresses_length, Nat.min_eq_left inside]
  constructor
  · rw [second.uio, first.uio]
    dsimp only
    congr 1
    · push_cast
      omega
    · rw [UInt32.ofNat_add]
      grind
  · rw [second.iov, first.iov, List.drop_drop]
  · exact second.space.trans first.space
  · have one := first.other
    have two := second.other
    rw [first.segflg] at two
    split at one
    · rw [if_pos ‹_›] at two ⊢
      exact two.trans one
    · rw [if_neg ‹_›] at two ⊢
      exact two.trans one
  · intro dir
    obtain ⟨memory, buf⟩ := first.write dir
    obtain ⟨memory', buf'⟩ := second.write (first.rw.trans dir)
    refine ⟨memory'.trans memory, ?_⟩
    rw [buf', buf, memory, first.segflg, first.iov, List.take_add, Bytes.gather_append, taken]
  · intro dir
    obtain ⟨buf, memory⟩ := first.read dir
    obtain ⟨buf', memory'⟩ := second.read (first.rw.trans dir)
    refine ⟨buf'.trans buf, ?_⟩
    rw [first.segflg] at memory'
    rw [memory', memory, buf, first.iov, List.take_add, Bytes.scatter_append, taken]

/-- An empty block is left behind. -/
theorem Moved.skip (blocks : t.uio.uioIov = iov :: rest) (empty : iov.iovLen = 0)
    (h : Moved byte ptr n { t with uio := { t.uio with uioIov := rest } } u) : Moved byte ptr n t u := by
  have same : addresses t.uio.uioIov = addresses rest := by
    rw [blocks, addresses_cons, empty]
    rfl
  exact ⟨h.uio, same ▸ h.iov, h.space, h.other, same ▸ h.write, same ▸ h.read⟩

/-- A copy that goes through has moved its bytes, and leaves the other memory alone. -/
theorem moveBlock_done (sound : copy.Sound byte) {base : Nat}
    (goes : t.moveBlock copy ptr base n = (none, u)) :
    u.memory.tAddrspace = t.memory.tAddrspace ∧
      (if t.uio.uioSegflg = .sysspace then u.memory.user = t.memory.user
        else u.memory.kernel = t.memory.kernel) ∧
      (t.uio.uioRw = .write → u.memory = t.memory ∧
        u.buf = t.buf.memmove ptr (t.memory.at byte t.uio.uioSegflg) base n) ∧
      (t.uio.uioRw = .read → u.buf = t.buf ∧ u.memory.at byte t.uio.uioSegflg =
        (t.memory.at byte t.uio.uioSegflg).memmove base t.buf ptr n) := by
  have write : t.uio.uioRw = .write → t.uio.uioSegflg ≠ .sysspace →
      (copy.copyin t.memory.user base t.buf ptr n).1 = none ∧
        u = { t with buf := (copy.copyin t.memory.user base t.buf ptr n).2 } := by
    intro dir user
    unfold moveBlock at goes
    rw [dir] at goes
    cases seg : t.uio.uioSegflg with
    | sysspace => exact (user seg).elim
    | userspace =>
      rw [seg] at goes
      exact ⟨congrArg Prod.fst goes, (congrArg Prod.snd goes).symm⟩
    | userispace =>
      rw [seg] at goes
      exact ⟨congrArg Prod.fst goes, (congrArg Prod.snd goes).symm⟩
  have read : t.uio.uioRw = .read → t.uio.uioSegflg ≠ .sysspace →
      (copy.copyout t.buf ptr t.memory.user base n).1 = none ∧
        u = { t with memory.user := (copy.copyout t.buf ptr t.memory.user base n).2 } := by
    intro dir user
    unfold moveBlock at goes
    rw [dir] at goes
    cases seg : t.uio.uioSegflg with
    | sysspace => exact (user seg).elim
    | userspace =>
      rw [seg] at goes
      exact ⟨congrArg Prod.fst goes, (congrArg Prod.snd goes).symm⟩
    | userispace =>
      rw [seg] at goes
      exact ⟨congrArg Prod.fst goes, (congrArg Prod.snd goes).symm⟩
  have looks : ∀ m : Memory Space User, t.uio.uioSegflg ≠ .sysspace →
      m.at byte t.uio.uioSegflg = byte m.user := by
    intro m user
    cases seg : t.uio.uioSegflg with
    | sysspace => exact (user seg).elim
    | userspace => rfl
    | userispace => rfl
  by_cases kernel : t.uio.uioSegflg = .sysspace
  · rw [if_pos kernel]
    unfold moveBlock at goes
    cases dir : t.uio.uioRw with
    | read =>
      rw [kernel, dir] at goes
      cases goes
      rw [kernel]
      exact ⟨rfl, rfl, nofun, fun _ => ⟨rfl, rfl⟩⟩
    | write =>
      rw [kernel, dir] at goes
      cases goes
      rw [kernel]
      exact ⟨rfl, rfl, fun _ => ⟨rfl, rfl⟩, nofun⟩
  · rw [if_neg kernel, looks _ kernel, looks _ kernel]
    cases dir : t.uio.uioRw with
    | read =>
      obtain ⟨all, rfl⟩ := read dir kernel
      exact ⟨rfl, rfl, nofun, fun _ => ⟨rfl, sound.copyout _ _ _ _ _ all⟩⟩
    | write =>
      obtain ⟨all, rfl⟩ := write dir kernel
      exact ⟨rfl, rfl, fun _ => ⟨rfl, sound.copyin _ _ _ _ _ all⟩, nofun⟩

/-- One copy of the loop, and what the `uio` is after it. -/
theorem moveBlock_moved (sound : copy.Sound byte) (blocks : t.uio.uioIov = iov :: rest)
    (inside : n ≤ iov.iovLen) (goes : t.moveBlock copy ptr iov.iovBase n = (none, u)) :
    Moved byte ptr n t { u with uio := { t.uio with
      uioIov := ⟨iov.iovBase + n, iov.iovLen - n⟩ :: rest
      uioOffset := t.uio.uioOffset + n
      uioResid := t.uio.uioResid - UInt32.ofNat n } } := by
  have first : addresses t.uio.uioIov = List.range' iov.iovBase n ++
      addresses (⟨iov.iovBase + n, iov.iovLen - n⟩ :: rest) := by
    rw [blocks]
    exact addresses_first inside
  have length : (List.range' iov.iovBase n).length = n := List.length_range'
  have taken : (addresses t.uio.uioIov).take n = List.range' iov.iovBase n := by
    rw [first, List.take_append_of_le_length (by omega), List.take_of_length_le (by omega)]
  have dropped : (addresses t.uio.uioIov).drop n =
      addresses (⟨iov.iovBase + n, iov.iovLen - n⟩ :: rest) := by
    rw [first, List.drop_append_of_le_length (by omega), List.drop_of_length_le (by omega),
      List.nil_append]
  obtain ⟨space, other, write, read⟩ := moveBlock_done sound goes
  constructor
  · rfl
  · exact dropped.symm
  · exact space
  · exact other
  · rw [taken, ← Bytes.memmove_gather]
    exact write
  · rw [taken, ← Bytes.memmove_scatter]
    exact read

theorem moveBlock_fault (sound : copy.Sound byte) {base : Nat} {err : Errno}
    (goes : t.moveBlock copy ptr base n = (some err, u)) : err = .efault := by
  unfold moveBlock at goes
  split at goes
  · cases goes
  · cases goes
  · exact sound.copyoutFault _ _ _ _ _ err (congrArg Prod.fst goes)
  · exact sound.copyinFault _ _ _ _ _ err (congrArg Prod.fst goes)

/-- A copy that fails leaves the `uio` alone. -/
theorem moveBlock_uio {base : Nat} {result : Option Errno}
    (goes : t.moveBlock copy ptr base n = (result, u)) : u.uio = t.uio := by
  unfold moveBlock at goes
  split at goes <;> cases goes <;> rfl

theorem uiomove_fault [DecidableEq Space] (sound : copy.Sound byte) {err : Errno}
    (goes : t.uiomove copy n = .done (some err, u)) : err = .efault := by
  have loop : ∀ {ptr n : Nat} {t : Transfer Space User},
      moveBlocks copy ptr n t = .done (some err, u) → err = .efault := by
    intro ptr n t goes
    fun_induction moveBlocks copy ptr n t with
    | case1 => cases goes
    | case2 => cases goes
    | case3 _ _ _ _ _ _ _ _ _ _ ih => exact ih goes
    | case4 ptr n t some iov rest blocks size positive err' moved fails =>
      cases goes
      exact moveBlock_fault sound fails
    | case5 _ _ _ _ _ _ _ _ _ _ _ ih => exact ih goes
    | case6 => cases goes
  unfold uiomove at goes
  split at goes <;> obtain ⟨-, -, goes⟩ := Outcome.bind_done.mp goes <;> exact loop goes

theorem Right.skip {out : Option Errno × Transfer Space User} (blocks : t.uio.uioIov = iov :: rest)
    (empty : iov.iovLen = 0) (some : 0 < min n t.uio.uioResid.toNat)
    (h : Right copy byte ptr n { t with uio := { t.uio with uioIov := rest } } out) :
    Right copy byte ptr n t out := by
  cases h with
  | all moved consumed =>
    refine .all (moved.skip blocks empty) ?_
    rw [consumed, blocks, consume_empty empty some]
  | fault short moved next fails => exact .fault short (moved.skip blocks empty) next fails

/-- A copy, and the moves after it. -/
theorem Right.next {out : Option Errno × Transfer Space User} (blocks : t.uio.uioIov = iov :: rest)
    (inside : m ≤ iov.iovLen) (some : 0 < m) (fits : m ≤ min n t.uio.uioResid.toNat)
    (first : Moved byte ptr m t u)
    (iovs : u.uio.uioIov = ⟨iov.iovBase + m, iov.iovLen - m⟩ :: rest)
    (h : Right copy byte (ptr + m) (n - m) u out) : Right copy byte ptr n t out := by
  have resid : u.uio.uioResid.toNat = t.uio.uioResid.toNat - m := by
    rw [first.uio]
    exact Uio.advance_resid (Nat.le_trans fits (Nat.min_le_right ..))
  have whole : m + min (n - m) u.uio.uioResid.toNat = min n t.uio.uioResid.toNat := by
    rw [resid]
    omega
  have room : m ≤ total t.uio.uioIov := by
    rw [blocks, total_cons]
    omega
  cases h with
  | all moved consumed =>
    refine .all ?_ ?_
    · rw [← whole]
      exact first.trans room moved
    · rw [consumed, iovs, ← whole, blocks, consume_first some inside]
  | @fault k mid u iov rest short moved next fails =>
    have place : ptr + (m + k) = ptr + m + k := by omega
    have left : n - (m + k) = n - m - k := by omega
    refine .fault (by omega) (first.trans room moved) next ?_
    rw [place, left]
    exact fails

/-- The loop moves what it should if `uio_resid` cuts no block. -/
theorem moveBlocks_right (sound : copy.Sound byte) (room : t.uio.uioResid.toNat ≤ total t.uio.uioIov)
    (cut : t.uio.Whole n) :
    ∃ out, moveBlocks copy ptr n t = .done out ∧ Right copy byte ptr n t out := by
  fun_induction moveBlocks copy ptr n t with
  | case1 ptr n t some blocks =>
    have left : 0 < t.uio.uioResid.toNat := UInt32.lt_iff_toNat_lt.mp some.2
    rw [blocks, total_nil] at room
    omega
  | case2 ptr n t some iov size empty blocks =>
    have left : 0 < t.uio.uioResid.toNat := UInt32.lt_iff_toNat_lt.mp some.2
    rw [blocks, total_cons, total_nil] at room
    omega
  | case3 ptr n t some iov rest blocks size empty more ih =>
    have left : 0 < t.uio.uioResid.toNat := UInt32.lt_iff_toNat_lt.mp some.2
    have none : iov.iovLen = 0 := by omega
    rw [blocks, total_cons, none, Nat.zero_add] at room
    have whole : Uio.Whole { t.uio with uioIov := rest } n := by
      cases cut with
      | inl all => exact .inl all
      | inr ends => exact .inr ((ends_empty none).mp (blocks ▸ ends))
    obtain ⟨out, goes, right⟩ := ih room whole
    exact ⟨out, goes, right.skip blocks none (by omega)⟩
  | case4 ptr n t some iov rest blocks size positive err moved goes =>
    have left : 0 < t.uio.uioResid.toNat := UInt32.lt_iff_toNat_lt.mp some.2
    obtain rfl := moveBlock_fault sound goes
    exact ⟨_, rfl, .fault (by omega) (.refl byte ptr t) blocks goes⟩
  | case5 ptr n t some iov rest blocks size positive moved goes ih =>
    have left : 0 < t.uio.uioResid.toNat := UInt32.lt_iff_toNat_lt.mp some.2
    have fits : size ≤ t.uio.uioResid.toNat := by
      cases cut with
      | inl all => omega
      | inr ends =>
        rw [blocks] at ends
        have first := ends.first_le left
        omega
    have resid : (t.uio.uioResid - UInt32.ofNat size).toNat = t.uio.uioResid.toNat - size :=
      Uio.advance_resid fits
    have first := moveBlock_moved sound blocks (Nat.min_le_left ..) goes
    obtain ⟨out, later, right⟩ := ih
      (by
        rw [blocks, total_cons] at room
        dsimp only
        rw [resid, total_cons]
        dsimp only
        omega)
      (by
        cases cut with
        | inl all =>
          refine .inl ?_
          dsimp only
          omega
        | inr ends =>
          rw [blocks] at ends
          refine .inr ?_
          dsimp only
          rw [resid]
          exact (ends_first (Nat.min_le_left ..) (ends.first_le left)).mpr ends)
    exact ⟨out, later, right.next blocks (Nat.min_le_left ..) (by omega) (by omega) first rfl⟩
  | case6 ptr n t done =>
    have none : min n t.uio.uioResid.toNat = 0 := by
      have ends : n = 0 ∨ t.uio.uioResid.toNat = 0 := by
        by_contra more
        rw [not_or] at more
        have left : 0 < t.uio.uioResid := UInt32.lt_iff_toNat_lt.mpr (Nat.pos_of_ne_zero more.2)
        exact done ⟨Nat.pos_of_ne_zero more.1, left⟩
      omega
    refine ⟨_, rfl, .all ?_ ?_⟩
    · rw [none]
      exact .refl byte ptr t
    · rw [none, consume_zero]

/-- Zeros are the same wherever they are taken from. -/
theorem Moved.zeros {ptr' : Nat} (dir : t.uio.uioRw = .read) (zero : t.buf = fun _ => 0)
    (h : Moved byte ptr n t u) : Moved byte ptr' n t u where
  uio := h.uio
  iov := h.iov
  space := h.space
  other := h.other
  write other := by
    rw [dir] at other
    cases other
  read _ := by
    obtain ⟨buf, memory⟩ := h.read dir
    refine ⟨buf, ?_⟩
    rw [memory, zero]
    exact Bytes.scatter_const 0 _ ptr'

/-- The same, to someone who looks at the `uio` and at both memories. -/
structure Same (byte : User → Bytes) (u v : Transfer Space User) : Prop where
  uio : u.uio = v.uio
  blocks : u.memory.at byte u.uio.uioSegflg = v.memory.at byte u.uio.uioSegflg
  other : if u.uio.uioSegflg = .sysspace then u.memory.user = v.memory.user
    else u.memory.kernel = v.memory.kernel
  space : u.memory.tAddrspace = v.memory.tAddrspace

/-- What moves the same bytes out of the buffer ends in the same place. -/
theorem Moved.same (dir : t.uio.uioRw = .read) (first : Moved byte ptr n t u)
    (second : Moved byte ptr n t v) (iovs : u.uio.uioIov = v.uio.uioIov) : Same byte u v := by
  constructor
  · rw [first.uio, second.uio, iovs]
  · rw [first.segflg, (first.read dir).2, (second.read dir).2]
  · have one := first.other
    have two := second.other
    rw [first.segflg]
    split at one
    · rw [if_pos ‹_›] at two ⊢
      exact one.trans two.symm
    · rw [if_neg ‹_›] at two ⊢
      exact one.trans two.symm
  · exact first.space.trans second.space.symm

/-- A `uio` in the kernel has no address space, and any other has that of the current thread. -/
def Placed (t : Transfer Space User) : Prop :=
  t.uio.uioSpace = if t.uio.uioSegflg = .sysspace then none else t.memory.tAddrspace

theorem Moved.placed (h : Moved byte ptr n t u) (placed : t.Placed) : u.Placed := by
  unfold Placed
  rw [h.segflg, h.space, h.uio]
  exact placed

/-- When so many bytes have been moved the rest of the blocks is as it should be. -/
theorem Moved.room (h : Moved byte ptr m t u) (iovs : u.uio.uioIov = consume t.uio.uioIov m)
    (fits : m ≤ t.uio.uioResid.toNat) (room : t.uio.uioResid.toNat ≤ total t.uio.uioIov) :
    u.uio.uioResid.toNat = t.uio.uioResid.toNat - m ∧ u.uio.uioResid.toNat ≤ total u.uio.uioIov := by
  have resid : u.uio.uioResid.toNat = t.uio.uioResid.toNat - m := by
    rw [h.uio]
    exact Uio.advance_resid fits
  refine ⟨resid, ?_⟩
  rw [resid, iovs, total_consume (by omega)]
  omega

theorem Moved.whole (h : Moved byte ptr (min m t.uio.uioResid.toNat) t u)
    (iovs : u.uio.uioIov = consume t.uio.uioIov (min m t.uio.uioResid.toNat))
    (whole : t.uio.Whole n) : u.uio.Whole (n - m) := by
  have resid : u.uio.uioResid.toNat = t.uio.uioResid.toNat - min m t.uio.uioResid.toNat := by
    rw [h.uio]
    exact Uio.advance_resid (Nat.min_le_right ..)
  unfold Uio.Whole
  rw [resid, iovs]
  cases whole with
  | inl all =>
    left
    omega
  | inr ends =>
    right
    exact ends.consume (Nat.min_le_right ..)

/-- A move to the blocks fails with a copy to user memory. -/
theorem moveBlock_copyout {base : Nat} {err : Errno} (dir : t.uio.uioRw = .read)
    (goes : t.moveBlock copy ptr base n = (some err, u)) :
    ∃ buf ptr user base size, (copy.copyout buf ptr user base size).1 = some err := by
  unfold moveBlock at goes
  rw [dir] at goes
  cases seg : t.uio.uioSegflg with
  | sysspace =>
    rw [seg] at goes
    cases goes
  | userspace =>
    rw [seg] at goes
    exact ⟨_, _, _, _, _, congrArg Prod.fst goes⟩
  | userispace =>
    rw [seg] at goes
    exact ⟨_, _, _, _, _, congrArg Prod.fst goes⟩

/-- The zeros that `uiomovezeros` moves are as many as those of one move, unless a copy fails. -/
theorem moveZeros_moved [DecidableEq Space] (sound : copy.Sound byte) (dir : t.uio.uioRw = .read)
    (placed : t.Placed) (room : t.uio.uioResid.toNat ≤ total t.uio.uioIov) (whole : t.uio.Whole n) :
    ∃ result u, t.moveZeros copy n = .done (result, u) ∧
      (result = none → Moved byte 0 (min n t.uio.uioResid.toNat) { t with buf := fun _ => 0 }
          { u with buf := fun _ => 0 } ∧
        u.uio.uioIov = consume t.uio.uioIov (min n t.uio.uioResid.toNat)) ∧
      (result ≠ none → result = some .efault ∧
        ∃ buf ptr user base size, (copy.copyout buf ptr user base size).1 = some .efault) := by
  induction n using Nat.strongRecOn generalizing t with
  | _ n ih =>
    rw [moveZeros]
    by_cases more : 0 < n
    · have loop : uiomove copy (min 16 n) { t with buf := fun _ => 0 } =
          moveBlocks copy 0 (min 16 n) { t with buf := fun _ => 0 } := uiomove_eq placed
      rw [if_pos more, loop]
      have first : Uio.Whole { t with buf := fun _ => 0 }.uio (min 16 n) := by
        cases whole with
        | inl all => exact .inl (Nat.le_trans (Nat.min_le_right ..) all)
        | inr ends => exact .inr ends
      have moves : ∃ out, moveBlocks copy 0 (min 16 n) { t with buf := fun _ => 0 } = .done out ∧
          Right copy byte 0 (min 16 n) { t with buf := fun _ => 0 } out := moveBlocks_right sound room first
      obtain ⟨out, goes, right⟩ := moves
      rw [goes, Outcome.done_bind]
      cases right with
      | @all u moved consumed =>
        have zero : u.buf = fun _ => 0 := (moved.read dir).1
        have same : { u with buf := fun _ => 0 } = u := by rw [← zero]
        obtain ⟨resid, left⟩ := moved.room consumed (Nat.min_le_right ..) room
        have cut : u.uio.Whole (n - min 16 n) := moved.whole consumed whole
        dsimp only at moved consumed resid left
        obtain ⟨result, v, later, all, fails⟩ := ih (n - min 16 n) (by omega) (moved.rw.trans dir)
          (moved.placed placed) left cut
        refine ⟨result, v, later, ?_, fails⟩
        intro none
        obtain ⟨rest, iovs⟩ := all none
        have count : min (min 16 n) t.uio.uioResid.toNat + min (n - min 16 n) u.uio.uioResid.toNat =
            min n t.uio.uioResid.toNat := by
          rw [resid]
          omega
        rw [consumed, consume_consume, count] at iovs
        refine ⟨?_, iovs⟩
        rw [← count]
        rw [same] at rest
        exact moved.trans (by dsimp only; omega) (rest.zeros (moved.rw.trans dir) zero)
      | @fault k mid u iov rest short moved next fails =>
        refine ⟨some .efault, u, rfl, nofun, fun _ => ⟨rfl, ?_⟩⟩
        exact moveBlock_copyout (moved.rw.trans dir) fails
    · rw [if_neg more]
      have none : n = 0 := by omega
      subst none
      rw [Nat.zero_min, consume_zero]
      exact ⟨none, t, rfl, fun _ => ⟨.refl byte 0 _, rfl⟩, fun fails => (fails rfl).elim⟩

end Moved

/-- What the callers of `uiomove` and `uiomovezeros` count on: it always comes back, what it has moved
agrees with the `uio`, and without a fault zeros go where one move of them would put them. -/
structure Accounts [DecidableEq Space] (copy : UserCopy User) (byte : User → Bytes) (n : Nat)
    (t : Transfer Space User) : Prop where
  moves : ∃ out, t.uiomove copy n = .done out ∧ Right copy byte 0 n t out
  zeros : t.uio.uioRw = .read → ∃ result u, t.uiomovezeros copy n = .done (result, u) ∧
    (result = none → ∀ v, uiomove copy n { t with buf := fun _ => 0 } = .done (none, v) → Same byte u v) ∧
    (result ≠ none → result = some .efault ∧
      ∃ buf ptr user base size, (copy.copyout buf ptr user base size).1 = some .efault)

section Accounts

variable {t u : Transfer Space User} {n : Nat}

theorem accounts [DecidableEq Space] (sound : copy.Sound byte) (placed : t.Placed)
    (room : t.uio.uioResid.toNat ≤ total t.uio.uioIov) (whole : t.uio.Whole n) :
    t.Accounts copy byte n := by
  constructor
  · rw [uiomove_eq placed]
    exact moveBlocks_right sound room whole
  · intro dir
    obtain ⟨result, u, goes, all, fails⟩ := moveZeros_moved sound dir placed room whole
    have zeros : t.uiomovezeros copy n = .done (result, u) := by
      unfold uiomovezeros
      rw [Outcome.kassert_bind dir, goes]
    refine ⟨result, u, zeros, ?_, fails⟩
    intro none v once
    obtain ⟨moved, iovs⟩ := all none
    have loop : uiomove copy n { t with buf := fun _ => 0 } =
        moveBlocks copy 0 n { t with buf := fun _ => 0 } := uiomove_eq placed
    have right : ∃ out, moveBlocks copy 0 n { t with buf := fun _ => 0 } = .done out ∧
        Right copy byte 0 n { t with buf := fun _ => 0 } out := moveBlocks_right sound room whole
    obtain ⟨out, there, right⟩ := right
    rw [loop, there] at once
    cases once
    cases right with
    | all moved' iovs' =>
      have read : Uio.uioRw { t with buf := fun _ => 0 }.uio = .read := dir
      have same := moved.same read moved' (iovs.trans iovs'.symm)
      exact ⟨same.uio, same.blocks, same.other, same.space⟩

/-- Memory of user programs where every address can be used. -/
def plainCopy : UserCopy Bytes where
  copyin user ubase buf ptr size := (none, buf.memmove ptr user ubase size)
  copyout buf ptr user ubase size := (none, user.memmove ubase buf ptr size)

theorem plainCopy_sound : plainCopy.Sound id where
  copyin _ _ _ _ _ _ := rfl
  copyout _ _ _ _ _ _ := rfl
  copyinFault _ _ _ _ _ _ fails := by cases fails
  copyoutFault _ _ _ _ _ _ fails := by cases fails

theorem moveBlock_plain {t : Transfer Space Bytes} {ptr base : Nat} :
    (t.moveBlock plainCopy ptr base n).1 = none := by
  unfold moveBlock
  split <;> rfl

/-- Moves only go forward. -/
theorem moveBlocks_offset {ptr : Nat} {result : Option Errno}
    (goes : moveBlocks copy ptr n t = .done (result, u)) : t.uio.uioOffset ≤ u.uio.uioOffset := by
  fun_induction moveBlocks copy ptr n t with
  | case1 => cases goes
  | case2 => cases goes
  | case3 ptr n t some iov rest blocks size empty more ih => exact ih goes
  | case4 ptr n t some iov rest blocks size positive err moved fails =>
    cases goes
    exact Int.le_of_eq (by rw [moveBlock_uio fails])
  | case5 ptr n t some iov rest blocks size positive moved copied ih =>
    have later := ih goes
    dsimp only at later
    omega
  | case6 =>
    cases goes
    exact Int.le_refl _

/-- When `uio_resid` ends inside a block, a move that asks for more does not stop there. -/
theorem moveBlocks_overshoots {t u : Transfer Space Bytes} {ptr : Nat} {result : Option Errno}
    (more : t.uio.uioResid.toNat < n) (cut : ¬ Ends t.uio.uioIov t.uio.uioResid.toNat)
    (goes : moveBlocks plainCopy ptr n t = .done (result, u)) :
    t.uio.uioOffset + t.uio.uioResid.toNat < u.uio.uioOffset := by
  fun_induction moveBlocks plainCopy ptr n t with
  | case1 => cases goes
  | case2 => cases goes
  | case3 ptr n t some iov rest blocks size empty next ih =>
    have none : iov.iovLen = 0 := by omega
    rw [blocks, ends_empty none] at cut
    exact ih more cut goes
  | case4 ptr n t some iov rest blocks size positive err moved fails =>
    have goes' : (t.moveBlock plainCopy ptr iov.iovBase size).1 = none := moveBlock_plain
    rw [fails] at goes'
    cases goes'
  | case5 ptr n t some iov rest blocks size positive moved copied ih =>
    by_cases first : iov.iovLen ≤ t.uio.uioResid.toNat
    · have all : size = iov.iovLen := by omega
      have resid : (t.uio.uioResid - UInt32.ofNat size).toNat = t.uio.uioResid.toNat - size :=
        Uio.advance_resid (by omega)
      rw [blocks] at cut
      have later := ih
        (by
          dsimp only
          rw [resid]
          omega)
        (by
          dsimp only
          rw [resid, ends_first (Nat.min_le_left ..) first]
          exact cut) goes
      dsimp only at later
      rw [resid] at later
      omega
    · have later := moveBlocks_offset goes
      dsimp only at later
      omega
  | case6 ptr n t done =>
    have none : t.uio.uioResid.toNat = 0 := by
      by_contra left
      have some : 0 < t.uio.uioResid := UInt32.lt_iff_toNat_lt.mpr (Nat.pos_of_ne_zero left)
      exact done ⟨by omega, some⟩
    rw [none] at cut
    exact (cut ⟨0, rfl⟩).elim

/-- The moves of `n` bytes that a `uio` allows come out right, whatever the copies do, if and only if
`uio_resid` lets all the bytes pass or ends with a block. -/
theorem uiomove_accounts_iff [DecidableEq Space] (uio : Uio Space) (n : Nat)
    (room : uio.uioResid.toNat ≤ total uio.uioIov) (kernel : uio.uioSegflg = .sysspace → uio.uioSpace = none) :
    (∀ (User : Type) (copy : UserCopy User) (byte : User → Bytes) (t : Transfer Space User),
      copy.Sound byte → t.uio = uio →
      (uio.uioSegflg ≠ .sysspace → t.memory.tAddrspace = uio.uioSpace) → t.Accounts copy byte n) ↔
      uio.Whole n := by
  have placed {User : Type} {t : Transfer Space User} (same : t.uio = uio)
      (space : uio.uioSegflg ≠ .sysspace → t.memory.tAddrspace = uio.uioSpace) : t.Placed := by
    unfold Placed
    rw [same]
    by_cases seg : uio.uioSegflg = .sysspace
    · rw [if_pos seg]
      exact kernel seg
    · rw [if_neg seg]
      exact (space seg).symm
  constructor
  · intro right
    by_contra cut
    unfold Uio.Whole at cut
    rw [not_or] at cut
    obtain ⟨more, inside⟩ := cut
    obtain ⟨out, goes, came⟩ :=
      (right Bytes plainCopy id ⟨fun _ => 0, ⟨fun _ => 0, fun _ => 0, uio.uioSpace⟩, uio⟩ plainCopy_sound
        rfl fun _ => rfl).moves
    rw [uiomove_eq (placed rfl fun _ => rfl)] at goes
    cases came with
    | all moved =>
      have beyond := moveBlocks_overshoots (Nat.lt_of_not_le more) inside goes
      rw [moved.uio] at beyond
      dsimp only at beyond
      omega
    | fault short moved next fails =>
      have goes' := congrArg Prod.fst fails
      rw [moveBlock_plain] at goes'
      cases goes'
  · intro whole User copy byte t sound same space
    subst same
    exact accounts sound (placed rfl space) room whole

/-- A read into two blocks of kernel memory with an empty one between them. -/
def gap : Uio Unit := ⟨[⟨0, 4⟩, ⟨8, 0⟩, ⟨16, 4⟩], 0, 6, .sysspace, .read, none⟩

theorem uiomove_accounts_gap :
    Accounts plainCopy id 5 ⟨fun _ => 7, ⟨fun _ => 0, fun _ => 0, none⟩, gap⟩ :=
  (uiomove_accounts_iff gap 5 (by decide) fun _ => rfl).mpr (.inl (by decide)) Bytes plainCopy id _
    plainCopy_sound rfl fun user => (user rfl).elim

/-- A read of 4 bytes into a block that has room for 8. -/
def short : Uio Unit := ⟨[⟨0, 8⟩], 0, 4, .sysspace, .read, none⟩

/-- Asked for 8 bytes `uiomove` moves all 8 and `uio_resid` wraps around, and asked for 9 it runs out of
buffers. -/
theorem uiomove_past_resid :
    short.uioResid.toNat ≤ total short.uioIov ∧
      (∃ u, uiomove plainCopy 8 ⟨fun _ => 7, ⟨fun _ => 0, fun _ => 0, none⟩, short⟩ = .done (none, u) ∧
        u.uio.uioOffset = 8 ∧ u.uio.uioResid = 4294967292 ∧ u.memory.kernel 7 = 7) ∧
      uiomove plainCopy 9 ⟨fun _ => 7, ⟨fun _ => 0, fun _ => 0, none⟩, short⟩ = .panic := by
  refine ⟨by decide, ?_, ?_⟩
  · refine ⟨_, uiomove_kernel _ _ rfl rfl rfl (by decide) (by decide), rfl, by decide, rfl⟩
  · rw [uiomove_eq rfl, moveBlocks]
    simp [short, moveBlock, moveBlocks]

end Accounts

end Transfer

end Os161
