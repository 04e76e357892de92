import Os161.Errno
import Os161.Base.Memory
import Os161.Base.Outcome

/-!
# Moving data with a `uio`

`uiomove` of `uio.c`. It moves bytes between a buffer of its caller and the memory blocks that a
`uio` names, and uses the `uio` up on the way.
-/

namespace Os161

inductive UioRw where
  /-- From the kernel to the blocks of the `uio`. -/
  | read
  /-- From the blocks of the `uio` to the kernel. -/
  | write
  deriving DecidableEq, Repr

inductive UioSeg where
  | userispace
  | userspace
  | sysspace
  deriving DecidableEq, Repr

structure Iovec where
  iovBase : Nat
  iovLen : Nat
  deriving DecidableEq

/-- `struct uio`. The list has the `uio_iovcnt` blocks from `uio_iov` on. -/
structure Uio (Space : Type) where
  uioIov : List Iovec
  uioOffset : Int
  uioResid : UInt32
  uioSegflg : UioSeg
  uioRw : UioRw
  uioSpace : Option Space

/-- Kernel memory, the memory of user programs, and the address space of the current thread. -/
structure Memory (Space User : Type) where
  kernel : Bytes
  user : User
  tAddrspace : Option Space

/-- `copyin` and `copyout`. A copy that fails may have moved some of the bytes. -/
structure UserCopy (User : Type) where
  copyin : User → (ubase : Nat) → Bytes → (ptr size : Nat) → Option Errno × Bytes
  copyout : Bytes → (ptr : Nat) → User → (ubase size : Nat) → Option Errno × User

/-- What `uiomove` changes; `buf` is the memory of its caller's buffer. -/
structure Transfer (Space User : Type) where
  buf : Bytes
  memory : Memory Space User
  uio : Uio Space

variable {Space User : Type}

namespace Transfer

/-- Moves `size` bytes at `ptr` to or from the address `base`, in the direction of the `uio`. -/
def moveBlock (copy : UserCopy User) (t : Transfer Space User) (ptr base size : Nat) :
    Option Errno × Transfer Space User :=
  match t.uio.uioSegflg, t.uio.uioRw with
  | .sysspace, .read =>
    (none, { t with memory.kernel := t.memory.kernel.memmove base t.buf ptr size })
  | .sysspace, .write => (none, { t with buf := t.buf.memmove ptr t.memory.kernel base size })
  | _, .read =>
    let (result, user) := copy.copyout t.buf ptr t.memory.user base size
    (result, { t with memory.user := user })
  | _, .write =>
    let (result, buf) := copy.copyin t.memory.user base t.buf ptr size
    (result, { t with buf := buf })

/-- The loop of `uiomove`. -/
def moveBlocks (copy : UserCopy User) (ptr n : Nat) (t : Transfer Space User) :
    Outcome (Option Errno × Transfer Space User) :=
  if 0 < n ∧ 0 < t.uio.uioResid then
    match _blocks : t.uio.uioIov with
    | [] => .fault
    | iov :: rest =>
      let size := min iov.iovLen n
      if size = 0 then
        if rest = [] then .panic
        else moveBlocks copy ptr n { t with uio := { t.uio with uioIov := rest } }
      else
        match t.moveBlock copy ptr iov.iovBase size with
        | (some err, moved) => .done (some err, moved)
        | (none, moved) =>
          moveBlocks copy (ptr + size) (n - size)
            { moved with
              uio := { t.uio with
                uioIov := ⟨iov.iovBase + size, iov.iovLen - size⟩ :: rest
                uioOffset := t.uio.uioOffset + size
                uioResid := t.uio.uioResid - UInt32.ofNat size } }
  else
    .done (none, t)
termination_by t.uio.uioIov.length + n
decreasing_by
  · simp [_blocks]
  · simp only [_blocks, List.length_cons]
    omega

def uiomove [DecidableEq Space] (copy : UserCopy User) (n : Nat) (t : Transfer Space User) :
    Outcome (Option Errno × Transfer Space User) :=
  if t.uio.uioSegflg = .sysspace then do
    Outcome.kassert (t.uio.uioSpace = none)
    moveBlocks copy 0 n t
  else do
    Outcome.kassert (t.uio.uioSpace = t.memory.tAddrspace)
    moveBlocks copy 0 n t

theorem moveBlocks_zero {copy : UserCopy User} {ptr : Nat} {t : Transfer Space User} :
    moveBlocks copy ptr 0 t = .done (none, t) := by
  rw [moveBlocks, if_neg (by simp)]

/-- With one kernel block of the right size all of it is moved, and nothing of the `uio` is left. -/
theorem uiomove_kernel [DecidableEq Space] (copy : UserCopy User) (t : Transfer Space User)
    {base n : Nat} (kernel : t.uio.uioSegflg = .sysspace) (space : t.uio.uioSpace = none)
    (block : t.uio.uioIov = [⟨base, n⟩]) (positive : 0 < n) (left : 0 < t.uio.uioResid) :
    t.uiomove copy n = .done (none, { (t.moveBlock copy 0 base n).2 with
      uio := { t.uio with
        uioIov := [⟨base + n, 0⟩]
        uioOffset := t.uio.uioOffset + n
        uioResid := t.uio.uioResid - UInt32.ofNat n } }) := by
  have moved : (t.moveBlock copy 0 base n).1 = none := by
    unfold moveBlock
    rw [kernel]
    cases t.uio.uioRw <;> rfl
  rw [uiomove, if_pos kernel]
  simp only [Outcome.kassert, space, if_true, Outcome.done_bind]
  rw [moveBlocks, if_pos ⟨positive, left⟩]
  split
  · rename_i none?
    simp [block] at none?
  · rename_i iov rest blocks
    obtain ⟨rfl, rfl⟩ : (⟨base, n⟩ : Iovec) = iov ∧ [] = rest := by simpa [block] using blocks
    simp only [Nat.min_self, Nat.ne_of_gt positive, if_false]
    split
    · rename_i err after value
      simp [value] at moved
    · rename_i after value
      simp [value, moveBlocks_zero, space]

/-- The loop of `uiomovezeros`, with sixteen zeros at a time. -/
def moveZeros [DecidableEq Space] (copy : UserCopy User) (n : Nat) (t : Transfer Space User) :
    Outcome (Option Errno × Transfer Space User) :=
  if 0 < n then do
    let (result, t) ← uiomove copy (min 16 n) { t with buf := fun _ => 0 }
    match result with
    | some err => return (some err, t)
    | none => moveZeros copy (n - min 16 n) t
  else return (none, t)
termination_by n
decreasing_by omega

def uiomovezeros [DecidableEq Space] (copy : UserCopy User) (n : Nat) (t : Transfer Space User) :
    Outcome (Option Errno × Transfer Space User) := do
  Outcome.kassert (t.uio.uioRw = .read)
  t.moveZeros copy n

end Transfer

/-- `uio_kinit`. -/
def Uio.kinit (kbuf : Nat) (len : UInt32) (pos : Int) (rw : UioRw) : Uio Space where
  uioIov := [⟨kbuf, len.toNat⟩]
  uioOffset := pos
  uioResid := len
  uioSegflg := .sysspace
  uioRw := rw
  uioSpace := none

/-- `uio_uinit`, by a thread with this `t_addrspace`. -/
def Uio.uinit (tAddrspace : Option Space) (ubuf len : UInt32) (pos : Int) (rw : UioRw) :
    Uio Space where
  uioIov := [⟨ubuf.toNat, len.toNat⟩]
  uioOffset := pos
  uioResid := len
  uioSegflg := .userspace
  uioRw := rw
  uioSpace := tAddrspace

/-! ### One memory block -/

/-- The `uio` when `n` more bytes of its first block have been moved. -/
def Uio.advance (uio : Uio Space) (n : Nat) : Uio Space :=
  { uio with
    uioIov := match uio.uioIov with
      | [] => []
      | iov :: rest => ⟨iov.iovBase + n, iov.iovLen - n⟩ :: rest
    uioOffset := uio.uioOffset + n
    uioResid := uio.uioResid - UInt32.ofNat n }

/-- A `uio` as every caller in the kernel makes it: one block, with room for all that is to be
moved, in the kernel or in the current address space. -/
structure Uio.Ready (uio : Uio Space) (memory : Memory Space User) (base : Nat) : Prop where
  block : ∃ len, uio.uioIov = [⟨base, len⟩] ∧ uio.uioResid.toNat ≤ len
  space : uio.uioSpace = if uio.uioSegflg = .sysspace then none else memory.tAddrspace

/-- The memory that the blocks of a `uio` are in; `byte` looks into the memory of user programs. -/
def Memory.at (byte : User → Bytes) (m : Memory Space User) : UioSeg → Bytes
  | .sysspace => m.kernel
  | _ => byte m.user

/-- A copy that succeeds has moved all of the bytes, and a copy that fails reports a fault. -/
structure UserCopy.Sound (copy : UserCopy User) (byte : User → Bytes) : Prop where
  copyin : ∀ user ubase buf ptr size, (copy.copyin user ubase buf ptr size).1 = none →
    (copy.copyin user ubase buf ptr size).2 = buf.memmove ptr (byte user) ubase size
  copyout : ∀ buf ptr user ubase size, (copy.copyout buf ptr user ubase size).1 = none →
    byte (copy.copyout buf ptr user ubase size).2 = (byte user).memmove ubase buf ptr size
  copyinFault : ∀ user ubase buf ptr size err,
    (copy.copyin user ubase buf ptr size).1 = some err → err = .efault
  copyoutFault : ∀ buf ptr user ubase size err,
    (copy.copyout buf ptr user ubase size).1 = some err → err = .efault

section Ready

variable {uio : Uio Space} {memory : Memory Space User} {base : Nat}

@[simp] theorem Uio.advance_offset (n : Nat) : (uio.advance n).uioOffset = uio.uioOffset + n := rfl

@[simp] theorem Uio.advance_segflg (n : Nat) : (uio.advance n).uioSegflg = uio.uioSegflg := rfl

@[simp] theorem Uio.advance_rw (n : Nat) : (uio.advance n).uioRw = uio.uioRw := rfl

theorem Uio.advance_resid {n : Nat} (inside : n ≤ uio.uioResid.toNat) :
    (uio.advance n).uioResid.toNat = uio.uioResid.toNat - n := by
  have range := uio.uioResid.toNat_lt
  have word : (UInt32.ofNat n).toNat = n := UInt32.toNat_ofNat_of_lt' (by simp [UInt32.size]; omega)
  change (uio.uioResid - UInt32.ofNat n).toNat = _
  rw [UInt32.toNat_sub_of_le _ _ (by rw [UInt32.le_iff_toNat_le, word]; exact inside), word]

@[simp] theorem Uio.advance_zero (h : uio.uioIov ≠ []) : uio.advance 0 = uio := by
  obtain ⟨iov, offset, resid, seg, rw, space⟩ := uio
  cases iov with
  | nil => exact (h rfl).elim
  | cons => simp [Uio.advance]

theorem Uio.advance_advance (m n : Nat) : (uio.advance m).advance n = uio.advance (m + n) := by
  obtain ⟨iov, offset, resid, seg, rw, space⟩ := uio
  have resid : resid - UInt32.ofNat m - UInt32.ofNat n = resid - UInt32.ofNat (m + n) := by
    rw [UInt32.ofNat_add]
    grind
  cases iov with
  | nil => simp [Uio.advance, resid, Int.add_assoc]
  | cons => simp [Uio.advance, resid, Int.add_assoc, Nat.add_assoc, Nat.sub_sub]

theorem Uio.Ready.advance (h : uio.Ready memory base) {n : Nat} (inside : n ≤ uio.uioResid.toNat) :
    (uio.advance n).Ready memory (base + n) := by
  obtain ⟨len, block, fits⟩ := h.block
  refine ⟨⟨len - n, ?_, ?_⟩, h.space⟩
  · unfold Uio.advance
    rw [block]
  · rw [Uio.advance_resid inside]
    omega

theorem Uio.Ready.nonempty (h : uio.Ready memory base) : uio.uioIov ≠ [] := by
  obtain ⟨len, block, -⟩ := h.block
  simp [block]

namespace Transfer

theorem uiomove_eq [DecidableEq Space] {copy : UserCopy User} {t : Transfer Space User} {n : Nat}
    (space : t.uio.uioSpace = if t.uio.uioSegflg = .sysspace then none else t.memory.tAddrspace) :
    t.uiomove copy n = moveBlocks copy 0 n t := by
  unfold uiomove
  by_cases kernel : t.uio.uioSegflg = .sysspace
  · rw [if_pos kernel] at space ⊢
    rw [Outcome.kassert_bind space]
  · rw [if_neg kernel] at space ⊢
    rw [Outcome.kassert_bind space]

/-- A move that the block has room for is a single copy. -/
theorem uiomove_ready [DecidableEq Space] {copy : UserCopy User} {t : Transfer Space User} {n : Nat}
    (ready : t.uio.Ready t.memory base) (positive : 0 < n) (inside : n ≤ t.uio.uioResid.toNat) :
    t.uiomove copy n = .done (match t.moveBlock copy 0 base n with
      | (some err, moved) => (some err, moved)
      | (none, moved) => (none, { moved with uio := t.uio.advance n })) := by
  obtain ⟨len, block, fits⟩ := ready.block
  have left : 0 < t.uio.uioResid := by
    rw [UInt32.lt_iff_toNat_lt]
    exact Nat.lt_of_lt_of_le positive inside
  rw [uiomove_eq ready.space, moveBlocks, if_pos ⟨positive, left⟩]
  split
  · rename_i none?
    simp [block] at none?
  · rename_i iov rest is
    obtain ⟨rfl, rfl⟩ : (⟨base, len⟩ : Iovec) = iov ∧ [] = rest := by simpa [block] using is
    have size : min len n = n := by omega
    have some : n ≠ 0 := by omega
    simp only [size, some, if_false]
    cases value : t.moveBlock copy 0 base n with
    | mk result moved =>
      cases result with
      | some err => rfl
      | none =>
        dsimp only
        rw [Nat.sub_self, moveBlocks_zero]
        unfold Uio.advance
        rw [block]

variable {copy : UserCopy User} {byte : User → Bytes} {t : Transfer Space User} {ptr n : Nat}

/-- From the block into the buffer. -/
theorem moveBlock_write (sound : copy.Sound byte) (dir : t.uio.uioRw = .write) :
    (t.uio.uioSegflg ≠ .sysspace ∧
      ∃ buf, t.moveBlock copy ptr base n = (some .efault, { t with buf := buf })) ∨
    t.moveBlock copy ptr base n = (none, { t with
      buf := t.buf.memmove ptr (t.memory.at byte t.uio.uioSegflg) base n }) := by
  have user : (t.memory.at byte t.uio.uioSegflg = byte t.memory.user ∧ t.uio.uioSegflg ≠ .sysspace ∧
      t.moveBlock copy ptr base n = ((copy.copyin t.memory.user base t.buf ptr n).1,
        { t with buf := (copy.copyin t.memory.user base t.buf ptr n).2 })) ∨
      t.moveBlock copy ptr base n = (none, { t with
        buf := t.buf.memmove ptr (t.memory.at byte t.uio.uioSegflg) base n }) := by
    unfold moveBlock
    rw [dir]
    cases t.uio.uioSegflg with
    | sysspace => exact .inr rfl
    | userspace => exact .inl ⟨rfl, nofun, rfl⟩
    | userispace => exact .inl ⟨rfl, nofun, rfl⟩
  obtain ⟨memory, outside, goes⟩ | goes := user
  · cases result : (copy.copyin t.memory.user base t.buf ptr n).1 with
    | some err =>
      left
      refine ⟨outside, (copy.copyin t.memory.user base t.buf ptr n).2, ?_⟩
      rw [goes, result, sound.copyinFault _ _ _ _ _ err result]
    | none =>
      right
      rw [goes, result, sound.copyin _ _ _ _ _ result, memory]
  · exact .inr goes

/-- From the buffer into the block. -/
theorem moveBlock_read (sound : copy.Sound byte) (dir : t.uio.uioRw = .read) :
    (t.uio.uioSegflg ≠ .sysspace ∧ ∃ user,
      t.moveBlock copy ptr base n = (some .efault, { t with memory.user := user })) ∨
    ∃ memory : Memory Space User, memory.tAddrspace = t.memory.tAddrspace ∧
      memory.at byte t.uio.uioSegflg = (t.memory.at byte t.uio.uioSegflg).memmove base t.buf ptr n ∧
      t.moveBlock copy ptr base n = (none, { t with memory := memory }) := by
  have user : (t.uio.uioSegflg ≠ .sysspace ∧
      (∀ memory : Memory Space User, memory.at byte t.uio.uioSegflg = byte memory.user) ∧
      t.moveBlock copy ptr base n = ((copy.copyout t.buf ptr t.memory.user base n).1,
        { t with memory.user := (copy.copyout t.buf ptr t.memory.user base n).2 })) ∨
      t.uio.uioSegflg = .sysspace ∧ t.moveBlock copy ptr base n =
        (none, { t with memory.kernel := t.memory.kernel.memmove base t.buf ptr n }) := by
    unfold moveBlock
    rw [dir]
    cases t.uio.uioSegflg with
    | sysspace => exact .inr ⟨rfl, rfl⟩
    | userspace => exact .inl ⟨nofun, fun _ => rfl, rfl⟩
    | userispace => exact .inl ⟨nofun, fun _ => rfl, rfl⟩
  obtain ⟨outside, memory, goes⟩ | ⟨kernel, goes⟩ := user
  · cases result : (copy.copyout t.buf ptr t.memory.user base n).1 with
    | some err =>
      left
      refine ⟨outside, (copy.copyout t.buf ptr t.memory.user base n).2, ?_⟩
      rw [goes, result, sound.copyoutFault _ _ _ _ _ err result]
    | none =>
      right
      refine ⟨{ t.memory with user := (copy.copyout t.buf ptr t.memory.user base n).2 }, rfl, ?_, ?_⟩
      · rw [memory, memory]
        exact sound.copyout _ _ _ _ _ result
      · rw [goes, result]
  · right
    refine ⟨{ t.memory with kernel := t.memory.kernel.memmove base t.buf ptr n }, rfl, ?_, goes⟩
    rw [kernel]
    rfl

end Transfer

end Ready

end Os161
