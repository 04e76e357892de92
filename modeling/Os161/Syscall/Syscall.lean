import Os161.Syscall.Handlers
import Mathlib.Algebra.Ring.Int.Defs

/-!
# The dispatcher of system calls

`syscall` of `arch/mips/syscall/syscall.c`. It takes the error code of most handlers into `err` and
their result into `retval`, but what `sys_open`, `sys_read`, `sys_write` and `sys_close` return goes
into `retval` whatever it is.
-/

set_option linter.unusedSectionVars false

namespace Os161.Syscalls

inductive Sys where
  | reboot
  | time
  | open
  | read
  | write
  | close
  | fork
  | getpid
  | waitpid
  | exit
  | lseek
  | dup2
  | execv
  | getcwd
  | chdir
  | getcpu
  deriving DecidableEq

/-- The numbers of `kern/syscall.h`. -/
def Sys.ofCallno (callno : UInt32) : Option Sys :=
  match callno.toNat with
  | 119 => some reboot
  | 113 => some time
  | 45 => some «open»
  | 50 => some read
  | 55 => some write
  | 49 => some close
  | 0 => some fork
  | 5 => some getpid
  | 4 => some waitpid
  | 3 => some exit
  | 59 => some lseek
  | 48 => some dup2
  | 2 => some execv
  | 76 => some getcwd
  | 74 => some chdir
  | 309 => some getcpu
  | _ => none

namespace Kernel

open Files (toInt)

variable {P F V D : Type} [DecidableEq P] [DecidableEq F] [DecidableEq V]

/-- What the switch leaves. -/
structure Switch (P F V D : Type) where
  err : Int
  retval : Int
  tf : Trapframe
  kernel : Kernel P F V D

/-- `err = sys_...(..., &retval)`. -/
def toErr (tf : Trapframe) : Except Int Int × Kernel P F V D → Switch P F V D
  | (.ok retval, k) => ⟨0, retval, tf, k⟩
  | (.error err, k) => ⟨err, 0, tf, k⟩

/-- `retval = sys_...(...)`. -/
def toRetval (tf : Trapframe) : Except Int Int × Kernel P F V D → Switch P F V D
  | (.ok retval, k) => ⟨0, retval, tf, k⟩
  | (.error err, k) => ⟨0, err, tf, k⟩

/-- The error of a handler as an `int`. -/
def coded : Except Errno Int × Kernel P F V D → Except Int Int × Kernel P F V D :=
  Prod.map (Except.mapError Errno.code) id

/-- The offset in two registers. -/
def wideOffset (high low : UInt32) : Int := (high.toBitVec ++ low.toBitVec).toInt

def lseek (c : Callees P F V D) (cur : P) (tf : Trapframe) (k : Kernel P F V D) :
    Outcome (Switch P F V D) := do
  let (copied, k) ← c.copyin (tf.tfSp + 16) k
  match copied with
  | .error err => return ⟨err.code, 0, tf, k⟩
  | .ok whence => do
    let (result, k) ←
      k.sysLseek c cur (toInt tf.tfA0) (wideOffset tf.tfA2 tf.tfA3) whence
    match result with
    | .error err => return ⟨err.code, 0, tf, k⟩
    | .ok retVal64 => return ⟨0, retVal64 / 2 ^ 32, { tf with tfV1 := UInt32.ofInt retVal64 }, k⟩

/-- The switch, which some calls do not come back from. -/
def switch (c : Callees P F V D) (cur : P) (tf : Trapframe) (k : Kernel P F V D) :
    Outcome (Option (Switch P F V D)) :=
  match Sys.ofCallno tf.tfV0 with
  | some .reboot => do
    let out ← k.sysReboot c (toInt tf.tfA0)
    return out.map fun out => toErr tf (coded out)
  | some .time => do
    let out ← k.sysTime c tf.tfA0 tf.tfA1
    return some (toErr tf (coded out))
  | some .open => do
    let out ← k.sysOpen c cur tf.tfA0 tf.tfA1
    return some (toRetval tf (coded out))
  | some .read => do
    let out ← k.sysRead c cur (toInt tf.tfA0) tf.tfA1 tf.tfA2
    return some (toRetval tf (coded out))
  | some .write => do
    let out ← k.sysWrite c cur (toInt tf.tfA0) tf.tfA1 tf.tfA2
    return some (toRetval tf (coded out))
  | some .close => do
    let out ← k.sysClose c cur (toInt tf.tfA0)
    return some (toRetval tf (coded out))
  | some .fork => do
    let out ← k.sysFork c tf
    return some (toErr tf (coded out))
  | some .getpid => do
    let out ← k.sysGetpid c
    return some (toErr tf (coded out))
  | some .waitpid => do
    let out ← k.sysWaitpid c (toInt tf.tfA0) tf.tfA1 (toInt tf.tfA2)
    return some (toErr tf (coded out))
  | some .exit => do
    let _ ← c.exit (toInt tf.tfA0) k
    return none
  | some .lseek => do
    let left ← k.lseek c cur tf
    return some left
  | some .dup2 => do
    let out ← k.sysDup2 c cur (toInt tf.tfA0) (toInt tf.tfA1)
    return some (toErr tf (coded out))
  | some .execv => do
    let out ← k.sysExecv c cur tf.tfA0 tf.tfA1
    return out.map fun out => toErr tf (coded out)
  | some .getcwd => do
    let out ← k.sysGetcwd c tf.tfA0 tf.tfA1
    return some (toErr tf out)
  | some .chdir => do
    let out ← k.sysChdir c tf.tfA0
    return some (toErr tf out)
  | some .getcpu => do
    let out ← k.sysGetcpu c
    return some (toErr tf (coded out))
  | none => return some ⟨Errno.enosys.code, 0, tf, k⟩

/-- The registers after the switch. `lseek_flag` is never set. -/
def registers (left : Switch P F V D) : Trapframe :=
  let tf :=
    if left.err ≠ 0 then { left.tf with tfV0 := UInt32.ofInt left.err, tfA3 := 1 }
    else { left.tf with tfV0 := UInt32.ofInt left.retval, tfA3 := 0 }
  { tf with tfEpc := tf.tfEpc + 4 }

/-- It returns the registers, unless the call does not come back. -/
def syscall (c : Callees P F V D) (cur : P) (tf : Trapframe) (k : Kernel P F V D) :
    Outcome (Option (Trapframe × Kernel P F V D)) := do
  Outcome.kassert (c.curspl k = 0)
  Outcome.kassert (c.iplhighCount k = 0)
  let left ← k.switch c cur tf
  match left with
  | none => return none
  | some left => do
    Outcome.kassert (c.curspl left.kernel = 0)
    Outcome.kassert (c.iplhighCount left.kernel = 0)
    return some (registers left, left.kernel)

/-! ### What the calls are for -/

/-- The result of a call: a word, or two words for `lseek`. -/
inductive Value where
  | word (n : Int)
  | wide (n : Int)

/-- `sys_open` with the result of `k_open`. -/
def opened (c : Callees P F V D) (cur : P) (filename flags : UInt32) (k : Kernel P F V D) :
    Outcome (Except Errno Int × Kernel P F V D) :=
  if Files.validFlags flags then do
    let (copied, k) ← c.copyinstr filename 32 k
    match copied with
    | .error err => return (.error err, k)
    | .ok path => do
      let answers := c.opening path flags k
      let (result, files) ← k.files.kOpen cur cur flags answers
      return (result.map fun fd => fd, { k with files := files })
  else
    return (.error .einval, k)

/-- `sys_getcwd` with the error of `vfs_getcwd`. -/
def gotCwd (c : Callees P F V D) (buf buflen : UInt32) (k : Kernel P F V D) :
    Outcome (Except Errno Int × Kernel P F V D) :=
  if badPointer buf then return (.error .efault, k)
  else do
    let (result, k) ← c.vfsGetcwd buf buflen k
    return (result.map fun uioResid => toInt (buflen - uioResid), k)

/-- `sys_chdir` with the error of `copyinstr`. -/
def changedDir (c : Callees P F V D) (path : UInt32) (k : Kernel P F V D) :
    Outcome (Except Errno Int × Kernel P F V D) :=
  if badPointer path then return (.error .efault, k)
  else do
    let (copied, k) ← c.copyinstr path 255 k
    match copied with
    | .error err => return (.error err, k)
    | .ok pathNameFromUser => do
      let (result, k) ← c.vfsChdir pathNameFromUser k
      return (result.map fun _ => 0, k)

def sought (c : Callees P F V D) (cur : P) (tf : Trapframe) (k : Kernel P F V D) :
    Outcome (Except Errno Int × Kernel P F V D) := do
  let (copied, k) ← c.copyin (tf.tfSp + 16) k
  match copied with
  | .error err => return (.error err, k)
  | .ok whence =>
    k.sysLseek c cur (toInt tf.tfA0) (wideOffset tf.tfA2 tf.tfA3) whence

def word (out : Except Errno Int × Kernel P F V D) : Except Errno Value × Kernel P F V D :=
  (out.1.map .word, out.2)

/-- The operation that a call asks for: the error of the step that fails, or the result. -/
def operation (c : Callees P F V D) (cur : P) (tf : Trapframe) (k : Kernel P F V D) :
    Outcome (Option (Except Errno Value × Kernel P F V D)) :=
  match Sys.ofCallno tf.tfV0 with
  | some .reboot => do
    let out ← k.sysReboot c (toInt tf.tfA0)
    return out.map word
  | some .time => do
    let out ← k.sysTime c tf.tfA0 tf.tfA1
    return some (word out)
  | some .open => do
    let out ← k.opened c cur tf.tfA0 tf.tfA1
    return some (word out)
  | some .read => do
    let out ← k.sysRead c cur (toInt tf.tfA0) tf.tfA1 tf.tfA2
    return some (word out)
  | some .write => do
    let out ← k.sysWrite c cur (toInt tf.tfA0) tf.tfA1 tf.tfA2
    return some (word out)
  | some .close => do
    let out ← k.sysClose c cur (toInt tf.tfA0)
    return some (word out)
  | some .fork => do
    let out ← k.sysFork c tf
    return some (word out)
  | some .getpid => do
    let out ← k.sysGetpid c
    return some (word out)
  | some .waitpid => do
    let out ← k.sysWaitpid c (toInt tf.tfA0) tf.tfA1 (toInt tf.tfA2)
    return some (word out)
  | some .exit => do
    let _ ← c.exit (toInt tf.tfA0) k
    return none
  | some .lseek => do
    let out ← k.sought c cur tf
    return some (out.1.map .wide, out.2)
  | some .dup2 => do
    let out ← k.sysDup2 c cur (toInt tf.tfA0) (toInt tf.tfA1)
    return some (word out)
  | some .execv => do
    let out ← k.sysExecv c cur tf.tfA0 tf.tfA1
    return out.map word
  | some .getcwd => do
    let out ← k.gotCwd c tf.tfA0 tf.tfA1
    return some (word out)
  | some .chdir => do
    let out ← k.changedDir c tf.tfA0
    return some (word out)
  | some .getcpu => do
    let out ← k.sysGetcpu c
    return some (word out)
  | none => return some (.error .enosys, k)

/-- The registers answer the call. -/
def Reports (tf tf' : Trapframe) (result : Except Errno Value) : Prop :=
  tf'.tfEpc = tf.tfEpc + 4 ∧
    match result with
    | .ok (.word n) => tf'.tfA3 = 0 ∧ tf'.tfV0 = UInt32.ofInt n
    | .ok (.wide n) =>
      tf'.tfA3 = 0 ∧ (tf'.tfV0.toNat * 2 ^ 32 + tf'.tfV1.toNat : Int) = n % 2 ^ 64
    | .error err => tf'.tfA3 = 1 ∧ tf'.tfV0 = UInt32.ofInt err.code

/-- What the calls that go wrong need: `open`, `read`, `write` and `close` must not fail, and the
errors that come back as the value of `!= 0` must be the error with code 1. -/
def Answered (c : Callees P F V D) (cur : P) (tf : Trapframe) (k : Kernel P F V D) : Prop :=
  match Sys.ofCallno tf.tfV0 with
  | some .open | some .read | some .write | some .close =>
    ∀ err k', k.operation c cur tf ≠ .done (some (.error err, k'))
  | some .getcwd =>
    badPointer tf.tfA0 ∨
      ∀ err k', c.vfsGetcwd tf.tfA0 tf.tfA1 k = .done (.error err, k') → err = .enosys
  | some .chdir =>
    badPointer tf.tfA0 ∨
      ∀ err k', c.copyinstr tf.tfA0 255 k = .done (.error err, k') → err = .enosys
  | _ => True

/-! ### The conventions -/

section Conventions

variable {c : Callees P F V D} {cur : P} {tf tf' : Trapframe} {k k' : Kernel P F V D}
variable {out : Except Errno Int × Kernel P F V D} {result : Except Errno Int}
variable {left : Switch P F V D} {α : Type}

/-- The error with code 1. -/
theorem enosys_word {err : Errno} : UInt32.ofInt err.code = UInt32.ofInt 1 ↔ err = .enosys := by
  cases err <;> decide

theorem reports_toErr (out : Except Errno Int × Kernel P F V D) :
    Reports tf (registers (toErr tf (coded out))) (word out).1 := by
  obtain ⟨result, k⟩ := out
  cases result with
  | ok n => exact ⟨rfl, rfl, rfl⟩
  | error err =>
    have failed : err.code ≠ 0 := by
      have := err.code_pos
      omega
    simp [Reports, registers, toErr, coded, word, Except.mapError, Except.map, failed]

theorem reports_toRetval (out : Except Errno Int × Kernel P F V D) :
    Reports tf (registers (toRetval tf (coded out))) (word out).1 ↔ ∃ n, out.1 = .ok n := by
  obtain ⟨result, k⟩ := out
  cases result with
  | ok n => exact iff_of_true ⟨rfl, rfl, rfl⟩ ⟨n, rfl⟩
  | error err =>
    refine iff_of_false ?_ nofun
    rintro ⟨-, failed, -⟩
    cases failed

/-- An error that comes back as 1. -/
theorem reports_one {err : Errno} :
    Reports tf (registers (toErr tf (.error 1, k))) (.error err) ↔ err = .enosys := by
  rw [← enosys_word, eq_comm]
  constructor
  · rintro ⟨-, -, same⟩
    exact same
  · intro same
    exact ⟨rfl, rfl, same⟩

theorem toNat_ofInt (n : Int) : ((UInt32.ofInt n).toNat : Int) = n % 2 ^ 32 := by
  simp only [UInt32.ofInt, UInt32.toNat_ofNat']
  omega

theorem wide_words (n : Int) : ((UInt32.ofInt (n / 2 ^ 32)).toNat * 2 ^ 32 +
    (UInt32.ofInt n).toNat : Int) = n % 2 ^ 64 := by
  rw [toNat_ofInt, toNat_ofInt]
  omega

/-! ### The handlers that lose an error -/

theorem sysOpen_done {r : Except Errno Int} {filename flags : UInt32}
    (h : k.sysOpen c cur filename flags = .done (r, k')) :
    ∃ result, k.opened c cur filename flags = .done (result, k') ∧
      ∀ n, result = .ok n → r = .ok n := by
  unfold sysOpen at h
  unfold opened
  split
  · rename_i valid
    rw [if_pos valid] at h
    obtain ⟨⟨copied, k₁⟩, copies, h⟩ := Outcome.bind_done.mp h
    rw [copies, Outcome.done_bind]
    cases copied with
    | error err =>
      cases h
      exact ⟨_, rfl, by simp⟩
    | ok path =>
      obtain ⟨⟨got, files⟩, opens, same⟩ := Outcome.bind_done.mp h
      simp only [Files.sysOpen, if_pos valid] at opens
      obtain ⟨⟨fd, files'⟩, opens, got_eq⟩ := Outcome.bind_done.mp opens
      dsimp only
      rw [opens, Outcome.done_bind]
      cases same
      cases fd with
      | ok i =>
        cases got_eq
        exact ⟨_, rfl, fun n same => same⟩
      | error err =>
        cases got_eq
        exact ⟨_, rfl, by simp [Except.map]⟩
  · rename_i invalid
    rw [if_neg invalid] at h
    cases h
    exact ⟨_, rfl, by simp [Except.map]⟩

theorem sysGetcwd_done {r : Except Int Int} {buf buflen : UInt32}
    (h : k.sysGetcwd c buf buflen = .done (r, k')) :
    ∃ result, k.gotCwd c buf buflen = .done (result, k') ∧
      (r = result.mapError Errno.code ∧
          (badPointer buf ∨ ∀ err k', c.vfsGetcwd buf buflen k ≠ .done (.error err, k')) ∨
        ∃ err, result = .error err ∧ r = .error 1 ∧ ¬ badPointer buf ∧
          c.vfsGetcwd buf buflen k = .done (.error err, k')) := by
  unfold sysGetcwd at h
  unfold gotCwd
  split
  · rename_i bad
    rw [if_pos bad] at h
    cases h
    exact ⟨_, rfl, .inl ⟨rfl, .inl bad⟩⟩
  · rename_i good
    rw [if_neg good] at h
    obtain ⟨⟨got, k₁⟩, gets, h⟩ := Outcome.bind_done.mp h
    rw [gets, Outcome.done_bind]
    cases got with
    | error err =>
      cases h
      exact ⟨_, rfl, .inr ⟨err, rfl, rfl, good, rfl⟩⟩
    | ok uioResid =>
      cases h
      exact ⟨_, rfl, .inl ⟨rfl, .inr nofun⟩⟩

theorem sysChdir_done {r : Except Int Int} {path : UInt32}
    (h : k.sysChdir c path = .done (r, k')) :
    ∃ result, k.changedDir c path = .done (result, k') ∧
      (r = result.mapError Errno.code ∧
          (badPointer path ∨ ∀ err k', c.copyinstr path 255 k ≠ .done (.error err, k')) ∨
        ∃ err, result = .error err ∧ r = .error 1 ∧ ¬ badPointer path ∧
          c.copyinstr path 255 k = .done (.error err, k')) := by
  unfold sysChdir at h
  unfold changedDir
  split
  · rename_i bad
    rw [if_pos bad] at h
    cases h
    exact ⟨_, rfl, .inl ⟨rfl, .inl bad⟩⟩
  · rename_i good
    rw [if_neg good] at h
    obtain ⟨⟨copied, k₁⟩, copies, h⟩ := Outcome.bind_done.mp h
    rw [copies, Outcome.done_bind]
    cases copied with
    | error err =>
      cases h
      exact ⟨_, rfl, .inr ⟨err, rfl, rfl, good, rfl⟩⟩
    | ok name =>
      obtain ⟨⟨changed, k₂⟩, changes, h⟩ := Outcome.bind_done.mp h
      dsimp only
      rw [changes, Outcome.done_bind]
      cases changed with
      | error err =>
        cases h
        exact ⟨_, rfl, .inl ⟨rfl, .inr nofun⟩⟩
      | ok u =>
        cases h
        exact ⟨_, rfl, .inl ⟨rfl, .inr nofun⟩⟩

theorem lseek_done (h : k.lseek c cur tf = .done left) :
    ∃ result, k.sought c cur tf = .done (result, left.kernel) ∧
      Reports tf (registers left) (result.map .wide) := by
  obtain ⟨⟨copied, k₁⟩, copies, h⟩ := Outcome.bind_done.mp h
  unfold sought
  rw [copies, Outcome.done_bind]
  have failed : ∀ err : Errno, err.code ≠ 0 := by
    intro err
    have := err.code_pos
    omega
  cases copied with
  | error err =>
    cases h
    refine ⟨_, rfl, ?_⟩
    simp [Reports, registers, Except.map, failed]
  | ok whence =>
    obtain ⟨⟨found, k₂⟩, seeks, h⟩ := Outcome.bind_done.mp h
    cases found with
    | error err =>
      cases h
      refine ⟨_, seeks, ?_⟩
      simp [Reports, registers, Except.map, failed]
    | ok pos =>
      cases h
      exact ⟨_, seeks, rfl, rfl, wide_words pos⟩

/-- A handler that answers by `err` reports. -/
theorem answers_toErr {x : Outcome (Except Errno Int × Kernel P F V D)}
    (h : (x >>= fun out => return some (toErr tf (coded out))) = Outcome.done (some left)) :
    ∃ result, (x >>= fun out => return some (word out)) =
        Outcome.done (some (result, left.kernel)) ∧
      (Reports tf (registers left) result ↔ True) := by
  obtain ⟨⟨result, k₁⟩, ran, same⟩ := Outcome.bind_done.mp h
  obtain rfl := Option.some.inj (Outcome.pure_done.mp same)
  rw [ran, Outcome.done_bind]
  exact ⟨_, by cases result <;> rfl, iff_true_intro (reports_toErr _)⟩

/-- So does one that need not come back. -/
theorem answers_some {x : Outcome (Option (Except Errno Int × Kernel P F V D))}
    (h : (x >>= fun out => return out.map fun out => toErr tf (coded out)) =
      Outcome.done (some left)) :
    ∃ result, (x >>= fun out => return out.map word) =
        Outcome.done (some (result, left.kernel)) ∧
      (Reports tf (registers left) result ↔ True) := by
  obtain ⟨out, ran, same⟩ := Outcome.bind_done.mp h
  cases out with
  | none => cases same
  | some out =>
    obtain ⟨result, k₁⟩ := out
    obtain rfl := Option.some.inj (Outcome.pure_done.mp same)
    rw [ran, Outcome.done_bind]
    exact ⟨_, by cases result <;> rfl, iff_true_intro (reports_toErr _)⟩

/-- A handler whose errors go into `retval` reports when it does not fail. -/
theorem answers_toRetval {x y : Outcome (Except Errno Int × Kernel P F V D)}
    (h : (x >>= fun out => return some (toRetval tf (coded out))) = Outcome.done (some left))
    (same : ∀ r k', x = .done (r, k') → ∃ result, y = .done (result, k') ∧
      ∀ n, result = .ok n → r = .ok n) :
    ∃ result, (y >>= fun out => return some (word out)) =
        Outcome.done (some (result, left.kernel)) ∧
      (Reports tf (registers left) result ↔
        ∀ err k', (y >>= fun out => return some (word out)) ≠
          Outcome.done (some (.error err, k'))) := by
  obtain ⟨⟨r, k₁⟩, ran, left_eq⟩ := Outcome.bind_done.mp h
  obtain rfl := Option.some.inj (Outcome.pure_done.mp left_eq)
  obtain ⟨result, also, agrees⟩ := same r k₁ ran
  rw [also, Outcome.done_bind]
  have kernel : (toRetval tf (coded (r, k₁))).kernel = k₁ := by cases r <;> rfl
  refine ⟨_, by rw [kernel]; rfl, ?_⟩
  cases result with
  | ok n =>
    obtain rfl := agrees n rfl
    exact iff_of_true ((reports_toRetval (.ok n, k₁)).mpr ⟨n, rfl⟩) nofun
  | error err =>
    refine iff_of_false ?_ fun never => never err k₁ rfl
    rintro ⟨-, failed, -⟩
    cases r <;> cases failed

/-- A handler that may lose an error reports when it does not, or when the error has code 1. -/
theorem answers_lossy {x : Outcome (Except Int Int × Kernel P F V D)}
    {y : Outcome (Except Errno Int × Kernel P F V D)} {bad : Bool}
    {step : Outcome (Except Errno α × Kernel P F V D)}
    (h : (x >>= fun out => return some (toErr tf out)) = Outcome.done (some left))
    (same : ∀ r k', x = .done (r, k') → ∃ result, y = .done (result, k') ∧
      (r = result.mapError Errno.code ∧ (bad ∨ ∀ err k', step ≠ .done (.error err, k')) ∨
        ∃ err, result = .error err ∧ r = .error 1 ∧ ¬ bad ∧ step = .done (.error err, k'))) :
    ∃ result, (y >>= fun out => return some (word out)) =
        Outcome.done (some (result, left.kernel)) ∧
      (Reports tf (registers left) result ↔
        bad ∨ ∀ err k', step = .done (.error err, k') → err = .enosys) := by
  obtain ⟨⟨r, k₁⟩, ran, left_eq⟩ := Outcome.bind_done.mp h
  obtain rfl := Option.some.inj (Outcome.pure_done.mp left_eq)
  obtain ⟨result, also, agrees⟩ := same r k₁ ran
  rw [also, Outcome.done_bind]
  have kernel : (toErr tf (r, k₁)).kernel = k₁ := by cases r <;> rfl
  refine ⟨_, by rw [kernel]; rfl, ?_⟩
  rcases agrees with ⟨rfl, kept⟩ | ⟨err, rfl, rfl, good, failed⟩
  · refine iff_of_true (reports_toErr (result, k₁)) ?_
    rcases kept with bad | never
    · exact .inl bad
    · exact .inr fun err k' failed => (never err k' failed).elim
  · refine reports_one.trans ⟨?_, ?_⟩
    · rintro rfl
      refine .inr fun err k' failed' => ?_
      cases failed.symm.trans failed'
      rfl
    · rintro (bad | only)
      · exact (good bad).elim
      · exact only err k₁ failed

/-- What the switch leaves against what the call is for. -/
theorem switch_answers (h : k.switch c cur tf = .done (some left)) :
    ∃ result, k.operation c cur tf = .done (some (result, left.kernel)) ∧
      (Reports tf (registers left) result ↔ Answered c cur tf k) := by
  have own : ∀ {x : Outcome (Except Errno Int × Kernel P F V D)} r k', x = .done (r, k') →
      ∃ result, x = .done (result, k') ∧ ∀ n, result = .ok n → r = .ok n :=
    fun r k' ran => ⟨r, ran, fun n same => same⟩
  unfold switch at h
  unfold Answered operation
  cases number : Sys.ofCallno tf.tfV0 with
  | none =>
    rw [number] at h
    cases h
    exact ⟨_, rfl, iff_true_intro ⟨rfl, rfl, rfl⟩⟩
  | some call =>
    rw [number] at h
    cases call with
    | reboot => exact answers_some h
    | execv => exact answers_some h
    | «open» => exact answers_toRetval h fun _ _ => sysOpen_done
    | read => exact answers_toRetval h own
    | write => exact answers_toRetval h own
    | close => exact answers_toRetval h own
    | getcwd => exact answers_lossy h fun _ _ => sysGetcwd_done
    | chdir => exact answers_lossy h fun _ _ => sysChdir_done
    | exit =>
      obtain ⟨_, _, same⟩ := Outcome.bind_done.mp h
      cases same
    | lseek =>
      obtain ⟨found, seeks, same⟩ := Outcome.bind_done.mp h
      obtain rfl := Option.some.inj (Outcome.pure_done.mp same)
      obtain ⟨result, ran, reports⟩ := lseek_done seeks
      dsimp only
      rw [ran, Outcome.done_bind]
      exact ⟨_, rfl, iff_true_intro reports⟩
    | _ => exact answers_toErr h

end Conventions

/-- A system call that comes back answers with the error of the step that failed, or with the
result, exactly when it is not one that goes wrong. -/
theorem syscall_answers (c : Callees P F V D) (cur : P) (tf tf' : Trapframe)
    (k k' : Kernel P F V D) (h : k.syscall c cur tf = .done (some (tf', k'))) :
    ∃ result, k.operation c cur tf = .done (some (result, k')) ∧
      (Reports tf tf' result ↔ Answered c cur tf k) := by
  obtain ⟨_, _, h⟩ := Outcome.bind_done.mp h
  obtain ⟨_, _, h⟩ := Outcome.bind_done.mp h
  obtain ⟨left, switches, h⟩ := Outcome.bind_done.mp h
  cases left with
  | none => cases h
  | some left =>
    obtain ⟨_, _, h⟩ := Outcome.bind_done.mp h
    obtain ⟨_, _, h⟩ := Outcome.bind_done.mp h
    cases h
    exact switch_answers switches

/-! ### A kernel in which little works -/

/-- Everything below the handlers succeeds, but the current directory is gone. -/
def plainCallees : Callees Unit Unit Unit Unit where
  ops := ⟨fun _ _ d => .done (⟨none, 0, 0⟩, d), fun _ _ d => .done (⟨none, 0, 0⟩, d),
    fun _ _ => .done (.ok 0), fun _ _ => .done none, fun _ _ _ => .done ()⟩
  reclaims _ := false
  curspl _ := 0
  iplhighCount _ := 0
  tPid _ := 2
  cNumber _ := 0
  gettime _ := (0, 0)
  copyin _ k := .done (.ok 0, k)
  copyinstr _ _ k := .done (.ok [], k)
  copyout _ _ k := .done (.ok (), k)
  opening _ _ _ := ⟨.error .enoent, none, true, .ok 0, fun _ => false⟩
  garbage := 7
  vfsGetcwd _ _ k := .done (.error .enoent, k)
  vfsChdir _ k := .done (.ok (), k)
  waitpid _ _ k := .done (.ok 0, k)
  exit _ k := .done k
  shutdown _ k := .done k
  procCopy k := .done (.ok 3, k)
  trapframeCopy _ k := .done (.ok (), k)
  kmallocArgs k := .done (.ok (), k)
  asCopy k := .done (.ok (), k)
  threadFork k := .done (.ok (), k)
  unfork _ k := .done k
  vfsOpen _ k := .done (.ok (), k)
  vfsClose _ k := .done k
  copyArgs _ k := .done (.ok (), k)
  asCreate k := .done (.ok (), k)
  loadElf _ k := .done (.ok (), k)
  asDefineStack k := .done (.ok (), k)
  adjustKargbuf k := .done (.ok (), k)
  copyoutArgs k := .done (.ok (), k)
  asRestore k := .done k
  enterNewProcess k := .done k

/-- A process without open files. -/
def bare : Kernel Unit Unit Unit Unit :=
  ⟨⟨fun _ => some ⟨fun _ => none, some none, 0⟩, fun _ => .unused, fun _ => none⟩, (), none⟩

/-- The registers of a call with one argument. -/
def calling (callno arg : UInt32) : Trapframe := ⟨callno, 0, arg, 0, 0, 0, 0x7fffff00, 0x400000⟩

/-- `getpid` is answered. -/
theorem syscall_answers_getpid : ∃ result,
    bare.operation plainCallees () (calling 5 0) = .done (some (result, bare)) ∧
      (Reports (calling 5 0) ⟨2, 0, 0, 0, 0, 0, 0x7fffff00, 0x400004⟩ result ↔
        Answered plainCallees () (calling 5 0) bare) :=
  syscall_answers plainCallees () (calling 5 0) _ bare bare rfl

/-- A `close` of a descriptor that is not open comes back as a success with the result 30, a failed
`open` as a success with whatever is there, and the error of `__getcwd` is lost. -/
theorem syscall_wrong :
    (bare.syscall plainCallees () (calling 49 1) =
        .done (some (⟨30, 0, 1, 0, 0, 0, 0x7fffff00, 0x400004⟩, bare)) ∧
      bare.operation plainCallees () (calling 49 1) = .done (some (.error .ebadf, bare)) ∧
      ¬ Reports (calling 49 1) ⟨30, 0, 1, 0, 0, 0, 0x7fffff00, 0x400004⟩ (.error .ebadf)) ∧
    (bare.syscall plainCallees () (calling 45 1) =
        .done (some (⟨7, 0, 1, 0, 0, 0, 0x7fffff00, 0x400004⟩, bare)) ∧
      bare.operation plainCallees () (calling 45 1) = .done (some (.error .enoent, bare)) ∧
      ¬ Reports (calling 45 1) ⟨7, 0, 1, 0, 0, 0, 0x7fffff00, 0x400004⟩ (.error .enoent)) ∧
    (bare.syscall plainCallees () (calling 76 1) =
        .done (some (⟨1, 0, 1, 0, 0, 1, 0x7fffff00, 0x400004⟩, bare)) ∧
      bare.operation plainCallees () (calling 76 1) = .done (some (.error .enoent, bare)) ∧
      ¬ Reports (calling 76 1) ⟨1, 0, 1, 0, 0, 1, 0x7fffff00, 0x400004⟩ (.error .enoent)) := by
  refine ⟨⟨rfl, rfl, ?_⟩, ⟨rfl, rfl, ?_⟩, ⟨rfl, rfl, ?_⟩⟩
  · rintro ⟨-, failed, -⟩
    cases failed
  · rintro ⟨-, failed, -⟩
    cases failed
  · rintro ⟨-, -, lost⟩
    revert lost
    decide

end Kernel

end Os161.Syscalls
