import Os161.Syscall.ExecImage
import Os161.Syscall.Handlers

/-!
# Argument lists that `execv` refuses

The buffers of `copy_args` have no check of their own: an image that is too long runs over them. And
a word of the array that cannot be read ends the arguments like the terminator, unless it is the
first.
-/

set_option linter.unusedSectionVars false

namespace Os161

/-- `copy_args` stays inside the buffers, and refuses an image that is longer than them. -/
def StaysInside (mem : UserMem) (uargs : UInt32) (bufs : ExecBufs) (args : List (List UInt8)) : Prop :=
  ∃ result bufs', copyArgs mem uargs bufs = .done (result, bufs') ∧
    (bufSize < imageLen args → ∃ err, result = .error err)

section Inside

variable {mem : UserMem} {uargs : UInt32} {args : List (List UInt8)} {e : ArgvEnd}

/-- Only what the first loop refuses, or fits, stays inside. -/
theorem copyArgs_inside_iff (h : Argv mem uargs args e) (bufs : ExecBufs) :
    StaysInside mem uargs bufs args ↔ uargs = 0 ∨ ¬ Passed args e ∨ imageLen args ≤ bufSize := by
  rcases copyArgs_cases h bufs with ⟨null, refused⟩ | ⟨_, failed, err, bufs', _, refused⟩ |
    ⟨_, _, fits, bufs', copied, _⟩ | ⟨given, passed, past, runs⟩
  · exact ⟨fun _ => .inl null, fun _ => ⟨_, _, refused, fun _ => ⟨_, rfl⟩⟩⟩
  · exact ⟨fun _ => .inr (.inl failed), fun _ => ⟨_, _, refused, fun _ => ⟨_, rfl⟩⟩⟩
  · exact ⟨fun _ => .inr (.inr fits), fun _ => ⟨_, _, copied, fun long => by omega⟩⟩
  · constructor
    · rintro ⟨result, bufs', done, _⟩
      rw [runs] at done
      cases done
    · rintro (null | failed | fits)
      · exact (given null).elim
      · exact (failed passed).elim
      · omega

/-- An argument of `n` letters. -/
def letters (n : Nat) : Nat → UInt8 := fun i => if i < n then 97 else 0

theorem letters_argv {n : Nat} (fits : n < bufSize) :
    Argv (oneArg (letters n)) 0x1000 [List.replicate n 97] .null := by
  refine oneArg_argv (by simpa using fits) (fun i inside => ?_) ?_ ?_
  · rw [List.getElem_replicate, letters, if_pos (by simpa using inside)]
  · simp [letters]
  · rw [List.mem_replicate]
    exact fun same => absurd same.2 (by decide)

theorem letters_image (n : Nat) : imageLen [List.replicate n 97] = 8 + (n + 4) / 4 * 4 := by
  simp [imageLen, stringsLen, alignedLen]

theorem copyArgs_inside_long : StaysInside (oneArg (letters 60000)) 0x1000 ⟨fun _ => 0, fun _ => 0⟩
    [List.replicate 60000 97] := by
  refine (copyArgs_inside_iff (letters_argv (by decide)) _).mpr (.inr (.inr ?_))
  rw [letters_image]
  decide

/-- One argument of 65534 letters: the padding behind it is past the end of `karg`. -/
theorem copyArgs_overruns : Argv (oneArg (letters 65534)) 0x1000 [List.replicate 65534 97] .null ∧
    ¬ StaysInside (oneArg (letters 65534)) 0x1000 ⟨fun _ => 0, fun _ => 0⟩
      [List.replicate 65534 97] := by
  have argv : Argv (oneArg (letters 65534)) 0x1000 [List.replicate 65534 97] .null :=
    letters_argv (by decide)
  have long : bufSize < imageLen [List.replicate 65534 97] := by
    rw [letters_image]
    decide
  refine ⟨argv, ?_⟩
  rintro ⟨result, bufs', done, _⟩
  rcases copyArgs_cases argv ⟨fun _ => 0, fun _ => 0⟩ with ⟨null, _⟩ | ⟨_, failed, _⟩ |
    ⟨_, _, fits, _⟩ | ⟨_, _, _, runs⟩
  · cases null
  · exact failed trivial
  · omega
  · rw [runs] at done
    cases done

end Inside

/-! ### `execv` with an array that cannot be read -/

open Syscalls

/-- What a process is for its user: the address space of its thread, and what is in it. -/
structure ExecWorld (Space W : Type) where
  tAddrspace : Option Space
  user : UserMem
  bufs : ExecBufs
  rest : W

section Refuses

variable {P F V Space W : Type} [DecidableEq P] [DecidableEq F] [DecidableEq V]

/-- The caller's image is as it was, and `lk_exec` too. -/
structure SameImage (k t : Syscalls.Kernel P F V (ExecWorld Space W)) : Prop where
  tAddrspace : t.world.tAddrspace = k.world.tAddrspace
  user : t.world.user = k.world.user
  lkExec : t.lkExec = k.lkExec

/-- `sys_execv` over the code of `copy_args`. The name is read from user memory, and opening and
closing a file has nothing to do with it. -/
structure ExecCallees (c : Callees P F V (ExecWorld Space W)) : Prop where
  copyArgs : ∀ uargs k, c.copyArgs uargs k = do
    let (result, bufs) ← copyArgs k.world.user uargs k.world.bufs
    return (result.map fun _ => (), { k with world := { k.world with bufs := bufs } })
  copyinstr : ∀ a len k, (c.copyinstr a len k).Ensures fun out => SameImage k out.2
  vfsOpen : ∀ path k, (c.vfsOpen path k).Ensures fun out => SameImage k out.2
  vfsClose : ∀ vn k, (c.vfsClose vn k).Ensures fun t => SameImage k t

/-- What is behind `uargs` cannot be read up to the terminator. -/
def Unreadable (e : ArgvEnd) (err : Errno) : Prop := e = .word err ∨ e = .string err

/-- What a call of `copy_args` and `sys_execv` owes to an array that ends with `e`. -/
structure Refuses (c : Callees P F V (ExecWorld Space W)) (cur : P) (upname uargs : UInt32)
    (k : Syscalls.Kernel P F V (ExecWorld Space W)) (e : ArgvEnd) : Prop where
  terminated : ∀ bufs copied bufs',
    copyArgs k.world.user uargs bufs = .done (.ok copied, bufs') → e = .null
  error : ∀ bufs err, Unreadable e err → ∃ err' bufs',
    copyArgs k.world.user uargs bufs = .done (.error err', bufs') ∧ (err' = .efault ∨ err' = err)
  exec : ∀ err, Unreadable e err → (k.sysExecv c cur upname uargs).Ensures fun out =>
    ∃ err' t, out = some (.error err', t) ∧ SameImage k t
  /-- It comes back when the file was opened and can be closed. -/
  returns : ∀ err, Unreadable e err → ∀ kpname k₁ vn k₂,
    c.copyinstr upname 32 { k with lkExec := some cur } = .done (.ok kpname, k₁) →
    c.vfsOpen kpname k₁ = .done (.ok vn, k₂) → (∀ t, ∃ u, c.vfsClose vn t = .done u) →
    ∃ out, k.sysExecv c cur upname uargs = .done out

variable {c : Callees P F V (ExecWorld Space W)} {cur : P} {upname uargs : UInt32}
variable {k t u : Syscalls.Kernel P F V (ExecWorld Space W)} {args : List (List UInt8)} {e : ArgvEnd}

omit [DecidableEq P] [DecidableEq F] [DecidableEq V] in
theorem SameImage.trans (first : SameImage k t) (second : SameImage t u) : SameImage k u :=
  ⟨second.tAddrspace.trans first.tAddrspace, second.user.trans first.user,
    second.lkExec.trans first.lkExec⟩

/-- The state with `lk_exec` held. -/
def locked (k : Syscalls.Kernel P F V (ExecWorld Space W)) (cur : P) :
    Syscalls.Kernel P F V (ExecWorld Space W) :=
  { k with lkExec := some cur }

theorem execUnlock_image (same : SameImage (locked k cur) t) (free : k.lkExec = none) :
    (t.execUnlock cur).Ensures (SameImage k) := by
  unfold Syscalls.Kernel.execUnlock
  rw [Outcome.ensures_bind, AtomicLock.release_ensures]
  exact fun _ => Outcome.ensures_pure.mpr ⟨same.tAddrspace, same.user, free.symm⟩

/-- The steps of `sys_execv` up to `copy_args` when that refuses its array. -/
theorem steps_refused (exec : ExecCallees c) (image : SameImage k t)
    (refused : ∀ bufs, ∃ err bufs', copyArgs k.world.user uargs bufs = .done (.error err, bufs')) :
    ∃ err u, Syscalls.Kernel.sysFork.steps [c.copyArgs uargs, c.asCreate] t = .done (.error err, u) ∧
      SameImage k u := by
  obtain ⟨err, bufs', refused⟩ := refused t.world.bufs
  rw [← image.user] at refused
  refine ⟨err, { t with world := { t.world with bufs := bufs' } }, ?_, image.tAddrspace, image.user,
    image.lkExec⟩
  rw [Syscalls.Kernel.sysFork.steps, exec.copyArgs, refused]
  rfl

theorem sysExecv_refused (exec : ExecCallees c) (free : k.lkExec = none)
    (refused : ∀ bufs, ∃ err bufs', copyArgs k.world.user uargs bufs = .done (.error err, bufs')) :
    (k.sysExecv c cur upname uargs).Ensures fun out =>
      ∃ err t, out = some (.error err, t) ∧ SameImage k t := by
  have locks : k.execLock cur = .done (locked k cur) := by
    rw [Syscalls.Kernel.execLock, free]
    rfl
  have unlocks : ∀ {t : Syscalls.Kernel P F V (ExecWorld Space W)} (err : Errno),
      SameImage (locked k cur) t →
      Outcome.Ensures (do
        let t ← t.execUnlock cur
        return some ((Except.error err : Except Errno Int), t)) fun out =>
          ∃ err t, out = some (.error err, t) ∧ SameImage k t := by
    intro t err same
    exact (execUnlock_image same free).then fun u image => Outcome.ensures_pure.mpr ⟨err, u, rfl, image⟩
  rw [Syscalls.Kernel.sysExecv, locks, Outcome.done_bind]
  refine (exec.copyinstr upname 32 (locked k cur)).then fun (copied, k₁) same₁ => ?_
  cases copied with
  | error err => exact unlocks err same₁
  | ok kpname =>
    refine (exec.vfsOpen kpname k₁).then fun (opened, k₂) same₂ => ?_
    have image := same₁.trans same₂
    cases opened with
    | error err => exact unlocks err image
    | ok vn =>
      obtain ⟨err, k₃, steps, image⟩ := steps_refused exec image refused
      dsimp only
      rw [steps, Outcome.done_bind]
      refine (execUnlock_image image free).then fun k₄ image => ?_
      refine (exec.vfsClose vn k₄).then fun k₅ closed => ?_
      exact Outcome.ensures_pure.mpr ⟨err, k₅, rfl, image.trans closed⟩

theorem sysExecv_returns (exec : ExecCallees c) (free : k.lkExec = none)
    (refused : ∀ bufs, ∃ err bufs', copyArgs k.world.user uargs bufs = .done (.error err, bufs'))
    {kpname : List UInt8} {vn : V} {k₁ k₂ : Syscalls.Kernel P F V (ExecWorld Space W)}
    (named : c.copyinstr upname 32 (locked k cur) = .done (.ok kpname, k₁))
    (opened : c.vfsOpen kpname k₁ = .done (.ok vn, k₂)) (closes : ∀ t, ∃ u, c.vfsClose vn t = .done u) :
    ∃ out, k.sysExecv c cur upname uargs = .done out := by
  have locks : k.execLock cur = .done (locked k cur) := by
    rw [Syscalls.Kernel.execLock, free]
    rfl
  have image := (exec.copyinstr _ _ _ _ named).trans (exec.vfsOpen _ _ _ opened)
  obtain ⟨err, k₃, steps, image⟩ := steps_refused exec image refused
  have unlocks : k₃.execUnlock cur = .done { k₃ with lkExec := none } := by
    rw [Syscalls.Kernel.execUnlock, image.lkExec]
    simp only [locked, AtomicLock.release, if_true, Outcome.done_bind]
    rfl
  obtain ⟨k₅, closed⟩ := closes { k₃ with lkExec := none }
  rw [Syscalls.Kernel.sysExecv, locks, Outcome.done_bind, named, Outcome.done_bind]
  dsimp only
  rw [opened, Outcome.done_bind]
  dsimp only
  rw [steps, Outcome.done_bind]
  dsimp only
  rw [unlocks, Outcome.done_bind, closed, Outcome.done_bind]
  exact ⟨_, rfl⟩

/-- The calls fail as they should unless the first fault is a word of the array after the first. -/
theorem copyArgs_refuses_iff (exec : ExecCallees c) (cur : P) (upname : UInt32)
    (free : k.lkExec = none) (h : Argv k.world.user uargs args e) :
    Refuses c cur upname uargs k e ↔ uargs = 0 ∨ args = [] ∨ ∀ err, e ≠ .word err := by
  constructor
  · intro right
    by_contra wrong
    simp only [not_or, not_forall, not_not] at wrong
    obtain ⟨given, some, err, rfl⟩ := wrong
    obtain ⟨err', bufs', refused, _⟩ := right.error k.world.bufs err (.inl rfl)
    rcases copyArgs_cases h k.world.bufs with ⟨null, _⟩ | ⟨_, failed, _⟩ |
      ⟨_, _, _, _, copied, _⟩ | ⟨_, _, _, runs⟩
    · exact given null
    · exact failed some
    · rw [copied] at refused
      cases refused
    · rw [runs] at refused
      cases refused
  · intro condition
    have failed : uargs = 0 ∨ (Passed args e → e = .null) := by
      rcases condition with null | rfl | reads
      · exact .inl null
      · right
        intro passed
        cases e with
        | null => rfl
        | word err => exact (passed rfl).elim
        | string err => exact passed.elim
      · right
        intro passed
        cases e with
        | null => rfl
        | word err => exact (reads err rfl).elim
        | string err => exact passed.elim
    have error : ∀ bufs err, Unreadable e err → ∃ err' bufs',
        copyArgs k.world.user uargs bufs = .done (.error err', bufs') ∧
          (err' = .efault ∨ err' = err) := by
      intro bufs err fault
      have broken : e ≠ .null := by
        rcases fault with rfl | rfl <;> exact nofun
      rcases copyArgs_cases h bufs with ⟨_, refused⟩ | ⟨_, _, err', bufs', same, refused⟩ |
        ⟨given, passed, _⟩ | ⟨given, passed, _⟩
      · exact ⟨_, _, refused, .inl rfl⟩
      · refine ⟨err', bufs', refused, .inr ?_⟩
        rcases fault with rfl | rfl <;> rcases same with same | same <;> cases same <;> rfl
      · exact (broken (failed.resolve_left given passed)).elim
      · exact (broken (failed.resolve_left given passed)).elim
    have refused : ∀ err, Unreadable e err → ∀ bufs, ∃ err bufs',
        copyArgs k.world.user uargs bufs = .done (.error err, bufs') := by
      intro err fault bufs
      obtain ⟨err', bufs', refused, _⟩ := error bufs err fault
      exact ⟨err', bufs', refused⟩
    refine ⟨?_, error, fun err fault => sysExecv_refused exec free (refused err fault),
      fun err fault _ _ _ _ => sysExecv_returns exec free (refused err fault)⟩
    intro bufs copied bufs' copies
    rcases copyArgs_cases h bufs with ⟨_, refused⟩ | ⟨_, _, _, _, _, refused⟩ |
      ⟨given, passed, _⟩ | ⟨given, passed, _⟩
    · rw [refused] at copies
      cases copies
    · rw [refused] at copies
      cases copies
    · exact failed.resolve_left given passed
    · exact failed.resolve_left given passed

end Refuses

/-- Everything but `copy_args` succeeds and does nothing. -/
def execCallees : Callees Unit Unit Unit (ExecWorld Unit Unit) where
  ops := ⟨fun _ _ d => .done (⟨none, 0, 0⟩, d), fun _ _ d => .done (⟨none, 0, 0⟩, d),
    fun _ _ => .done (.ok 0), fun _ _ => .done none, fun _ _ _ => .done ()⟩
  reclaims _ := false
  curspl _ := 0
  iplhighCount _ := 0
  tPid _ := 2
  cNumber _ := 0
  gettime _ := (0, 0)
  copyin _ k := .done (.ok 0, k)
  copyinstr _ _ k := .done (.ok [], k)
  copyout _ _ k := .done (.ok (), k)
  opening _ _ _ := ⟨.error .enoent, none, true, .ok 0, fun _ => false⟩
  garbage := 0
  vfsGetcwd _ _ k := .done (.error .enoent, k)
  vfsChdir _ k := .done (.ok (), k)
  waitpid _ _ k := .done (.ok 0, k)
  exit _ k := .done k
  shutdown _ k := .done k
  procCopy k := .done (.ok 3, k)
  trapframeCopy _ k := .done (.ok (), k)
  kmallocArgs k := .done (.ok (), k)
  asCopy k := .done (.ok (), k)
  threadFork k := .done (.ok (), k)
  unfork _ k := .done k
  vfsOpen _ k := .done (.ok (), k)
  vfsClose _ k := .done k
  copyArgs uargs k := do
    let (result, bufs) ← copyArgs k.world.user uargs k.world.bufs
    return (result.map fun _ => (), { k with world := { k.world with bufs := bufs } })
  asCreate k := .done (.ok (), k)
  loadElf _ k := .done (.ok (), k)
  asDefineStack k := .done (.ok (), k)
  adjustKargbuf k := .done (.ok (), k)
  copyoutArgs k := .done (.ok (), k)
  asRestore k := .done k
  enterNewProcess k := .done k

theorem execCallees_exec : ExecCallees execCallees where
  copyArgs _ _ := rfl
  copyinstr _ _ _ := Outcome.ensures_done.mpr ⟨rfl, rfl, rfl⟩
  vfsOpen _ _ := Outcome.ensures_done.mpr ⟨rfl, rfl, rfl⟩
  vfsClose _ _ := Outcome.ensures_done.mpr ⟨rfl, rfl, rfl⟩

/-- A process with some memory and without open files. -/
def inMemory (user : UserMem) : Syscalls.Kernel Unit Unit Unit (ExecWorld Unit Unit) :=
  ⟨⟨fun _ => some ⟨fun _ => none, some none, 0⟩, fun _ => .unused, fun _ => none⟩,
    ⟨some (), user, ⟨fun _ => 0, fun _ => 0⟩, ()⟩, none⟩

/-- An array without any memory behind it. -/
theorem copyArgs_refuses_unmapped :
    Refuses execCallees () 0x2000 0x1000 (inMemory fun _ => none) (.word .efault) := by
  have unread : UserMem.copyinPtr (fun _ => none) 0x1000 = .error .efault := rfl
  have argv : Argv (inMemory fun _ => none).world.user 0x1000 [] (.word .efault) := .word unread
  exact (copyArgs_refuses_iff execCallees_exec () 0x2000 rfl argv).mpr (.inr (.inl rfl))

/-- The memory of `oneArg` without the second word. -/
def cutArg : UserMem := fun a => if 0x1004 ≤ a ∧ a < 0x1008 then none else oneArg (letters 1) a

/-- The word after the first pointer is not there, and `copy_args` returns 0 with one argument. -/
theorem copyArgs_accepts_cut : Argv cutArg 0x1000 [[97]] (.word .efault) ∧
    ∃ copied bufs', copyArgs cutArg 0x1000 ⟨fun _ => 0, fun _ => 0⟩ = .done (.ok copied, bufs') := by
  have pointer : cutArg.copyinPtr 0x1000 = .ok 0x2000 := rfl
  have string : ∀ i, cutArg ((0x2000 : UInt32).toNat + i) = some (letters 1 i) := by
    intro i
    rw [← oneArg_string, show (0x2000 : UInt32).toNat = 0x2000 from rfl]
    exact if_neg (by omega)
  have argv : Argv cutArg 0x1000 [[97]] (.word .efault) := by
    refine .cons pointer (by decide) ⟨fun i inside => ?_, string 1, by decide⟩ (by decide) ?_ (.word rfl)
    · obtain rfl : i = 0 := by simpa using inside
      exact string 0
    · change 0x2000 + 1 < 2 ^ 31
      omega
  refine ⟨argv, ?_⟩
  rcases copyArgs_cases argv ⟨fun _ => 0, fun _ => 0⟩ with ⟨null, _⟩ | ⟨_, failed, _⟩ |
    ⟨_, _, _, bufs', copies, _⟩ | ⟨_, _, past, _⟩
  · cases null
  · exact (failed (by exact nofun)).elim
  · exact ⟨_, bufs', copies⟩
  · exact absurd past (by decide)

end Os161
