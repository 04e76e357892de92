import Os161.Base.Count
import Os161.Base.Machine
import Os161.File.Layer

/-!
# The calls on open files

Any number of processes that open, duplicate and close files, fork, exit and are reaped, in any
order of their calls.
-/

namespace Os161.FileCalls

open Files

/-- What has become of a process: `proc_create` makes it, `sys_exit` closes its files, and
`proc_destroy` frees it. -/
inductive Phase where
  | absent
  | running
  | exited
  deriving DecidableEq

structure State (P F V : Type) where
  files : Files P F V
  phase : P → Phase

inductive Action (P F V : Type) where
  /-- `common_prog`: `room` is for the allocations of `fd_create`, `threaded` says whether the
  process gets its thread. -/
  | start (cur p : P) (room : Bool × Bool) (answers : Fin 3 → Answers F V) (threaded : Bool)
      (reclaims : Reclaims V)
  | open (cur : P) (copied : Option Errno) (flags : UInt32) (garbage : Int) (answers : Answers F V)
  | dup2 (cur : P) (oldfd newfd : Int) (reclaims : Reclaims V)
  | close (cur : P) (fd : Int) (reclaims : Reclaims V)
  | fork (cur p : P) (room : Bool × Bool) (threaded : Bool) (reclaims : Reclaims V)
  | exit (cur : P) (reclaims : Reclaims V)
  | reap (p : P)

variable {P F V : Type} [DecidableEq P] [DecidableEq F] [DecidableEq V]

/-- `open_standard_files`. -/
def openStandardFiles (s : Files P F V) (p cur : P) (answers : Fin 3 → Answers F V)
    (reclaims : Reclaims V) : Outcome (Except Errno Unit × Files P F V) :=
  openEach s [(oRdonly, answers 0), (oWronly, answers 1), (oWronly, answers 2)]
where
  openEach (s : Files P F V) : List (UInt32 × Answers F V) →
      Outcome (Except Errno Unit × Files P F V)
    | [] => return (.ok (), s)
    | (flags, answers) :: rest => do
      let (result, s) ← s.kOpen p cur flags answers
      match result with
      | .ok _ => openEach s rest
      | .error err => do
        let (_, s) ← s.closeAllF p cur reclaims
        return (.error err, s)

namespace State

def enter (s : State P F V) (p : P) (files : Files P F V) (phase : Phase) : State P F V :=
  ⟨files, Function.update s.phase p phase⟩

variable [Fintype P]

/-- What `proc_create` does to the file tables: `MAX_PROCESSES` processes are there at most. -/
def procCreate (s : State P F V) (p : P) (room : Bool × Bool) :
    Outcome (Except Errno (Files P F V)) := do
  Outcome.await (s.phase p = .absent)
  if countWhere (· ≠ .absent) s.phase < 32 then
    return s.files.fdCreate p room
  else
    return .error .enproc

/-- Takes back a process that never gets a thread. -/
def abandon (s : State P F V) (files : Files P F V) (p cur : P) (reclaims : Reclaims V) :
    Outcome (State P F V) := do
  let (_, files) ← files.closeAllF p cur reclaims
  let files ← files.fdDestroy p
  return { s with files := files }

def start (s : State P F V) (cur p : P) (room : Bool × Bool) (answers : Fin 3 → Answers F V)
    (threaded : Bool) (reclaims : Reclaims V) : Outcome (State P F V) := do
  Outcome.await (s.phase cur = .running)
  match ← s.procCreate p room with
  | .error _ => return s
  | .ok files => do
    let (result, files) ← openStandardFiles files p cur answers reclaims
    match result with
    | .error _ => do
      let files ← files.fdDestroy p
      return { s with files := files }
    | .ok _ =>
      if threaded then return s.enter p files .running
      else s.abandon files p cur reclaims

/-- `sys_fork` does not look at what `proc_copy` returns before it follows the new process. -/
def fork (s : State P F V) (cur p : P) (room : Bool × Bool) (threaded : Bool)
    (reclaims : Reclaims V) : Outcome (State P F V) := do
  Outcome.await (s.phase cur = .running)
  match ← s.procCreate p room with
  | .error _ => .fault
  | .ok files => do
    let files ← files.fileCopy cur p cur
    if threaded then return s.enter p files .running
    else s.abandon files p cur reclaims

/-- `sys_exit` panics when a file cannot be closed. -/
def exit (s : State P F V) (cur : P) (reclaims : Reclaims V) : Outcome (State P F V) := do
  Outcome.await (s.phase cur = .running)
  let (closed, files) ← s.files.closeAllF cur cur reclaims
  Outcome.kassert (closed = true)
  return s.enter cur files .exited

/-- What `proc_destroy` does to the file tables. -/
def reap (s : State P F V) (p : P) : Outcome (State P F V) := do
  Outcome.await (s.phase p = .exited)
  let files ← s.files.fdDestroy p
  return s.enter p files .absent

def step (s : State P F V) : Action P F V → Outcome (State P F V)
  | .start cur p room answers threaded reclaims => s.start cur p room answers threaded reclaims
  | .open cur copied flags garbage answers => do
    Outcome.await (s.phase cur = .running)
    let (_, files) ← s.files.sysOpen cur copied flags garbage answers
    return { s with files := files }
  | .dup2 cur oldfd newfd reclaims => do
    Outcome.await (s.phase cur = .running)
    let (_, files) ← s.files.sysDup2 cur oldfd newfd reclaims
    return { s with files := files }
  | .close cur fd reclaims => do
    Outcome.await (s.phase cur = .running)
    let (_, files) ← s.files.sysClose cur fd reclaims
    return { s with files := files }
  | .fork cur p room threaded reclaims => s.fork cur p room threaded reclaims
  | .exit cur reclaims => s.exit cur reclaims
  | .reap p => s.reap p

end State

/-- At the start the menu's process `p0` has an empty table and there are no files. -/
def machine [Fintype P] (p0 : P) : Machine (State P F V) (Action P F V) where
  initial s :=
    s.files.tables = Function.update (fun _ => none) p0 (some ⟨fun _ => none, some none, 0⟩) ∧
      (∀ f, s.files.files f = .unused) ∧
      s.phase = Function.update (fun _ => .absent) p0 .running
  step s a := s.step a

end Os161.FileCalls
