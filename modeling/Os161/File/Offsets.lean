import Os161.Base.Machine
import Os161.Base.Serial
import Os161.File.Transfer

/-!
# Calls that share an offset

Processes that read, write and seek, each with its own table but with files in common, in any order
of the parts of their calls. `sys_read` and `sys_write` hold the lock of the caller's table, which
is not the lock of the file, so another process can come between the load and the store of
`f_offset`. As long as none does, the calls come to what they come to one after another.
-/

set_option linter.unusedSectionVars false

namespace Os161.Offsets

open Files

inductive Call where
  | transfer (r : RwRequest)
  | lseek (q : Seek)
  deriving DecidableEq

/-- Where a process is. A transfer looks its file up again in every part. -/
inductive Pc (F : Type) where
  | idle
  | entered (r : RwRequest) (f : F)
  | loaded (r : RwRequest) (f : F) (offset : Int)
  | moved (r : RwRequest) (f : F) (m : Moved)
  | seeking (q : Seek) (f : F)
  | positioned (q : Seek) (f : F) (result : Except Errno Int)

/-- `log` has what the calls of a process have returned. -/
structure State (P F V D : Type) where
  files : Files P F V
  world : D
  pc : P → Pc F
  log : P → List (Call × Except Errno Int)

inductive Action (P : Type) where
  | begin (cur : P) (call : Call)
  /-- The next part of the call that a process is in. -/
  | next (cur : P)

variable {P F V D : Type} [DecidableEq P] [DecidableEq F]

namespace State

def goTo (s : State P F V D) (cur : P) (pc : Pc F) (files : Files P F V) : State P F V D :=
  { s with files := files, pc := Function.update s.pc cur pc }

def answer (s : State P F V D) (cur : P) (call : Call) (result : Except Errno Int)
    (files : Files P F V) : State P F V D :=
  { s.goTo cur .idle files with
    log := Function.update s.log cur (s.log cur ++ [(call, result)]) }

def start (s : State P F V D) (cur : P) : Call → Outcome (State P F V D)
  | .transfer r => do
    let (entered, files) ← s.files.enterTransfer cur r
    match entered with
    | .error err => return s.answer cur (.transfer r) (.error err) files
    | .ok f => return s.goTo cur (.entered r f) files
  | .lseek q => do
    let (found, files) ← s.files.getFile cur cur q.fd
    match found with
    | .error err => return s.answer cur (.lseek q) (.error err) files
    | .ok f => return s.goTo cur (.seeking q f) files

def next (ops : VnodeOps P V D) (s : State P F V D) (cur : P) : Outcome (State P F V D) :=
  match s.pc cur with
  | .idle => .blocked
  | .entered r f => do
    let offset ← s.files.loadOffset cur r
    return s.goTo cur (.loaded r f offset) s.files
  | .loaded r f offset => do
    let (m, world) ← s.files.moveData ops cur r offset s.world
    return { s.goTo cur (.moved r f m) s.files with world := world }
  | .moved r _ m => do
    let (result, files) ← s.files.finishTransfer cur r m
    return s.answer cur (.transfer r) result files
  | .seeking q f => do
    let result ← s.files.position ops f q s.world
    return s.goTo cur (.positioned q f result) s.files
  | .positioned q f result => do
    let (result, files) ← s.files.finishSeek cur f result
    return s.answer cur (.lseek q) result files

def step (ops : VnodeOps P V D) (s : State P F V D) : Action P → Outcome (State P F V D)
  | .begin cur call =>
    match s.pc cur with
    | .idle => s.start cur call
    | _ => .blocked
  | .next cur => s.next ops cur

end State

/-- At the start no process is in a call. The tables have any files in common. -/
def machine (ops : VnodeOps P V D) (files : Files P F V) (world : D) :
    Machine (State P F V D) (Action P) where
  initial s := s = ⟨files, world, fun _ => .idle, fun _ => []⟩
  step s a := s.step ops a

/-! ### One after another -/

/-- A whole call by itself. -/
def perform (ops : VnodeOps P V D) :
    P × Call → Files P F V × D → Outcome (Except Errno Int × Files P F V × D)
  | (cur, .transfer r), (files, world) => files.transfer ops cur r world
  | (cur, .lseek q), (files, world) => do
    let (result, files) ← files.sysLseek ops cur q world
    return (result, files, world)

/-- What the calls of a process returned. -/
def returned (p : P) (events : List ((P × Call) × Except Errno Int)) :
    List (Call × Except Errno Int) :=
  events.filterMap fun e => if e.1.1 = p then some (e.1.2, e.2) else none

/-- There is an order in which the calls, each by itself, return what they have returned and leave
the world as it is now. A process that is in a call may have it in the order already. When nobody
is in a call, also the files are the same. -/
def Serialisable (ops : VnodeOps P V D) (files : Files P F V) (world : D) (s : State P F V D) :
    Prop :=
  ∃ order events after,
    serially (perform ops) (files, world) order = .done (events, after, s.world) ∧
      (∀ p, ∃ under, returned p events = s.log p ++ under ∧ (s.pc p = .idle → under = [])) ∧
      ((∀ p, s.pc p = .idle) → after = s.files)

namespace Pc

/-- The file whose offset the call has read and not yet stored. -/
def opened : Pc F → Option F
  | .loaded _ f _ | .moved _ f _ | .positioned _ f _ => some f
  | _ => none

/-- The file whose offset the next part of the call reads. -/
def reads : Pc F → Option F
  | .entered _ f | .seeking _ f => some f
  | _ => none

/-- The file whose lock the call holds. -/
def holds : Pc F → Option F
  | .seeking _ f | .positioned _ f _ => some f
  | _ => none

/-- The offset that the call is going to store, and where. -/
def stores : Pc F → Option (F × Int)
  | .moved _ f m => (newPos m).map (f, ·)
  | .positioned _ f result => result.toOption.map (f, ·)
  | _ => none

/-- The file of the call. -/
def file : Pc F → Option F
  | .idle => none
  | .entered _ f | .loaded _ f _ | .moved _ f _ | .seeking _ f | .positioned _ f _ => some f

/-- The call holds the lock of its table. -/
def transfers : Pc F → Bool
  | .entered _ _ | .loaded _ _ _ | .moved _ _ _ => true
  | _ => false

/-- The call that has its place in the order but has not returned. -/
def returning : Pc F → List (Call × Except Errno Int)
  | .moved r _ m => [(.transfer r, Files.answer r m)]
  | .positioned q _ result => [(.lseek q, result)]
  | _ => []

end Pc

/-- A call reads the offset of a file only while no other call has read it and is still to store
it. -/
def Alone (s : State P F V D) : Action P → Prop
  | .begin _ _ => True
  | .next cur => ∀ f, (s.pc cur).reads = some f → ∀ q, q ≠ cur → (s.pc q).opened ≠ some f

/-! ### The files once the calls under way are over -/

def settle (held : Bool) (pos : Option Int) (file : File V P) : File V P :=
  if held then { file.moveTo pos with fLk := some none } else file.moveTo pos

def settleTable (transfers : Bool) (fdesc : Filedesc F P) : Filedesc F P :=
  if transfers then { fdesc with fdLk := some none } else fdesc

/-- The file as it is once the call that has its lock is over and the offset is stored. -/
def Fits (s : State P F V D) (f : F) (c : Cell (File V P)) : Prop :=
  ∃ (holder : Option P) (store : Option (P × Int)),
    (∀ p, (s.pc p).holds = some f ↔ holder = some p) ∧
      (∀ p pos, (s.pc p).stores = some (f, pos) ↔ store = some (p, pos)) ∧
      c = (s.files.files f).map (settle holder.isSome (store.map Prod.snd))

/-- The call has found its file and holds the lock of its table. -/
structure Entered (files : Files P F V) (p : P) (r : RwRequest) (f : F) : Prop where
  checks : files.checkTransfer p r = .done (.ok f)
  held : files.fdLkOf p = some (some p)

/-- What holds of the files where a process is in a call. -/
def Under (files : Files P F V) (p : P) : Pc F → Prop
  | .idle => True
  | .entered r f => Entered files p r f
  | .loaded r f offset =>
    Entered files p r f ∧ ∃ file, files.files f = .live file ∧ file.fOffset = offset
  | .moved r f _ => Entered files p r f
  | .seeking q f => files.slot p q.fd = .done (some f) ∧ files.fdLkOf p = some none
  | .positioned _ _ _ => True

/-- The calls in `order` come to what has been returned, and to the files as they are once the
calls that have their place in the order are over. -/
structure Inv (ops : VnodeOps P V D) (files : Files P F V) (world : D) (s : State P F V D)
    (order : List (P × Call)) (events : List ((P × Call) × Except Errno Int))
    (after : Files P F V) : Prop where
  ran : serially (perform ops) (files, world) order = .done (events, after, s.world)
  logs : ∀ p, returned p events = s.log p ++ (s.pc p).returning
  tables : ∀ p, after.tables p = (s.files.tables p).map (settleTable (s.pc p).transfers)
  vnodes : after.vnodes = s.files.vnodes
  cells : ∀ f, Fits s f (after.files f)
  alone : ∀ p q f, (s.pc p).opened = some f → (s.pc q).opened = some f → p = q
  held : ∀ p f, (s.pc p).holds = some f →
    ∃ file, s.files.files f = .live file ∧ file.fLk = some (some p)
  under : ∀ p, Under s.files p (s.pc p)

section Steps

variable {ops : VnodeOps P V D} {files : Files P F V} {world : D} {s t : State P F V D}
variable {order : List (P × Call)} {events : List ((P × Call) × Except Errno Int)}
variable {after : Files P F V} {p q : P} {f g : F} {pc : Pc F} {c : Cell (File V P)}
variable {file : File V P}

/-! ### Small facts -/

theorem returned_snoc (call : Call) (result : Except Errno Int) :
    returned q (events ++ [((p, call), result)]) =
      returned q events ++ if p = q then [(call, result)] else [] := by
  unfold returned
  rw [List.filterMap_append]
  by_cases same : p = q <;> simp [same]

theorem stores_opened {pos : Int} (h : pc.stores = some (f, pos)) : pc.opened = some f := by
  cases pc <;> simp_all [Pc.stores, Pc.opened]

theorem holds_file (own : pc.file ∈ [none, some f]) (other : g ≠ f) : ¬ pc.holds = some g := by
  cases pc <;> simp_all [Pc.file, Pc.holds, eq_comm]

theorem stores_file {pos : Int} (own : pc.file ∈ [none, some f]) (other : g ≠ f) :
    ¬ pc.stores = some (g, pos) := by
  cases pc <;> simp_all [Pc.file, Pc.stores, eq_comm]

theorem settle_moveTo (held : Bool) (pos : Option Int) (file : File V P) :
    settle held pos file = (settle held none file).moveTo pos := by
  cases held <;> cases pos <;> rfl

/-- A step of `p` works on its own table and on the file `f`, and leaves the rest. -/
structure Frame (s t : State P F V D) (p : P) (f : F) : Prop where
  pcs : ∀ q, q ≠ p → t.pc q = s.pc q
  tables : ∀ q, q ≠ p → t.files.tables q = s.files.tables q
  others : ∀ g, g ≠ f → t.files.files g = s.files.files g
  file : ∀ file, s.files.files f = .live file → ∃ file', t.files.files f = .live file' ∧
    file'.fOflags = file.fOflags ∧
      (file'.fOffset = file.fOffset ∨ (s.pc p).opened = some f) ∧
        ∀ q, q ≠ p → file.fLk = some (some q) → file'.fLk = some (some q)

theorem Frame.live (frame : Frame s t p f) (there : s.files.files g = .live file) :
    ∃ file', t.files.files g = .live file' ∧ file'.fOflags = file.fOflags ∧
      (file'.fOffset = file.fOffset ∨ (s.pc p).opened = some g) ∧
        ∀ q, q ≠ p → file.fLk = some (some q) → file'.fLk = some (some q) := by
  by_cases same : g = f
  · subst same
    exact frame.file file there
  · exact ⟨file, (frame.others g same).trans there, rfl, .inl rfl, fun _ _ held => held⟩

theorem Entered.frame (frame : Frame s t p f) (other : q ≠ p) {r : RwRequest}
    (h : Entered s.files q r g) : Entered t.files q r g := by
  have table := frame.tables q other
  constructor
  · refine checkTransfer_congr (slot_congr table) (fun k file there => ?_) h.checks
    obtain ⟨file', there', flags, -⟩ := frame.live there
    exact ⟨file', there', flags⟩
  · unfold fdLkOf
    rw [table]
    exact h.held

theorem Inv.under_frame (h : Inv ops files world s order events after) (frame : Frame s t p f)
    (other : q ≠ p) : Under t.files q (t.pc q) := by
  have holds := h.under q
  rw [frame.pcs q other]
  cases at_ : s.pc q with
  | idle => trivial
  | entered r k =>
    rw [at_] at holds
    exact holds.frame frame other
  | loaded r k offset =>
    rw [at_] at holds
    obtain ⟨entered, file, there, same⟩ := holds
    obtain ⟨file', there', -, kept, -⟩ := frame.live there
    have unopened : (s.pc p).opened ≠ some k := fun opened =>
      other (h.alone q p k (by rw [at_]; rfl) opened)
    exact ⟨entered.frame frame other, file', there', (kept.resolve_right unopened).trans same⟩
  | moved r k m =>
    rw [at_] at holds
    exact holds.frame frame other
  | seeking q' k =>
    rw [at_] at holds
    have table := frame.tables q other
    refine ⟨(slot_congr table).trans holds.1, ?_⟩
    unfold fdLkOf
    rw [table]
    exact holds.2
  | positioned q' k result => trivial

/-- A step that leaves alone what a process elsewhere holds and stores. -/
theorem Fits.frame (h : Fits s g c) (pcs : ∀ q, q ≠ p → t.pc q = s.pc q)
    (holds : (t.pc p).holds = some g ↔ (s.pc p).holds = some g)
    (stores : ∀ pos, (t.pc p).stores = some (g, pos) ↔ (s.pc p).stores = some (g, pos))
    (same : t.files.files g = s.files.files g) : Fits t g c := by
  obtain ⟨holder, store, holders, storers, value⟩ := h
  refine ⟨holder, store, fun q => ?_, fun q pos => ?_, by rw [same, value]⟩
  · by_cases own : q = p
    · subst own
      exact holds.trans (holders q)
    · rw [pcs q own]
      exact holders q
  · by_cases own : q = p
    · subst own
      exact (stores pos).trans (storers q pos)
    · rw [pcs q own]
      exact storers q pos

/-- What is left to show of a step of `p` in a call on `f`: what is about `p` and `f`. -/
theorem Inv.of_frame (h : Inv ops files world s order events after) (frame : Frame s t p f)
    {order' : List (P × Call)} {events' : List ((P × Call) × Except Errno Int)}
    {after' : Files P F V}
    (ran : serially (perform ops) (files, world) order' = .done (events', after', t.world))
    (logs : ∀ q, returned q events' = t.log q ++ (t.pc q).returning)
    (table : after'.tables p = (t.files.tables p).map (settleTable (t.pc p).transfers))
    (tables : after'.tables = after.tables)
    (vnodes : after'.vnodes = t.files.vnodes)
    (cell : Fits t f (after'.files f))
    (cells : ∀ g, g ≠ f → after'.files g = after.files g)
    (files' : (s.pc p).file ∈ [none, some f] ∧ (t.pc p).file ∈ [none, some f])
    (opens : ∀ g, (t.pc p).opened = some g → ∀ q, q ≠ p → (s.pc q).opened ≠ some g)
    (held : ∀ g, (t.pc p).holds = some g →
      ∃ file, t.files.files g = .live file ∧ file.fLk = some (some p))
    (under : Under t.files p (t.pc p)) :
    Inv ops files world t order' events' after' := by
  refine ⟨ran, logs, fun q => ?_, vnodes, fun g => ?_, fun q q' g => ?_, fun q g => ?_, fun q => ?_⟩
  · by_cases own : q = p
    · exact own ▸ table
    · rw [tables, frame.pcs q own, frame.tables q own]
      exact h.tables q
  · by_cases same : g = f
    · exact same ▸ cell
    · rw [cells g same]
      refine (h.cells g).frame frame.pcs ?_ (fun pos => ?_) (frame.others g same)
      · rw [iff_false_right (holds_file files'.1 same)]
        exact holds_file files'.2 same
      · rw [iff_false_right (stores_file files'.1 same)]
        exact stores_file files'.2 same
  · intro opened opened'
    by_cases own : q = p
    · by_cases own' : q' = p
      · exact own.trans own'.symm
      · rw [frame.pcs q' own'] at opened'
        exact (opens g (own ▸ opened) q' own' opened').elim
    · rw [frame.pcs q own] at opened
      by_cases own' : q' = p
      · exact (opens g (own' ▸ opened') q own opened).elim
      · rw [frame.pcs q' own'] at opened'
        exact h.alone q q' g opened opened'
  · intro holds
    by_cases own : q = p
    · subst own
      exact held g holds
    · rw [frame.pcs q own] at holds
      obtain ⟨file, there, locked⟩ := h.held q g holds
      obtain ⟨file', there', -, -, kept⟩ := frame.live there
      exact ⟨file', there', kept q own locked⟩
  · by_cases own : q = p
    · exact own ▸ under
    · exact h.under_frame frame own

/-! ### The state after the calls in the order -/

@[simp] theorem settle_fOflags {held : Bool} {pos : Option Int} :
    (settle held pos file).fOflags = file.fOflags := by
  cases held <;> rfl

@[simp] theorem settle_fVnode {held : Bool} {pos : Option Int} :
    (settle held pos file).fVnode = file.fVnode := by
  cases held <;> rfl

theorem Inv.slot (h : Inv ops files world s order events after) (fd : Int) :
    after.slot q fd = s.files.slot q fd := by
  unfold Files.slot
  rw [h.tables q]
  cases s.files.tables q with
  | none => rfl
  | some fdesc => cases transfers : (s.pc q).transfers <;> rfl

theorem Inv.live (h : Inv ops files world s order events after)
    (there : s.files.files f = .live file) : ∃ file', after.files f = .live file' ∧
      file'.fOflags = file.fOflags := by
  obtain ⟨holder, store, -, -, value⟩ := h.cells f
  rw [there] at value
  exact ⟨_, value, settle_fOflags⟩

theorem Inv.checks (h : Inv ops files world s order events after) {r : RwRequest}
    {checked : Except Errno F} (checks : s.files.checkTransfer q r = .done checked) :
    after.checkTransfer q r = .done checked :=
  checkTransfer_congr (h.slot r.fd) (fun _ _ there => h.live there) checks

theorem Inv.fdLkOf_idle (h : Inv ops files world s order events after)
    (idle : (s.pc q).transfers = false) : after.fdLkOf q = s.files.fdLkOf q := by
  unfold fdLkOf
  rw [h.tables q, idle]
  cases s.files.tables q <;> rfl

theorem Inv.fdLkOf_entered (h : Inv ops files world s order events after)
    (transfers : (s.pc q).transfers = true) (held : s.files.fdLkOf q = some (some q)) :
    after.fdLkOf q = some none := by
  obtain ⟨fdesc, table, -⟩ := Option.bind_eq_some_iff.mp held
  unfold fdLkOf
  rw [h.tables q, transfers, table]
  rfl

/-- No call that is under way is going to store to a file that nobody else has open. -/
theorem unstored (alone : ∀ q, q ≠ p → (s.pc q).opened ≠ some f)
    (own : (s.pc p).stores = none) (q : P) (pos : Int) : (s.pc q).stores ≠ some (f, pos) := by
  intro stores
  by_cases same : q = p
  · rw [same, own] at stores
    cases stores
  · exact alone q same (stores_opened stores)

theorem Inv.cell_unstored (h : Inv ops files world s order events after)
    (there : s.files.files f = .live file) (unstored : ∀ q pos, (s.pc q).stores ≠ some (f, pos)) :
    ∃ holder : Option P, (∀ q, (s.pc q).holds = some f ↔ holder = some q) ∧
      after.files f = .live (settle holder.isSome none file) := by
  obtain ⟨holder, store, holders, storers, value⟩ := h.cells f
  cases store with
  | none =>
    rw [there] at value
    exact ⟨holder, holders, value⟩
  | some at_ => exact (unstored at_.1 at_.2 ((storers at_.1 at_.2).mpr rfl)).elim

/-! ### Each part of a call -/

@[simp] theorem goTo_pc {files' : Files P F V} : (s.goTo p pc files').pc p = pc :=
  Function.update_self ..

theorem goTo_logs (h : Inv ops files world s order events after) {files' : Files P F V}
    (same : pc.returning = (s.pc p).returning) (q : P) :
    returned q events = (s.goTo p pc files').log q ++ ((s.goTo p pc files').pc q).returning := by
  have log := h.logs q
  by_cases own : q = p
  · subst own
    rw [goTo_pc, same]
    exact log
  · have pcs : (s.goTo p pc files').pc q = s.pc q := Function.update_of_ne own ..
    rw [pcs]
    exact log

/-- A transfer gets the lock of its table. -/
theorem Inv.enter (h : Inv ops files world s order events after) {r : RwRequest}
    (idle : s.pc p = .idle) (checks : s.files.checkTransfer p r = .done (.ok f))
    (free : s.files.fdLkOf p = some none) :
    Inv ops files world (s.goTo p (.entered r f) (s.files.withFdLk p (some p))) order events
      after := by
  have frame : Frame s (s.goTo p (.entered r f) (s.files.withFdLk p (some p))) p f :=
    ⟨fun _ other => Function.update_of_ne other .., fun _ other => Function.update_of_ne other ..,
      fun _ _ => rfl, fun file there => ⟨file, there, rfl, .inl rfl, fun _ _ held => held⟩⟩
  obtain ⟨fdesc, table, locked⟩ := Option.bind_eq_some_iff.mp free
  refine h.of_frame frame h.ran (goTo_logs h (by rw [idle]; rfl)) ?_ rfl h.vnodes ?_
    (fun _ _ => rfl) ?_ ?_ ?_ ?_
  · have tables := h.tables p
    rw [idle, table] at tables
    rw [goTo_pc, tables]
    show _ = ((s.files.withFdLk p (some p)).tables p).map _
    rw [withFdLk_table table]
    simp [settleTable, Pc.transfers, ← locked]
  · exact (h.cells f).frame frame.pcs (by simp [idle, Pc.holds]) (by simp [idle, Pc.stores]) rfl
  · simp [idle, Pc.file]
  · simp [Pc.opened]
  · simp [Pc.holds]
  · rw [goTo_pc]
    exact ⟨checkTransfer_congr withFdLk_slot (fun g file there => ⟨file, there, rfl⟩) checks,
      withFdLk_fdLkOf free⟩

/-- A transfer reads the offset. -/
theorem Inv.load (h : Inv ops files world s order events after) {r : RwRequest}
    (at_ : s.pc p = .entered r f) (there : s.files.files f = .live file)
    (alone : ∀ q, q ≠ p → (s.pc q).opened ≠ some f) :
    Inv ops files world (s.goTo p (.loaded r f file.fOffset) s.files) order events after := by
  have frame : Frame s (s.goTo p (.loaded r f file.fOffset) s.files) p f :=
    ⟨fun _ other => Function.update_of_ne other .., fun _ _ => rfl, fun _ _ => rfl,
      fun file there => ⟨file, there, rfl, .inl rfl, fun _ _ held => held⟩⟩
  have under := h.under p
  have table := h.tables p
  rw [at_] at under table
  refine h.of_frame frame h.ran (goTo_logs h (by rw [at_]; rfl)) ?_ rfl h.vnodes ?_
    (fun _ _ => rfl) ?_ ?_ ?_ ?_
  · rw [goTo_pc]
    exact table
  · exact (h.cells f).frame frame.pcs (by simp [at_, Pc.holds]) (by simp [at_, Pc.stores]) rfl
  · simp [at_, Pc.file]
  · rw [goTo_pc]
    rintro g opened
    obtain rfl := Option.some.inj opened
    exact alone
  · simp [Pc.holds]
  · rw [goTo_pc]
    exact ⟨under, file, there, rfl⟩

/-- A call takes its place in the order: it is going to store `pos`. -/
theorem Fits.commit {holder : Option P} {pos : Option Int}
    (pcs : ∀ q, q ≠ p → t.pc q = s.pc q) (there : t.files.files f = .live file)
    (holders : ∀ q, (s.pc q).holds = some f ↔ holder = some q)
    (holds : (t.pc p).holds = (s.pc p).holds)
    (unstored : ∀ q pos, (s.pc q).stores ≠ some (f, pos))
    (stores : (t.pc p).stores = pos.map (f, ·)) :
    Fits t f (.live ((settle holder.isSome none file).moveTo pos)) := by
  refine ⟨holder, pos.map (p, ·), fun q => ?_, fun q pos' => ?_, ?_⟩
  · by_cases own : q = p
    · subst own
      rw [holds]
      exact holders q
    · rw [pcs q own]
      exact holders q
  · by_cases own : q = p
    · subst own
      rw [stores]
      cases pos <;> simp
    · rw [pcs q own, iff_false_left (unstored q pos')]
      cases pos <;> simp [Ne.symm own]
  · rw [there, ← settle_moveTo]
    cases pos <;> rfl

theorem serially_commit (h : Inv ops files world s order events after) {call : Call}
    {result : Except Errno Int} {after' : Files P F V} {d : D}
    (performed : perform ops (p, call) (after, s.world) = .done (result, after', d)) :
    serially (perform ops) (files, world) (order ++ [(p, call)]) =
      .done (events ++ [((p, call), result)], after', d) :=
  serially_snoc h.ran performed

/-- What is logged once the call of `p` has its place. -/
theorem logs_commit (h : Inv ops files world s order events after) {call : Call}
    {result : Except Errno Int} (before : (s.pc p).returning = [])
    (pcs : ∀ q, q ≠ p → t.pc q = s.pc q) (logs : ∀ q, q ≠ p → t.log q = s.log q)
    (own : t.log p ++ (t.pc p).returning = s.log p ++ [(call, result)]) (q : P) :
    returned q (events ++ [((p, call), result)]) = t.log q ++ (t.pc q).returning := by
  rw [returned_snoc, h.logs q]
  by_cases same : p = q
  · subst same
    rw [if_pos rfl, before, List.append_nil, own]
  · rw [if_neg same, List.append_nil, pcs q (Ne.symm same), logs q (Ne.symm same)]

/-- A transfer moves the data, and this is its place in the order. -/
theorem Inv.move (h : Inv ops files world s order events after) {r : RwRequest} {offset : Int}
    {m : Moved} {d : D} (at_ : s.pc p = .loaded r f offset)
    (moves : s.files.moveData ops p r offset s.world = .done (m, d)) :
    ∃ order events after,
      Inv ops files world { s.goTo p (.moved r f m) s.files with world := d } order events
        after := by
  have under := h.under p
  have table := h.tables p
  rw [at_] at under table
  obtain ⟨entered, file, there, rfl⟩ := under
  obtain ⟨found, -⟩ := checkTransfer_ok entered.checks
  have alone : ∀ q, q ≠ p → (s.pc q).opened ≠ some f := fun q other opened =>
    other (h.alone q p f opened (by rw [at_]; rfl))
  have unstored := unstored alone (by rw [at_]; rfl)
  obtain ⟨holder, holders, cell⟩ := h.cell_unstored there unstored
  set settled := settle holder.isSome none file
  have free : after.fdLkOf p = some none := h.fdLkOf_entered (by rw [at_]; rfl) entered.held
  have moves' : after.moveData ops p r settled.fOffset s.world = .done (m, d) := by
    have offset : settled.fOffset = file.fOffset := by
      cases holder <;> rfl
    rw [offset, moveData_congr ops (h.slot r.fd) found there cell settle_fVnode]
    exact moves
  have performed : perform ops (p, .transfer r) (after, s.world) =
      .done (Files.answer r m, after.withFile f (settled.moveTo (newPos m)), d) :=
    transfer_done ops (h.checks entered.checks) free cell moves'
  have ran := serially_commit h performed
  have frame : Frame s { s.goTo p (.moved r f m) s.files with world := d } p f :=
    ⟨fun _ other => Function.update_of_ne other .., fun _ _ => rfl, fun _ _ => rfl,
      fun file there => ⟨file, there, rfl, .inl rfl, fun _ _ held => held⟩⟩
  have pc : ({ s.goTo p (.moved r f m) s.files with world := d } : State P F V D).pc p =
      .moved r f m := Function.update_self ..
  refine ⟨_, _, _, h.of_frame frame ran ?_ ?_ rfl h.vnodes ?_ (fun _ => withFile_other) ?_ ?_ ?_ ?_⟩
  · exact logs_commit h (by rw [at_]; rfl) frame.pcs (fun _ _ => rfl) (by rw [pc]; rfl)
  · rw [pc]
    exact table
  · rw [withFile_same]
    exact Fits.commit frame.pcs there holders (by rw [pc, at_]; rfl) unstored (by rw [pc]; rfl)
  · simp [at_, Pc.file]
  · rw [pc]
    rintro g opened
    obtain rfl := Option.some.inj opened
    exact alone
  · rw [pc]
    exact nofun
  · rw [pc]
    exact entered

/-- A seek finds the new offset, and this is its place in the order. -/
theorem Inv.position (h : Inv ops files world s order events after) {q : Seek}
    {result : Except Errno Int} (at_ : s.pc p = .seeking q f)
    (alone : ∀ q, q ≠ p → (s.pc q).opened ≠ some f)
    (finds : s.files.position ops f q s.world = .done result) :
    ∃ order events after,
      Inv ops files world (s.goTo p (.positioned q f result) s.files) order events after := by
  have under := h.under p
  have table := h.tables p
  rw [at_] at under table
  obtain ⟨found, free⟩ := under
  have unstored := unstored alone (by rw [at_]; rfl)
  have holds : (s.pc p).holds = some f := by
    rw [at_]
    rfl
  obtain ⟨file, there, held⟩ := h.held p f holds
  obtain ⟨holder, holders, cell⟩ := h.cell_unstored there unstored
  obtain rfl := (holders p).mp holds
  have finds' : after.position ops f q s.world = .done result :=
    (position_congr ops there cell settle_fVnode rfl).trans finds
  have free' : after.fdLkOf p = some none := (h.fdLkOf_idle (by rw [at_]; rfl)).trans free
  have seeks := sysLseek_done ops ((h.slot q.fd).trans found) free' cell rfl finds'
  have performed : perform ops (p, .lseek q) (after, s.world) =
      .done (result, after.withFile f ((settle true none file).moveTo result.toOption),
        s.world) := by
    change (after.sysLseek ops p q s.world >>= _) = _
    simp [seeks, Outcome.pure_def]
  have ran := serially_commit h performed
  have frame : Frame s (s.goTo p (.positioned q f result) s.files) p f :=
    ⟨fun _ other => Function.update_of_ne other .., fun _ _ => rfl, fun _ _ => rfl,
      fun file there => ⟨file, there, rfl, .inl rfl, fun _ _ held => held⟩⟩
  refine ⟨_, _, _, h.of_frame frame ran ?_ ?_ rfl h.vnodes ?_ (fun _ => withFile_other) ?_ ?_ ?_ ?_⟩
  · exact logs_commit h (by rw [at_]; rfl) frame.pcs (fun _ _ => rfl) (by rw [goTo_pc]; rfl)
  · rw [goTo_pc]
    exact table
  · rw [withFile_same]
    exact Fits.commit frame.pcs there holders (by rw [goTo_pc, at_]; rfl) unstored
      (by rw [goTo_pc]; rfl)
  · simp [at_, Pc.file]
  · rw [goTo_pc]
    rintro g opened
    obtain rfl := Option.some.inj opened
    exact alone
  · rw [goTo_pc]
    rintro g holds
    obtain rfl := Option.some.inj holds
    exact ⟨file, there, held⟩
  · rw [goTo_pc]
    trivial

/-- Only the call that has the file open is going to store to it. -/
theorem store_eq {store : Option (P × Int)} {pos : Option Int}
    (alone : ∀ q, q ≠ p → (s.pc q).opened ≠ some f) (own : (s.pc p).stores = pos.map (f, ·))
    (storers : ∀ q pos, (s.pc q).stores = some (f, pos) ↔ store = some (q, pos)) :
    store = pos.map (p, ·) := by
  cases store with
  | none =>
    cases pos with
    | none => rfl
    | some v => exact (storers p v).mp own
  | some at_ =>
    have stores := (storers at_.1 at_.2).mpr rfl
    by_cases same : at_.1 = p
    · rw [same, own] at stores
      obtain ⟨v, rfl, found⟩ := Option.map_eq_some_iff.mp stores
      rw [← same, (Prod.mk.inj found).2]
      rfl
    · exact (alone _ same (stores_opened stores)).elim

/-- What the end of a call leaves of its file is what the file was going to be. -/
theorem Fits.finish {pos : Option Int} (h : Fits s f c) (pcs : ∀ q, q ≠ p → t.pc q = s.pc q)
    (there : s.files.files f = .live file) (alone : ∀ q, q ≠ p → (s.pc q).opened ≠ some f)
    (own : (s.pc p).stores = pos.map (f, ·))
    (holds : (s.pc p).holds = none ∨ (s.pc p).holds = some f) (idle : t.pc p = .idle)
    (left : t.files.files f = .live (settle (s.pc p).holds.isSome pos file)) : Fits t f c := by
  obtain ⟨holder, store, holders, storers, value⟩ := h
  obtain rfl := store_eq alone own storers
  rw [there] at value
  have unstored : ∀ q pos, (t.pc q).stores ≠ some (f, pos) := by
    intro q v stores
    by_cases same : q = p
    · rw [same, idle] at stores
      cases stores
    · rw [pcs q same] at stores
      exact alone q same (stores_opened stores)
  have none_stored : ∀ q pos, (t.pc q).stores = some (f, pos) ↔
      (none : Option (P × Int)) = some (q, pos) :=
    fun q v => iff_of_false (unstored q v) nofun
  rcases holds with free | holds
  · refine ⟨holder, none, fun q => ?_, none_stored, ?_⟩
    · by_cases same : q = p
      · have away : ¬ holder = some p := fun is => by
          have := (holders p).mpr is
          rw [free] at this
          cases this
        rw [same, idle, iff_false_right away]
        exact nofun
      · rw [pcs q same]
        exact holders q
    · rw [left, value, free]
      cases holder <;> cases pos <;> rfl
  · obtain rfl := (holders p).mp holds
    refine ⟨none, none, fun q => iff_of_false (fun held => ?_) nofun, none_stored, ?_⟩
    · by_cases same : q = p
      · rw [same, idle] at held
        cases held
      · rw [pcs q same] at held
        exact same (Option.some.inj ((holders q).mp held)).symm
    · rw [left, value, holds]
      cases pos <;> rfl

@[simp] theorem answer_pc {files' : Files P F V} {call : Call} {result : Except Errno Int} :
    (s.answer p call result files').pc p = .idle :=
  Function.update_self ..

/-- A call that had its place returns. -/
theorem answer_logs (h : Inv ops files world s order events after) {files' : Files P F V}
    {call : Call} {result : Except Errno Int} (at_ : (s.pc p).returning = [(call, result)]) (q : P) :
    returned q events = (s.answer p call result files').log q ++
      ((s.answer p call result files').pc q).returning := by
  have log := h.logs q
  by_cases own : q = p
  · subst own
    have logged : (s.answer q call result files').log q = s.log q ++ [(call, result)] :=
      Function.update_self ..
    rw [answer_pc, logged, log, at_]
    exact (List.append_nil _).symm
  · have pcs : (s.answer p call result files').pc q = s.pc q := Function.update_of_ne own ..
    have logs : (s.answer p call result files').log q = s.log q := Function.update_of_ne own ..
    rw [pcs, logs, log]

/-- A transfer stores the offset and gives the lock of its table back. -/
theorem Inv.finishTransfer (h : Inv ops files world s order events after) {r : RwRequest} {m : Moved}
    {result : Except Errno Int} {files' : Files P F V} (at_ : s.pc p = .moved r f m)
    (finishes : s.files.finishTransfer p r m = .done (result, files')) :
    Inv ops files world (s.answer p (.transfer r) result files') order events after := by
  have under := h.under p
  have table := h.tables p
  rw [at_] at under table
  obtain ⟨found, file, there⟩ := checkTransfer_ok under.checks
  obtain ⟨held, rfl, rfl⟩ := (finishTransfer_done found there).mp finishes
  have alone : ∀ q, q ≠ p → (s.pc q).opened ≠ some f := fun q other opened =>
    other (h.alone q p f opened (by rw [at_]; rfl))
  set files' := (s.files.withFile f (file.moveTo (newPos m))).withFdLk p none
  have stored : files'.files f = .live (file.moveTo (newPos m)) := withFile_same
  have frame : Frame s (s.answer p (.transfer r) (Files.answer r m) files') p f := by
    refine ⟨fun _ other => Function.update_of_ne other .., fun _ other =>
      Function.update_of_ne other .., fun _ other => Function.update_of_ne other .., ?_⟩
    intro file' there'
    obtain rfl : file = file' := Cell.live.inj (there.symm.trans there')
    exact ⟨_, stored, rfl, .inr (by rw [at_]; rfl), fun _ _ held => held⟩
  refine h.of_frame frame h.ran (answer_logs h (by rw [at_]; rfl)) ?_ rfl h.vnodes ?_
    (fun _ _ => rfl) ?_ ?_ ?_ ?_
  · obtain ⟨fdesc, there, -⟩ := Option.bind_eq_some_iff.mp held
    have unlocked : files'.tables p = some { fdesc with fdLk := some none } :=
      withFdLk_table (s := s.files.withFile f (file.moveTo (newPos m))) there
    rw [answer_pc, table, there]
    show _ = (files'.tables p).map _
    rw [unlocked]
    rfl
  · exact (h.cells f).finish frame.pcs there alone (by rw [at_]; rfl) (.inl (by rw [at_]; rfl))
      answer_pc (by rw [at_]; exact stored)
  · simp [at_, Pc.file]
  · rw [answer_pc]
    exact nofun
  · rw [answer_pc]
    exact nofun
  · rw [answer_pc]
    trivial

/-- A seek stores the offset and gives the lock of the file back. -/
theorem Inv.finishSeek (h : Inv ops files world s order events after) {q : Seek}
    {found result : Except Errno Int} {files' : Files P F V} (at_ : s.pc p = .positioned q f found)
    (finishes : s.files.finishSeek p f found = .done (result, files')) :
    Inv ops files world (s.answer p (.lseek q) result files') order events after := by
  have table := h.tables p
  rw [at_] at table
  obtain ⟨file, there, -⟩ := h.held p f (by rw [at_]; rfl)
  obtain ⟨held, rfl, rfl⟩ := (finishSeek_done there).mp finishes
  set files' := s.files.withFile f { file.moveTo result.toOption with fLk := some none }
  have stored : files'.files f = .live { file.moveTo result.toOption with fLk := some none } :=
    withFile_same
  have alone : ∀ q, q ≠ p → (s.pc q).opened ≠ some f := fun q other opened =>
    other (h.alone q p f opened (by rw [at_]; rfl))
  have frame : Frame s (s.answer p (.lseek q) result files') p f := by
    refine ⟨fun _ other => Function.update_of_ne other .., fun _ _ => rfl,
      fun _ other => Function.update_of_ne other .., ?_⟩
    intro file' there'
    obtain rfl : file = file' := Cell.live.inj (there.symm.trans there')
    refine ⟨_, stored, rfl, .inr (by rw [at_]; rfl), fun q other held' => ?_⟩
    rw [held] at held'
    exact (other (Option.some.inj (Option.some.inj held')).symm).elim
  refine h.of_frame frame h.ran (answer_logs h (by rw [at_]; rfl)) ?_ rfl h.vnodes ?_
    (fun _ _ => rfl) ?_ ?_ ?_ ?_
  · rw [answer_pc]
    exact table
  · exact (h.cells f).finish frame.pcs there alone (by rw [at_]; rfl) (.inr (by rw [at_]; rfl))
      answer_pc (by rw [at_]; exact stored)
  · simp [at_, Pc.file]
  · rw [answer_pc]
    exact nofun
  · rw [answer_pc]
    exact nofun
  · rw [answer_pc]
    trivial

/-- A seek gets the lock of its file. -/
theorem Inv.seek (h : Inv ops files world s order events after) {q : Seek} (idle : s.pc p = .idle)
    (found : s.files.slot p q.fd = .done (some f)) (free : s.files.fdLkOf p = some none)
    (there : s.files.files f = .live file) (unheld : file.fLk = some none) :
    Inv ops files world
      (s.goTo p (.seeking q f) (s.files.withFile f { file with fLk := some (some p) })) order
      events after := by
  set files' := s.files.withFile f { file with fLk := some (some p) }
  have locked : files'.files f = .live { file with fLk := some (some p) } := withFile_same
  have frame : Frame s (s.goTo p (.seeking q f) files') p f := by
    refine ⟨fun _ other => Function.update_of_ne other .., fun _ _ => rfl,
      fun _ other => Function.update_of_ne other .., ?_⟩
    intro file' there'
    obtain rfl : file = file' := Cell.live.inj (there.symm.trans there')
    refine ⟨_, locked, rfl, .inl rfl, fun q other held => ?_⟩
    rw [unheld] at held
    cases held
  have table := h.tables p
  rw [idle] at table
  refine h.of_frame frame h.ran (goTo_logs h (by rw [idle]; rfl)) ?_ rfl h.vnodes ?_
    (fun _ _ => rfl) ?_ ?_ ?_ ?_
  · rw [goTo_pc]
    exact table
  · obtain ⟨holder, store, holders, storers, value⟩ := h.cells f
    have nobody : holder = none := by
      cases holder with
      | none => rfl
      | some q' =>
        obtain ⟨file', there', held⟩ := h.held q' f ((holders q').mpr rfl)
        obtain rfl : file = file' := Cell.live.inj (there.symm.trans there')
        rw [unheld] at held
        cases held
    subst nobody
    refine ⟨some p, store, fun q' => ?_, fun q' pos => ?_, ?_⟩
    · by_cases own : q' = p
      · subst own
        rw [goTo_pc]
        simp [Pc.holds]
      · rw [frame.pcs q' own, holders q']
        simp [Ne.symm own]
    · by_cases own : q' = p
      · subst own
        have := storers q' pos
        rw [idle] at this
        rw [goTo_pc]
        exact this
      · rw [frame.pcs q' own]
        exact storers q' pos
    · show _ = (files'.files f).map _
      rw [locked, value, there]
      have same : { file.moveTo (store.map Prod.snd) with fLk := some none } =
          file.moveTo (store.map Prod.snd) := by
        rw [← unheld]
        rfl
      show Cell.live _ = Cell.live _
      simp only [settle, Option.isSome_none, Option.isSome_some, if_true, Bool.false_eq_true,
        if_false]
      rw [← same]
      rfl
  · simp [idle, Pc.file]
  · rw [goTo_pc]
    exact nofun
  · rw [goTo_pc]
    rintro g holds
    obtain rfl := Option.some.inj holds
    exact ⟨_, locked, rfl⟩
  · rw [goTo_pc]
    exact ⟨found, free⟩

/-- A call that fails before it has a lock. -/
theorem Inv.refuse (h : Inv ops files world s order events after) {call : Call} {err : Errno}
    (idle : s.pc p = .idle)
    (performed : perform ops (p, call) (after, s.world) = .done (.error err, after, s.world)) :
    Inv ops files world (s.answer p call (.error err) s.files) (order ++ [(p, call)])
      (events ++ [((p, call), .error err)]) after := by
  have pcs : (s.answer p call (.error err) s.files).pc = s.pc := by
    unfold State.answer State.goTo
    rw [← idle, Function.update_eq_self]
  have logged : (s.answer p call (.error err) s.files).log p = s.log p ++ [(call, .error err)] :=
    Function.update_self ..
  refine ⟨serially_commit h performed, ?_, ?_, h.vnodes, ?_, ?_, ?_, ?_⟩
  · exact logs_commit h (by rw [idle]; rfl) (fun q _ => congrFun pcs q)
      (fun q other => Function.update_of_ne other ..) (by rw [pcs, idle, logged]; exact List.append_nil _)
  · rw [pcs]
    exact h.tables
  · unfold Fits
    rw [pcs]
    exact h.cells
  · rw [pcs]
    exact h.alone
  · rw [pcs]
    exact h.held
  · rw [pcs]
    exact h.under

/-! ### Steps and runs -/

theorem Inv.begin (h : Inv ops files world s order events after) (idle : s.pc p = .idle)
    (call : Call) (went : s.start p call = .done t) :
    ∃ order events after, Inv ops files world t order events after := by
  cases call with
  | transfer r =>
    obtain ⟨⟨entered, files'⟩, enters, went⟩ := Outcome.bind_done.mp went
    cases entered with
    | ok f =>
      obtain rfl := Outcome.pure_done.mp went
      obtain ⟨checks, free, rfl⟩ := enterTransfer_ok.mp enters
      exact ⟨_, _, _, h.enter idle checks free⟩
    | error err =>
      obtain rfl := Outcome.pure_done.mp went
      obtain ⟨checks, rfl⟩ := enterTransfer_error.mp enters
      refine ⟨_, _, _, h.refuse idle ?_⟩
      show after.transfer ops p r s.world = _
      simp [transfer, enterTransfer_error.mpr ⟨h.checks checks, rfl⟩, Outcome.pure_def]
  | lseek q =>
    obtain ⟨⟨found, files'⟩, finds, went⟩ := Outcome.bind_done.mp went
    have free : after.fdLkOf p = s.files.fdLkOf p := h.fdLkOf_idle (by rw [idle]; rfl)
    cases found with
    | ok f =>
      obtain rfl := Outcome.pure_done.mp went
      obtain ⟨found, free, file, there, unheld, rfl⟩ := getFile_ok.mp finds
      exact ⟨_, _, _, h.seek idle found free there unheld⟩
    | error err =>
      obtain rfl := Outcome.pure_done.mp went
      obtain ⟨rfl, rfl, why⟩ := getFile_error.mp finds
      refine ⟨_, _, _, h.refuse idle ?_⟩
      have same : after.getFile p p q.fd = .done (.error .ebadf, after) := by
        rw [← free, ← h.slot q.fd] at why
        exact getFile_error.mpr ⟨rfl, rfl, why⟩
      change (after.sysLseek ops p q s.world >>= _) = _
      simp [sysLseek, same, Outcome.pure_def]

theorem Inv.next (h : Inv ops files world s order events after) (alone : Alone s (.next p))
    (went : s.next ops p = .done t) :
    ∃ order events after, Inv ops files world t order events after := by
  unfold State.next at went
  cases at_ : s.pc p with
  | idle =>
    rw [at_] at went
    cases went
  | entered r f =>
    rw [at_] at went
    obtain ⟨offset, loads, went⟩ := Outcome.bind_done.mp went
    obtain rfl := Outcome.pure_done.mp went
    have under := h.under p
    rw [at_] at under
    obtain ⟨found, file, there⟩ := checkTransfer_ok under.checks
    obtain rfl : file.fOffset = offset := by
      simpa [loadOffset, fileAt_done.mpr ⟨found, there⟩, Outcome.pure_def] using loads
    exact ⟨_, _, _, h.load at_ there (alone f (by rw [at_]; rfl))⟩
  | loaded r f offset =>
    rw [at_] at went
    obtain ⟨⟨m, d⟩, moves, went⟩ := Outcome.bind_done.mp went
    obtain rfl := Outcome.pure_done.mp went
    exact h.move at_ moves
  | moved r f m =>
    rw [at_] at went
    obtain ⟨⟨result, files'⟩, finishes, went⟩ := Outcome.bind_done.mp went
    obtain rfl := Outcome.pure_done.mp went
    exact ⟨_, _, _, h.finishTransfer at_ finishes⟩
  | seeking q f =>
    rw [at_] at went
    obtain ⟨result, finds, went⟩ := Outcome.bind_done.mp went
    obtain rfl := Outcome.pure_done.mp went
    exact h.position at_ (alone f (by rw [at_]; rfl)) finds
  | positioned q f result =>
    rw [at_] at went
    obtain ⟨⟨result, files'⟩, finishes, went⟩ := Outcome.bind_done.mp went
    obtain rfl := Outcome.pure_done.mp went
    exact ⟨_, _, _, h.finishSeek at_ finishes⟩

theorem inv_initial (files : Files P F V) (world : D) :
    Inv ops files world ⟨files, world, fun _ => .idle, fun _ => []⟩ [] [] files := by
  refine ⟨rfl, fun p => rfl, fun p => ?_, rfl, fun f => ?_, nofun, nofun, fun p => trivial⟩
  · show _ = (files.tables p).map _
    cases files.tables p <;> rfl
  · refine ⟨none, none, fun p => iff_of_false nofun nofun, fun p pos => iff_of_false nofun nofun, ?_⟩
    show _ = (files.files f).map _
    cases files.files f <;> rfl

theorem reached_inv (h : (machine ops files world).ReachableBy Alone s) :
    ∃ order events after, Inv ops files world s order events after := by
  apply Machine.invariant _ _ _ h
  · rintro s rfl
    exact ⟨_, _, _, inv_initial files world⟩
  · rintro s (⟨cur, call⟩ | ⟨cur⟩) t ⟨order, events, after, inv⟩ alone went
    · change (match s.pc cur with | .idle => s.start cur call | _ => .blocked) = _ at went
      split at went
      · rename_i idle
        exact inv.begin idle call went
      · cases went
    · exact inv.next alone went

theorem Inv.quiet (h : Inv ops files world s order events after)
    (idle : ∀ p, s.pc p = .idle) : after = s.files := by
  have tables : after.tables = s.files.tables := by
    funext p
    rw [h.tables p, idle p]
    cases s.files.tables p <;> rfl
  have cells : after.files = s.files.files := by
    funext f
    obtain ⟨holder, store, holders, storers, value⟩ := h.cells f
    have free : holder = none := by
      cases holder with
      | none => rfl
      | some p =>
        have holds := (holders p).mpr rfl
        rw [idle p] at holds
        cases holds
    have unstored : store = none := by
      cases store with
      | none => rfl
      | some at_ =>
        have stores := (storers at_.1 at_.2).mpr rfl
        rw [idle at_.1] at stores
        cases stores
    subst free unstored
    rw [value]
    cases s.files.files f <;> rfl
  have counts := h.vnodes
  cases after
  cases files' : s.files
  simp_all

end Steps

/-- In every run in which a call reads an offset only while no other call has read it and is still
to store it, the calls come to what they come to one after another. -/
theorem offsets_serial (ops : VnodeOps P V D) (files : Files P F V) (world : D)
    {s : State P F V D} (h : (machine ops files world).ReachableBy Alone s) :
    Serialisable ops files world s := by
  obtain ⟨order, events, after, inv⟩ := reached_inv h
  refine ⟨order, events, after, inv.ran, fun p => ⟨_, inv.logs p, fun idle => ?_⟩, inv.quiet⟩
  rw [idle]
  rfl

/-! ### Two processes with one file -/

/-- One file without an end; the world lists the offsets of the writes. -/
def plainOps : VnodeOps Bool Unit (List Int) where
  vopRead _ u d := .done (⟨none, 0, u.uioOffset + u.uioResid.toNat⟩, d)
  vopWrite _ u d := .done (⟨none, 0, u.uioOffset + u.uioResid.toNat⟩, d ++ [u.uioOffset])
  vopStat _ d := .done (.ok d.length)
  vopTryseek _ pos := .done (if pos < 0 then some .einval else none)
  kprintf _ _ _ := .done ()

/-- What a fork leaves: both processes have the file open as descriptor `0`. -/
def sharedFiles : Files Bool Unit Unit where
  tables _ := some ⟨fun i => if i = 0 then some () else none, some none, 1⟩
  files _ := .live ⟨(), 2, 2, 0, some none⟩
  vnodes _ := some 2

def writeOne : Call := .transfer ⟨.write, 0, 1, 1⟩

instance : DecidablePred fun pc : Pc Unit => pc = .idle := fun pc =>
  match pc with
  | .idle => .isTrue rfl
  | .entered .. | .loaded .. | .moved .. | .seeking .. | .positioned .. => .isFalse nofun

/-- A process writes, the other seeks back and reads. -/
theorem offsets_serial_shared : ∃ s : State Bool Unit Unit (List Int),
    (machine plainOps sharedFiles []).ReachableBy Alone s ∧ s.world = [0] ∧
      Serialisable plainOps sharedFiles [] s := by
  have passes : ((machine plainOps sharedFiles []).runIf
      (fun s a => match a with
        | .begin _ _ => true
        | .next cur => decide ((s.pc !cur).opened ≠ some ()))
      ⟨sharedFiles, [], fun _ => .idle, fun _ => []⟩
      [.begin false writeOne, .next false, .next false, .next false,
        .begin true (.lseek ⟨0, -1, 1⟩), .next true, .next true,
        .begin true (.transfer ⟨.read, 0, 1, 1⟩), .next true, .next true, .next true]).passes
      (fun s => decide (s.world = [0])) = true := by
    decide +kernel
  obtain ⟨s, run, world⟩ := Outcome.passes_done passes
  have reached : (machine plainOps sharedFiles []).ReachableBy Alone s := by
    refine .runIf _ _ (.initial rfl) (fun s a met => ?_) run
    cases a with
    | begin cur call => trivial
    | next cur =>
      rintro ⟨⟩ - q other
      obtain rfl := Bool.eq_not.mpr other
      exact of_decide_eq_true met
  exact ⟨s, reached, of_decide_eq_true world, offsets_serial plainOps sharedFiles [] reached⟩

theorem returned_length (events : List ((Bool × Call) × Except Errno Int)) :
    events.length = (returned false events).length + (returned true events).length := by
  induction events with
  | nil => rfl
  | cons e rest ih =>
    obtain ⟨⟨p, call⟩, result⟩ := e
    cases p <;> simp [returned] at ih ⊢ <;> omega

/-- The first process loads the offset, the second loads it too, and both write there. -/
theorem offsets_lost : ∃ s : State Bool Unit Unit (List Int),
    (machine plainOps sharedFiles []).Reachable s ∧ s.world = [0, 0] ∧
      (∀ p, s.pc p = .idle) ∧ ¬ Serialisable plainOps sharedFiles [] s := by
  have passes : ((machine plainOps sharedFiles []).run
      ⟨sharedFiles, [], fun _ => .idle, fun _ => []⟩
      [.begin false writeOne, .begin true writeOne, .next false, .next true, .next false,
        .next true, .next false, .next true]).passes
      (fun s => decide (s.world = [0, 0] ∧ (∀ p, s.pc p = .idle) ∧
        ∀ p, s.log p = [(writeOne, .ok 1)])) = true := by
    decide +kernel
  obtain ⟨s, run, done⟩ := Outcome.passes_done passes
  obtain ⟨world, idle, logs⟩ := of_decide_eq_true done
  refine ⟨s, .run _ (.initial rfl) run, world, idle, ?_⟩
  rintro ⟨order, events, after, ran, under, -⟩
  have all : ∀ p, returned p events = [(writeOne, .ok 1)] := by
    intro p
    obtain ⟨rest, same, none⟩ := under p
    rw [same, logs p, none (idle p)]
    rfl
  have two : events.length = 2 := by
    rw [returned_length, all, all]
    rfl
  obtain ⟨⟨⟨p, call⟩, result⟩, ⟨⟨q, call'⟩, result'⟩, rfl⟩ := List.length_eq_two.mp two
  have ops := serially_ops ran
  have left := all false
  have right := all true
  have serial : ∀ p q, ((serially (perform plainOps) (sharedFiles, ([] : List Int))
      [(p, writeOne), (q, writeOne)]).passes fun out => decide (out.2.2 = [0, 1])) = true := by
    decide +kernel
  have same : call = writeOne ∧ call' = writeOne := by
    cases p <;> cases q <;> simp_all [returned]
  obtain ⟨rfl, rfl⟩ := same
  obtain ⟨out, value, ends⟩ := Outcome.passes_done (serial p q)
  simp only [List.map_cons, List.map_nil] at ops
  rw [← ops] at ran
  obtain rfl := Outcome.done.inj (ran.symm.trans value)
  rw [world] at ends
  have wrong : ([0, 0] : List Int) = [0, 1] := of_decide_eq_true ends
  simp at wrong

end Os161.Offsets
