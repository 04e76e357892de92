import Os161.Io.Uio
import Os161.Semfs.Lifecycle

/-!
# Reading the directory of semfs

`semfs_getdirentry`, which takes the offset for the number of an entry while `uiomove` moves it on by
the bytes of the name, and a reader that calls it until nothing comes.
-/

namespace Os161.Semfs

variable {Space User : Type} [DecidableEq Space]

/-- `semd_name`, without the 0 at its end. -/
def SemfsDirentry.bytes (dent : SemfsDirentry) : List UInt8 := dent.semdName.toUTF8.data.toList

/-- `semfs_getdirentry`, with `semfs_dirlock`. -/
def semfsGetdirentry (copy : UserCopy User) (dents : List (Option SemfsDirentry)) (t : Transfer Space User) :
    Outcome (Option Errno × Transfer Space User) := do
  Outcome.kassert (0 ≤ t.uio.uioOffset)
  let pos := t.uio.uioOffset.toNat % 2 ^ 32
  if dents.length ≤ pos then return (none, t)
  else do
    let dent ← Outcome.deref dents[pos]?.join
    Transfer.uiomove copy dent.bytes.length { t with buf := Bytes.put (fun _ => 0) 0 dent.bytes }

/-- The bytes from `base` on. -/
def bytesAt (m : Bytes) (base n : Nat) : List UInt8 := (List.range n).map fun i => m (base + i)

/-- A reader: it calls with the offset that the last call has left, until a call moves nothing. What it
has then are the names that came, or the error. -/
def readdir (copy : UserCopy User) (byte : User → Bytes) (dents : List (Option SemfsDirentry)) (uio : Uio Space)
    (base : Nat) : Nat → Int → Memory Space User → Outcome (Option Errno × List (List UInt8))
  | 0, _, _ => .blocked
  | fuel + 1, pos, memory => do
    let (result, t) ← semfsGetdirentry copy dents ⟨fun _ => 0, memory, { uio with uioOffset := pos }⟩
    match result with
    | some err => return (some err, [])
    | none =>
      let n := uio.uioResid.toNat - t.uio.uioResid.toNat
      if n = 0 then return (none, [])
      else do
        let (result, names) ← readdir copy byte dents uio base fuel t.uio.uioOffset t.memory
        return (result, bytesAt (t.memory.at byte uio.uioSegflg) base n :: names)

/-- The names of the live entries. -/
def liveNames (dents : List (Option SemfsDirentry)) : List (List UInt8) :=
  (dents.filterMap id).map SemfsDirentry.bytes

/-- Every entry is followed by as many empty slots as its name has bytes after the first, then comes
the next entry or the end. -/
inductive Spaced : List (Option SemfsDirentry) → Prop where
  | nil : Spaced []
  | entry (dent : SemfsDirentry) (rest : List (Option SemfsDirentry)) : 0 < dent.bytes.length →
      (∀ o ∈ rest.take (dent.bytes.length - 1), o = none) → Spaced (rest.drop (dent.bytes.length - 1)) →
      Spaced (some dent :: rest)

/-- What a reader gets to see of the entries from some slot on. -/
inductive Visits : List (Option SemfsDirentry) → List (List UInt8) → Prop where
  | nil : Visits [] []
  | empty (dent : SemfsDirentry) (rest : List (Option SemfsDirentry)) : dent.bytes = [] →
      Visits (some dent :: rest) []
  | entry (dent : SemfsDirentry) (rest : List (Option SemfsDirentry)) (names : List (List UInt8)) :
      dent.bytes ≠ [] → Visits (rest.drop (dent.bytes.length - 1)) names →
      Visits (some dent :: rest) (dent.bytes :: names)

theorem liveNames_drop (l : List (Option SemfsDirentry)) (n : Nat) : (liveNames (l.drop n)).Sublist (liveNames l) :=
  ((List.drop_sublist n l).filterMap id).map SemfsDirentry.bytes

theorem liveNames_eq_drop {l : List (Option SemfsDirentry)} {n : Nat} (empty : ∀ o ∈ l.take n, o = none) :
    liveNames (l.drop n) = liveNames l := by
  have none' : (l.take n).filterMap id = [] := List.filterMap_eq_nil_iff.mpr empty
  unfold liveNames
  conv_rhs => rw [← List.take_append_drop n l, List.filterMap_append, none', List.nil_append]

theorem Visits.sublist {l : List (Option SemfsDirentry)} {names : List (List UInt8)} (visits : Visits l names) :
    names.Sublist (liveNames l) := by
  induction visits with
  | nil => exact List.Sublist.slnil
  | empty dent rest => exact List.nil_sublist _
  | entry dent rest names _ _ ih => exact (ih.trans (liveNames_drop rest _)).cons_cons dent.bytes

theorem Spaced.visits {l : List (Option SemfsDirentry)} (spaced : Spaced l) : Visits l (liveNames l) := by
  induction spaced with
  | nil => exact .nil
  | entry dent rest positive empty _ ih =>
    rw [liveNames_eq_drop empty] at ih
    exact .entry dent rest _ (List.ne_nil_of_length_pos positive) ih

/-- A reader that gets every name goes from entry to entry. -/
theorem Visits.spaced {l : List (Option SemfsDirentry)} {names : List (List UInt8)} (visits : Visits l names)
    (all : names = liveNames l) : Spaced l := by
  induction visits with
  | nil => exact .nil
  | empty dent rest => cases all
  | entry dent rest names some' visits ih =>
    have same : names = liveNames rest := (List.cons.inj all).2
    have between : liveNames (rest.drop (dent.bytes.length - 1)) = liveNames rest := by
      refine (liveNames_drop rest _).eq_of_length_le ?_
      rw [← same]
      exact visits.sublist.length_le
    refine .entry dent rest (List.length_pos_of_ne_nil some') ?_ (ih (same.trans between.symm))
    have none' : liveNames (rest.take (dent.bytes.length - 1)) = [] := by
      have split : liveNames rest = liveNames (rest.take (dent.bytes.length - 1)) ++ liveNames (rest.drop (dent.bytes.length - 1)) := by
        unfold liveNames
        rw [← List.map_append, ← List.filterMap_append, List.take_append_drop]
      rw [between] at split
      exact List.self_eq_append_left.mp split
    intro o mem
    cases o with
    | none => rfl
    | some d =>
      have here : d.bytes ∈ liveNames (rest.take (dent.bytes.length - 1)) :=
        List.mem_map_of_mem (List.mem_filterMap.mpr ⟨some d, mem, rfl⟩)
      rw [none'] at here
      cases here

/-! ### One call -/

/-- A `uio` with one block that takes every name. -/
structure Takes (copy : UserCopy User) (uio : Uio Space) (memory : Memory Space User) (base : Nat)
    (dents : List (Option SemfsDirentry)) : Prop where
  ready : uio.Ready memory base
  read : uio.uioRw = .read
  copies : uio.uioSegflg ≠ .sysspace → ∀ buf user n, n ≤ uio.uioResid.toNat → (copy.copyout buf 0 user base n).1 = none
  room : ∀ dent, some dent ∈ dents → dent.bytes.length ≤ uio.uioResid.toNat

variable {copy : UserCopy User} {byte : User → Bytes} {dents : List (Option SemfsDirentry)} {uio : Uio Space}
variable {memory : Memory Space User} {base p fuel : Nat}

/-- What a call of the reader starts from. -/
def atOffset (uio : Uio Space) (memory : Memory Space User) (p : Nat) : Transfer Space User :=
  ⟨fun _ => 0, memory, { uio with uioOffset := p }⟩

omit [DecidableEq Space] in
theorem Takes.frame {memory' : Memory Space User} (takes : Takes copy uio memory base dents)
    (same : memory'.tAddrspace = memory.tAddrspace) : Takes copy uio memory' base dents :=
  ⟨⟨takes.ready.block, same ▸ takes.ready.space⟩, takes.read, takes.copies, takes.room⟩

theorem getdirentry_eof (word : p < 2 ^ 32) (eof : dents.length ≤ p) :
    semfsGetdirentry copy dents (atOffset uio memory p) = .done (none, atOffset uio memory p) := by
  have pos : (p : Int).toNat % 2 ^ 32 = p := by omega
  unfold semfsGetdirentry atOffset
  dsimp only
  rw [Outcome.kassert_bind (Int.natCast_nonneg p), pos, if_pos eof]
  rfl

theorem getdirentry_null (word : p < 2 ^ 32) (inside : p < dents.length) (null : dents[p]?.join = none) :
    semfsGetdirentry copy dents (atOffset uio memory p) = .fault := by
  have pos : (p : Int).toNat % 2 ^ 32 = p := by omega
  unfold semfsGetdirentry atOffset
  dsimp only
  rw [Outcome.kassert_bind (Int.natCast_nonneg p), pos, if_neg (Nat.not_le_of_lt inside), null]
  rfl

theorem getdirentry_move {dent : SemfsDirentry} (word : p < 2 ^ 32) (inside : p < dents.length)
    (is : dents[p]?.join = some dent) :
    semfsGetdirentry copy dents (atOffset uio memory p) = Transfer.uiomove copy dent.bytes.length
      { atOffset uio memory p with buf := Bytes.put (fun _ => 0) 0 dent.bytes } := by
  have pos : (p : Int).toNat % 2 ^ 32 = p := by omega
  unfold semfsGetdirentry atOffset
  dsimp only
  rw [Outcome.kassert_bind (Int.natCast_nonneg p), pos, if_neg (Nat.not_le_of_lt inside), is]
  rfl

theorem bytesAt_memmove {dst : Bytes} {bytes : List UInt8} :
    bytesAt (dst.memmove base (Bytes.put (fun _ => 0) 0 bytes) 0 bytes.length) base bytes.length = bytes := by
  unfold bytesAt
  apply List.ext_getElem
  · simp
  · intro i _ inside
    rw [List.getElem_map, List.getElem_range, Bytes.memmove_inside inside, Bytes.put_inside inside]

/-- The whole name comes, and the offset moves on by its length. -/
theorem getdirentry_name {dent : SemfsDirentry} (sound : copy.Sound byte)
    (takes : Takes copy uio memory base dents) (word : p < 2 ^ 32) (inside : p < dents.length)
    (is : dents[p]?.join = some dent) (some' : 0 < dent.bytes.length) :
    ∃ buf memory', memory'.tAddrspace = memory.tAddrspace ∧
      bytesAt (memory'.at byte uio.uioSegflg) base dent.bytes.length = dent.bytes ∧
      semfsGetdirentry copy dents (atOffset uio memory p) = .done (none,
        ⟨buf, memory', Uio.advance { uio with uioOffset := p } dent.bytes.length⟩) := by
  have fits : dent.bytes.length ≤ uio.uioResid.toNat := by
    apply takes.room
    rw [Option.join_eq_some_iff] at is
    exact List.mem_of_getElem? is
  let t : Transfer Space User := { atOffset uio memory p with buf := Bytes.put (fun _ => 0) 0 dent.bytes }
  have goes : (t.moveBlock copy 0 base dent.bytes.length).1 = none := by
    unfold Transfer.moveBlock
    rw [show t.uio.uioRw = .read from takes.read]
    cases seg : t.uio.uioSegflg with
    | sysspace => rfl
    | userspace => exact takes.copies (fun kernel => nomatch seg.symm.trans kernel) _ _ _ fits
    | userispace => exact takes.copies (fun kernel => nomatch seg.symm.trans kernel) _ _ _ fits
  rw [getdirentry_move word inside is, Transfer.uiomove_ready (t := t)
    ⟨takes.ready.block, takes.ready.space⟩ some' fits]
  have move : (_ ∧ ∃ user, t.moveBlock copy 0 base dent.bytes.length = _) ∨ _ :=
    Transfer.moveBlock_read sound takes.read
  obtain ⟨-, user, fails⟩ | ⟨memory', same, moved, value⟩ := move
  · rw [fails] at goes
    cases goes
  · refine ⟨t.buf, memory', same, ?_, ?_⟩
    · rw [show memory'.at byte uio.uioSegflg = _ from moved]
      exact bytesAt_memmove
    · rw [value]
      rfl

/-! ### The whole directory -/

/-- The directory and a name of it are in the same 32-bit memory. -/
def InMemory (dents : List (Option SemfsDirentry)) : Prop :=
  ∀ dent, some dent ∈ dents → dents.length + dent.bytes.length < 2 ^ 32

theorem readdir_eof (word : p < 2 ^ 32) (eof : dents.length ≤ p) :
    readdir copy byte dents uio base (fuel + 1) p memory = .done (none, []) := by
  unfold readdir
  rw [show semfsGetdirentry copy dents ⟨_, memory, _⟩ = _ from getdirentry_eof word eof]
  simp [Outcome.done_bind, Outcome.pure_def, atOffset]

theorem readdir_null (word : p < 2 ^ 32) (inside : p < dents.length) (null : dents[p]?.join = none) :
    readdir copy byte dents uio base (fuel + 1) p memory = .fault := by
  unfold readdir
  rw [show semfsGetdirentry copy dents ⟨_, memory, _⟩ = _ from getdirentry_null word inside null]
  rfl

/-- To the reader an empty name is the end. -/
theorem readdir_empty {dent : SemfsDirentry} (takes : Takes copy uio memory base dents) (word : p < 2 ^ 32)
    (inside : p < dents.length) (is : dents[p]?.join = some dent) (empty : dent.bytes = []) :
    readdir copy byte dents uio base (fuel + 1) p memory = .done (none, []) := by
  have call : semfsGetdirentry copy dents (atOffset uio memory p) = .done (none,
      { atOffset uio memory p with buf := Bytes.put (fun _ => 0) 0 dent.bytes }) := by
    rw [getdirentry_move word inside is, Transfer.uiomove_eq takes.ready.space, empty]
    exact Transfer.moveBlocks_zero
  unfold readdir
  rw [show semfsGetdirentry copy dents ⟨_, memory, _⟩ = _ from call]
  simp [Outcome.done_bind, Outcome.pure_def, atOffset]

theorem readdir_name {dent : SemfsDirentry} (sound : copy.Sound byte)
    (takes : Takes copy uio memory base dents) (word : p < 2 ^ 32) (inside : p < dents.length)
    (is : dents[p]?.join = some dent) (some' : 0 < dent.bytes.length) :
    ∃ memory', Takes copy uio memory' base dents ∧ ∀ fuel,
      readdir copy byte dents uio base (fuel + 1) p memory =
        readdir copy byte dents uio base fuel (p + dent.bytes.length : Nat) memory' >>= fun out =>
          .done (out.1, dent.bytes :: out.2) := by
  obtain ⟨buf, memory', same, bytes, call⟩ := getdirentry_name sound takes word inside is some'
  refine ⟨memory', takes.frame same, fun fuel => ?_⟩
  have fits : dent.bytes.length ≤ uio.uioResid.toNat := by
    apply takes.room
    rw [Option.join_eq_some_iff] at is
    exact List.mem_of_getElem? is
  have moved : uio.uioResid.toNat -
      (Uio.advance { uio with uioOffset := (p : Int) } dent.bytes.length).uioResid.toNat = dent.bytes.length := by
    rw [Uio.advance_resid (by exact fits)]
    exact Nat.sub_sub_self fits
  rw [readdir, show semfsGetdirentry copy dents ⟨_, memory, _⟩ = _ from call, Outcome.done_bind]
  dsimp only
  rw [moved, if_neg (Nat.ne_of_gt some'), bytes]
  rfl

omit [DecidableEq Space] in
theorem drop_entry {dent : SemfsDirentry} (inside : p < dents.length) (is : dents[p]?.join = some dent) :
    dents.drop p = some dent :: dents.drop (p + 1) := by
  have slot : dents[p] = some dent := by simpa [List.getElem?_eq_getElem inside] using is
  rw [List.drop_eq_getElem_cons inside, slot]

theorem InMemory.word {dent : SemfsDirentry} (memories : InMemory dents) (inside : p < dents.length)
    (is : dents[p]?.join = some dent) : p + dent.bytes.length < 2 ^ 32 := by
  have fits := memories dent (List.mem_of_getElem? (Option.join_eq_some_iff.mp is))
  omega

/-- What a reader gets is what it visits. -/
theorem readdir_visits {names : List (List UInt8)} (sound : copy.Sound byte) (memories : InMemory dents)
    (takes : Takes copy uio memory base dents) (word : p < 2 ^ 32)
    (goes : readdir copy byte dents uio base fuel p memory = .done (none, names)) : Visits (dents.drop p) names := by
  induction fuel generalizing p memory names with
  | zero => cases goes
  | succ fuel ih =>
    obtain eof | inside := Nat.lt_or_ge p dents.length |>.symm
    · rw [readdir_eof word eof] at goes
      cases goes
      rw [List.drop_eq_nil_of_le eof]
      exact .nil
    · cases is : dents[p]?.join with
      | none =>
        rw [readdir_null word inside is] at goes
        cases goes
      | some dent =>
        have next : (dents.drop (p + 1)).drop (dent.bytes.length - 1) = dents.drop (p + 1 + (dent.bytes.length - 1)) :=
          List.drop_drop
        rw [drop_entry inside is]
        by_cases empty : dent.bytes = []
        · rw [readdir_empty takes word inside is empty] at goes
          cases goes
          exact .empty dent _ empty
        · have some' : 0 < dent.bytes.length := List.length_pos_of_ne_nil empty
          obtain ⟨memory', takes', call⟩ := readdir_name sound takes word inside is some'
          rw [call] at goes
          obtain ⟨⟨result, rest⟩, first, last⟩ := Outcome.bind_done.mp goes
          cases last
          refine .entry dent _ rest empty ?_
          rw [next, show p + 1 + (dent.bytes.length - 1) = p + dent.bytes.length by omega]
          exact ih takes' (memories.word inside is) first

omit [DecidableEq Space] in
theorem entry_drop {dent : SemfsDirentry} {tail : List (Option SemfsDirentry)}
    (here : some dent :: tail = dents.drop p) :
    p < dents.length ∧ dents[p]?.join = some dent ∧ tail = dents.drop (p + 1) := by
  have inside : p < dents.length := by
    by_contra outside
    rw [List.drop_eq_nil_of_le (Nat.le_of_not_lt outside)] at here
    cases here
  rw [List.drop_eq_getElem_cons inside] at here
  obtain ⟨slot, rest⟩ := List.cons.inj here
  exact ⟨inside, by rw [List.getElem?_eq_getElem inside, ← slot]; rfl, rest⟩

theorem visits_readdir {l : List (Option SemfsDirentry)} {names : List (List UInt8)} (sound : copy.Sound byte)
    (memories : InMemory dents) (takes : Takes copy uio memory base dents) (word : p < 2 ^ 32)
    (rest : l = dents.drop p) (visits : Visits l names) :
    ∃ fuel, readdir copy byte dents uio base fuel p memory = .done (none, names) := by
  induction visits generalizing p memory with
  | nil => exact ⟨1, readdir_eof word (List.drop_eq_nil_iff.mp rest.symm)⟩
  | empty dent tail empty =>
    obtain ⟨inside, is, -⟩ := entry_drop rest
    exact ⟨1, readdir_empty takes word inside is empty⟩
  | entry dent tail names some' _ ih =>
    obtain ⟨inside, is, same⟩ := entry_drop rest
    have positive : 0 < dent.bytes.length := List.length_pos_of_ne_nil some'
    obtain ⟨memory', takes', call⟩ := readdir_name sound takes word inside is positive
    have next : tail.drop (dent.bytes.length - 1) = dents.drop (p + dent.bytes.length) := by
      rw [same, List.drop_drop]
      congr 1
      omega
    obtain ⟨fuel, goes⟩ := ih takes' (memories.word inside is) next
    refine ⟨fuel + 1, ?_⟩
    rw [call, goes]
    rfl

theorem SemfsDirentry.bytes_inj {dent dent' : SemfsDirentry} (same : dent.bytes = dent'.bytes) :
    dent.semdName = dent'.semdName := by
  have data := Array.toList_inj.mp same
  rw [String.toUTF8_eq_toByteArray, String.toUTF8_eq_toByteArray] at data
  exact String.toByteArray_inj.mp (ByteArray.ext data)

/-- No two entries of a directory that creating and removing have made are of the same name. -/
theorem Contents.Consistent.liveNames_nodup {s : Table} (h : s.contents.Consistent) : (liveNames s.semfsDents).Nodup := by
  unfold liveNames List.Nodup
  rw [List.pairwise_map, List.pairwise_filterMap, List.pairwise_iff_getElem]
  intro i j inside inside' lt dent is dent' is' same
  have at' : s.contents.dentAt i = some dent := by
    change s.semfsDents[i]?.join = _
    rw [List.getElem?_eq_getElem inside]
    exact is
  have at'' : s.contents.dentAt j = some dent' := by
    change s.semfsDents[j]?.join = _
    rw [List.getElem?_eq_getElem inside']
    exact is'
  have eq := h.name i j dent dent' at' at'' (SemfsDirentry.bytes_inj same)
  omega

/-- What the operations on names are. -/
def Op.named : Op → Bool
  | .creat .. => true
  | .remove .. => true
  | _ => false

theorem named_good {s : Volume} (reached : volumes.ReachableBy (fun _ a => a.1.named = true) s) : s.table.Good := by
  have spares : ∀ u : Volume, ∀ a : Op × List Kmalloc, a.1.named = true → u.Spares a.1 := by
    rintro u ⟨op, choices⟩ named
    cases op with
    | creat => trivial
    | remove => trivial
    | _ => cases named
  refine (volumes_running (reached.mono spares)).good ?_
  refine volumes.invariant (P := fun s => s.mounted = true) ?_ ?_ reached
  · rintro s rfl
    rfl
  · rintro s ⟨op, choices⟩ t _ named step
    obtain ⟨_, -, step⟩ := Outcome.bind_done.mp step
    obtain ⟨⟨mounted, u⟩, run, last⟩ := Outcome.bind_done.mp step
    cases last
    cases op with
    | creat name excl =>
      rw [Op.code, Locks.alone_bind] at run
      obtain ⟨_, -, is⟩ := Outcome.bind_done.mp run
      cases is
      rfl
    | remove name =>
      rw [Op.code, Locks.alone_bind] at run
      obtain ⟨_, -, is⟩ := Outcome.bind_done.mp run
      cases is
      rfl
    | _ => cases named

/-- The reader gets every live name exactly once, and then the end. -/
def Enumerates (copy : UserCopy User) (byte : User → Bytes) (dents : List (Option SemfsDirentry)) (uio : Uio Space)
    (base : Nat) (memory : Memory Space User) : Prop :=
  ∃ fuel names, readdir copy byte dents uio base fuel 0 memory = .done (none, names) ∧
    names.Nodup ∧ ∀ name, name ∈ names ↔ name ∈ liveNames dents

/-- A reader of a directory that any creats and removes have made gets every name exactly once and then
the end, if and only if the entries lie as far apart as their names are long. -/
theorem readdir_enumerates_iff {s : Volume} (reached : volumes.ReachableBy (fun _ a => a.1.named = true) s)
    (memories : InMemory s.table.semfsDents) (sound : copy.Sound byte)
    (takes : Takes copy uio memory base s.table.semfsDents) :
    Enumerates copy byte s.table.semfsDents uio base memory ↔ Spaced s.table.semfsDents := by
  have word : 0 < 2 ^ 32 := by decide
  constructor
  · rintro ⟨fuel, names, goes, once, all⟩
    have visits : Visits (s.table.semfsDents.drop 0) names := readdir_visits sound memories takes word goes
    have distinct := (named_good reached).consistent.liveNames_nodup
    have same : names.Perm (liveNames s.table.semfsDents) := (List.perm_ext_iff_of_nodup once distinct).mpr all
    exact visits.spaced (visits.sublist.eq_of_length same.length_eq)
  · intro spaced
    obtain ⟨fuel, goes⟩ := visits_readdir sound memories takes word (p := 0) rfl spaced.visits
    exact ⟨fuel, _, goes, (named_good reached).consistent.liveNames_nodup, fun _ => Iff.rfl⟩

/-- A program of the kernel reads into a block of 16 bytes. -/
def readUio : Uio Unit := Uio.kinit 0 16 0 .read

def noUser : UserCopy Unit := ⟨fun _ _ buf _ _ => (some .efault, buf), fun _ _ user _ _ => (some .efault, user)⟩

def readMemory : Memory Unit Unit := ⟨fun _ => 0, (), none⟩

theorem noUser_sound : noUser.Sound fun _ _ => 0 where
  copyin := nofun
  copyout := nofun
  copyinFault _ _ _ _ _ _ is := (Option.some.inj is).symm
  copyoutFault _ _ _ _ _ _ is := (Option.some.inj is).symm

/-- The names of a small directory are all of at most 16 bytes. -/
def short (dents : List (Option SemfsDirentry)) : Bool :=
  dents.length ≤ 16 && dents.all fun o => o.all fun dent => dent.bytes.length ≤ 16

theorem short_name {dents : List (Option SemfsDirentry)} (is : short dents = true) {dent : SemfsDirentry}
    (mem : some dent ∈ dents) : dents.length ≤ 16 ∧ dent.bytes.length ≤ 16 := by
  simp only [short, Bool.and_eq_true, decide_eq_true_eq, List.all_eq_true] at is
  exact ⟨is.1, by simpa using is.2 _ mem⟩

theorem short_takes {dents : List (Option SemfsDirentry)} (is : short dents = true) :
    Takes noUser readUio readMemory 0 dents where
  ready := ⟨⟨16, rfl, Nat.le_refl _⟩, rfl⟩
  read := rfl
  copies user := absurd rfl user
  room _ mem := (short_name is mem).2

theorem short_inMemory {dents : List (Option SemfsDirentry)} (is : short dents = true) : InMemory dents := by
  intro dent mem
  have small := short_name is mem
  omega

/-- `a` and `b` are made: names of one byte, one after the other. -/
theorem readdir_enumerates_two : ∃ s : Volume, s.table.semfsDents = [some ⟨"a", 0⟩, some ⟨"b", 1⟩] ∧
    Enumerates noUser (fun _ _ => 0) s.table.semfsDents readUio 0 readMemory := by
  have passes : (volumes.runIf (fun _ a => a.1.named) newVolume [(.creat "a" false, answers), (.creat "b" false,
      [⟨6, true⟩, ⟨7, true⟩, ⟨8, true⟩, ⟨9, true⟩, ⟨10, true⟩, ⟨11, true⟩])]).passes
      (fun s => s.table.semfsDents == [some ⟨"a", 0⟩, some ⟨"b", 1⟩]) = true := by
    decide +kernel
  obtain ⟨s, run, is⟩ := Outcome.passes_done passes
  rw [beq_iff_eq] at is
  have reached : volumes.ReachableBy (fun _ a => a.1.named = true) s :=
    .runIf _ _ (.initial rfl) (fun _ _ named => named) run
  refine ⟨s, is, (readdir_enumerates_iff reached ?_ noUser_sound ?_).mpr ?_⟩
  · exact is ▸ short_inMemory (by decide)
  · exact is ▸ short_takes (by decide)
  · rw [is]
    exact .entry _ _ (by decide) (by decide) (.entry _ _ (by decide) (by decide) .nil)

/-- `ab` and `c` are made: after the two bytes of `ab` the reader is past `c`. -/
theorem readdir_misses : ¬ ∀ s, volumes.ReachableBy (fun _ a => a.1.named = true) s →
    Enumerates noUser (fun _ _ => 0) s.table.semfsDents readUio 0 readMemory := by
  intro all
  have passes : (volumes.runIf (fun _ a => a.1.named) newVolume [(.creat "ab" false, answers), (.creat "c" false,
      [⟨6, true⟩, ⟨7, true⟩, ⟨8, true⟩, ⟨9, true⟩, ⟨10, true⟩, ⟨11, true⟩])]).passes
      (fun s => s.table.semfsDents == [some ⟨"ab", 0⟩, some ⟨"c", 1⟩]) = true := by
    decide +kernel
  obtain ⟨s, run, is⟩ := Outcome.passes_done passes
  rw [beq_iff_eq] at is
  have reached : volumes.ReachableBy (fun _ a => a.1.named = true) s :=
    .runIf _ _ (.initial rfl) (fun _ _ named => named) run
  have enumerates := all s reached
  rw [is] at enumerates
  obtain ⟨fuel, names, goes, -, every⟩ := enumerates
  have visits : Visits [some ⟨"ab", 0⟩, some ⟨"c", 1⟩] names :=
    readdir_visits (p := 0) noUser_sound (short_inMemory (by decide)) (short_takes (by decide)) (by decide) goes
  have missing : SemfsDirentry.bytes ⟨"c", 1⟩ ∈ names := (every _).mpr (by decide)
  cases visits with
  | empty _ _ empty => exact absurd empty (by decide)
  | entry _ _ names _ rest =>
    rw [show List.drop _ [some (⟨"c", 1⟩ : SemfsDirentry)] = [] by decide] at rest
    cases rest
    exact absurd missing (by decide)

end Os161.Semfs
