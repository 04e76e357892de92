import Os161.File.Bounds

/-!
# Seeking on every type of vnode

`sys_lseek` asks `VOP_STAT` for the size and `VOP_TRYSEEK` for permission. Of the seven operation
tables only that of the files of emufs has a `vop_tryseek`.
-/

set_option linter.unusedSectionVars false

namespace Os161

/-- The operation table of a vnode, with what its operations read for a seek. -/
inductive VnodeKind where
  /-- `dev_vnode_ops`: the console and other character devices have no blocks. -/
  | device (dBlocks dBlocksize : UInt32)
  /-- `sfs_fileops`. -/
  | sfsFile (sfiSize : UInt32)
  /-- `sfs_dirops`. -/
  | sfsDir (sfiSize : UInt32)
  /-- `semfs_dirops`, with the length of `semfs_dents`. -/
  | semfsDir (dents : UInt32)
  /-- `semfs_semops`. -/
  | semfsSem (semsCount : UInt32)
  /-- `emufs_fileops`, with what `emu_getsize` gets. -/
  | emufsFile (getsize : Except Errno UInt32)
  /-- `emufs_dirops`, with what `emu_getsize` gets. -/
  | emufsDir (getsize : Except Errno UInt32)

namespace VnodeKind

/-- The `st_size` that `vop_stat` fills in. The size of a disk is a product of 32 bits. -/
def stat : VnodeKind → Except Errno Int
  | .device dBlocks dBlocksize => .ok (if dBlocks > 0 then (dBlocks * dBlocksize).toNat else 0 : Nat)
  | .sfsFile sfiSize | .sfsDir sfiSize => .ok sfiSize.toNat
  | .semfsDir dents => .ok dents.toNat
  | .semfsSem semsCount => .ok semsCount.toNat
  | .emufsFile getsize | .emufsDir getsize => getsize.map fun size => size.toNat

def emufsTryseek (pos : Int) : Option Errno := if pos < 0 then some .einval else none

/-- `vop_tryseek`, where the table has one. -/
def tryseek : VnodeKind → Option (Int → Option Errno)
  | .emufsFile _ => some emufsTryseek
  | _ => none

/-- A table without `vop_tryseek` has `NULL` there, and the call goes through it. -/
def seekOps {P V D : Type} (kinds : V → VnodeKind) (ops : VnodeOps P V D) : VnodeOps P V D :=
  { ops with
    vopStat := fun vn _ => .done (kinds vn).stat
    vopTryseek := fun vn pos => do
      let op ← Outcome.deref (kinds vn).tryseek
      return op pos }

end VnodeKind

namespace Files

variable {P F V D : Type} [DecidableEq P] [DecidableEq F] [DecidableEq V]
variable {s t : Files P F V} {cur : P} {f : F} {file : File V P} {q : Seek} {d : D}
variable {kinds : V → VnodeKind} {ops : VnodeOps P V D}

/-- The range of `off_t`. -/
def OffT (n : Int) : Prop := -2 ^ 63 ≤ n ∧ n < 2 ^ 63

/-- What the offset of a seek is added to. -/
def seekBase (kind : VnodeKind) (file : File V P) (whence : Int) : Except Errno Int :=
  match whence with
  | 0 => .ok 0
  | 1 => .ok file.fOffset
  | 2 => kind.stat
  | _ => .error .einval

/-- What a seek on `file` is to return and to leave. -/
structure SeekAnswer (s t : Files P F V) (f : F) (file : File V P) (kind : VnodeKind) (q : Seek)
    (result : Except Errno Int) : Prop where
  moved : ∀ pos, result = .ok pos → 0 ≤ pos ∧
    (∃ base, seekBase kind file q.whence = .ok base ∧ pos = base + q.offset) ∧
      t = s.withFile f { file with fOffset := pos }
  kept : ∀ err, result = .error err → t = s
  unknown : q.whence ≠ 0 → q.whence ≠ 1 → q.whence ≠ 2 → result = .error .einval
  negative : ∀ base, seekBase kind file q.whence = .ok base → base + q.offset < 0 →
    result = .error .einval
  released : ∃ after, t.files f = .live after ∧ after.fLk = some none

/-- The call comes back, and as it should. -/
def SeeksRight (s : Files P F V) (cur : P) (f : F) (q : Seek) (kinds : V → VnodeKind)
    (ops : VnodeOps P V D) (d : D) : Prop :=
  ∃ file result t, s.files f = .live file ∧
    s.sysLseek (VnodeKind.seekOps kinds ops) cur q d = .done (result, t) ∧
      SeekAnswer s t f file (kinds file.fVnode) q result

/-- The locks are there, and if there is a position to ask about, then the table has `vop_tryseek`
and the sum does not fall below the range of `off_t`. -/
def SeekSound (s : Files P F V) (cur : P) (f : F) (q : Seek) (kinds : V → VnodeKind) : Prop :=
  s.fdLkOf cur = some none ∧ ∃ file, s.files f = .live file ∧ file.fLk = some none ∧
    ∀ base, seekBase (kinds file.fVnode) file q.whence = .ok base →
      (kinds file.fVnode).tryseek ≠ none ∧ -2 ^ 63 ≤ base + q.offset

/-! ### The sum -/

theorem offT_inside {n : Int} (inside : OffT n) : offT n = n := by
  obtain ⟨low, high⟩ := inside
  rw [offT, Int.bmod_def]
  split <;> omega

theorem offT_above {n : Int} (above : 2 ^ 63 ≤ n) (bound : n < 2 ^ 64) : offT n < 0 := by
  rw [offT, Int.bmod_def]
  split <;> omega

theorem offT_below {n : Int} (below : n < -2 ^ 63) (bound : -2 ^ 64 ≤ n) : 0 ≤ offT n := by
  rw [offT, Int.bmod_def]
  split <;> omega

/-- The switch on `whence`, with the base apart. -/
def seekTarget (kind : VnodeKind) (file : File V P) (q : Seek) : Except Errno Int :=
  (seekBase kind file q.whence).map fun base => offT (base + q.offset)

theorem stat_bound {kind : VnodeKind} {size : Int} (h : kind.stat = .ok size) :
    0 ≤ size ∧ size < 2 ^ 32 := by
  have bound : ∀ n : UInt32, (0 : Int) ≤ n.toNat ∧ (n.toNat : Int) < 2 ^ 32 := fun n => by
    have := n.toNat_lt
    omega
  have length : ∀ getsize : Except Errno UInt32,
      (getsize.map fun size => (size.toNat : Int)) = .ok size → 0 ≤ size ∧ size < 2 ^ 32 := by
    intro getsize h
    cases getsize with
    | error err => cases h
    | ok n => exact Except.ok.inj h ▸ bound n
  cases kind with
  | device dBlocks dBlocksize =>
    have same := Except.ok.inj h
    split at same
    · exact same ▸ bound _
    · exact same ▸ by decide
  | sfsFile sfiSize => exact Except.ok.inj h ▸ bound sfiSize
  | sfsDir sfiSize => exact Except.ok.inj h ▸ bound sfiSize
  | semfsDir dents => exact Except.ok.inj h ▸ bound dents
  | semfsSem semsCount => exact Except.ok.inj h ▸ bound semsCount
  | emufsFile getsize => exact length getsize h
  | emufsDir getsize => exact length getsize h

/-- The base is an `off_t` too. -/
theorem seekBase_bound {kind : VnodeKind} {base : Int} (stored : OffT file.fOffset)
    (h : seekBase kind file q.whence = .ok base) : OffT base := by
  unfold seekBase at h
  split at h
  · obtain rfl := Except.ok.inj h
    constructor <;> decide
  · exact Except.ok.inj h ▸ stored
  · have := stat_bound h
    constructor <;> omega
  · cases h

theorem seekBase_unknown {kind : VnodeKind} {file : File V P} {whence : Int} (set : whence ≠ 0)
    (cur : whence ≠ 1) (atEnd : whence ≠ 2) : seekBase kind file whence = .error .einval := by
  unfold seekBase
  split
  · exact (set rfl).elim
  · exact (cur rfl).elim
  · exact (atEnd rfl).elim
  · rfl

theorem newOffset_is (live : s.files f = .live file) (wide : OffT q.offset) :
    s.newOffset (VnodeKind.seekOps kinds ops) f q d =
      .done (seekTarget (kinds file.fVnode) file q) := by
  unfold newOffset
  rw [get_done.mpr live, Outcome.done_bind]
  by_cases set : q.whence = 0
  · simp only [set, seekTarget, seekBase, Except.map, Int.zero_add, offT_inside wide]
    rfl
  by_cases cur : q.whence = 1
  · simp only [cur, seekTarget, seekBase]
    rfl
  by_cases atEnd : q.whence = 2
  · simp only [atEnd, seekTarget, seekBase, VnodeKind.seekOps, Outcome.done_bind]
    cases (kinds file.fVnode).stat <;> rfl
  rw [seekTarget, seekBase_unknown set cur atEnd]
  split
  · exact (set ‹_›).elim
  · exact (cur ‹_›).elim
  · exact (atEnd ‹_›).elim
  · rfl

/-- What the call does between `get_file` and the end. -/
theorem position_is (live : s.files f = .live file) (wide : OffT q.offset) :
    s.position (VnodeKind.seekOps kinds ops) f q d =
      match seekTarget (kinds file.fVnode) file q with
      | .error err => .done (.error err)
      | .ok pos =>
        match (kinds file.fVnode).tryseek with
        | none => .fault
        | some op => .done (match op pos with
          | some err => .error err
          | none => .ok pos) := by
  rw [position, newOffset_is live wide, Outcome.done_bind]
  cases seekTarget (kinds file.fVnode) file q with
  | error err => rfl
  | ok pos =>
    simp only [get_done.mpr live, Outcome.done_bind, VnodeKind.seekOps]
    cases (kinds file.fVnode).tryseek with
    | none => rfl
    | some op =>
      simp only [Outcome.deref, Outcome.done_bind, Outcome.pure_def]
      cases op pos <;> rfl

theorem tryseek_emufs {kind : VnodeKind} {op : Int → Option Errno} (h : kind.tryseek = some op) :
    op = VnodeKind.emufsTryseek := by
  cases kind with
  | emufsFile getsize => exact (Option.some.inj h).symm
  | _ => cases h

/-! ### Whole calls -/

/-- A seek that comes back found the locks, and went through the operation table. -/
theorem sysLseek_found {ops : VnodeOps P V D} {result : Except Errno Int}
    (found : s.slot cur q.fd = .done (some f)) (h : s.sysLseek ops cur q d = .done (result, t)) :
    s.fdLkOf cur = some none ∧ ∃ file, s.files f = .live file ∧ file.fLk = some none ∧
      s.position ops f q d = .done result := by
  obtain ⟨⟨got, u⟩, gets, h⟩ := Outcome.bind_done.mp h
  cases got with
  | error err =>
    obtain ⟨-, -, outside | ⟨empty, -⟩⟩ := getFile_error.mp gets
    · obtain ⟨_, i, _, inside, _⟩ := slot_done.mp found
      rw [outside] at inside
      cases inside
    · rw [found] at empty
      cases empty
  | ok g =>
    obtain ⟨slot, free, file, live, unheld, rfl⟩ := getFile_ok.mp gets
    obtain rfl := Option.some.inj (Outcome.done.inj (found.symm.trans slot))
    obtain ⟨answer, finds, finishes⟩ := Outcome.bind_done.mp h
    obtain ⟨-, rfl, -⟩ := (finishSeek_done withFile_same).mp finishes
    refine ⟨free, file, live, unheld, ?_⟩
    rw [← finds]
    have locked : (s.withFile f { file with fLk := some (some cur) }).files f =
        .live { file with fLk := some (some cur) } := withFile_same
    exact (position_congr ops live locked rfl rfl).symm

theorem base_target {kind : VnodeKind} {base : Int}
    (is : seekBase kind file q.whence = .ok base) :
    seekTarget kind file q = .ok (offT (base + q.offset)) := by
  rw [seekTarget, is]
  rfl

theorem unknown_base {kind : VnodeKind} (set : q.whence ≠ 0) (cur_ : q.whence ≠ 1)
    (end_ : q.whence ≠ 2) : seekBase kind file q.whence = .error .einval := by
  unfold seekBase
  split
  · exact (set ‹_›).elim
  · exact (cur_ ‹_›).elim
  · exact (end_ ‹_›).elim
  · rfl

/-- On an emufs file the sum is refused when it is negative, and also when it is too large. -/
theorem position_emufs (ops : VnodeOps P V D) (d : D) {base : Int} (live : s.files f = .live file) (wide : OffT q.offset)
    (is : seekBase (kinds file.fVnode) file q.whence = .ok base)
    (defined : (kinds file.fVnode).tryseek ≠ none) :
    s.position (VnodeKind.seekOps kinds ops) f q d =
      .done (if offT (base + q.offset) < 0 then .error .einval else .ok (offT (base + q.offset))) := by
  rw [position_is live wide, base_target is]
  cases has : (kinds file.fVnode).tryseek with
  | none => exact (defined has).elim
  | some op =>
    rw [tryseek_emufs has]
    simp only [VnodeKind.emufsTryseek]
    by_cases negative : offT (base + q.offset) < 0 <;> simp [negative]

/-- Which answers come back as they should. -/
theorem sysLseek_right_iff (found : s.slot cur q.fd = .done (some f)) (wide : OffT q.offset)
    (stored : ∀ file, s.files f = .live file → OffT file.fOffset) :
    SeeksRight s cur f q kinds ops d ↔ SeekSound s cur f q kinds := by
  constructor
  · rintro ⟨file, result, t, live, returns, answer⟩
    obtain ⟨free, file', live', unheld, finds⟩ := sysLseek_found found returns
    obtain rfl := Cell.live.inj (live.symm.trans live')
    refine ⟨free, file, live, unheld, fun base is => ?_⟩
    have defined : (kinds file.fVnode).tryseek ≠ none := by
      intro missing
      rw [position_is live wide, base_target is, missing] at finds
      cases finds
    refine ⟨defined, ?_⟩
    by_contra below
    have bound := seekBase_bound (stored file live) is
    have wraps : 0 ≤ offT (base + q.offset) := by
      apply offT_below
      · omega
      · have := bound.1
        have := wide.1
        omega
    rw [position_emufs ops d live wide is defined, if_neg (by omega)] at finds
    have refused := answer.negative base is (by omega)
    rw [← Outcome.done.inj finds] at refused
    cases refused
  · rintro ⟨free, file, live, unheld, sound⟩
    have ends : ∀ {result : Except Errno Int},
        s.position (VnodeKind.seekOps kinds ops) f q d = .done result →
          SeekAnswer s (s.withFile f (file.moveTo result.toOption)) f file (kinds file.fVnode) q
            result → SeeksRight s cur f q kinds ops d := fun finds answer =>
      ⟨file, _, _, live, sysLseek_done _ found free live unheld finds, answer⟩
    cases is : seekBase (kinds file.fVnode) file q.whence with
    | error err =>
      have finds : s.position (VnodeKind.seekOps kinds ops) f q d = .done (.error err) := by
        rw [position_is live wide, seekTarget, is]
        rfl
      apply ends finds
      refine ⟨nofun, fun _ _ => withFile_eq live, fun set cur_ end_ => ?_, ?_,
        ⟨file, withFile_same, unheld⟩⟩
      · rw [unknown_base set cur_ end_] at is
        rw [is]
      · intro base other
        rw [is] at other
        cases other
    | ok base =>
      obtain ⟨defined, above⟩ := sound base is
      have bound := seekBase_bound (stored file live) is
      have only : ∀ base', seekBase (kinds file.fVnode) file q.whence = .ok base' → base' = base :=
        fun base' other => Except.ok.inj (other.symm.trans is)
      have known : ¬ (q.whence ≠ 0 ∧ q.whence ≠ 1 ∧ q.whence ≠ 2) := by
        rintro ⟨set, cur_, end_⟩
        rw [unknown_base set cur_ end_] at is
        cases is
      by_cases negative : offT (base + q.offset) < 0
      · have finds := position_emufs ops d live wide is defined
        rw [if_pos negative] at finds
        apply ends finds
        exact ⟨nofun, fun _ _ => withFile_eq live, fun _ _ _ => rfl, fun _ _ _ => rfl,
          ⟨file, withFile_same, unheld⟩⟩
      · have inside : OffT (base + q.offset) := by
          refine ⟨above, ?_⟩
          by_contra over_
          apply negative
          apply offT_above
          · omega
          · have := bound.2
            have := wide.2
            omega
        have finds := position_emufs ops d live wide is defined
        rw [if_neg negative, offT_inside inside] at finds
        rw [offT_inside inside] at negative
        apply ends finds
        refine ⟨?_, nofun, fun set cur_ end_ => (known ⟨set, cur_, end_⟩).elim, ?_,
          ⟨_, withFile_same, unheld⟩⟩
        · intro pos same
          obtain rfl := Except.ok.inj same
          exact ⟨by omega, ⟨base, is, rfl⟩, rfl⟩
        · intro base' other
          rw [only base' other]
          omega

end Files

namespace FileCalls

open Files

/-- What the two runs below look at: the first descriptor of a process that has just started. -/
def firstReady (s : Files (Fin 3) Nat Unit) : Bool :=
  decide (s.fdLkOf 1 = some none) && ((s.slot 1 0).passes fun entry => decide (entry = some 0)) &&
    (s.files.get 0).passes fun file => decide (file.fLk = some none ∧ file.fOffset = 0)

theorem firstReady_file {s : Files (Fin 3) Nat Unit} (h : firstReady s = true) :
    s.fdLkOf 1 = some none ∧ s.slot 1 0 = .done (some 0) ∧
      ∃ file, s.files 0 = .live file ∧ file.fLk = some none ∧ file.fOffset = 0 := by
  simp only [firstReady, Bool.and_eq_true] at h
  obtain ⟨⟨free, slot⟩, gets⟩ := h
  obtain ⟨entry, found, same⟩ := Outcome.passes_done slot
  rw [of_decide_eq_true same] at found
  obtain ⟨file, got, checked⟩ := Outcome.passes_done gets
  exact ⟨of_decide_eq_true free, found, file, get_done.mp got, of_decide_eq_true checked⟩

/-- If the first file of a process is one of emufs with 100 bytes, it can be sought from its end. -/
theorem sysLseek_right_emufs : ∃ s : State (Fin 3) Nat Unit, (machine 0).Reachable s ∧
    SeeksRight s.files 1 0 ⟨0, -10, 2⟩ (fun _ => .emufsFile (.ok 100)) plainOps () := by
  have passes : ((machine (0 : Fin 3)).run boot [startOne]).passes (fun s =>
      firstReady s.files) = true := by
    decide +kernel
  obtain ⟨s, run, ready⟩ := Outcome.passes_done passes
  obtain ⟨free, found, file, live, unheld, start⟩ := firstReady_file ready
  refine ⟨s, Started.reached run, (sysLseek_right_iff found ⟨by decide, by decide⟩ ?_).mpr ?_⟩
  · intro file' live'
    rw [← Cell.live.inj (live.symm.trans live'), start]
    exact ⟨by decide, by decide⟩
  · refine ⟨free, file, live, unheld, fun base is => ⟨nofun, ?_⟩⟩
    obtain rfl : (100 : Int) = base := Except.ok.inj is
    decide

/-- It is the console, and the call goes through a null pointer. -/
theorem sysLseek_null : ∃ s : State (Fin 3) Nat Unit, (machine 0).Reachable s ∧
    s.files.sysLseek (VnodeKind.seekOps (fun _ => .device 0 0) plainOps) 1 ⟨0, 0, 0⟩ () = .fault ∧
      ¬ SeeksRight s.files 1 0 ⟨0, 0, 0⟩ (fun _ => .device 0 0) plainOps () := by
  have passes : ((machine (0 : Fin 3)).run boot [startOne]).passes (fun s =>
      firstReady s.files) = true := by
    decide +kernel
  obtain ⟨s, run, ready⟩ := Outcome.passes_done passes
  obtain ⟨free, found, file, live, unheld, start⟩ := firstReady_file ready
  have gets := getFile_ok.mpr ⟨found, free, file, live, unheld, rfl⟩
  have faults : s.files.sysLseek (VnodeKind.seekOps (fun _ => .device 0 0) plainOps) 1 ⟨0, 0, 0⟩ () =
      .fault := by
    rw [sysLseek, gets, Outcome.done_bind]
    dsimp only
    rw [position_is withFile_same ⟨by decide, by decide⟩]
    rfl
  refine ⟨s, Started.reached run, faults, ?_⟩
  rintro ⟨_, _, _, _, returns, _⟩
  rw [faults] at returns
  cases returns

end FileCalls

end Os161
