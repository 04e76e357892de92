import Os161.Base.Traced
import Os161.Io.Lhd
import Os161.Io.UioMove

/-!
# Raw disks

`dev_read` and `dev_write` of `device.c` over `lhd_io`, watched: the events are the sectors that the
card is told to go to. The position is checked twice, in 64 bits and then in 32.
-/

namespace Os161

structure Device where
  dBlocks : UInt32
  dBlocksize : UInt32

/-- `dev_tryseek`. The numbers of blocks and bytes become signed 64-bit numbers. -/
def Device.devTryseek (d : Device) (pos : Int) : Option Errno :=
  if 0 < d.dBlocks then
    if pos.tmod d.dBlocksize.toNat ≠ 0 then some .einval
    else if (d.dBlocks.toNat : Int) ≤ pos.tdiv d.dBlocksize.toNat then some .einval
    else none
  else none

/-- What `config_lhd` sets up. -/
def Lhd.lhDev (lh : Lhd) : Device := ⟨lh.dBlocks, 512⟩

namespace Request

variable {Space User : Type} [DecidableEq Space]

/-- `lhdSectors`, watched. -/
def lhdSectorsTraced (copy : UserCopy User) (attempts : Nat → Attempt) (statval sect : UInt32)
    (r : Request Space User) : Nat → Traced UInt32 (Option Errno × Request Space User)
  | 0 => return (none, r)
  | len + 1 => do
    let (result, r) ← Traced.quiet (if r.uio.uioRw = .write then r.moveSector copy else pure (none, r))
    match result with
    | some err => return (some err, r)
    | none => do
      Traced.emit sect
      let (val, lh) := r.lh.operate attempts sect statval
      let r := { r with lh := lh }
      match lhdIrq val with
      | none => Traced.quiet .blocked
      | some result => do
        let (result, r) ← Traced.quiet
          (if result = none ∧ r.uio.uioRw = .read then r.moveSector copy else pure (result, r))
        match result with
        | some err => return (some err, r)
        | none => lhdSectorsTraced copy attempts statval (sect + 1) r len

/-- `lhdIo`, watched. -/
def lhdIoTraced (copy : UserCopy User) (attempts : Nat → Attempt) (r : Request Space User) :
    Traced UInt32 (Option Errno × Request Space User) :=
  let sector := UInt32.ofInt (r.uio.uioOffset.tdiv 512)
  let sectoff := UInt32.ofInt (r.uio.uioOffset.tmod 512)
  let len := r.uio.uioResid / 512
  let lenoff := r.uio.uioResid % 512
  if sectoff ≠ 0 ∨ lenoff ≠ 0 then return (some .einval, r)
  else if r.lh.dBlocks < sector + len then return (some .einval, r)
  else
    let statval := if r.uio.uioRw = .write then lhdWorking ||| lhdIswrite else lhdWorking
    lhdSectorsTraced copy attempts statval sector r len.toNat

/-- What `dev_read` and `dev_write` have in common; `rw` is the direction that they assert. -/
def devIo (copy : UserCopy User) (attempts : Nat → Attempt) (rw : UioRw) (r : Request Space User) :
    Traced UInt32 (Option Errno × Request Space User) :=
  match r.lh.lhDev.devTryseek r.uio.uioOffset with
  | some err => return (some err, r)
  | none => do
    Traced.quiet (Outcome.kassert (r.uio.uioRw = rw))
    r.lhdIoTraced copy attempts

def devRead (copy : UserCopy User) (attempts : Nat → Attempt) (r : Request Space User) :
    Traced UInt32 (Option Errno × Request Space User) := devIo copy attempts .read r

def devWrite (copy : UserCopy User) (attempts : Nat → Attempt) (r : Request Space User) :
    Traced UInt32 (Option Errno × Request Space User) := devIo copy attempts .write r

variable {copy : UserCopy User} {attempts : Nat → Attempt} {statval sect : UInt32}
variable {r : Request Space User} {len : Nat}

theorem lhdSectorsTraced_outcome :
    (lhdSectorsTraced copy attempts statval sect r len).outcome =
      lhdSectors copy attempts statval sect r len := by
  induction len generalizing sect r with
  | zero => rfl
  | succ len ih =>
    rw [lhdSectorsTraced, lhdSectors]
    apply Traced.quiet_ite_outcome
    rintro ⟨result, r⟩
    cases result with
    | some err => rfl
    | none =>
      dsimp only
      rw [Traced.emit_bind_outcome]
      cases lhdIrq (r.lh.operate attempts sect statval).1 with
      | none => rfl
      | some result =>
        apply Traced.quiet_ite_outcome
        rintro ⟨result, r⟩
        cases result with
        | some err => rfl
        | none => exact ih

theorem lhdIoTraced_outcome : (r.lhdIoTraced copy attempts).outcome = r.lhdIo copy attempts := by
  unfold lhdIoTraced lhdIo
  dsimp only
  split
  · rfl
  · split
    · rfl
    · exact lhdSectorsTraced_outcome

/-- The card is sent to one sector after the other from `sect` on, to all `len` of them if nothing goes
wrong. -/
def Visits (sect : UInt32) (len : Nat) (t : Traced UInt32 (Option Errno × Request Space User)) : Prop :=
  ∃ k ≤ len, t.events.map UInt32.toNat = List.range' sect.toNat k ∧
    ∀ r, t.outcome = .done (none, r) → k = len

omit [DecidableEq Space] in
theorem visits_stopped {o : Outcome (Option Errno × Request Space User)}
    (stops : ∀ r, o ≠ .done (none, r)) : Visits sect len ⟨[], o⟩ :=
  ⟨0, Nat.zero_le len, rfl, fun r goes => (stops r goes).elim⟩

omit [DecidableEq Space] in
theorem visits_emit {f : Unit → Traced UInt32 (Option Errno × Request Space User)}
    (fits : sect.toNat + (len + 1) < 2 ^ 32) (rest : Visits (sect + 1) len (f ())) :
    Visits sect (len + 1) (Traced.emit sect >>= f) := by
  obtain ⟨k, within, sectors, all⟩ := rest
  have next : (sect + 1).toNat = sect.toNat + 1 := by
    rw [UInt32.toNat_add, UInt32.toNat_one]
    omega
  refine ⟨k + 1, Nat.succ_le_succ within, ?_, fun r goes => congrArg Nat.succ (all r goes)⟩
  rw [Traced.emit_bind_events, List.map_cons, sectors, next, List.range'_succ]

theorem lhdSectorsTraced_visits (fits : sect.toNat + len < 2 ^ 32) :
    Visits sect len (lhdSectorsTraced copy attempts statval sect r len) := by
  induction len generalizing sect r with
  | zero => exact ⟨0, Nat.le_refl 0, rfl, fun _ _ => rfl⟩
  | succ len ih =>
    rw [lhdSectorsTraced]
    apply Traced.quiet_bind_rule
    · exact fun o stops => visits_stopped fun r => stops _
    · rintro ⟨result, r⟩ -
      cases result with
      | some err => exact visits_stopped nofun
      | none =>
        apply visits_emit fits
        dsimp only
        cases lhdIrq (r.lh.operate attempts sect statval).1 with
        | none => exact visits_stopped nofun
        | some result =>
          apply Traced.quiet_bind_rule
          · exact fun o stops => visits_stopped fun r => stops _
          · rintro ⟨result, r⟩ -
            cases result with
            | some err => exact visits_stopped nofun
            | none =>
              apply ih
              rw [UInt32.toNat_add, UInt32.toNat_one]
              omega

theorem moveSector_fault {byte : User → Bytes} (sound : copy.Sound byte) {err : Errno}
    {r' : Request Space User} (goes : r.moveSector copy = .done (some err, r')) : err = .efault := by
  unfold moveSector at goes
  obtain ⟨⟨result, t⟩, moved, value⟩ := Outcome.bind_done.mp goes
  cases value
  exact Transfer.uiomove_fault sound moved

/-- This is not the refusal of the request `r`. -/
def Accepted (r : Request Space User) (t : Traced UInt32 (Option Errno × Request Space User)) : Prop :=
  t ≠ ⟨[], .done (some .einval, r)⟩

theorem lhdSectorsTraced_accepted {byte : User → Bytes} (sound : copy.Sound byte) (positive : 0 < len) :
    Accepted r (lhdSectorsTraced copy attempts statval sect r len) := by
  cases len with
  | zero => exact absurd positive (Nat.lt_irrefl 0)
  | succ len =>
    rw [lhdSectorsTraced]
    apply Traced.quiet_bind_rule
    · exact fun o stops same => stops _ (congrArg Traced.outcome same)
    · rintro ⟨result, r'⟩ moved same
      cases result with
      | some err =>
        cases same
        split at moved
        · cases moveSector_fault sound moved
        · cases moved
      | none =>
        have events := congrArg Traced.events same
        dsimp only at events
        rw [Traced.emit_bind_events] at events
        cases events

/-- A request whose bytes are whole blocks of the disk. -/
def InDisk (r : Request Space User) : Prop :=
  512 ∣ r.uio.uioOffset ∧ 512 ∣ r.uio.uioResid.toNat ∧ 0 ≤ r.uio.uioOffset ∧
    r.uio.uioOffset + r.uio.uioResid.toNat ≤ r.lh.dBlocks.toNat * 512

/-- What the layers above count on: positions are accepted on the disk, a request that leaves it is refused
before the card is told anything, and the card is only told to go where the request is. -/
structure Checked (copy : UserCopy User) (attempts : Nat → Attempt) (rw : UioRw)
    (r : Request Space User) : Prop where
  seek : r.lh.lhDev.devTryseek r.uio.uioOffset = none ↔
    512 ∣ r.uio.uioOffset ∧ 0 ≤ r.uio.uioOffset ∧ r.uio.uioOffset < r.lh.dBlocks.toNat * 512
  refuses : ¬ r.InDisk → devIo copy attempts rw r = ⟨[], .done (some .einval, r)⟩
  commands : ∃ k ≤ r.uio.uioResid.toNat / 512,
    (devIo copy attempts rw r).events.map UInt32.toNat = List.range' (r.uio.uioOffset / 512).toNat k ∧
    ∀ r', (devIo copy attempts rw r).outcome = .done (none, r') → k = r.uio.uioResid.toNat / 512
  inside : ∀ sect ∈ (devIo copy attempts rw r).events, sect < r.lh.dBlocks

/-- A block device and a request that is refused for its alignment, or one from a block on whose number, with
the length in blocks, stays below 2³² or is behind the end anyway. -/
def Unwrapped (r : Request Space User) : Prop :=
  0 < r.lh.dBlocks ∧ (¬ 512 ∣ r.uio.uioOffset ∨ 0 ≤ r.uio.uioOffset ∧
    (¬ 512 ∣ r.uio.uioResid.toNat ∨ r.lh.dBlocks.toNat * 512 ≤ r.uio.uioOffset ∨
      r.uio.uioOffset / 512 + r.uio.uioResid.toNat / 512 < 2 ^ 32))

omit [DecidableEq Space] in
theorem devTryseek_none (blocks : 0 < r.lh.dBlocks) :
    r.lh.lhDev.devTryseek r.uio.uioOffset = none ↔
      512 ∣ r.uio.uioOffset ∧ r.uio.uioOffset < r.lh.dBlocks.toNat * 512 := by
  have size : ((512 : UInt32).toNat : Int) = 512 := rfl
  unfold Device.devTryseek Lhd.lhDev
  dsimp only
  rw [if_pos blocks, size]
  by_cases aligned : 512 ∣ r.uio.uioOffset
  · obtain ⟨n, offset⟩ := aligned
    rw [offset, Int.mul_tmod_right, if_neg (not_not_intro rfl), Int.mul_tdiv_cancel_left _ (by decide)]
    by_cases past : (r.lh.dBlocks.toNat : Int) ≤ n
    · rw [if_pos past]
      constructor
      · nofun
      · intro inside
        omega
    · rw [if_neg past]
      exact ⟨fun _ => ⟨Dvd.intro n rfl, by omega⟩, fun _ => rfl⟩
  · rw [if_pos (fun zero => aligned (Int.dvd_of_tmod_eq_zero zero))]
    exact ⟨nofun, fun inside => (aligned inside.1).elim⟩

omit [DecidableEq Space] in
theorem devTryseek_some {err : Errno} (h : r.lh.lhDev.devTryseek r.uio.uioOffset = some err) :
    err = .einval := by
  unfold Device.devTryseek at h
  split at h
  · split at h
    · exact (Option.some.inj h).symm
    · split at h
      · exact (Option.some.inj h).symm
      · cases h
  · cases h

theorem devIo_refused {rw : UioRw} (off : r.lh.lhDev.devTryseek r.uio.uioOffset ≠ none) :
    devIo copy attempts rw r = ⟨[], .done (some .einval, r)⟩ := by
  unfold devIo
  cases check : r.lh.lhDev.devTryseek r.uio.uioOffset with
  | none => exact (off check).elim
  | some err =>
    rw [devTryseek_some check]
    rfl

theorem devIo_passed (passed : r.lh.lhDev.devTryseek r.uio.uioOffset = none) :
    devIo copy attempts r.uio.uioRw r = r.lhdIoTraced copy attempts := by
  unfold devIo
  rw [passed, Outcome.kassert, if_pos rfl]
  rfl

theorem lhdIoTraced_misaligned (misaligned : ¬ 512 ∣ r.uio.uioResid.toNat) :
    r.lhdIoTraced copy attempts = ⟨[], .done (some .einval, r)⟩ := by
  have lenoff : r.uio.uioResid % 512 ≠ 0 := by
    intro zero
    have rest := congrArg UInt32.toNat zero
    rw [UInt32.toNat_mod] at rest
    exact misaligned (Nat.dvd_of_mod_eq_zero rest)
  exact if_pos (.inr lenoff)

theorem lhdIoTraced_aligned {n : Nat} (offset : r.uio.uioOffset = 512 * n)
    (aligned : 512 ∣ r.uio.uioResid.toNat) :
    r.lhdIoTraced copy attempts =
      if r.lh.dBlocks < UInt32.ofNat n + r.uio.uioResid / 512 then ⟨[], .done (some .einval, r)⟩
      else lhdSectorsTraced copy attempts
        (if r.uio.uioRw = .write then lhdWorking ||| lhdIswrite else lhdWorking) (UInt32.ofNat n) r
        (r.uio.uioResid.toNat / 512) := by
  have sector : UInt32.ofInt (r.uio.uioOffset.tdiv 512) = UInt32.ofNat n := by
    rw [offset, Int.mul_tdiv_cancel_left _ (by decide), ofInt_natCast]
  have sectoff : UInt32.ofInt (r.uio.uioOffset.tmod 512) = 0 := by
    rw [offset, Int.mul_tmod_right]
    rfl
  have lenoff : r.uio.uioResid % 512 = 0 := by
    rw [← UInt32.toNat_inj, UInt32.toNat_mod]
    exact Nat.mod_eq_zero_of_dvd aligned
  simp only [lhdIoTraced, sector, sectoff, lenoff, ne_eq, not_true, or_self, if_false,
    UInt32.toNat_div]
  rfl

omit [DecidableEq Space] in
theorem sectors_toNat (n : Nat) :
    (UInt32.ofNat n + r.uio.uioResid / 512).toNat = (n + r.uio.uioResid.toNat / 512) % 2 ^ 32 := by
  rw [UInt32.toNat_add, UInt32.toNat_ofNat', UInt32.toNat_div, Nat.mod_add_mod]
  rfl

theorem checked_refused {rw : UioRw}
    (seek : r.lh.lhDev.devTryseek r.uio.uioOffset = none ↔
      512 ∣ r.uio.uioOffset ∧ 0 ≤ r.uio.uioOffset ∧ r.uio.uioOffset < r.lh.dBlocks.toNat * 512)
    (refused : devIo copy attempts rw r = ⟨[], .done (some .einval, r)⟩) :
    r.Checked copy attempts rw where
  seek := seek
  refuses _ := refused
  commands := by
    rw [refused]
    exact ⟨0, Nat.zero_le _, rfl, nofun⟩
  inside := by
    rw [refused]
    nofun

/-- Raw disks are read and written in their place exactly when the 32-bit check does not wrap around and
the position is not negative. -/
theorem devIo_checked_iff {byte : User → Bytes} (sound : copy.Sound byte) {rw : UioRw}
    (dir : r.uio.uioRw = rw) : r.Checked copy attempts rw ↔ r.Unwrapped := by
  subst dir
  have range := r.uio.uioResid.toNat_lt
  have range' := r.lh.dBlocks.toNat_lt
  constructor
  · intro h
    have blocks : 0 < r.lh.dBlocks := by
      by_contra none
      have passed : r.lh.lhDev.devTryseek r.uio.uioOffset = Option.none := if_neg none
      have zero : r.lh.dBlocks.toNat = 0 := by
        rw [UInt32.lt_iff_toNat_lt] at none
        exact Nat.eq_zero_of_not_pos none
      obtain ⟨-, low, high⟩ := h.seek.mp passed
      rw [zero] at high
      omega
    refine ⟨blocks, ?_⟩
    by_cases aligned : 512 ∣ r.uio.uioOffset
    · right
      by_cases past : r.lh.dBlocks.toNat * 512 ≤ r.uio.uioOffset
      · exact ⟨by omega, .inr (.inl past)⟩
      · have passed := (devTryseek_none blocks).mpr ⟨aligned, Int.not_le.mp past⟩
        have low := (h.seek.mp passed).2.1
        refine ⟨low, ?_⟩
        by_cases whole : 512 ∣ r.uio.uioResid.toNat
        · right
          right
          by_contra wraps
          obtain ⟨n, offset⟩ := aligned
          obtain ⟨n, rfl⟩ := Int.eq_ofNat_of_zero_le (show 0 ≤ n by omega)
          have count : n + r.uio.uioResid.toNat / 512 ≥ 2 ^ 32 := by omega
          have outside : ¬ r.InDisk := by
            rintro ⟨-, -, -, fits⟩
            obtain ⟨len, resid⟩ := whole
            omega
          have refused := h.refuses outside
          rw [devIo_passed passed, lhdIoTraced_aligned offset whole, if_neg] at refused
          · exact lhdSectorsTraced_accepted sound (by omega) refused
          · rw [UInt32.lt_iff_toNat_lt, sectors_toNat]
            omega
        · exact .inl whole
    · exact .inl aligned
  · rintro ⟨blocks, request⟩
    have place := devTryseek_none blocks
    rcases request with misaligned | ⟨low, request⟩
    · apply checked_refused (place.trans ⟨fun h => (misaligned h.1).elim, fun h => (misaligned h.1).elim⟩)
      exact devIo_refused fun passed => misaligned (place.mp passed).1
    · have seek := place.trans (and_congr_right fun _ => (and_iff_right low).symm)
      by_cases passed : r.lh.lhDev.devTryseek r.uio.uioOffset = none
      · obtain ⟨aligned, inside⟩ := place.mp passed
        by_cases whole : 512 ∣ r.uio.uioResid.toNat
        · obtain ⟨n, offset⟩ := aligned
          obtain ⟨n, rfl⟩ := Int.eq_ofNat_of_zero_le (show 0 ≤ n by omega)
          have count : n + r.uio.uioResid.toNat / 512 < 2 ^ 32 := by
            rcases request with misaligned | past | count
            · exact (misaligned whole).elim
            · omega
            · omega
          have goes : devIo copy attempts r.uio.uioRw r = r.lhdIoTraced copy attempts := devIo_passed passed
          rw [lhdIoTraced_aligned offset whole] at goes
          by_cases beyond : r.lh.dBlocks < UInt32.ofNat n + r.uio.uioResid / 512
          · rw [if_pos beyond] at goes
            exact checked_refused seek goes
          · rw [if_neg beyond] at goes
            rw [UInt32.lt_iff_toNat_lt, sectors_toNat, Nat.mod_eq_of_lt count] at beyond
            have first : (UInt32.ofNat n).toNat = n := UInt32.toNat_ofNat_of_lt' (by simp [UInt32.size]; omega)
            have visits : Visits (UInt32.ofNat n) (r.uio.uioResid.toNat / 512)
                (devIo copy attempts r.uio.uioRw r) := by
              rw [goes]
              exact lhdSectorsTraced_visits (by rw [first]; exact count)
            obtain ⟨k, within, sectors, all⟩ := visits
            rw [first] at sectors
            constructor
            · exact seek
            · intro outside
              obtain ⟨len, resid⟩ := whole
              exact (outside ⟨⟨n, offset⟩, ⟨len, resid⟩, low, by omega⟩).elim
            · have place : (r.uio.uioOffset / 512).toNat = n := by omega
              rw [place]
              exact ⟨k, within, sectors, all⟩
            · intro sect visited
              have here := List.mem_map_of_mem (f := UInt32.toNat) visited
              rw [sectors, List.mem_range'_1] at here
              rw [UInt32.lt_iff_toNat_lt]
              omega
        · exact checked_refused seek ((devIo_passed passed).trans (lhdIoTraced_misaligned whole))
      · exact checked_refused seek (devIo_refused passed)

/-- A read of so many bytes at this offset of a disk, into kernel memory. -/
def reading (dBlocks : UInt32) (offset : Int) (resid : UInt32) : Request Unit Bytes where
  lh := ⟨dBlocks, fun _ => 0, fun _ _ => 0, 0⟩
  memory := ⟨fun _ => 0, fun _ => 0, none⟩
  uio := ⟨[⟨0, resid.toNat⟩], offset, resid, .sysspace, .read, none⟩

theorem devIo_checked_reading :
    (reading 8 512 1024).Checked Transfer.plainCopy (fun _ => .ok) .read :=
  (devIo_checked_iff (r := reading 8 512 1024) Transfer.plainCopy_sound rfl).mpr
    ⟨by decide, .inr ⟨by decide, .inr (.inr (by decide))⟩⟩

/-- At -512 the card is sent to sector 2³² - 1, and at -2⁴¹ the first sector counts as the position; the
last block of a disk of 2³² - 1 blocks is followed by block 2³² - 1 in a request that is not refused. -/
theorem devIo_outside :
    ((reading 8 (-512) 512).devRead Transfer.plainCopy fun _ => .media fun _ => 0).events =
        [4294967295] ∧
      ((reading 8 (-2199023255552) 512).devRead Transfer.plainCopy fun _ => .media fun _ => 0).events =
        [0] ∧
      ((reading 4294967295 (4294967294 * 512) 1024).devRead Transfer.plainCopy
        fun _ => .media fun _ => 0).events = [4294967294] ∧
      (Lhd.lhDev (reading 8 (-512) 512).lh).devTryseek (-512) = none :=
  ⟨rfl, rfl, rfl, rfl⟩

end Request

end Os161
