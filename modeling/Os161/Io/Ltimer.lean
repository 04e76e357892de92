import Os161.Base.Outcome
import Mathlib.Algebra.Order.Floor.Semiring
import Mathlib.Data.Nat.Cast.Order.Field
import Mathlib.Data.Rat.Floor
import Mathlib.Tactic.Linarith

/-!
# The time of day

`ltimer_gettime` of `ltimer.c`. The clock of the timer runs on between the three reads of its registers.
-/

namespace Os161.Ltimer

/-- The registers of the clock. -/
inductive Reg where
  | sec
  | nsec

structure Timespec where
  tvSec : Int64
  tvNsec : Int32
  deriving DecidableEq

/-- What `splhigh` and `splx` are around: three reads of registers, one after the other. -/
def ltimerGettime {T : Type} (busReadRegister : T → Reg → UInt32) (t1 t2 t3 : T) : Timespec :=
  let secs1 := busReadRegister t1 .sec
  let tvNsec := (busReadRegister t2 .nsec).toInt32
  let secs2 := busReadRegister t3 .sec
  if tvNsec < 5000000 then ⟨secs2.toUInt64.toInt64, tvNsec⟩
  else ⟨secs1.toUInt64.toInt64, tvNsec⟩

/-- Times are in order by the seconds first. -/
def Timespec.le (ts ts' : Timespec) : Prop :=
  ts.tvSec < ts'.tvSec ∨ ts.tvSec = ts'.tvSec ∧ ts.tvNsec ≤ ts'.tvNsec

variable {K : Type} [Field K] [LinearOrder K] [IsStrictOrderedRing K] [FloorSemiring K]

/-- What the clock can show: it counts the seconds in 32 bits. -/
structure Instant (K : Type) [Field K] [LinearOrder K] where
  time : K
  start : 0 ≤ time
  within : time < 2 ^ 32

namespace Instant

def secs (t : Instant K) : Nat := ⌊t.time⌋₊

def nsecs (t : Instant K) : Nat := ⌊(t.time - t.secs) * 10 ^ 9⌋₊

/-- The registers of the clock at an instant. -/
def clock (t : Instant K) : Reg → UInt32
  | .sec => UInt32.ofNat t.secs
  | .nsec => UInt32.ofNat t.nsecs

variable {t t' : Instant K}

omit [IsStrictOrderedRing K] in
theorem secs_le : (t.secs : K) ≤ t.time := Nat.floor_le t.start

omit [IsStrictOrderedRing K] in
theorem lt_secs : t.time < t.secs + 1 := Nat.lt_floor_add_one t.time

omit [IsStrictOrderedRing K] in
theorem secs_word : t.secs < 2 ^ 32 := by
  apply (Nat.floor_lt t.start).mpr
  exact_mod_cast t.within

theorem nsecs_below : t.nsecs < 10 ^ 9 := by
  have lower := t.secs_le
  have upper := t.lt_secs
  apply (Nat.floor_lt _).mpr
  · push_cast
    linarith
  · apply mul_nonneg <;> linarith

omit [IsStrictOrderedRing K] in
/-- The seconds are the same from the beginning of a second to the next. -/
theorem secs_same (lower : (t.secs : K) ≤ t'.time) (upper : t'.time < t.secs + 1) : t'.secs = t.secs :=
  (Nat.floor_eq_iff t'.start).mpr ⟨lower, upper⟩

theorem nsecs_word : ((t.clock .nsec).toInt32).toInt = t.nsecs := by
  have below := t.nsecs_below
  have nat : (t.clock .nsec).toNat = t.nsecs := UInt32.toNat_ofNat_of_lt' (lt_trans below (by decide))
  have word : (t.clock .nsec).toInt32.toBitVec.toInt = (t.clock .nsec).toNat := BitVec.toInt_eq_toNat_of_lt (by
    change 2 * (t.clock .nsec).toNat < 2 ^ 32
    omega)
  exact word.trans (congrArg _ nat)

omit [IsStrictOrderedRing K] in
theorem secs_long : ((t.clock .sec).toUInt64.toInt64).toInt = t.secs := by
  have nat : (t.clock .sec).toNat = t.secs := UInt32.toNat_ofNat_of_lt' secs_word
  have wide : (t.clock .sec).toUInt64.toNat = t.secs := (UInt32.toNat_toUInt64 _).trans nat
  have word : (t.clock .sec).toUInt64.toInt64.toBitVec.toInt = (t.clock .sec).toUInt64.toNat :=
    BitVec.toInt_eq_toNat_of_lt (by
      have below := t.secs_word
      change 2 * (t.clock .sec).toUInt64.toNat < 2 ^ 64
      omega)
  exact word.trans (congrArg _ wide)

/-- Where the nanoseconds are small, the second of the later reading is that of the middle one. -/
theorem secs_later (order : t.time ≤ t'.time) (close : t'.time - t.time < 995 / 1000) (small : t.nsecs < 5000000) :
    t'.secs = t.secs := by
  have lower := t.secs_le
  have fraction : (t.time - t.secs) * 10 ^ 9 < 5000000 := by
    have := (Nat.floor_lt (by apply mul_nonneg <;> linarith)).mp small
    exact_mod_cast this
  exact secs_same (by linarith) (by linarith)

/-- Where they are not, the second of the earlier reading is. -/
theorem secs_earlier (order : t'.time ≤ t.time) (close : t.time - t'.time < 5 / 1000) (large : 5000000 ≤ t.nsecs) :
    t'.secs = t.secs := by
  have lower := t.secs_le
  have upper := t.lt_secs
  have fraction : 5000000 ≤ (t.time - t.secs) * 10 ^ 9 := by
    have := (Nat.le_floor_iff (by apply mul_nonneg <;> linarith)).mp large
    exact_mod_cast this
  exact secs_same (by linarith) (by linarith)

end Instant

/-- The three reads of a call: the first two are close to each other, and so are the last two. -/
structure Reads (t1 t2 t3 : Instant K) : Prop where
  order : t1.time ≤ t2.time ∧ t2.time ≤ t3.time
  early : t2.time - t1.time < 5 / 1000
  late : t3.time - t2.time < 995 / 1000

variable {t1 t2 t3 : Instant K}

theorem Reads.exact (reads : Reads t1 t2 t3) :
    (ltimerGettime Instant.clock t1 t2 t3).tvSec.toInt = t2.secs ∧
      (ltimerGettime Instant.clock t1 t2 t3).tvNsec.toInt = t2.nsecs := by
  have threshold : (5000000 : Int32).toInt = 5000000 := by decide
  unfold ltimerGettime
  dsimp only
  split
  · rename_i small
    rw [Int32.lt_iff_toInt_lt, Instant.nsecs_word, threshold] at small
    rw [Instant.secs_long, Instant.nsecs_word, Instant.secs_later reads.order.2 reads.late (by omega)]
    exact ⟨rfl, rfl⟩
  · rename_i large
    rw [Int32.lt_iff_toInt_lt, Instant.nsecs_word, threshold] at large
    rw [Instant.secs_long, Instant.nsecs_word, Instant.secs_earlier reads.order.1 reads.early (by omega)]
    exact ⟨rfl, rfl⟩

/-- A later instant has a later value. -/
theorem secs_le_secs {t t' : Instant K} (order : t.time ≤ t'.time) :
    t.secs < t'.secs ∨ t.secs = t'.secs ∧ t.nsecs ≤ t'.nsecs := by
  obtain later | same := (Nat.floor_mono order).lt_or_eq
  · exact .inl later
  · refine .inr ⟨same, Nat.floor_mono ?_⟩
    have second : (t.secs : K) = t'.secs := congrArg _ same
    rw [second]
    apply mul_le_mul_of_nonneg_right <;> linarith

/-- `ltimer_gettime` returns the time of its second read, and a call that begins after another has ended
returns no earlier time. -/
theorem ltimerGettime_exact :
    (∀ t1 t2 t3 : Instant K, Reads t1 t2 t3 →
      (ltimerGettime Instant.clock t1 t2 t3).tvSec.toInt = t2.secs ∧
        (ltimerGettime Instant.clock t1 t2 t3).tvNsec.toInt = t2.nsecs) ∧
      ∀ t1 t2 t3 t1' t2' t3' : Instant K, Reads t1 t2 t3 → Reads t1' t2' t3' → t3.time ≤ t1'.time →
        (ltimerGettime Instant.clock t1 t2 t3).le (ltimerGettime Instant.clock t1' t2' t3') := by
  refine ⟨fun t1 t2 t3 reads => reads.exact, fun t1 t2 t3 t1' t2' t3' reads reads' after => ?_⟩
  obtain ⟨sec, nsec⟩ := reads.exact
  obtain ⟨sec', nsec'⟩ := reads'.exact
  have order : t2.time ≤ t2'.time := reads.order.2.trans (after.trans reads'.order.1)
  unfold Timespec.le
  rw [Int64.lt_iff_toInt_lt, Int32.le_iff_toInt_le, ← Int64.toInt_inj, sec, sec', nsec, nsec']
  obtain later | ⟨same, less⟩ := secs_le_secs order
  · exact .inl (by omega)
  · exact .inr ⟨by omega, by omega⟩

/-- The second turns over between the first read and the second. -/
theorem ltimerGettime_turns : ∃ t1 t2 t3 : Instant ℚ, t1.secs ≠ t2.secs ∧
    (ltimerGettime Instant.clock t1 t2 t3).tvSec.toInt = t2.secs := by
  let t1 : Instant ℚ := ⟨999 / 1000, by norm_num, by norm_num⟩
  let t2 : Instant ℚ := ⟨1001 / 1000, by norm_num, by norm_num⟩
  have reads : Reads t1 t2 t2 := ⟨⟨by norm_num [t1, t2], le_refl _⟩, by norm_num [t1, t2], by norm_num⟩
  have first : t1.secs = 0 := (Nat.floor_eq_iff t1.start).mpr ⟨by norm_num [t1], by norm_num [t1]⟩
  have second : t2.secs = 1 := (Nat.floor_eq_iff t2.start).mpr ⟨by norm_num [t2], by norm_num [t2]⟩
  refine ⟨t1, t2, t2, ?_, (ltimerGettime_exact.1 t1 t2 t2 reads).1⟩
  rw [first, second]
  decide

end Os161.Ltimer
