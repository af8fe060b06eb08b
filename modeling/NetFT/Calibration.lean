import Mathlib.Data.Rat.Floor
import NetFT.Client.Record
import NetFT.Library.FloatingPoint
import NetFT.Validate

/-! The `double` values of a calibration in the binary64 format, with its arithmetic rounded in any
one direction. A calibration that `validate` accepts converts every raw count to a finite axis,
which is the exact quotient, rounded once. -/

namespace NetFT
open Client Detail Library

/-- `double`, while the floating-point environment rounds in direction `d`. Its equality is `==`
on values that are numbers. -/
def Binary64 (_d : Direction) : Type := FloatValue binary64 Rat

variable {d : Direction}

/-- `minimum` of `require_safe_count`, a constant that the compiler computes. -/
def minimumCount : Rat :=
  binary64.round .nearestEven
    (binary64.round .nearestEven (2 ^ 31 / binary64.largest Rat) *
      binary64.round .nearestEven (1 + binary64.epsilon Rat))

example : minimumCount = 2 ^ (-993 : Int) * (1 + 2 ^ (-51 : Int)) := by decide +kernel

namespace Binary64

/-- The number that a value is, if it is finite. -/
def toExact (value : Binary64 d) : Option Rat := FloatValue.toExact value

/-- `value < bound` -/
def less (value : Binary64 d) (bound : Rat) : Bool :=
  match value with
  | .finite x _ _ => x < bound
  | .infinite negative => negative
  | .nan => false

/-- `value <= 0.0` -/
def nonpositive (value : Binary64 d) : Bool :=
  match value with
  | .finite x _ _ => x ≤ 0
  | .infinite negative => negative
  | .nan => false

instance : DecidableEq (Binary64 d) := inferInstanceAs (DecidableEq (FloatValue binary64 Rat))

instance : Double (Binary64 d) where
  ofInt i := FloatValue.ofExact d (i : Rat)
  div := FloatValue.div d
  isfinite := FloatValue.isFinite

instance : CountOrder (Binary64 d) where
  nonpositive := nonpositive
  belowMinimum value := value.less minimumCount

end Binary64

/-! ## The least divisor -/

/-- The least divisor that is accepted keeps the largest magnitude of a count in range. -/
theorem le_minimumCount : 2 ^ 31 / binary64.largest Rat ≤ minimumCount := by
  have hone : binary64.round .nearestEven (1 + binary64.epsilon Rat) = 1 + binary64.epsilon Rat :=
    FloatFormat.round_of_mem (FloatFormat.one_add_epsilon_mem_grid (by decide))
  unfold minimumCount
  rw [hone]
  refine FloatFormat.le_round_mul_one_add_epsilon _ _ ?_
  calc (2 : Rat) ^ (binary64.precision - 1 + binary64.minExponent : Int)
      ≤ 2 ^ (31 - (binary64.precision + binary64.maxExponent) : Int) :=
        zpow_le_zpow_right₀ (by norm_num) (by decide)
    _ = 2 ^ 31 / (2 : Rat) ^ (binary64.precision + binary64.maxExponent : Int) := by
        rw [zpow_sub₀ (by norm_num)]
        rfl
    _ ≤ 2 ^ 31 / binary64.largest Rat :=
        div_le_div_of_nonneg_left (by norm_num) FloatFormat.largest_pos FloatFormat.largest_le

/-! ## Axes -/

theorem abs_count_le (count : Int32) : |(count.toInt : Rat)| ≤ 2 ^ 31 := by
  have hlow := count.le_toInt
  have hhigh := count.toInt_lt
  have habs : |count.toInt| ≤ 2 ^ 31 := abs_le.mpr ⟨by omega, by omega⟩
  exact_mod_cast habs

/-- A raw count is a `double`. -/
theorem toExact_ofInt (count : Int32) :
    (Double.ofInt count.toInt : Binary64 d).toExact = some (count.toInt : Rat) := by
  have hmem : (count.toInt : Rat) ∈ binary64.grid Rat := by
    refine ⟨count.toInt, 0, ?_, by decide, by simp⟩
    have habs : |count.toInt| ≤ 2 ^ 31 := by exact_mod_cast abs_count_le count
    exact habs.trans_lt (by norm_num [binary64])
  have hle : |(count.toInt : Rat)| ≤ binary64.largest Rat := by
    refine (abs_count_le count).trans ?_
    have hone : (1 : Rat) ≤ 2 ^ binary64.maxExponent := one_le_zpow₀ (by norm_num) (by decide)
    calc (2 : Rat) ^ 31 ≤ (2 ^ binary64.precision - 1) * 1 := by norm_num [binary64]
      _ ≤ binary64.largest Rat := mul_le_mul_of_nonneg_left hone (by norm_num [binary64])
  exact (FloatValue.toExact_ofExact hle).trans (congrArg some (FloatFormat.round_of_mem hmem))

/-- What `require_safe_count` accepts. -/
structure Binary64.Accepted (value : Binary64 d) (divisor : Rat) : Prop where
  exact : value.toExact = some divisor
  pos : 0 < divisor
  safe : 2 ^ 31 / binary64.largest Rat ≤ divisor

theorem Binary64.accepted {value : Binary64 d} (hfinite : Double.isfinite value = true)
    (hpositive : CountOrder.nonpositive value = false)
    (hminimum : CountOrder.belowMinimum value = false) : ∃ divisor, value.Accepted divisor := by
  obtain ⟨divisor, hexact⟩ := FloatValue.isFinite_iff.mp hfinite
  refine ⟨divisor, hexact, ?_, le_minimumCount.trans ?_⟩ <;> cases value <;> cases hexact
  · simpa [CountOrder.nonpositive, nonpositive] using hpositive
  · simpa [CountOrder.belowMinimum, less] using hminimum

/-- An axis of a sample. -/
theorem Binary64.Accepted.axis {value : Binary64 d} {divisor : Rat} (h : value.Accepted divisor)
    (count : Int32) : (Double.div (Double.ofInt count.toInt) value).toExact =
      some (binary64.round d (count.toInt / divisor)) := by
  refine FloatValue.toExact_div (toExact_ofInt count) h.exact h.pos ((abs_count_le count).trans ?_)
  rw [mul_comm, ← div_le_iff₀ FloatFormat.largest_pos]
  exact h.safe

theorem Binary64.Accepted.isfinite_axis {value : Binary64 d} {divisor : Rat}
    (h : value.Accepted divisor) (count : Int32) :
    Double.isfinite (Double.div (Double.ofInt count.toInt) value) = true :=
  FloatValue.isFinite_iff.mpr ⟨_, h.axis count⟩

/-- The divisors of a calibration that `validate` accepts. -/
theorem accepted_divisors {calibration : Calibration (Binary64 d)}
    (h : calibration.validate = .ok ()) :
    ∃ force torque, calibration.countsPerForceUnit.Accepted force ∧
      calibration.countsPerTorqueUnit.Accepted torque := by
  obtain ⟨hcounts, -, -⟩ := Calibration.validate_eq_ok.mp h
  obtain ⟨hforce₁, hforce₂, hforce₃⟩ := hcounts _ (List.mem_cons_self ..)
  obtain ⟨htorque₁, htorque₂, htorque₃⟩ :=
    hcounts _ (List.mem_cons_of_mem _ (List.mem_cons_self ..))
  obtain ⟨force, hforce⟩ := Binary64.accepted hforce₁ hforce₂ hforce₃
  obtain ⟨torque, htorque⟩ := Binary64.accepted htorque₁ htorque₂ htorque₃
  exact ⟨force, torque, hforce, htorque⟩

theorem finiteAxes_makeSample {configuration : SensorConfiguration (Binary64 d)}
    (h : configuration.calibration.validate = .ok ()) (record : RawRecord)
    (receivedAt : TimePoint) : finiteAxes (makeSample configuration record receivedAt) = true := by
  obtain ⟨force, torque, hforce, htorque⟩ := accepted_divisors h
  simp [finiteAxes, makeSample, hforce.isfinite_axis, htorque.isfinite_axis]

/-- The axes that counts are converted to, exactly and then rounded. -/
def exactAxes (d : Direction) (divisor : Rat) (counts : List Int32) : List (Option Rat) :=
  counts.map fun count => some (binary64.round d (count.toInt / divisor))

/-- Under a calibration that `validate` accepts, and in every rounding direction, every record is
converted to a sample with finite axes, each of which is the exact quotient of the raw count and
the divisor, rounded once. -/
theorem accepted_calibration_converts {configuration : SensorConfiguration (Binary64 d)}
    (h : configuration.calibration.validate = .ok ()) :
    ∃ force torque : Rat,
      configuration.calibration.countsPerForceUnit.toExact = some force ∧
      configuration.calibration.countsPerTorqueUnit.toExact = some torque ∧
      0 < force ∧ 0 < torque ∧ ∀ record receivedAt,
        finiteAxes (makeSample configuration record receivedAt) = true ∧
        (makeSample configuration record receivedAt).force.map Binary64.toExact =
          exactAxes d force [record.fx, record.fy, record.fz] ∧
        (makeSample configuration record receivedAt).torque.map Binary64.toExact =
          exactAxes d torque [record.tx, record.ty, record.tz] := by
  obtain ⟨force, torque, hforce, htorque⟩ := accepted_divisors h
  refine ⟨force, torque, hforce.exact, htorque.exact, hforce.pos, htorque.pos,
    fun record receivedAt => ⟨finiteAxes_makeSample h record receivedAt, ?_, ?_⟩⟩
  · simp [makeSample, exactAxes, hforce.axis]
  · simp [makeSample, exactAxes, htorque.axis]

/-- A configuration with the least divisors that are accepted. -/
def leastConfiguration : SensorConfiguration (Binary64 .upward) where
  productName := ""
  calibration := {
    countsPerForceUnit := FloatValue.ofExact .upward minimumCount
    countsPerTorqueUnit := FloatValue.ofExact .upward minimumCount
    forceUnit := .newton
    torqueUnit := .newtonMeter }
  source := .override
  revision := 1

theorem accepted_calibration_converts_least :
    finiteAxes (makeSample leastConfiguration
      ⟨1, 1, 0, Int32.minValue, Int32.maxValue, 0, Int32.minValue, 1, -1⟩ 1) = true := by
  have hvalid : leastConfiguration.calibration.validate = .ok () :=
    Calibration.validate_eq_ok.mpr ⟨by decide +kernel, by decide, by decide⟩
  obtain ⟨force, torque, -, -, -, -, hsample⟩ := accepted_calibration_converts hvalid
  exact (hsample _ _).1

end NetFT
