import Mathlib.Algebra.Order.Floor.Ring
import Mathlib.Algebra.Order.Field.Power
import Mathlib.Data.Int.Log
import Mathlib.Tactic.Linarith
import Mathlib.Tactic.Positivity
import Mathlib.Tactic.Ring

/-! Binary floating-point numbers over an ordered field. A format is a precision and a range of
exponents; its grid are the numbers it represents when the exponents are unbounded above. Rounding
in any direction yields a neighbour in the grid (`FloatFormat.round_isRounding`), and everything
else is derived from that: exact results are kept, and a result whose exact value is within the
range of the format is finite, whatever the direction (`FloatValue.toExact_ofExact`). -/

set_option linter.unusedSectionVars false

namespace NetFT.Library

/-! ## Rounding into a set -/

/-- `y` is a neighbour of `x` in `s`. -/
def IsRounding {K : Type} [LE K] (s : Set K) (x y : K) : Prop :=
  IsGreatest {z ∈ s | z ≤ x} y ∨ IsLeast {z ∈ s | x ≤ z} y

section
variable {K : Type} [LinearOrder K] {s : Set K} {x y b : K}

theorem IsRounding.mem (h : IsRounding s x y) : y ∈ s := h.elim (·.1.1) (·.1.1)

/-- Rounding does not cross an element of the set. -/
theorem IsRounding.le_of_le (h : IsRounding s x y) (hb : b ∈ s) (hx : x ≤ b) : y ≤ b := by
  rcases h with h | h
  · exact h.1.2.trans hx
  · exact h.2 ⟨hb, hx⟩

theorem IsRounding.ge_of_ge (h : IsRounding s x y) (hb : b ∈ s) (hx : b ≤ x) : b ≤ y := by
  rcases h with h | h
  · exact h.2 ⟨hb, hx⟩
  · exact hx.trans h.1.2

theorem IsRounding.eq_of_mem (h : IsRounding s x y) (hx : x ∈ s) : y = x :=
  le_antisymm (h.le_of_le hx le_rfl) (h.ge_of_ge hx le_rfl)

end

/-! ## Formats -/

/-- Significands of `precision` bits, scaled by powers of two from `minExponent` to
`maxExponent`. -/
structure FloatFormat where
  precision : Nat
  minExponent : Int
  maxExponent : Int
  precision_pos : 0 < precision
  exponents : minExponent ≤ maxExponent

/-- The format of IEEE 754 with 64 bits. -/
def binary64 : FloatFormat where
  precision := 53
  minExponent := -1074
  maxExponent := 971
  precision_pos := by decide
  exponents := by decide

/-- The rounding directions of IEEE 754. -/
inductive Direction
  | nearestEven | towardZero | upward | downward
  deriving DecidableEq, Repr

/-- The integer that a number is rounded to. -/
def Direction.toInt {K : Type} [Field K] [LinearOrder K] [FloorRing K] (x : K) : Direction → Int
  | .downward => ⌊x⌋
  | .upward => ⌈x⌉
  | .towardZero => if 0 ≤ x then ⌊x⌋ else ⌈x⌉
  | .nearestEven =>
    if Int.fract x < 1 / 2 ∨ Int.fract x = 1 / 2 ∧ 2 ∣ ⌊x⌋ then ⌊x⌋ else ⌈x⌉

section
variable {K : Type} [Field K] [LinearOrder K] [IsStrictOrderedRing K] [FloorRing K]

theorem Direction.toInt_cases (d : Direction) (x : K) : d.toInt x = ⌊x⌋ ∨ d.toInt x = ⌈x⌉ := by
  cases d with
  | downward => exact .inl rfl
  | upward => exact .inr rfl
  | towardZero | nearestEven =>
    simp only [toInt]
    split
    · exact .inl rfl
    · exact .inr rfl

/-- The nearest integer is at most a half away. -/
theorem Direction.abs_nearestEven_sub_le (x : K) :
    |(Direction.nearestEven.toInt x : K) - x| ≤ 1 / 2 := by
  have hfract : (⌊x⌋ : K) + Int.fract x = x := Int.floor_add_fract x
  have hnonneg := Int.fract_nonneg x
  simp only [toInt]
  split
  · rename_i hlow
    have hle : Int.fract x ≤ 1 / 2 := hlow.elim le_of_lt fun h => h.1.le
    rw [abs_le]
    constructor <;> linarith
  · rename_i hhigh
    have hle : 1 / 2 ≤ Int.fract x := not_lt.mp fun h => hhigh (.inl h)
    have hceil : (⌈x⌉ : K) ≤ ⌊x⌋ + 1 := by exact_mod_cast Int.ceil_le_floor_add_one x
    have hx := Int.le_ceil x
    rw [abs_le]
    constructor <;> linarith

namespace FloatFormat
variable (F : FloatFormat)

/-- The numbers with a significand of the format. -/
def grid (K : Type) [Field K] [LinearOrder K] : Set K :=
  {x | ∃ m e : Int, |m| < 2 ^ F.precision ∧ F.minExponent ≤ e ∧ x = m * (2 : K) ^ e}

/-- The largest finite number. -/
def largest (K : Type) [Field K] : K := (2 ^ F.precision - 1) * (2 : K) ^ F.maxExponent

/-- The distance of two neighbours of one. -/
def epsilon (K : Type) [Field K] : K := (2 : K) ^ (1 - F.precision : Int)

/-- The exponent that the significand of a number is scaled with. -/
def exponent (x : K) : Int := max F.minExponent (Int.log 2 |x| + 1 - F.precision)

/-- The correctly rounded number, if the exponents were unbounded above. -/
def round (d : Direction) (x : K) : K :=
  d.toInt (x / (2 : K) ^ F.exponent x) * (2 : K) ^ F.exponent x

theorem natCast_precision_sub_one : ((F.precision - 1 : Nat) : Int) = F.precision - 1 := by
  have := F.precision_pos
  omega

variable {F} {x : K} {d : Direction}

theorem neg_mem_grid (h : x ∈ F.grid K) : -x ∈ F.grid K := by
  obtain ⟨m, e, hm, he, rfl⟩ := h
  exact ⟨-m, e, by rwa [abs_neg], he, by push_cast; ring⟩

/-- A significand may be one too large. -/
theorem mem_grid_of_le {m e : Int} (hm : |m| ≤ 2 ^ F.precision) (he : F.minExponent ≤ e) :
    (m : K) * (2 : K) ^ e ∈ F.grid K := by
  rcases hm.lt_or_eq with hlt | heq
  · exact ⟨m, e, hlt, he, rfl⟩
  have hp := F.precision_pos
  obtain ⟨p, hp⟩ : ∃ p, F.precision = p + 1 := ⟨F.precision - 1, by omega⟩
  have hhalf : ∃ k : Int, |k| = 2 ^ p ∧ m = 2 * k := by
    rw [hp, pow_succ] at heq
    rcases abs_choice m with h | h
    · exact ⟨2 ^ p, by simp, by omega⟩
    · exact ⟨-2 ^ p, by simp, by omega⟩
  obtain ⟨k, hk, rfl⟩ := hhalf
  refine ⟨k, e + 1, ?_, by omega, ?_⟩
  · rw [hk, hp]
    exact pow_lt_pow_right₀ (by norm_num) (Nat.lt_succ_self p)
  · rw [zpow_add_one₀ (by norm_num)]
    push_cast
    ring

theorem largest_mem_grid : F.largest K ∈ F.grid K := by
  refine ⟨2 ^ F.precision - 1, F.maxExponent, ?_, F.exponents, by simp [largest]⟩
  have : (0 : Int) < 2 ^ F.precision := by positivity
  rw [abs_of_nonneg (by omega)]
  omega

theorem largest_pos : 0 < F.largest K := by
  have : (1 : K) < 2 ^ F.precision := one_lt_pow₀ (by norm_num) F.precision_pos.ne'
  exact mul_pos (by linarith) (by positivity)

theorem largest_le : F.largest K ≤ (2 : K) ^ (F.precision + F.maxExponent : Int) := by
  rw [zpow_add₀ (by norm_num), zpow_natCast]
  exact mul_le_mul_of_nonneg_right (by linarith) (by positivity)

theorem one_add_epsilon_mem_grid (hmin : F.minExponent ≤ 1 - F.precision) :
    1 + F.epsilon K ∈ F.grid K := by
  have hp := F.precision_pos
  have hpow : (2 : Int) ^ (F.precision - 1) + 1 ≤ 2 ^ F.precision := by
    obtain ⟨p, hp⟩ : ∃ p, F.precision = p + 1 := ⟨F.precision - 1, by omega⟩
    have : (0 : Int) < 2 ^ p := by positivity
    rw [hp, pow_succ, Nat.add_sub_cancel]
    omega
  have hmem := mem_grid_of_le (F := F) (K := K) (m := 2 ^ (F.precision - 1) + 1)
    (e := 1 - F.precision) (by rwa [abs_of_nonneg (by positivity)]) hmin
  convert hmem using 1
  push_cast
  rw [add_mul, one_mul, epsilon, ← zpow_natCast, ← zpow_add₀ (by norm_num)]
  simp [Nat.cast_sub (show 1 ≤ F.precision by omega)]

/-! ## Rounding -/

theorem exponent_neg : F.exponent (-x) = F.exponent x := by simp [exponent]

/-- The scaled number has no more digits than a significand. -/
theorem abs_lt_scaled : |x| < 2 ^ F.precision * (2 : K) ^ F.exponent x := by
  calc |x| < (2 : K) ^ (Int.log 2 |x| + 1) := by
        exact_mod_cast Int.lt_zpow_succ_log_self (b := 2) (by norm_num) |x|
    _ ≤ (2 : K) ^ (F.precision + F.exponent x) :=
        zpow_le_zpow_right₀ (by norm_num) (by simp only [exponent]; omega)
    _ = 2 ^ F.precision * (2 : K) ^ F.exponent x := by
        rw [zpow_add₀ (by norm_num), zpow_natCast]

/-- Above the least exponent it has as many. -/
theorem scaled_le_abs (hx : x ≠ 0) (h : F.minExponent < F.exponent x) :
    (2 : K) ^ (F.precision - 1 + F.exponent x : Int) ≤ |x| := by
  have hexp : F.exponent x = Int.log 2 |x| + 1 - F.precision := by
    simp only [exponent] at h ⊢
    omega
  rw [hexp,
    show (F.precision - 1 + (Int.log 2 |x| + 1 - F.precision) : Int) = Int.log 2 |x| by ring]
  exact_mod_cast Int.zpow_log_le_self (b := 2) (by norm_num) (abs_pos.mpr hx)

/-- A number of the grid is a multiple of the scale of `x`, or smaller than `x`. -/
theorem multiple_or_lt {z : K} (hz : z ∈ F.grid K) (x : K) :
    (∃ k : Int, z = k * (2 : K) ^ F.exponent x) ∨
      F.minExponent < F.exponent x ∧ |z| < (2 : K) ^ (F.precision - 1 + F.exponent x : Int) := by
  obtain ⟨m, e, hm, he, rfl⟩ := hz
  rcases le_or_gt (F.exponent x) e with hle | hlt
  · refine .inl ⟨m * 2 ^ (e - F.exponent x).toNat, ?_⟩
    push_cast
    rw [mul_assoc, ← zpow_natCast, ← zpow_add₀ (by norm_num), Int.toNat_of_nonneg (by omega)]
    congr 2
    omega
  · refine .inr ⟨by omega, ?_⟩
    have hm' : |(m : K)| < 2 ^ F.precision := by exact_mod_cast hm
    calc |m * (2 : K) ^ e| = |(m : K)| * (2 : K) ^ e := by
          rw [abs_mul, abs_of_pos (show (0 : K) < 2 ^ e by positivity)]
      _ < 2 ^ F.precision * (2 : K) ^ e := mul_lt_mul_of_pos_right hm' (by positivity)
      _ = (2 : K) ^ (F.precision + e : Int) := by rw [zpow_add₀ (by norm_num), zpow_natCast]
      _ ≤ (2 : K) ^ (F.precision - 1 + F.exponent x : Int) :=
          zpow_le_zpow_right₀ (by norm_num) (by omega)

/-- Rounding the significand down yields the greatest number of the grid below. -/
theorem isGreatest_floor : IsGreatest {z ∈ F.grid K | z ≤ x}
    (⌊x / (2 : K) ^ F.exponent x⌋ * (2 : K) ^ F.exponent x) := by
  have hpos : (0 : K) < 2 ^ F.exponent x := by positivity
  have habs := abs_lt.mp (abs_lt_scaled (F := F) (x := x))
  have hbound : |⌊x / (2 : K) ^ F.exponent x⌋| ≤ 2 ^ F.precision := by
    rw [abs_le]
    constructor
    · rw [Int.le_floor, le_div_iff₀ hpos]
      push_cast
      linarith
    · have : x / (2 : K) ^ F.exponent x < 2 ^ F.precision := by
        rw [div_lt_iff₀ hpos]
        exact habs.2
      exact_mod_cast ((Int.floor_le _).trans_lt this).le
  refine ⟨⟨mem_grid_of_le hbound (le_max_left ..), ?_⟩, ?_⟩
  · rw [← le_div_iff₀ hpos]
    exact Int.floor_le _
  rintro z ⟨hz, hzx⟩
  rcases eq_or_ne x 0 with rfl | hx
  · simpa using hzx
  rcases multiple_or_lt hz x with ⟨k, rfl⟩ | ⟨hexp, hsmall⟩
  · rw [mul_le_mul_iff_left₀ hpos]
    exact_mod_cast Int.le_floor.mpr ((le_div_iff₀ hpos).mpr hzx)
  · have hlarge := scaled_le_abs hx hexp
    rcases hx.lt_or_gt with hneg | hpos'
    · -- a number below a negative one is not smaller in magnitude
      rw [abs_of_neg (hzx.trans_lt hneg)] at hsmall
      rw [abs_of_neg hneg] at hlarge
      linarith
    · rw [abs_of_pos hpos'] at hlarge
      rw [zpow_add₀ (by norm_num), ← F.natCast_precision_sub_one, zpow_natCast] at hlarge hsmall
      have hfloor : (2 ^ (F.precision - 1) : Int) ≤ ⌊x / (2 : K) ^ F.exponent x⌋ := by
        rw [Int.le_floor, le_div_iff₀ hpos]
        exact_mod_cast hlarge
      calc z ≤ |z| := le_abs_self z
        _ ≤ 2 ^ (F.precision - 1) * (2 : K) ^ F.exponent x := hsmall.le
        _ ≤ ⌊x / (2 : K) ^ F.exponent x⌋ * (2 : K) ^ F.exponent x :=
            mul_le_mul_of_nonneg_right (by exact_mod_cast hfloor) hpos.le

theorem isLeast_ceil : IsLeast {z ∈ F.grid K | x ≤ z}
    (⌈x / (2 : K) ^ F.exponent x⌉ * (2 : K) ^ F.exponent x) := by
  have h := isGreatest_floor (F := F) (x := -x)
  rw [exponent_neg, neg_div, Int.floor_neg, Int.cast_neg, neg_mul] at h
  refine ⟨⟨by simpa using neg_mem_grid h.1.1, neg_le_neg_iff.mp h.1.2⟩, ?_⟩
  rintro z ⟨hz, hzx⟩
  exact neg_le_neg_iff.mp (h.2 ⟨neg_mem_grid hz, neg_le_neg hzx⟩)

/-- In any direction the result is a neighbour in the grid. -/
theorem round_isRounding (d : Direction) (x : K) : IsRounding (F.grid K) x (F.round d x) := by
  unfold round
  rcases d.toInt_cases (x / (2 : K) ^ F.exponent x) with h | h <;> rw [h]
  · exact .inl isGreatest_floor
  · exact .inr isLeast_ceil

theorem round_of_mem (h : x ∈ F.grid K) : F.round d x = x := (round_isRounding d x).eq_of_mem h

/-- A bound in the grid is kept. -/
theorem abs_round_le {b : K} (hb : b ∈ F.grid K) (h : |x| ≤ b) : |F.round d x| ≤ b := by
  have hround := round_isRounding (F := F) d x
  obtain ⟨hlow, hhigh⟩ := abs_le.mp h
  exact abs_le.mpr ⟨hround.ge_of_ge (neg_mem_grid hb) hlow, hround.le_of_le hb hhigh⟩

/-- A number with a full significand is scaled to one. -/
theorem pow_le_scaled (h : (2 : K) ^ (F.precision - 1 + F.minExponent : Int) ≤ x) :
    (2 : K) ^ (F.precision - 1 + F.exponent x : Int) ≤ x := by
  have hpos : 0 < x := lt_of_lt_of_le (by positivity) h
  have hmin : F.minExponent ≤ F.exponent x := le_max_left ..
  rcases hmin.eq_or_lt with heq | hlt
  · rwa [← heq]
  · simpa only [abs_of_pos hpos] using scaled_le_abs hpos.ne' hlt

/-- The nearest number is at most half a unit of the last place away. -/
theorem abs_round_sub_le (h : (2 : K) ^ (F.precision - 1 + F.minExponent : Int) ≤ x) :
    |F.round .nearestEven x - x| ≤ x / 2 ^ F.precision := by
  have hpos : (0 : K) < 2 ^ F.exponent x := by positivity
  have hscaled := pow_le_scaled h
  rw [add_comm, add_sub_assoc', sub_eq_add_neg, zpow_add₀ (by norm_num), zpow_add₀ (by norm_num),
    zpow_natCast, zpow_neg_one] at hscaled
  have hdiff : F.round .nearestEven x - x =
      (Direction.nearestEven.toInt (x / (2 : K) ^ F.exponent x) - x / (2 : K) ^ F.exponent x) *
        (2 : K) ^ F.exponent x := by
    rw [round, sub_mul, div_mul_cancel₀ _ hpos.ne']
  calc |F.round .nearestEven x - x| ≤ 1 / 2 * (2 : K) ^ F.exponent x := by
        rw [hdiff, abs_mul, abs_of_pos hpos]
        exact mul_le_mul_of_nonneg_right (Direction.abs_nearestEven_sub_le _) hpos.le
    _ ≤ x / 2 ^ F.precision := by
        rw [le_div_iff₀ (by positivity)]
        linarith

/-- Rounded and then enlarged by one `epsilon`, a number with a full significand is not below its
exact value, whatever the directions. -/
theorem le_round_mul_one_add_epsilon (d d' : Direction)
    (hx : (2 : K) ^ (F.precision - 1 + F.minExponent : Int) ≤ x) :
    x ≤ F.round d (F.round d' x * (1 + F.epsilon K)) := by
  have hpos : (0 : K) < 2 ^ F.exponent x := by positivity
  have hxpos : 0 < x := lt_of_lt_of_le (by positivity) hx
  have hlow : (2 ^ (F.precision - 1) : Int) ≤ ⌊x / (2 : K) ^ F.exponent x⌋ := by
    have hscaled := pow_le_scaled hx
    rw [zpow_add₀ (by norm_num), ← F.natCast_precision_sub_one, zpow_natCast] at hscaled
    rw [Int.le_floor, le_div_iff₀ hpos]
    exact_mod_cast hscaled
  have hhigh : ⌊x / (2 : K) ^ F.exponent x⌋ < 2 ^ F.precision := by
    have : x / (2 : K) ^ F.exponent x < 2 ^ F.precision := by
      rw [div_lt_iff₀ hpos]
      exact (le_abs_self x).trans_lt abs_lt_scaled
    exact_mod_cast (Int.floor_le _).trans_lt this
  -- the neighbour above is in the grid, and the enlarged number is not below it
  have hnext : ((⌊x / (2 : K) ^ F.exponent x⌋ + 1 : Int) : K) * (2 : K) ^ F.exponent x ∈ F.grid K :=
    mem_grid_of_le (by rw [abs_of_nonneg (by positivity)]; omega) (le_max_left ..)
  have hround : (⌊x / (2 : K) ^ F.exponent x⌋ : K) * (2 : K) ^ F.exponent x ≤ F.round d' x :=
    (round_isRounding d' x).ge_of_ge (isGreatest_floor.1.1) isGreatest_floor.1.2
  calc x ≤ ((⌊x / (2 : K) ^ F.exponent x⌋ + 1 : Int) : K) * (2 : K) ^ F.exponent x := by
        rw [← div_le_iff₀ hpos]
        push_cast
        exact (Int.lt_floor_add_one _).le
    _ ≤ F.round d (F.round d' x * (1 + F.epsilon K)) := by
        refine (round_isRounding d _).ge_of_ge hnext ?_
        have hfloor : (1 : K) ≤ ⌊x / (2 : K) ^ F.exponent x⌋ * F.epsilon K := by
          have : (2 : K) ^ (F.precision - 1) ≤ ⌊x / (2 : K) ^ F.exponent x⌋ := by
            exact_mod_cast hlow
          calc (1 : K) = 2 ^ (F.precision - 1) * F.epsilon K := by
                rw [epsilon, ← zpow_natCast, F.natCast_precision_sub_one, ← zpow_add₀ (by norm_num)]
                simp
            _ ≤ _ := mul_le_mul_of_nonneg_right this (by unfold epsilon; positivity)
        calc ((⌊x / (2 : K) ^ F.exponent x⌋ + 1 : Int) : K) * (2 : K) ^ F.exponent x
            ≤ (⌊x / (2 : K) ^ F.exponent x⌋ + ⌊x / (2 : K) ^ F.exponent x⌋ * F.epsilon K) *
                (2 : K) ^ F.exponent x := by
              push_cast
              exact mul_le_mul_of_nonneg_right (by linarith) hpos.le
          _ = ⌊x / (2 : K) ^ F.exponent x⌋ * (2 : K) ^ F.exponent x * (1 + F.epsilon K) := by ring
          _ ≤ F.round d' x * (1 + F.epsilon K) :=
              mul_le_mul_of_nonneg_right hround (by unfold epsilon; positivity)

/-- An integer with no more digits than a significand. -/
theorem natCast_mem_grid {n : Nat} (hmin : F.minExponent ≤ 0) (h : n < 2 ^ F.precision) :
    (n : K) ∈ F.grid K :=
  ⟨n, 0, by rw [Nat.abs_cast]; exact_mod_cast h, hmin, by simp⟩

end FloatFormat

/-! ## Values -/

/-- A number of the format, an infinity or no number. Zero has no sign. -/
inductive FloatValue (F : FloatFormat) (K : Type) [Field K] [LinearOrder K]
  | finite (value : K) (mem : value ∈ F.grid K) (le : |value| ≤ F.largest K)
  | infinite (negative : Bool)
  | nan
  deriving DecidableEq

namespace FloatValue
variable {F : FloatFormat}

def isFinite : FloatValue F K → Bool
  | .finite .. => true
  | _ => false

/-- The number, if it is one. -/
def toExact : FloatValue F K → Option K
  | .finite value _ _ => some value
  | _ => none

theorem isFinite_iff {v : FloatValue F K} : v.isFinite = true ↔ ∃ x, v.toExact = some x := by
  cases v <;> simp [isFinite, toExact]

/-- What stands for a result beyond the range. -/
def overflow (d : Direction) (negative : Bool) : FloatValue F K :=
  let limit : FloatValue F K :=
    if negative then
      .finite (-F.largest K) (FloatFormat.neg_mem_grid FloatFormat.largest_mem_grid)
        (by rw [abs_neg, abs_of_pos FloatFormat.largest_pos])
    else
      .finite (F.largest K) FloatFormat.largest_mem_grid
        (by rw [abs_of_pos FloatFormat.largest_pos])
  match d with
  | .nearestEven => .infinite negative
  | .towardZero => limit
  | .upward => if negative then limit else .infinite negative
  | .downward => if negative then .infinite negative else limit

/-- The value of an operation with an exact result. -/
def ofExact (d : Direction) (x : K) : FloatValue F K :=
  if h : |F.round d x| ≤ F.largest K then
    .finite (F.round d x) (FloatFormat.round_isRounding d x).mem h
  else overflow d (decide (x < 0))

def div (d : Direction) : FloatValue F K → FloatValue F K → FloatValue F K
  | .finite x _ _, .finite y _ _ =>
    if y ≠ 0 then ofExact d (x / y)
    else if x = 0 then .nan
    else .infinite (x < 0)
  | .finite .., .infinite _ => ofExact d 0
  | .infinite negative, .finite y _ _ => .infinite (negative ^^ decide (y < 0))
  | _, _ => .nan

/-- A result within the range is finite in every direction. -/
theorem toExact_ofExact {d : Direction} {x : K} (h : |x| ≤ F.largest K) :
    (ofExact d x : FloatValue F K).toExact = some (F.round d x) := by
  rw [ofExact, dif_pos (FloatFormat.abs_round_le FloatFormat.largest_mem_grid h)]
  rfl

/-- A quotient of numbers whose exact value is within the range is that value, rounded once. -/
theorem toExact_div {d : Direction} {u v : FloatValue F K} {x y : K} (hx : u.toExact = some x)
    (hy : v.toExact = some y) (hpos : 0 < y) (h : |x| ≤ F.largest K * y) :
    (div d u v).toExact = some (F.round d (x / y)) := by
  cases u <;> cases hx
  cases v <;> cases hy
  simp only [div, if_pos hpos.ne']
  apply toExact_ofExact
  rwa [abs_div, abs_of_pos hpos, div_le_iff₀ hpos]

end FloatValue
end

end NetFT.Library
