import DocQuery.Proofs.Numbers.Rounding
import DocQuery.Proofs.Numbers.Texts
import Mathlib.Tactic.NormNum

/-!
# Decimals and their nearest numbers

A decimal has a value, which its quotient, its digits and its magnitude describe. The binary64
number nearest to it is found by rounding the quotient; the tests on the magnitude that come before
change nothing, as they catch what is out of range and what is rounded to zero.

* `Decimal.unitsOfRatio_eq`: the quotient of a decimal has its value.
* `Binary64.ofDecimal?_eq`: the nearest number is the rounded quotient, whatever the magnitude.
-/

-- powers are those of the core library, also where other libraries are at hand
attribute [local instance (high)] instPowNat

namespace DocQuery

namespace Decimal

/-- The value of a decimal. -/
def value (d : Decimal) : ℚ := d.digits * 10 ^ d.exponent

/-- The quotient of a decimal has its value. -/
theorem unitsOfRatio_eq (d : Decimal) :
    Binary64.unitsOfRatio d.numerator d.denominator = d.value * Binary64.unitsPerOne := by
  have hten : (10 : ℚ) ≠ 0 := by norm_num
  rw [Binary64.unitsOfRatio, numerator, denominator, value]
  push_cast
  rcases Int.le_total 0 d.exponent with h | h
  · obtain ⟨k, hk⟩ := Int.eq_ofNat_of_zero_le h
    have hzero : (-d.exponent).toNat = 0 := by omega
    rw [hzero, hk, Int.toNat_natCast, zpow_natCast, pow_zero, div_one]
  · obtain ⟨k, hk⟩ := Int.eq_ofNat_of_zero_le (Int.neg_nonneg.2 h)
    have hexponent : d.exponent = -k := by omega
    have hzero : d.exponent.toNat = 0 := by omega
    rw [hzero, hk, Int.toNat_natCast, hexponent, zpow_neg, zpow_natCast, pow_zero, mul_one,
      div_eq_mul_inv]
    ring

/-- The denominator of a decimal is positive. -/
theorem denominator_pos (d : Decimal) : 0 < d.denominator := Nat.pow_pos (by decide)

/-- The value of a decimal lies below the power of ten of its magnitude. -/
theorem value_lt (d : Decimal) : d.value < 10 ^ d.magnitude := by
  have hdigits : (d.digits : ℚ) < 10 ^ decimalWidth d.digits := by
    exact_mod_cast (Nat.length_toDigits_le_iff (b := 10) (by decide) Nat.length_toDigits_pos).1
      (Nat.le_refl (Nat.toDigits 10 d.digits).length)
  have hten : (10 : ℚ) ≠ 0 := by norm_num
  rw [value, magnitude, add_comm, zpow_add₀ hten, zpow_natCast]
  exact mul_lt_mul_of_pos_right hdigits (zpow_pos (by norm_num) _)

/-- The value of a decimal other than zero is at least a tenth of that. -/
theorem le_value {d : Decimal} (h : d.digits ≠ 0) : 10 ^ (d.magnitude - 1) ≤ d.value := by
  obtain ⟨k, hk⟩ : ∃ k, decimalWidth d.digits = k + 1 :=
    ⟨_, (Nat.succ_pred (Nat.ne_of_gt Nat.length_toDigits_pos)).symm⟩
  -- a number of `k + 1` digits is not below `10 ^ k`
  have hdigits : (10 : ℚ) ^ k ≤ d.digits := by
    rcases Nat.eq_zero_or_pos k with rfl | hpos
    · rw [pow_zero]
      exact_mod_cast Nat.one_le_iff_ne_zero.2 h
    · have hwidth : ¬(Nat.toDigits 10 d.digits).length ≤ k := by
        rw [decimalWidth] at hk
        omega
      exact_mod_cast Nat.not_lt.1 (mt (Nat.length_toDigits_le_iff (by decide) hpos).2 hwidth)
  have hten : (10 : ℚ) ≠ 0 := by norm_num
  have hexponent : d.magnitude - 1 = k + d.exponent := by
    rw [magnitude, hk]
    omega
  rw [hexponent, zpow_add₀ hten, zpow_natCast, value]
  exact mul_le_mul_of_nonneg_right hdigits (zpow_nonneg (by norm_num) _)

end Decimal

namespace Binary64

/-! ## Nearest numbers -/

/-- The position of a power of two. -/
theorem position_two_pow (k : Nat) : position (2 ^ (52 + k)) = (k + 1) * 2 ^ 52 := by
  have hstep : stepOf (2 ^ (52 + k)) = k := by
    have hfloor : ⌊(2 : ℚ) ^ (52 + k)⌋₊ = 2 ^ (52 + k) := by
      exact_mod_cast Nat.floor_natCast (R := ℚ) (2 ^ (52 + k))
    rw [stepOf, hfloor, Nat.log2_two_pow]
    omega
  rw [position, hstep, pow_add, mul_div_cancel_right₀ _ (by positivity)]
  ring

/-- The position is not negative. -/
theorem position_nonneg {q : ℚ} (hq : 0 ≤ q) : 0 ≤ position q := by
  rw [position]
  positivity

/-- A magnitude of `2 ^ 1025` or more is out of range. -/
theorem ofRatio?_eq_none {num den : Nat} (hden : 0 < den) (h : 2 ^ 2099 ≤ unitsOfRatio num den)
    (negative : Bool) : ofRatio? negative num den = none := by
  have hposition := position_mono (by positivity) h
  have hround := (abs_le.1 (abs_rankOfRatio_sub_position_le num hden)).1
  rw [position_two_pow 2047] at hposition
  have hrank : ((2047 * 2 ^ 52 : Nat) : ℚ) < rankOfRatio num den := by
    push_cast at hposition ⊢
    linarith
  exact dif_neg (Nat.not_lt.2 (Nat.le_of_lt (by exact_mod_cast hrank)))

/-- A magnitude with 53 binary digits before some step has a rank below that of the next step. -/
theorem rankOfRatio_lt {num den k : Nat} (hden : 0 < den)
    (h : num * unitsPerOne ≤ (2 ^ 53 - 1) * 2 ^ k * den) :
    rankOfRatio num den < (k + 2) * 2 ^ 52 := by
  have hround := (abs_le.1 (abs_rankOfRatio_sub_position_le num hden)).2
  -- the line of the step ends one below the next step, which is more than a rounding adds
  have hposition := position_le (unitsOfRatio_nonneg num den) k
  have hpos : (0 : ℚ) < den := by exact_mod_cast hden
  have hunits : ((num * unitsPerOne : Nat) : ℚ) ≤ (2 ^ 53 - 1 : Nat) * 2 ^ k * den := by
    exact_mod_cast h
  have hquotient : unitsOfRatio num den / 2 ^ k ≤ (2 ^ 53 - 1 : Nat) := by
    rwa [div_le_iff₀ (by positivity), unitsOfRatio, div_le_iff₀ hpos]
  have hrank : (rankOfRatio num den : ℚ) < ((k + 2) * 2 ^ 52 : Nat) := by
    push_cast at hposition hquotient ⊢
    linarith
  exact_mod_cast hrank

/-- A whole number with 53 binary digits before some step has a rank below that of the next step. -/
theorem rankOfRatio_one_lt {n k : Nat} (h : n * unitsPerOne ≤ (2 ^ 53 - 1) * 2 ^ k) :
    rankOfRatio n 1 < (k + 2) * 2 ^ 52 :=
  rankOfRatio_lt Nat.one_pos (by rwa [Nat.mul_one])

/-- The magnitude of a whole number. -/
theorem unitsOfRatio_one (n : Nat) : unitsOfRatio n 1 = n * unitsPerOne := by
  rw [unitsOfRatio, Nat.cast_one, div_one, Nat.cast_mul]

/-- A magnitude below half a unit is rounded to zero. -/
theorem rankOfRatio_eq_zero {num den : Nat} (hden : 0 < den) (h : unitsOfRatio num den < 1 / 2) :
    rankOfRatio num den = 0 := by
  have hposition := position_le (unitsOfRatio_nonneg num den) 0
  have hround := (abs_le.1 (abs_rankOfRatio_sub_position_le num hden)).2
  have hrank : (rankOfRatio num den : ℚ) < 1 := by
    rw [Nat.cast_zero, zero_mul, zero_add, pow_zero, div_one] at hposition
    linarith
  exact Nat.lt_one_iff.1 (by exact_mod_cast hrank)

/-- What is `10 ^ 309` or more lies beyond the range, by a factor of two at least. -/
theorem two_pow_mul_two_le {v : ℚ} (h : 10 ^ 309 ≤ v) : 2 ^ 2099 * 2 ≤ v * unitsPerOne := by
  have hcast {m n : Nat} (h : 2 ^ m * 2 ≤ 10 ^ n * unitsPerOne) :
      (2 ^ m * 2 : ℚ) ≤ 10 ^ n * unitsPerOne := by exact_mod_cast h
  have hlimit : 2 ^ 2099 * 2 ≤ 10 ^ 309 * unitsPerOne := by decide +kernel
  exact (hcast hlimit).trans (mul_le_mul_of_nonneg_right h (Nat.cast_nonneg _))

/-- The nearest number of a decimal is its rounded quotient, whatever its magnitude. -/
theorem ofDecimal?_eq (negative : Bool) (d : Decimal) :
    ofDecimal? negative d = ofRatio? negative d.numerator d.denominator := by
  have hzero (hrank : rankOfRatio d.numerator d.denominator = 0) :
      some (signedZero negative) = ofRatio? negative d.numerator d.denominator := by
    rw [ofRatio?, hrank]
    rfl
  have hunits := d.unitsOfRatio_eq
  have hone : (0 : ℚ) < unitsPerOne := by exact_mod_cast unitsPerOne_pos
  rw [ofDecimal?]
  -- zero, the magnitudes that are too large, and those that are rounded to zero
  split
  · rename_i hdigits
    refine hzero (rankOfRatio_eq_zero d.denominator_pos ?_)
    rw [hunits, Decimal.value, hdigits, Nat.cast_zero, zero_mul, zero_mul]
    exact one_half_pos
  rename_i hdigits
  split
  · rename_i hlarge
    refine (ofRatio?_eq_none d.denominator_pos ?_ negative).symm
    have hmagnitude : ((309 : Nat) : Int) ≤ d.magnitude - 1 := by omega
    have hvalue := (zpow_le_zpow_right₀ (by norm_num : (1 : ℚ) ≤ 10) hmagnitude).trans
      (Decimal.le_value hdigits)
    rw [zpow_natCast] at hvalue
    rw [hunits]
    exact (le_mul_of_one_le_right (by positivity) one_le_two).trans (two_pow_mul_two_le hvalue)
  split
  · rename_i hsmall
    refine hzero (rankOfRatio_eq_zero d.denominator_pos ?_)
    have hmagnitude : d.magnitude ≤ -(325 : Nat) := by omega
    have hvalue := d.value_lt.trans_le
      (zpow_le_zpow_right₀ (by norm_num : (1 : ℚ) ≤ 10) hmagnitude)
    have hcast {n : Nat} (h : unitsPerOne * 2 ≤ 10 ^ n) : (unitsPerOne * 2 : ℚ) ≤ 10 ^ n := by
      exact_mod_cast h
    have hlimit : unitsPerOne * 2 ≤ 10 ^ 325 := by decide +kernel
    rw [hunits]
    refine (mul_lt_mul_of_pos_right hvalue hone).trans_le ?_
    rw [zpow_neg, zpow_natCast, inv_mul_le_iff₀ (by positivity), mul_one_div,
      le_div_iff₀ two_pos]
    exact hcast hlimit
  · rfl

end Binary64

end DocQuery
