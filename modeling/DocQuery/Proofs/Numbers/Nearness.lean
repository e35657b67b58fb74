import DocQuery.Proofs.Numbers.Rounding
import Mathlib.Algebra.Order.Ring.Pow
import Mathlib.Tactic.GCongr
import Mathlib.Tactic.NormNum

/-!
# Values that agree up to a factor

Rounding a value changes it by a factor close to one. Such factors multiply when values are
multiplied and divided, and values that agree up to a factor have ranks that lie close together.

* `Near.trans`, `Near.mul`, `Near.div`: factors are collected.
* `Binary64.near_unitsOfRank`: the factor of a single rounding.
* `Near.abs_position_sub_le`, `Near.abs_position_sub_le_of_le`: how far the positions are apart.
-/

-- powers are those of the core library, also where other libraries are at hand
attribute [local instance (high)] instPowNat

namespace DocQuery

/-- The factor in which accuracy is measured. -/
def grain : ℚ := 1 + 1 / 2 ^ 60

/-- Two values differ by at most some factors of `grain`. -/
def Near (n : Nat) (x y : ℚ) : Prop := x ≤ y * grain ^ n ∧ y ≤ x * grain ^ n

/-- The factor is above one. -/
theorem one_le_grain_pow (n : Nat) : 1 ≤ grain ^ n :=
  one_le_pow₀ (by norm_num [grain])

/-- The factors together are not negative. -/
theorem grain_pow_nonneg (n : Nat) : 0 ≤ grain ^ n := zero_le_one.trans (one_le_grain_pow n)

/-- The factors together are no less than their shares put together. -/
theorem one_add_le_grain_pow (n : Nat) : 1 + n / 2 ^ 60 ≤ grain ^ n := by
  have hle := one_add_mul_le_pow (show (-2 : ℚ) ≤ 1 / 2 ^ 60 by norm_num) n
  rwa [mul_one_div] at hle

/-- The factors together are hardly more than that. -/
theorem grain_pow_mul_le_one (n : Nat) : grain ^ n * (1 - n / 2 ^ 60) ≤ 1 := by
  have hle := one_add_mul_le_pow (show (-2 : ℚ) ≤ -(1 / 2 ^ 60) by norm_num) n
  have hproduct : grain ^ n * (1 + -(1 / 2 ^ 60)) ^ n ≤ 1 := by
    rw [← mul_pow]
    exact pow_le_one₀ (by norm_num [grain]) (by norm_num [grain])
  refine (mul_le_mul_of_nonneg_left ?_ (grain_pow_nonneg n)).trans hproduct
  linarith

/-- A few factors are hardly more than their shares. -/
theorem grain_pow_le {n : Nat} (hn : n ≤ 2 ^ 10) : grain ^ n ≤ 1 + (n + 1) / 2 ^ 60 := by
  have hcast : (n : ℚ) ≤ 2 ^ 10 := by exact_mod_cast hn
  have hsquare : (n : ℚ) * n ≤ 2 ^ 10 * 2 ^ 10 :=
    mul_le_mul hcast hcast (Nat.cast_nonneg n) (by positivity)
  have hone : 1 ≤ (1 + ((n : ℚ) + 1) / 2 ^ 60) * (1 - n / 2 ^ 60) := by linarith
  exact le_of_mul_le_mul_right ((grain_pow_mul_le_one n).trans hone) (by linarith)

/-- A few factors do not even make up two. -/
theorem grain_pow_le_two {n : Nat} (hn : n ≤ 2 ^ 10) : grain ^ n ≤ 2 := by
  have hcast : (n : ℚ) ≤ 2 ^ 10 := by exact_mod_cast hn
  linarith [grain_pow_le hn]

namespace Near

variable {m n : Nat} {x x' y y' z : ℚ}

/-- A value agrees with itself. -/
theorem refl (hx : 0 ≤ x) : Near n x x :=
  ⟨le_mul_of_one_le_right hx (one_le_grain_pow n), le_mul_of_one_le_right hx (one_le_grain_pow n)⟩

/-- Either value may come first. -/
theorem symm (h : Near n x y) : Near n y x := ⟨h.2, h.1⟩

/-- There may be factors to spare. -/
theorem mono (h : Near m x y) (hle : m ≤ n) (hx : 0 ≤ x) (hy : 0 ≤ y) : Near n x y := by
  have hgrow : grain ^ m ≤ grain ^ n := pow_le_pow_right₀ (by norm_num [grain]) hle
  exact ⟨h.1.trans (mul_le_mul_of_nonneg_left hgrow hy),
    h.2.trans (mul_le_mul_of_nonneg_left hgrow hx)⟩

/-- What agrees with a positive value is positive. -/
theorem pos (h : Near n x y) (hy : 0 < y) : 0 < x :=
  pos_of_mul_pos_left (hy.trans_le h.2) (grain_pow_nonneg n)

/-- A value that agrees with another one up to a few factors is at most its double. -/
theorem le_mul_two (h : Near n x y) (hy : 0 ≤ y) (hn : n ≤ 2 ^ 10) : x ≤ y * 2 :=
  h.1.trans (mul_le_mul_of_nonneg_left (grain_pow_le_two hn) hy)

/-- Factors are collected from one value to the next. -/
theorem trans (h : Near m x y) (h' : Near n y z) : Near (m + n) x z := by
  constructor
  · calc x ≤ y * grain ^ m := h.1
      _ ≤ z * grain ^ n * grain ^ m := mul_le_mul_of_nonneg_right h'.1 (grain_pow_nonneg m)
      _ = z * grain ^ (m + n) := by ring
  · calc z ≤ y * grain ^ n := h'.2
      _ ≤ x * grain ^ m * grain ^ n := mul_le_mul_of_nonneg_right h.2 (grain_pow_nonneg n)
      _ = x * grain ^ (m + n) := by ring

/-- The factors of a product. -/
theorem mul (h : Near m x y) (h' : Near n x' y') (hx : 0 ≤ x) (hx' : 0 ≤ x') (hy : 0 ≤ y)
    (hy' : 0 ≤ y') : Near (m + n) (x * x') (y * y') := by
  have hm := grain_pow_nonneg m
  constructor
  · calc x * x' ≤ y * grain ^ m * (y' * grain ^ n) := mul_le_mul h.1 h'.1 hx' (by positivity)
      _ = y * y' * grain ^ (m + n) := by ring
  · calc y * y' ≤ x * grain ^ m * (x' * grain ^ n) := mul_le_mul h.2 h'.2 hy' (by positivity)
      _ = x * x' * grain ^ (m + n) := by ring

/-- The factors of a quotient. -/
theorem div (h : Near m x y) (h' : Near n x' y') (hx : 0 ≤ x) (hy : 0 ≤ y) (hx' : 0 < x')
    (hy' : 0 < y') : Near (m + n) (x / x') (y / y') := by
  have hm := grain_pow_nonneg m
  constructor
  · rw [div_mul_eq_mul_div, div_le_div_iff₀ hx' hy']
    calc x * y' ≤ y * grain ^ m * (x' * grain ^ n) := mul_le_mul h.1 h'.2 hy'.le (by positivity)
      _ = y * grain ^ (m + n) * x' := by ring
  · rw [div_mul_eq_mul_div, div_le_div_iff₀ hy' hx']
    calc y * x' ≤ x * grain ^ m * (y' * grain ^ n) := mul_le_mul h.2 h'.1 hx'.le (by positivity)
      _ = x * grain ^ (m + n) * y' := by ring

/-- A value that differs by a part of another one only. -/
theorem of_abs_sub_le {part : ℚ} (h : |x - y| ≤ y * part) (hy : 0 ≤ y) (hpart : part < 1)
    (hshare : 1 ≤ (1 - part) * (1 + n / 2 ^ 60)) : Near n x y := by
  obtain ⟨hlow, hhigh⟩ := abs_le.1 h
  have hfactor : 1 ≤ (1 - part) * grain ^ n :=
    hshare.trans (mul_le_mul_of_nonneg_left (one_add_le_grain_pow n) (by linarith))
  constructor
  · -- the reciprocal of `1 - part` is above `1 + part`
    have hup : 1 + part ≤ grain ^ n := by
      have hsquare : (1 - part) * (1 + part) ≤ (1 - part) * grain ^ n := by
        refine le_trans ?_ hfactor
        have := mul_self_nonneg part
        linarith
      exact le_of_mul_le_mul_left hsquare (by linarith)
    have hscaled := mul_le_mul_of_nonneg_left hup hy
    linarith
  · have hscaled := mul_le_mul_of_nonneg_left hfactor hy
    have hdown : y * (1 - part) ≤ x := by linarith
    have := mul_le_mul_of_nonneg_right hdown (grain_pow_nonneg n)
    linarith

/-- Values that agree up to a factor have positions that agree up to a distance. -/
theorem abs_position_sub_le (h : Near n x y) (hx : 0 ≤ x) (hy : 0 ≤ y) :
    |Binary64.position x - Binary64.position y| ≤ 2 ^ 53 * (grain ^ n - 1) := by
  -- going up from a value, the position grows along its line, which is scaled to 53 binary digits
  have hup {a b : ℚ} (ha : 0 ≤ a) (hb : 0 ≤ b) (hab : b ≤ a * grain ^ n) :
      Binary64.position b - Binary64.position a ≤ 2 ^ 53 * (grain ^ n - 1) := by
    have hpos : (0 : ℚ) < 2 ^ Binary64.stepOf a := by positivity
    have hdigits : a / 2 ^ Binary64.stepOf a ≤ 2 ^ 53 := by
      rw [div_le_iff₀ hpos, ← pow_add]
      exact (Binary64.lt_two_pow_stepOf ha).le
    have hgrow : 0 ≤ grain ^ n - 1 := sub_nonneg.2 (one_le_grain_pow n)
    calc Binary64.position b - Binary64.position a
        ≤ (b - a) / 2 ^ Binary64.stepOf a := Binary64.position_sub_le hb
      _ ≤ (a * grain ^ n - a) / 2 ^ Binary64.stepOf a := by gcongr
      _ = a / 2 ^ Binary64.stepOf a * (grain ^ n - 1) := by ring
      _ ≤ 2 ^ 53 * (grain ^ n - 1) := mul_le_mul_of_nonneg_right hdigits hgrow
  rw [abs_le]
  constructor
  · linarith [hup hx hy h.2]
  · exact hup hy hx h.1

/-- So do values up to some limit, where the numbers are at least one unit apart. -/
theorem abs_position_sub_le_of_le {limit : ℚ} (h : Near n x y) (hx : 0 ≤ x) (hy : 0 ≤ y)
    (hlimit : x ≤ limit) :
    |Binary64.position x - Binary64.position y| ≤ limit * (grain ^ n - 1) := by
  have hgrow : 0 ≤ grain ^ n - 1 := sub_nonneg.2 (one_le_grain_pow n)
  have hup {a b : ℚ} (hb : 0 ≤ b) : Binary64.position b - Binary64.position a ≤ max (b - a) 0 := by
    refine (Binary64.position_sub_le hb).trans ?_
    have hpow : (1 : ℚ) ≤ 2 ^ Binary64.stepOf a := one_le_pow₀ one_le_two
    rcases le_total 0 (b - a) with hab | hab
    · rw [max_eq_left hab]
      exact div_le_self hab hpow
    · rw [max_eq_right hab]
      exact div_nonpos_of_nonpos_of_nonneg hab (by positivity)
  have hscaled := mul_le_mul_of_nonneg_right hlimit hgrow
  have hbound : 0 ≤ limit * (grain ^ n - 1) := mul_nonneg (hx.trans hlimit) hgrow
  rw [abs_le]
  constructor
  · have hmax : max (y - x) 0 ≤ limit * (grain ^ n - 1) := max_le (by linarith [h.2]) hbound
    linarith [hup (a := x) hy]
  · -- if the other value is the smaller one, its part is smaller still
    have hmax : max (x - y) 0 ≤ limit * (grain ^ n - 1) := by
      refine max_le ?_ hbound
      rcases le_total y x with hle | hle
      · linarith [h.1, mul_le_mul_of_nonneg_right hle hgrow]
      · linarith
    linarith [hup (a := y) hx]

end Near

namespace Binary64

/-- The factor of a rounding, which moves the magnitude by a part of it at most. -/
theorem near_unitsOfRank_of_part {num den n : Nat} {part : ℚ} (hden : 0 < den)
    (hunit : 1 / 2 ≤ unitsOfRatio num den * part) (hhalf : 1 / 2 ^ 53 ≤ part) (hpart : part < 1)
    (hshare : 1 ≤ (1 - part) * (1 + n / 2 ^ 60)) :
    Near n (unitsOfRank (rankOfRatio num den)) (unitsOfRatio num den) := by
  have hnonneg := unitsOfRatio_nonneg num den
  -- half a step is half a unit, or at most one part in `2 ^ 53`
  have hstep : 2 ^ stepOf (unitsOfRatio num den) / 2 ≤ unitsOfRatio num den * part := by
    by_cases hzero : stepOf (unitsOfRatio num den) = 0
    · rwa [hzero, pow_zero]
    · have hle := two_pow_stepOf_le hzero
      have hscaled := mul_le_mul_of_nonneg_left hhalf hnonneg
      rw [pow_add] at hle
      linarith
  exact .of_abs_sub_le ((abs_unitsOfRank_sub_le num hden).trans hstep) hnonneg hpart hshare

/-- The factor of a rounding with 53 binary digits. -/
theorem near_unitsOfRank {num den : Nat} (hden : 0 < den) (h : 2 ^ 52 ≤ unitsOfRatio num den) :
    Near 129 (unitsOfRank (rankOfRatio num den)) (unitsOfRatio num den) := by
  have hunit : 1 / 2 ≤ unitsOfRatio num den * (1 / 2 ^ 53) := by linarith
  exact near_unitsOfRank_of_part hden hunit le_rfl (by norm_num) (by norm_num)

/-- The factor of a rounding with 51 binary digits. -/
theorem near_unitsOfRank_of_le {num den : Nat} (hden : 0 < den)
    (h : 2 ^ 50 ≤ unitsOfRatio num den) :
    Near 513 (unitsOfRank (rankOfRatio num den)) (unitsOfRatio num den) := by
  have hunit : 1 / 2 ≤ unitsOfRatio num den * (1 / 2 ^ 51) := by linarith
  exact near_unitsOfRank_of_part hden hunit (by norm_num) (by norm_num) (by norm_num)

end Binary64

end DocQuery
