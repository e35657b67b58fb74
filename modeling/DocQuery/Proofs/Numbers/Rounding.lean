import DocQuery.Binary64.Round
import Mathlib.Algebra.Order.Floor.Semifield
import Mathlib.Data.Nat.Log
import Mathlib.Data.Rat.Floor
import Mathlib.Tactic.FieldSimp
import Mathlib.Tactic.Linarith
import Mathlib.Tactic.Positivity

/-!
# How far rounding moves a number

Magnitudes are measured in units of `2 ^ -1074`. Between `2 ^ (52 + k)` and `2 ^ (53 + k)` units the
finite numbers are `2 ^ k` units apart, so there the rank of a magnitude `q`, had it one, would be
`k * 2 ^ 52 + q / 2 ^ k`. This is its `position`. The position grows with the magnitude along lines
that become flatter, hence it is the least of the values of these lines, and two magnitudes that are
close by a factor have close positions.

* `Binary64.abs_rankOfRatio_sub_position_le`: a rank is the position of its quotient, rounded.
* `Binary64.abs_unitsOfRank_sub_le`: a number that is rounded moves by half a step at most.
* `Binary64.position_le`: the position is the least value of all lines.
* `Binary64.rankOfRatio_mono`: rounding keeps the order of two quotients, or makes them the same.
-/

-- powers are those of the core library, also where other libraries are at hand
attribute [local instance (high)] instPowNat

namespace DocQuery

/-- A quotient moves by one half at most when it is rounded to a whole number. -/
theorem abs_roundDivEven_sub_le (num : Nat) {den : Nat} (hden : 0 < den) :
    |(roundDivEven num den : ℚ) - num / den| ≤ 1 / 2 := by
  have hpos : (0 : ℚ) < den := by exact_mod_cast hden
  have hsplit : (num : ℚ) / den = (num / den : Nat) + (num % den : Nat) / den := by
    have hnum : (num : ℚ) = den * (num / den : Nat) + (num % den : Nat) := by
      exact_mod_cast (Nat.div_add_mod num den).symm
    rw [div_eq_iff hpos.ne', add_mul, div_mul_cancel₀ _ hpos.ne', mul_comm, ← hnum]
  have hrest : (0 : ℚ) ≤ (num % den : Nat) / den := by positivity
  rw [hsplit, roundDivEven, abs_le]
  -- the quotient is rounded down, rounded up, or lies half way between two whole numbers
  split
  · rename_i hlt
    have hhalf : ((num % den : Nat) : ℚ) / den < 1 / 2 := by
      rw [div_lt_div_iff₀ hpos two_pos, one_mul, mul_comm]
      exact_mod_cast hlt
    constructor <;> linarith
  split
  · rename_i hlt
    have hhalf : 1 / 2 < ((num % den : Nat) : ℚ) / den := by
      rw [div_lt_div_iff₀ two_pos hpos, one_mul, mul_comm]
      exact_mod_cast hlt
    have hone : ((num % den : Nat) : ℚ) / den < 1 := by
      rw [div_lt_one hpos]
      exact_mod_cast Nat.mod_lt num hden
    push_cast
    constructor <;> linarith
  · rename_i hlt hgt
    have hhalf : ((num % den : Nat) : ℚ) / den = 1 / 2 := by
      rw [div_eq_div_iff hpos.ne' two_ne_zero, one_mul, mul_comm]
      exact_mod_cast Nat.le_antisymm (Nat.not_lt.1 hgt) (Nat.not_lt.1 hlt)
    have hparity : ((num / den % 2 : Nat) : ℚ) ≤ 1 := by
      exact_mod_cast Nat.le_of_lt_succ (Nat.mod_lt _ two_pos)
    have hnonneg : (0 : ℚ) ≤ (num / den % 2 : Nat) := Nat.cast_nonneg _
    push_cast at hparity hnonneg ⊢
    constructor <;> linarith

/-- A greater quotient is not rounded to a smaller whole number. -/
theorem roundDivEven_mono {num num' : Nat} (hle : num ≤ num') (den : Nat) :
    roundDivEven num den ≤ roundDivEven num' den := by
  have hquotient : num / den ≤ num' / den := Nat.div_le_div_right hle
  rcases Nat.lt_or_eq_of_le hquotient with hlt | heq
  · simp only [roundDivEven]
    grind
  · -- between the same two whole numbers, only the rest decides
    have hrest : num % den ≤ num' % den := by
      have hsplit := Nat.div_add_mod num den
      have hsplit' := Nat.div_add_mod num' den
      rw [heq] at hsplit
      omega
    simp only [roundDivEven, heq]
    grind

namespace Binary64

/-! ## Positions -/

/-- The power of two by which the numbers around a magnitude are spaced. -/
def stepOf (q : ℚ) : Nat := ⌊q⌋₊.log2 - 52

/-- The place of a magnitude among the ranks. -/
def position (q : ℚ) : ℚ := stepOf q * 2 ^ 52 + q / 2 ^ stepOf q

/-- A magnitude has at most 53 binary digits before its step. -/
theorem lt_two_pow_stepOf {q : ℚ} (hq : 0 ≤ q) : q < 2 ^ (53 + stepOf q) := by
  have hlog : ⌊q⌋₊ < 2 ^ (53 + stepOf q) :=
    Nat.lt_of_lt_of_le Nat.lt_log2_self (Nat.pow_le_pow_right two_pos (by rw [stepOf]; omega))
  exact_mod_cast (Nat.floor_lt hq).1 hlog

/-- A magnitude with a step above one has all 53 of them. -/
theorem two_pow_stepOf_le {q : ℚ} (hstep : stepOf q ≠ 0) : 2 ^ (52 + stepOf q) ≤ q := by
  have hlog : ⌊q⌋₊.log2 = 52 + stepOf q := by
    rw [stepOf] at hstep ⊢
    omega
  have hne : ⌊q⌋₊ ≠ 0 := by
    intro hzero
    rw [hzero, Nat.log2_zero] at hlog
    omega
  have hle := Nat.log2_self_le hne
  rw [hlog] at hle
  exact_mod_cast (Nat.le_floor_iff' (by positivity)).1 hle

/-- The position of a magnitude is the least value of all lines. -/
theorem position_le {q : ℚ} (hq : 0 ≤ q) (k : Nat) : position q ≤ k * 2 ^ 52 + q / 2 ^ k := by
  have hlt := lt_two_pow_stepOf hq
  rw [position]
  set s := stepOf q with hs
  rcases Nat.le_total s k with hle | hle
  · -- a flatter line lies above, as the magnitude is below the place where it would take over
    obtain ⟨j, rfl⟩ := Nat.exists_eq_add_of_le hle
    have hx : q / 2 ^ s < 2 ^ 53 := by
      rw [div_lt_iff₀ (by positivity), ← pow_add]
      exact hlt
    have hj : (1 : ℚ) ≤ 2 ^ j := one_le_pow₀ one_le_two
    have hsplit : q / 2 ^ (s + j) = q / 2 ^ s / 2 ^ j := by rw [pow_add, div_div]
    have hgap : q / 2 ^ s - q / 2 ^ s / 2 ^ j ≤ j * 2 ^ 52 := by
      have hnonneg : 0 ≤ q / 2 ^ s := by positivity
      match j with
      | 0 => simp
      | 1 => norm_num; linarith
      | j + 2 =>
        have : 0 ≤ q / 2 ^ s / 2 ^ (j + 2) := by positivity
        have : (0 : ℚ) ≤ j := Nat.cast_nonneg j
        push_cast
        linarith
    rw [hsplit]
    push_cast
    linarith
  · -- so does a steeper line, as the magnitude is above the place where the next one took over
    obtain ⟨j, hj⟩ := Nat.exists_eq_add_of_le hle
    rcases Nat.eq_zero_or_pos j with rfl | hpos
    · rw [hj]
      simp
    have hx : 2 ^ 52 ≤ q / 2 ^ s := by
      rw [le_div_iff₀ (by positivity), ← pow_add]
      exact two_pow_stepOf_le (by omega)
    have hsplit : q / 2 ^ k = q / 2 ^ s * 2 ^ j := by
      rw [hj, pow_add]
      field_simp
    have hgrow : (j : ℚ) + 1 ≤ 2 ^ j := by exact_mod_cast Nat.lt_two_pow_self
    have hgap : (2 : ℚ) ^ 52 * j ≤ q / 2 ^ s * (2 ^ j - 1) := by
      have : (0 : ℚ) ≤ j := Nat.cast_nonneg j
      exact mul_le_mul hx (by linarith) this (by linarith)
    have hcast : (s : ℚ) = k + j := by exact_mod_cast hj
    rw [hsplit, hcast]
    linarith

/-- A greater magnitude has no smaller position. -/
theorem position_mono {q q' : ℚ} (hq : 0 ≤ q) (hle : q ≤ q') : position q ≤ position q' :=
  (position_le hq (stepOf q')).trans
    (by rw [position]; exact add_le_add_right (div_le_div_of_nonneg_right hle (by positivity)) _)

/-- The position grows no faster than the line at hand. -/
theorem position_sub_le {q q' : ℚ} (hq' : 0 ≤ q') :
    position q' - position q ≤ (q' - q) / 2 ^ stepOf q := by
  have hline := position_le hq' (stepOf q)
  rw [position.eq_def q, sub_div]
  linarith

/-- The quotient of two whole numbers as a magnitude in units of `2 ^ -1074`. -/
def unitsOfRatio (num den : Nat) : ℚ := (num * unitsPerOne : Nat) / den

/-- The magnitude of a quotient is not negative. -/
theorem unitsOfRatio_nonneg (num den : Nat) : 0 ≤ unitsOfRatio num den :=
  div_nonneg (Nat.cast_nonneg _) (Nat.cast_nonneg _)

/-- The step of a quotient is the one by which it is scaled down before it is rounded. -/
theorem stepOf_unitsOfRatio (num den : Nat) :
    stepOf (unitsOfRatio num den) = (num * unitsPerOne / den).log2 - 52 := by
  rw [stepOf, unitsOfRatio, Nat.floor_div_eq_div]

/-- A quotient is scaled down and rounded. -/
theorem abs_roundDivEven_sub_unitsOfRatio_le (num : Nat) {den : Nat} (hden : 0 < den) (k : Nat) :
    |(roundDivEven (num * unitsPerOne) (den * 2 ^ k) : ℚ) - unitsOfRatio num den / 2 ^ k| ≤
      1 / 2 := by
  have hround := abs_roundDivEven_sub_le (num * unitsPerOne) (Nat.mul_pos hden (Nat.two_pow_pos k))
  rw [unitsOfRatio, div_div]
  simpa only [Nat.cast_mul den, Nat.cast_pow, Nat.cast_ofNat] using hround

/-- A rank is the position of its quotient, rounded. -/
theorem abs_rankOfRatio_sub_position_le (num : Nat) {den : Nat} (hden : 0 < den) :
    |(rankOfRatio num den : ℚ) - position (unitsOfRatio num den)| ≤ 1 / 2 := by
  have hround := abs_roundDivEven_sub_unitsOfRatio_le num hden (stepOf (unitsOfRatio num den))
  rw [stepOf_unitsOfRatio] at hround
  rw [rankOfRatio, position, stepOf_unitsOfRatio]
  simp only [Nat.cast_add, Nat.cast_mul (_ - _), Nat.cast_pow, Nat.cast_ofNat]
  rwa [add_sub_add_left_eq_sub]

/-! ## Numbers of quotients -/

/-- The number whose significand has 53 binary digits, or fewer without a step. -/
theorem unitsOfRank_add {k significand : Nat} (hlow : k = 0 ∨ 2 ^ 52 ≤ significand)
    (hhigh : significand ≤ 2 ^ 53) :
    unitsOfRank (k * 2 ^ 52 + significand) = significand * 2 ^ k := by
  rcases Nat.lt_or_eq_of_le hhigh with hlt | rfl
  · have hscale : scaleOfRank (k * 2 ^ 52 + significand) = k := by
      rw [scaleOfRank]
      omega
    rw [unitsOfRank, hscale, Nat.add_sub_cancel_left]
  · -- a significand that was rounded up to the next power of two belongs to the next step
    have hscale : scaleOfRank (k * 2 ^ 52 + 2 ^ 53) = k + 1 := by
      rw [scaleOfRank]
      omega
    have hsplit : k * 2 ^ 52 + 2 ^ 53 - (k + 1) * 2 ^ 52 = 2 ^ 52 := by omega
    rw [unitsOfRank, hscale, hsplit, Nat.pow_succ' (n := k), ← Nat.mul_assoc, ← Nat.pow_succ]

/-- The significand of a quotient has 53 binary digits, or fewer without a step. -/
theorem roundDivEven_mem (num : Nat) {den k : Nat} (hden : 0 < den)
    (hk : stepOf (unitsOfRatio num den) = k) :
    (k = 0 ∨ 2 ^ 52 ≤ roundDivEven (num * unitsPerOne) (den * 2 ^ k)) ∧
      roundDivEven (num * unitsPerOne) (den * 2 ^ k) ≤ 2 ^ 53 := by
  have hlt := lt_two_pow_stepOf (unitsOfRatio_nonneg num den)
  have hle := two_pow_stepOf_le (q := unitsOfRatio num den)
  have hround := abs_roundDivEven_sub_unitsOfRatio_le num hden k
  rw [abs_le] at hround
  rw [hk] at hlt hle
  generalize roundDivEven (num * unitsPerOne) (den * 2 ^ k) = significand at *
  constructor
  · -- rounding to the nearest whole number does not go below a whole number
    refine or_iff_not_imp_left.2 fun hk => ?_
    have hquotient : 2 ^ 52 ≤ unitsOfRatio num den / 2 ^ k := by
      rw [le_div_iff₀ (by positivity), ← pow_add]
      exact hle hk
    have hnear : ((2 ^ 52 : Nat) : ℚ) < significand + 1 := by
      push_cast
      linarith
    exact Nat.le_of_lt_succ (by exact_mod_cast hnear)
  · -- nor does it go beyond the next one
    have hquotient : unitsOfRatio num den / 2 ^ k < 2 ^ 53 := by
      rw [div_lt_iff₀ (by positivity), ← pow_add]
      exact hlt
    have hnear : (significand : ℚ) < (2 ^ 53 : Nat) + 1 := by
      push_cast
      linarith
    exact Nat.le_of_lt_succ (by exact_mod_cast hnear)

/-- The number of a quotient is the rounded significand, scaled up again. -/
theorem unitsOfRank_rankOfRatio (num : Nat) {den : Nat} (hden : 0 < den) :
    unitsOfRank (rankOfRatio num den) =
      roundDivEven (num * unitsPerOne) (den * 2 ^ stepOf (unitsOfRatio num den)) *
        2 ^ stepOf (unitsOfRatio num den) := by
  obtain ⟨hlow, hhigh⟩ := roundDivEven_mem num hden rfl
  rw [rankOfRatio, ← stepOf_unitsOfRatio]
  exact unitsOfRank_add hlow hhigh

/-- A greater quotient has no smaller rank. -/
theorem rankOfRatio_mono {num num' den : Nat} (hden : 0 < den) (hle : num ≤ num') :
    rankOfRatio num den ≤ rankOfRatio num' den := by
  have hscaled : num * unitsPerOne ≤ num' * unitsPerOne := Nat.mul_le_mul_right _ hle
  have hstep : stepOf (unitsOfRatio num den) ≤ stepOf (unitsOfRatio num' den) := by
    rw [stepOf_unitsOfRatio, stepOf_unitsOfRatio, Nat.log2_eq_log_two, Nat.log2_eq_log_two]
    exact Nat.sub_le_sub_right (Nat.log_mono_right (Nat.div_le_div_right hscaled)) _
  obtain ⟨-, hhigh⟩ := roundDivEven_mem num hden rfl
  obtain ⟨hlow, -⟩ := roundDivEven_mem num' hden rfl
  rw [rankOfRatio, rankOfRatio, ← stepOf_unitsOfRatio, ← stepOf_unitsOfRatio]
  -- the last rank of a step is the first one of the next step, and no rank of a later one is less
  rcases Nat.lt_or_eq_of_le hstep with hlt | heq
  · omega
  · rw [heq]
    exact Nat.add_le_add_left (roundDivEven_mono hscaled _) _

/-- A magnitude with 53 binary digits before a step has that step. -/
theorem stepOf_eq {q : ℚ} {k : Nat} (hlow : 2 ^ (52 + k) ≤ q) (hhigh : q < 2 ^ (53 + k)) :
    stepOf q = k := by
  have hnonneg : 0 ≤ q := (by positivity : (0 : ℚ) ≤ 2 ^ (52 + k)).trans hlow
  have hfloor : 2 ^ (52 + k) ≤ ⌊q⌋₊ := Nat.le_floor (by exact_mod_cast hlow)
  have hnext : ⌊q⌋₊ < 2 ^ (52 + k + 1) := by
    rw [Nat.floor_lt hnonneg, Nat.cast_pow, Nat.cast_ofNat]
    exact hhigh.trans_eq (by congr 1; omega)
  have hlog := (Nat.log2_eq_iff (by omega)).2 ⟨hfloor, hnext⟩
  rw [stepOf, hlog]
  omega

/-- A quotient has a rank inside a step if its significand is that of the rank. -/
theorem rankOfRatio_eq_iff {num den k significand : Nat} (hden : 0 < den)
    (hlow : 2 ^ 52 < significand) (hhigh : significand < 2 ^ 53) :
    rankOfRatio num den = k * 2 ^ 52 + significand ↔
      roundDivEven (num * unitsPerOne) (den * 2 ^ k) = significand := by
  have hrank : rankOfRatio num den = stepOf (unitsOfRatio num den) * 2 ^ 52 +
      roundDivEven (num * unitsPerOne) (den * 2 ^ stepOf (unitsOfRatio num den)) := by
    rw [stepOf_unitsOfRatio, rankOfRatio]
  rw [hrank]
  constructor
  · intro h
    -- a significand with 53 binary digits belongs to one step only
    obtain ⟨hfew, hmany⟩ := roundDivEven_mem num hden rfl
    have hstep : stepOf (unitsOfRatio num den) = k := by omega
    rw [hstep] at h
    omega
  · intro h
    have hround := abs_le.1 (abs_roundDivEven_sub_unitsOfRatio_le num hden k)
    rw [h] at hround
    have hlow : ((2 ^ 52 + 1 : Nat) : ℚ) ≤ significand := by exact_mod_cast hlow
    have hhigh : (significand : ℚ) + 1 ≤ (2 ^ 53 : Nat) := by exact_mod_cast hhigh
    push_cast at hlow hhigh
    have hpos : (0 : ℚ) < 2 ^ k := by positivity
    have hstep : stepOf (unitsOfRatio num den) = k := by
      refine stepOf_eq ?_ ?_
      · rw [pow_add, ← le_div_iff₀ hpos]
        linarith
      · rw [pow_add, ← div_lt_iff₀ hpos]
        linarith
    rw [hstep, h]

/-- A number that is rounded moves by half a step at most. -/
theorem abs_unitsOfRank_sub_le (num : Nat) {den : Nat} (hden : 0 < den) :
    |(unitsOfRank (rankOfRatio num den) : ℚ) - unitsOfRatio num den| ≤
      2 ^ stepOf (unitsOfRatio num den) / 2 := by
  have hround := abs_roundDivEven_sub_unitsOfRatio_le num hden (stepOf (unitsOfRatio num den))
  have hpos : (0 : ℚ) < 2 ^ stepOf (unitsOfRatio num den) := by positivity
  have hscaled := mul_le_mul_of_nonneg_right hround hpos.le
  rw [← abs_of_pos hpos, ← abs_mul, sub_mul, abs_of_pos hpos, div_mul_cancel₀ _ hpos.ne'] at hscaled
  rw [unitsOfRank_rankOfRatio num hden]
  push_cast
  linarith

/-- A magnitude with at most 53 binary digits is not moved. -/
theorem unitsOfRank_rankOfRatio_of_eq {num den m j : Nat} (hden : 0 < den) (hm : m < 2 ^ 53)
    (heq : num * unitsPerOne = m * 2 ^ j * den) :
    unitsOfRank (rankOfRatio num den) = m * 2 ^ j := by
  have hunits : unitsOfRatio num den = (m * 2 ^ j : Nat) := by
    have hne : (den : ℚ) ≠ 0 := by exact_mod_cast hden.ne'
    rw [unitsOfRatio, heq, Nat.cast_mul _ den, mul_div_cancel_right₀ _ hne]
  -- with a greater step, the magnitude would have more binary digits
  have hstep : stepOf (unitsOfRatio num den) ≤ j := by
    by_contra hlt
    have hle := two_pow_stepOf_le (q := unitsOfRatio num den) (by omega)
    have hpow : 2 ^ (53 + j) ≤ m * 2 ^ j := by
      have hgrow : 2 ^ (53 + j) ≤ 2 ^ (52 + stepOf (unitsOfRatio num den)) :=
        Nat.pow_le_pow_right two_pos (by omega)
      refine hgrow.trans ?_
      rw [hunits] at hle ⊢
      exact_mod_cast hle
    rw [Nat.pow_add, Nat.mul_le_mul_right_iff (Nat.two_pow_pos j)] at hpow
    omega
  rw [unitsOfRank_rankOfRatio num hden]
  generalize stepOf (unitsOfRatio num den) = k at hstep
  obtain ⟨i, rfl⟩ := Nat.exists_eq_add_of_le hstep
  have hmultiple : num * unitsPerOne = m * 2 ^ i * (den * 2 ^ k) := by
    rw [heq, Nat.pow_add]
    ring
  rw [hmultiple, roundDivEven_mul_self _ (Nat.mul_pos hden (Nat.two_pow_pos k)), Nat.pow_add]
  ring

end Binary64

end DocQuery
