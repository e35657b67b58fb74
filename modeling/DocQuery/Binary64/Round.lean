import DocQuery.Binary64.Basic

/-!
# Rounding to binary64

Rounds an exact non-negative quotient to the nearest finite binary64 number, a tie going to the
even significand. A quotient that lies half a unit or more above the largest finite number has no
finite result. Products and quotients of two numbers are exact quotients, rounded once.

* `roundDivEven_mul_right`, `rankOfRatio_mul_right`: the outcome depends on the value of the
  quotient only, and not on how it is written as a fraction.
* `Binary64.rankOfRatio_unitsOfRank`: a number is rounded to itself.
* `Binary64.order_ofInt_of_neg_of_pos`: rounding integers keeps their signs apart.
-/

-- powers are those of the core library, also where other libraries are at hand
attribute [local instance (high)] instPowNat

namespace DocQuery

/-- The whole number nearest to `num / den`; a tie goes to the even one. -/
def roundDivEven (num den : Nat) : Nat :=
  let quotient := num / den
  let twice := 2 * (num % den)
  if twice < den then quotient
  else if den < twice then quotient + 1
  else quotient + quotient % 2

/-- The outcome does not change when numerator and denominator are scaled alike. -/
theorem roundDivEven_mul_right (num den : Nat) {factor : Nat} (hpositive : 0 < factor) :
    roundDivEven (num * factor) (den * factor) = roundDivEven num den := by
  have htwice : 2 * (num * factor % (den * factor)) = 2 * (num % den) * factor := by
    rw [Nat.mul_mod_mul_right, Nat.mul_assoc]
  simp only [roundDivEven, htwice, Nat.mul_div_mul_right _ _ hpositive,
    Nat.mul_lt_mul_right hpositive]

namespace Binary64

/-- How many units of `2 ^ -1074` make one. -/
def unitsPerOne : Nat := 2 ^ 1074

/-- There is at least one unit in one. -/
theorem unitsPerOne_pos : 0 < unitsPerOne := by decide +kernel

/-- The number of units in one is a power of two. -/
theorem exists_unitsPerOne_eq_two_pow : ∃ k, unitsPerOne = 2 ^ k := ⟨_, rfl⟩

/-- Small powers of two are not above the number of units in one. -/
theorem two_pow_le_unitsPerOne {k : Nat} (hsmall : k ≤ 1074) : 2 ^ k ≤ unitsPerOne := by
  rw [unitsPerOne]
  -- as a numeral, the exponent would be an invitation to evaluate the power
  generalize 1074 = limit at hsmall ⊢
  exact Nat.pow_le_pow_right (by decide) hsmall

/-- Large powers of two are not below the number of units in one. -/
theorem unitsPerOne_le_two_pow {k : Nat} (hlarge : 1074 ≤ k) : unitsPerOne ≤ 2 ^ k := by
  rw [unitsPerOne]
  generalize 1074 = limit at hlarge ⊢
  exact Nat.pow_le_pow_right (by decide) hlarge

/-- The rank nearest to the magnitude `num / den`, possibly beyond the finite ranks. The quotient
in units of `2 ^ -1074` is scaled down so that 53 binary digits remain, and those are rounded. -/
def rankOfRatio (num den : Nat) : Nat :=
  let scaled := num * unitsPerOne
  let scale := (scaled / den).log2 - 52
  scale * 2 ^ 52 + roundDivEven scaled (den * 2 ^ scale)

/-- The rank does not change when numerator and denominator are scaled alike. -/
theorem rankOfRatio_mul_right (num den : Nat) {factor : Nat} (hpositive : 0 < factor) :
    rankOfRatio (num * factor) (den * factor) = rankOfRatio num den := by
  have hscaled : num * factor * unitsPerOne = num * unitsPerOne * factor := Nat.mul_right_comm ..
  simp only [rankOfRatio, hscaled, Nat.mul_div_mul_right _ _ hpositive]
  rw [Nat.mul_right_comm den factor, roundDivEven_mul_right _ _ hpositive]

/-- A whole number is rounded to itself. -/
theorem roundDivEven_mul_self (n : Nat) {den : Nat} (hpositive : 0 < den) :
    roundDivEven (n * den) den = n := by
  simp [roundDivEven, Nat.mul_div_cancel _ hpositive, hpositive]

/-- Doubling a number `k` times adds `k` to its binary logarithm. -/
theorem log2_mul_two_pow {n : Nat} (hnonzero : n ≠ 0) (k : Nat) :
    (n * 2 ^ k).log2 = n.log2 + k := by
  induction k with
  | zero => simp
  | succ k ih =>
    have hpositive : n * 2 ^ k ≠ 0 := Nat.mul_ne_zero hnonzero (Nat.ne_of_gt (Nat.two_pow_pos k))
    rw [Nat.pow_succ, ← Nat.mul_assoc, Nat.mul_comm _ 2, Nat.log2_two_mul hpositive, ih]
    omega

/-- A magnitude in units of `2 ^ -1074` is rounded to its own rank. -/
theorem rankOfRatio_unitsOfRank (rank : Nat) :
    rankOfRatio (unitsOfRank rank) unitsPerOne = rank := by
  have hunits : unitsOfRank rank * unitsPerOne / unitsPerOne = unitsOfRank rank :=
    Nat.mul_div_cancel _ unitsPerOne_pos
  -- the significand of a rank has 53 binary digits, or fewer when the rank is not scaled
  have hscale : (unitsOfRank rank).log2 - 52 = scaleOfRank rank := by
    by_cases hsmall : rank < 2 ^ 53
    · have hunscaled : scaleOfRank rank = 0 := by simp only [scaleOfRank]; omega
      have hsame : unitsOfRank rank = rank := by simp [unitsOfRank, hunscaled]
      rw [hsame, hunscaled]
      by_cases hzero : rank = 0
      · simp [hzero]
      · have := (Nat.log2_lt hzero).2 hsmall
        omega
    · have hlow : 2 ^ 52 ≤ rank - scaleOfRank rank * 2 ^ 52 := by simp only [scaleOfRank]; omega
      have hhigh : rank - scaleOfRank rank * 2 ^ 52 < 2 ^ 53 := by simp only [scaleOfRank]; omega
      have hnonzero : rank - scaleOfRank rank * 2 ^ 52 ≠ 0 := by omega
      have hlog : (rank - scaleOfRank rank * 2 ^ 52).log2 = 52 := by
        have := (Nat.le_log2 hnonzero).2 hlow
        have := (Nat.log2_lt hnonzero).2 hhigh
        omega
      rw [unitsOfRank, log2_mul_two_pow hnonzero, hlog]
      omega
  -- so the units of a rank are a whole multiple of the scale, and nothing is rounded away
  have hexact (unit : Nat) (hpositive : 0 < unit) :
      roundDivEven (unitsOfRank rank * unit) (unit * 2 ^ scaleOfRank rank) =
        rank - scaleOfRank rank * 2 ^ 52 := by
    rw [unitsOfRank, Nat.mul_comm unit, Nat.mul_assoc,
      roundDivEven_mul_self _ (Nat.mul_pos (Nat.two_pow_pos _) hpositive)]
  have hroom : scaleOfRank rank * 2 ^ 52 ≤ rank := by simp only [scaleOfRank]; omega
  simp only [rankOfRatio, hunits, hscale]
  rw [hexact _ unitsPerOne_pos]
  omega

/-- The number of a rank, unless the rank lies beyond the finite ones. -/
def ofRank? (negative : Bool) (rank : Nat) : Option Binary64 :=
  if h : rank < 2047 * 2 ^ 52 then some ⟨negative, rank, h⟩ else none

/-- The number nearest to the quotient `num / den` with the given sign. -/
def ofRatio? (negative : Bool) (num den : Nat) : Option Binary64 :=
  ofRank? negative (rankOfRatio num den)

/-- The number nearest to an integer, the largest finite number standing for what lies beyond. -/
def ofInt (n : Int) : Binary64 :=
  ⟨n < 0, min (rankOfRatio n.natAbs 1) (2047 * 2 ^ 52 - 1), by omega⟩

/-- A positive whole number is not rounded to zero. -/
theorem rankOfRatio_one_pos {n : Nat} (hpositive : 0 < n) : 0 < rankOfRatio n 1 := by
  have hlarge : 2 ^ 53 ≤ unitsPerOne := two_pow_le_unitsPerOne (by decide)
  have hunits : unitsPerOne ≤ n * unitsPerOne := Nat.le_mul_of_pos_left _ hpositive
  have hlog : 53 ≤ (n * unitsPerOne).log2 :=
    (Nat.le_log2 (by omega)).2 (Nat.le_trans hlarge hunits)
  simp only [rankOfRatio, Nat.div_one]
  omega

/-- A negative integer is still before a positive one when both are rounded. -/
theorem order_ofInt_of_neg_of_pos {m n : Int} (hnegative : m < 0) (hpositive : 0 < n) :
    (ofInt m).order (ofInt n) = .lt := by
  have hlow := rankOfRatio_one_pos (n := m.natAbs) (by omega)
  have hhigh := rankOfRatio_one_pos (n := n.natAbs) (by omega)
  have hleft : (ofInt m).signedRank < 0 := by
    simp only [signedRank, ofInt, hnegative, decide_true, if_true]
    omega
  have hright : 0 < (ofInt n).signedRank := by
    simp only [signedRank, ofInt, Int.not_lt.2 (Int.le_of_lt hpositive), decide_false,
      Bool.false_eq_true, if_false]
    omega
  exact Std.compare_eq_lt.2 (Int.lt_trans hleft hright)

/-- The product of two magnitudes, rounded once. -/
def mul? (x y : Binary64) : Option Binary64 :=
  ofRatio? (x.negative != y.negative) (x.units * y.units) (unitsPerOne * unitsPerOne)

/-- The quotient of two magnitudes, rounded once. -/
def div? (x y : Binary64) : Option Binary64 :=
  ofRatio? (x.negative != y.negative) x.units y.units

end Binary64

end DocQuery
