import DocQuery.Binary64.Shortest

/-!
# Shortest decimals are read back

The shortest decimal of a binary64 number is found by a search, and what the search finds is read
back by its very condition. Should the search fail, the exact expansion takes its place, and that is
read back because a number is rounded to itself.

* `Binary64.ofDecimal?_shortest`: reading undoes taking the shortest decimal.
-/

-- powers are those of the core library, also where other libraries are at hand
attribute [local instance (high)] instPowNat

namespace DocQuery

namespace Decimal

/-- With a power of ten below one, the digits are the numerator. -/
theorem numerator_neg (n k : Nat) : numerator ⟨n, -k⟩ = n := by
  simp [numerator]

/-- With a power of ten below one, the denominator is that power, a product of prime powers. -/
theorem denominator_neg (n k : Nat) : denominator ⟨n, -k⟩ = 2 ^ k * 5 ^ k := by
  rw [← Nat.mul_pow]
  simp [denominator]

/-- A number with at most some digits lies below that power of ten. -/
theorem magnitude_le_of_lt {n k : Nat} (hk : 0 < k) (h : n < 10 ^ k) (e : Int) :
    magnitude ⟨n, e⟩ ≤ e + k := by
  have hwidth := (Nat.length_toDigits_le_iff (by decide) hk).2 h
  simp only [magnitude, decimalWidth]
  omega

/-- A number with more than some digits does not lie below that power of ten. -/
theorem lt_magnitude_of_le {n k : Nat} (hk : 0 < k) (h : 10 ^ k ≤ n) (e : Int) :
    e + k < magnitude ⟨n, e⟩ := by
  have hwidth := mt (Nat.length_toDigits_le_iff (by decide) hk).1 (Nat.not_lt.2 h)
  simp only [magnitude, decimalWidth]
  omega

end Decimal

namespace Binary64

/-- The magnitudes are below `2 ^ 1024`. -/
theorem units_lt (x : Binary64) : x.units < 2 ^ (53 + 2045) := by
  have hrank := x.rank_lt
  have hsignificand : x.rank - scaleOfRank x.rank * 2 ^ 52 < 2 ^ 53 := by
    simp only [scaleOfRank]
    omega
  have hscale : scaleOfRank x.rank ≤ 2045 := by
    simp only [scaleOfRank]
    omega
  have hbound (k : Nat) (hk : scaleOfRank x.rank ≤ k) : x.units < 2 ^ (53 + k) := by
    rw [Nat.pow_add]
    exact Nat.mul_lt_mul_of_lt_of_le hsignificand (Nat.pow_le_pow_right Nat.two_pos hk)
      (Nat.two_pow_pos _)
  exact hbound 2045 hscale

/-- The magnitude of a number other than zero is positive. -/
theorem units_pos {x : Binary64} (h : x.rank ≠ 0) : 0 < x.units := by
  have hsignificand : 0 < x.rank - scaleOfRank x.rank * 2 ^ 52 := by
    simp only [scaleOfRank]
    omega
  exact Nat.mul_pos hsignificand (Nat.two_pow_pos _)

/-- A whole number of units of a negative power of two, written as a decimal. -/
theorem rankOfRatio_mul_five_pow (n k : Nat) :
    rankOfRatio (Decimal.numerator ⟨n * 5 ^ k, -k⟩) (Decimal.denominator ⟨n * 5 ^ k, -k⟩) =
      rankOfRatio n (2 ^ k) := by
  rw [Decimal.numerator_neg, Decimal.denominator_neg,
    rankOfRatio_mul_right _ _ (Nat.pow_pos (by decide))]

/-- The exact expansion is read as a number of the same rank. -/
theorem rankOfRatio_exactDecimal (x : Binary64) :
    rankOfRatio x.exactDecimal.numerator x.exactDecimal.denominator = x.rank := by
  have hrank := rankOfRatio_unitsOfRank x.rank
  rw [unitsPerOne] at hrank
  exact (rankOfRatio_mul_five_pow x.units 1074).trans hrank

/-- The leading digit of the exact expansion lies in the range that is read. -/
theorem magnitude_exactDecimal {x : Binary64} (h : x.rank ≠ 0) :
    -324 ≤ x.exactDecimal.magnitude ∧ x.exactDecimal.magnitude ≤ 310 := by
  -- the digits are `5 ^ 1074` for each unit, of which there are one or more
  have hlow : 10 ^ 749 ≤ x.units * 5 ^ 1074 := by
    refine Nat.le_trans ?_ (Nat.le_mul_of_pos_left _ (units_pos h))
    decide +kernel
  have hhigh : x.units * 5 ^ 1074 < 10 ^ 1384 := by
    refine Nat.lt_of_lt_of_le (Nat.mul_lt_mul_of_pos_right x.units_lt (by decide +kernel)) ?_
    decide +kernel
  have hlow := Decimal.lt_magnitude_of_le (by decide) hlow (-1074)
  have hhigh := Decimal.magnitude_le_of_lt (by decide) hhigh (-1074)
  rw [exactDecimal]
  omega

/-- The exact expansion is read back as the number. -/
theorem ofDecimal?_exactDecimal {x : Binary64} (h : x.rank ≠ 0) :
    ofDecimal? x.negative x.exactDecimal = some x := by
  have hdigits : x.exactDecimal.digits ≠ 0 :=
    Nat.ne_of_gt (Nat.mul_pos (units_pos h) (by decide +kernel))
  obtain ⟨hlow, hhigh⟩ := magnitude_exactDecimal h
  rw [ofDecimal?, if_neg hdigits, if_neg (by omega), if_neg (by omega), ofRatio?,
    rankOfRatio_exactDecimal, ofRank?, dif_pos x.rank_lt]

/-- The shortest decimal is read back as the number. -/
theorem ofDecimal?_shortest (ties : TieRule) (x : Binary64) :
    ofDecimal? x.negative (x.shortest ties) = some x := by
  rw [shortest]
  split
  · rename_i hzero
    obtain ⟨negative, rank, hlt⟩ := x
    obtain rfl : rank = 0 := hzero
    rfl
  · rename_i hrank
    rw [ofDecimal?_trim]
    cases hfound : x.shortest? ties with
    | none => exact ofDecimal?_exactDecimal hrank
    | some d => exact ofDecimal?_of_shortest? hfound

end Binary64

end DocQuery
