import DocQuery.Proofs.Numbers.Accuracy

/-!
# Numbers of documents that are the nearest ones

The decoder of number texts rounds once only, and then to the nearest number, if what it multiplies
or divides is exact: the digits make up a number of at most 53 binary digits, and the power of ten
is at most `10 ^ 22`, the last one that is a binary64 number. It also rounds only once if there is
no power of ten.

* `Numeral.toBinary64?_eq_ofDecimal?`: such a text is decoded as the nearest number.
-/

-- powers are those of the core library, also where other libraries are at hand
attribute [local instance (high)] instPowNat

namespace DocQuery

open Binary64

/-- Whether the digits and the power of ten of a decimal are exact, or need no power of ten. -/
def Decimal.IsSimple (d : Decimal) : Prop :=
  d.digits = 0 ∨ (d.digits < 2 ^ 64 ∧ d.exponent = 0) ∨
    (d.digits ≤ 2 ^ 53 ∧ d.exponent.natAbs ≤ 22)

namespace Numeral

/-- The powers of ten up to `10 ^ 22` are exact. -/
theorem tenUnits_of_le {n : Nat} (h : n ≤ 22) : tenUnits n = 10 ^ n * unitsPerOne := by
  -- up to a power of two, `10 ^ n` is `5 ^ n`, which has at most 53 binary digits
  have hfive : 5 ^ n < 2 ^ 53 := (Nat.pow_le_pow_right (by decide) h).trans_lt (by decide)
  obtain ⟨j, hj⟩ := exists_unitsPerOne_eq_two_pow
  have hunits : 10 ^ n * unitsPerOne = 5 ^ n * 2 ^ (n + j) := by
    rw [hj, Nat.pow_add, ← Nat.mul_assoc, ← Nat.mul_pow]
  rw [tenUnits, unitsOfRank_rankOfRatio_of_eq Nat.one_pos hfive (hunits.trans (Nat.mul_one _).symm),
    hunits]

/-- The whole numbers up to `2 ^ 53` are exact. -/
theorem units_ofInt_of_le {s : Nat} (h : s ≤ 2 ^ 53) :
    (Binary64.ofInt s).units = s * unitsPerOne := by
  rw [units_ofInt (by omega)]
  obtain ⟨j, hj⟩ := exists_unitsPerOne_eq_two_pow
  have hexact {m k : Nat} (hm : m < 2 ^ 53) (hs : s * unitsPerOne = m * 2 ^ k) :
      unitsOfRank (rankOfRatio s 1) = s * unitsPerOne := by
    rw [unitsOfRank_rankOfRatio_of_eq Nat.one_pos hm (hs.trans (Nat.mul_one _).symm), hs]
  -- `2 ^ 53` itself has one digit too many, but it is a power of two
  rcases Nat.lt_or_eq_of_le h with hlt | rfl
  · exact hexact hlt (by rw [hj])
  · exact hexact (m := 1) (by decide) (by rw [hj, ← Nat.pow_add, Nat.one_mul])

/-- The nearest number does not change when numerator and denominator are scaled alike. -/
theorem ofRatio?_mul_right (negative : Bool) (num den : Nat) {factor : Nat} (h : 0 < factor) :
    ofRatio? negative (num * factor) (den * factor) = ofRatio? negative num den := by
  rw [ofRatio?, ofRatio?, rankOfRatio_mul_right _ _ h]

/-- An exact whole number that is scaled by an exact power of ten is rounded once. -/
theorem scale?_of_le_of_le {s : Nat} {e : Int} (hs : s ≤ 2 ^ 53) (he : e.natAbs ≤ 22) :
    scale? (.ofInt s) e =
      ofRatio? false (Decimal.numerator ⟨s, e⟩) (Decimal.denominator ⟨s, e⟩) := by
  have hsign : (Binary64.ofInt s).negative = false := by simp [Binary64.ofInt]
  have hone := unitsPerOne_pos
  rw [Decimal.numerator, Decimal.denominator]
  by_cases hneg : e < 0
  · have hup : e.toNat = 0 := by omega
    have hdown : (-e).toNat = e.natAbs := by omega
    rw [scale?, if_pos hneg, divideByPower?_of_le hsign (by omega), units_ofInt_of_le hs,
      tenUnits_of_le he, ofRatio?_mul_right _ _ _ hone, hup, hdown, Nat.pow_zero, Nat.mul_one]
  · obtain ⟨n, rfl⟩ := Int.eq_ofNat_of_zero_le (Int.not_lt.1 hneg)
    have hdown : (-(n : Int)).toNat = 0 := by omega
    have hscaled := ofRatio?_mul_right false (s * 10 ^ n) 1 (Nat.mul_pos hone hone)
    rw [Nat.one_mul] at hscaled
    rw [scale?_of_le hsign (by omega), units_ofInt_of_le hs, tenUnits_of_le (by omega),
      Nat.mul_mul_mul_comm, hscaled, hdown, Int.toNat_natCast, Nat.pow_zero]

/-- A word that is not scaled is rounded once. -/
theorem scale?_zero_right {s : Nat} (hs : s < 2 ^ 64) :
    scale? (.ofInt s) 0 = ofRatio? false s 1 := by
  have hsign : (Binary64.ofInt s).negative = false := by simp [Binary64.ofInt]
  have hone := unitsPerOne_pos
  have hscale := scale?_of_le (n := 0) hsign (by decide)
  have hten : tenUnits 0 = unitsPerOne := by
    rw [tenUnits_of_le (by decide), Nat.pow_zero, Nat.one_mul]
  rw [hten, ofRatio?_mul_right _ _ _ hone, units_ofInt hs, ofRatio?,
    rankOfRatio_unitsOfRank] at hscale
  exact hscale

/-- The digits of a simple decimal fit 64 bits. -/
theorem digits_lt_of_isSimple {d : Decimal} (h : d.IsSimple) : d.digits < 2 ^ 64 := by
  rcases h with hzero | ⟨hlt, -⟩ | ⟨hle, -⟩ <;> omega

/-- The nearest number of a simple decimal is what its digits are scaled to. -/
theorem scale?_of_isSimple {d : Decimal} (h : d.IsSimple) :
    scale? (.ofInt d.digits) d.exponent = ofRatio? false d.numerator d.denominator := by
  obtain ⟨digits, exponent⟩ := d
  rcases h with hzero | ⟨hlt, hexponent⟩ | ⟨hle, hexponent⟩
  · obtain rfl : digits = 0 := hzero
    rw [ofInt_zero, scale?_zero, ← ofDecimal?_eq]
    rfl
  · obtain rfl : exponent = 0 := hexponent
    rw [scale?_zero_right hlt]
    simp [Decimal.numerator, Decimal.denominator]
  · exact scale?_of_le_of_le hle hexponent

/-- A number text whose decimal is simple is decoded as the nearest number. -/
theorem toBinary64?_eq_ofDecimal? {n : Numeral} (h : n.decimal.IsSimple) :
    n.toBinary64? = ofDecimal? n.negative n.decimal := by
  rw [toBinary64?_eq, taken_eq_decimal (digits_lt_of_isSimple h), scale?_of_isSimple h,
    ofDecimal?_eq, ofRatio?, ofRatio?, ofRank?, ofRank?]
  split <;> rfl

end Numeral

end DocQuery
