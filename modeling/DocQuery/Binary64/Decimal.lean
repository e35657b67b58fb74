import DocQuery.Binary64.Round
import DocQuery.Decimal.Basic

/-!
# Reading decimals into binary64

`Binary64.ofDecimal?` takes the binary64 number nearest to a decimal, a tie going to the even
significand. A decimal beyond the largest finite number has none. The two tests on the magnitude
only save work: from `10 ^ 310` on everything is out of range, and below `10 ^ -325` everything
rounds to zero.

* `Binary64.ofDecimal?_mul_ten`: the outcome does not depend on the form of the decimal.
-/

namespace DocQuery

/-- A further zero is a further digit. -/
theorem decimalWidth_mul_ten {n : Nat} (hpositive : 0 < n) :
    decimalWidth (10 * n) = decimalWidth n + 1 := by
  have hbase : (1 : Nat) < 10 := by decide
  have hsplit :=
    Nat.toDigits_append_toDigits (b := 10) (n := n) (d := 0) hbase hpositive (by decide)
  rw [decimalWidth, decimalWidth, ← Nat.add_zero (10 * n), ← hsplit]
  simp

namespace Binary64

/-- A zero with the given sign. -/
def signedZero (negative : Bool) : Binary64 := zero.withSign negative

/-- The number nearest to a decimal, with the given sign. -/
def ofDecimal? (negative : Bool) (d : Decimal) : Option Binary64 :=
  if d.digits = 0 then some (signedZero negative)
  else if 310 < d.magnitude then none
  else if d.magnitude < -324 then some (signedZero negative)
  else ofRatio? negative d.numerator d.denominator

/-- Moving a final zero into the exponent does not change the number. -/
theorem ofDecimal?_mul_ten (negative : Bool) (n : Nat) (e : Int) :
    ofDecimal? negative ⟨10 * n, e⟩ = ofDecimal? negative ⟨n, e + 1⟩ := by
  by_cases hzero : n = 0
  · simp [ofDecimal?, hzero]
  -- a further digit makes up for the smaller power of ten
  have hmagnitude : Decimal.magnitude ⟨10 * n, e⟩ = Decimal.magnitude ⟨n, e + 1⟩ := by
    simp only [Decimal.magnitude, decimalWidth_mul_ten (Nat.pos_of_ne_zero hzero)]
    omega
  have hratio :
      ofRatio? negative (Decimal.numerator ⟨10 * n, e⟩) (Decimal.denominator ⟨10 * n, e⟩) =
      ofRatio? negative (Decimal.numerator ⟨n, e + 1⟩) (Decimal.denominator ⟨n, e + 1⟩) := by
    simp only [Decimal.numerator, Decimal.denominator, ofRatio?]
    by_cases hwhole : 0 ≤ e
    · have hup : (e + 1).toNat = e.toNat + 1 := by omega
      have hsame : (-e).toNat = (-(e + 1)).toNat := by omega
      rw [hup, hsame, Nat.pow_succ, Nat.mul_comm 10 n, Nat.mul_assoc, Nat.mul_comm 10]
    -- below the point, numerator and denominator both have the factor `10`
    · have hdown : (-e).toNat = (-(e + 1)).toNat + 1 := by omega
      have hsame : e.toNat = 0 ∧ (e + 1).toNat = 0 := by omega
      rw [hdown, hsame.1, hsame.2, Nat.pow_succ, Nat.pow_zero, Nat.mul_one, Nat.mul_one,
        Nat.mul_comm 10 n, rankOfRatio_mul_right _ _ (by decide)]
  have hnonzero : ¬ 10 * n = 0 := by omega
  simp [ofDecimal?, hmagnitude, hratio, hzero, hnonzero]

/-- The trimmed form of a decimal is read as the same number. -/
theorem ofDecimal?_trim (negative : Bool) (d : Decimal) :
    ofDecimal? negative d.trim = ofDecimal? negative d :=
  Decimal.trim_cases (P := fun t => ofDecimal? negative t = ofDecimal? negative d)
    (fun n e hholds => by rw [← ofDecimal?_mul_ten]; exact hholds) d rfl

end Binary64

end DocQuery
