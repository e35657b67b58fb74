/-!
# Decimal numbers

A non-negative decimal number in the form `digits * 10 ^ exponent`. The same number has many such
forms; `Decimal.trim` takes the one whose last digit is not zero.

* `Decimal.trim_cases`: a property that survives moving a final zero into the exponent passes from
  a decimal to its trimmed form.
-/

-- powers are those of the core library, also where other libraries are at hand
attribute [local instance (high)] instPowNat

namespace DocQuery

/-- How many decimal digits a number is written with; `0` has one. -/
def decimalWidth (n : Nat) : Nat := (Nat.toDigits 10 n).length

/-- The decimal number `digits * 10 ^ exponent`. -/
structure Decimal where
  /-- The digits, read as one whole number. -/
  digits : Nat
  /-- The power of ten that scales them. -/
  exponent : Int
  deriving DecidableEq, Repr

namespace Decimal

/-- The numerator of the number as a fraction whose denominator is `denominator`. -/
def numerator (d : Decimal) : Nat := d.digits * 10 ^ d.exponent.toNat

/-- A power of ten by which `numerator` is divided. -/
def denominator (d : Decimal) : Nat := 10 ^ (-d.exponent).toNat

/-- The power of ten that the number is below: `0.1` times it is at most the number, unless the
number is zero. -/
def magnitude (d : Decimal) : Int := d.exponent + decimalWidth d.digits

/-- Moves the final zeros of the digits into the exponent. -/
def trim (d : Decimal) : Decimal :=
  if d.digits ≠ 0 ∧ d.digits % 10 = 0 then trim ⟨d.digits / 10, d.exponent + 1⟩ else d
termination_by d.digits
decreasing_by omega

/-- A property that survives moving a final zero into the exponent passes to the trimmed form. -/
theorem trim_cases {P : Decimal → Prop}
    (hstep : ∀ n e, P ⟨10 * n, e⟩ → P ⟨n, e + 1⟩) (d : Decimal) (hholds : P d) : P d.trim := by
  fun_induction trim d with
  | case1 d hzero ih =>
    apply ih
    apply hstep
    have hwhole : 10 * (d.digits / 10) = d.digits := by omega
    rwa [hwhole]
  | case2 d _ => exact hholds

end Decimal

end DocQuery
