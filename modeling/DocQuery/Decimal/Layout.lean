import DocQuery.Decimal.Basic

/-!
# Writing decimal numbers

A decimal number is written positionally, as in `0.00125` or `150`, or scientifically, as in
`1.25e-3`. A `Decimal.Layout` fixes which of the two is taken and where a fraction `.0` is added
to a whole number or a lone digit.
-/

namespace DocQuery

namespace Decimal

/-- The decisions of a format for decimal numbers. -/
structure Layout where
  /-- The powers of ten of a leading digit, from the first up to but not including the second,
  that are written positionally; all of them when absent. -/
  positional : Option (Int × Int)
  /-- Whether a whole number in positional notation ends in `.0`. -/
  wholeFraction : Bool
  /-- Whether a lone digit in scientific notation is followed by `.0`. -/
  digitFraction : Bool

/-- The fraction `.0`, when asked for. -/
def zeroFraction (wanted : Bool) : List Char :=
  if wanted then ['.', '0'] else []

/-- Positional text: all places down to the last digit, and at least the one before the point. -/
def positionalText (wholeFraction : Bool) (d : Decimal) : List Char :=
  let digits := Nat.toDigits 10 d.digits
  if 0 ≤ d.exponent then
    digits ++ List.replicate d.exponent.toNat '0' ++ zeroFraction wholeFraction
  else
    let places := (-d.exponent).toNat
    if places < digits.length then
      digits.take (digits.length - places) ++ '.' :: digits.drop (digits.length - places)
    else
      '0' :: '.' :: (List.replicate (places - digits.length) '0' ++ digits)

/-- A power of ten in scientific notation, always with its sign. -/
def exponentText (exponent : Int) : List Char :=
  'e' :: (if exponent < 0 then '-' else '+') :: Nat.toDigits 10 exponent.natAbs

/-- Scientific text: one digit, the others as a fraction, and the power of ten. -/
def scientificText (digitFraction : Bool) (d : Decimal) : List Char :=
  let digits := Nat.toDigits 10 d.digits
  let fraction := match digits.drop 1 with
    | [] => zeroFraction digitFraction
    | others => '.' :: others
  digits.take 1 ++ fraction ++ exponentText (d.magnitude - 1)

/-- The text of a decimal number in a given layout. -/
def text (layout : Layout) (d : Decimal) : List Char :=
  match layout.positional with
  | none => positionalText layout.wholeFraction d
  | some (low, high) =>
    if low ≤ d.magnitude - 1 ∧ d.magnitude - 1 < high then positionalText layout.wholeFraction d
    else scientificText layout.digitFraction d

end Decimal

end DocQuery
