import DocQuery.Binary64.Decimal
import DocQuery.Json.Number

/-!
# Number texts of JSON

A number text is a sign, whole digits, an optional fraction and an optional power of ten.
`Numeral.scan?` takes one from the front of a text and `Numeral.toNumber?` decodes it.

A text without fraction and power of ten is an integer if it fits 64 bits. Everything else becomes
a binary64 number in a fixed sequence of roundings: the leading digits that fit an unsigned 64-bit
word are taken as the significand and rounded, and the power of ten that remains is multiplied or
divided in, `10 ^ 308` at a time. The outcome can therefore differ from the nearest number in its
last digit. Minus zero is the binary64 number `-0.0`.

* `Numeral.length_lt_of_scan?`: a number text is not empty.
-/

-- powers are those of the core library, also where other libraries are at hand
attribute [local instance (high)] instPowNat

namespace DocQuery

/-- A number text, taken apart. -/
structure Numeral where
  /-- Whether the text begins with a minus sign. -/
  negative : Bool
  /-- The digits before the point. -/
  whole : List Char
  /-- The digits after the point, if there is one. -/
  fraction : Option (List Char)
  /-- The power of ten, if there is one: whether it is negative, and its digits. -/
  power : Option (Bool × List Char)
  deriving DecidableEq, Repr

namespace Numeral

/-- The digits at the front of a text, if there are any, and the rest. -/
def digits? (cs : List Char) : Option (List Char × List Char) :=
  match cs.takeWhile Char.isDigit with
  | [] => none
  | digits => some (digits, cs.dropWhile Char.isDigit)

/-- The whole part: a zero alone, or digits that do not begin with a zero. -/
def scanWhole? : List Char → Option (List Char × List Char)
  | '0' :: rest => some (['0'], rest)
  | cs => digits? cs

/-- The fraction, if a point follows; a point without a digit is an error. -/
def scanFraction? : List Char → Option (Option (List Char) × List Char)
  | '.' :: rest => (digits? rest).map fun (digits, rest) => (some digits, rest)
  | cs => some (none, cs)

/-- The sign of a power of ten: whether it is a minus sign. -/
def scanSign : List Char → Bool × List Char
  | '+' :: rest => (false, rest)
  | '-' :: rest => (true, rest)
  | cs => (false, cs)

/-- The power of ten, if its letter follows; a letter without a digit is an error. -/
def scanPower? : List Char → Option (Option (Bool × List Char) × List Char)
  | [] => some (none, [])
  | c :: rest =>
    if c = 'e' ∨ c = 'E' then
      let sign := scanSign rest
      (digits? sign.2).map fun (digits, rest) => (some (sign.1, digits), rest)
    else some (none, c :: rest)

/-- The minus sign at the front of a text, if there is one, and the rest. -/
def scanMinus : List Char → Bool × List Char
  | '-' :: rest => (true, rest)
  | cs => (false, cs)

/-- A number text at the front of a text, and the rest. -/
def scan? (cs : List Char) : Option (Numeral × List Char) := do
  let minus := scanMinus cs
  let (whole, cs) ← scanWhole? minus.2
  let (fraction, cs) ← scanFraction? cs
  let (power, cs) ← scanPower? cs
  return (⟨minus.1, whole, fraction, power⟩, cs)

/-- The rest after the digits at the front is shorter. -/
theorem length_lt_of_digits? {cs digits rest : List Char}
    (hfound : digits? cs = some (digits, rest)) : rest.length < cs.length := by
  have hsplit :=
    congrArg List.length (List.takeWhile_append_dropWhile (p := Char.isDigit) (l := cs))
  rw [List.length_append] at hsplit
  unfold digits? at hfound
  split at hfound
  · simp at hfound
  · rename_i hnonempty
    obtain ⟨-, rfl⟩ := by simpa using hfound
    have := List.length_pos_iff.2 hnonempty
    omega

/-- The rest after the whole part is shorter. -/
theorem length_lt_of_scanWhole? {cs digits rest : List Char}
    (hfound : scanWhole? cs = some (digits, rest)) : rest.length < cs.length := by
  unfold scanWhole? at hfound
  split at hfound
  · obtain ⟨-, rfl⟩ := by simpa using hfound
    simp
  · exact length_lt_of_digits? hfound

/-- The rest after a minus sign is not longer. -/
theorem length_scanMinus_le (cs : List Char) : (scanMinus cs).2.length ≤ cs.length := by
  unfold scanMinus
  split <;> simp

/-- The rest after the fraction is not longer. -/
theorem length_le_of_scanFraction? {cs rest : List Char} {fraction : Option (List Char)}
    (hfound : scanFraction? cs = some (fraction, rest)) : rest.length ≤ cs.length := by
  unfold scanFraction? at hfound
  split at hfound
  · obtain ⟨⟨digits, after⟩, hread, hsame⟩ := Option.map_eq_some_iff.1 hfound
    obtain ⟨-, rfl⟩ := by simpa using hsame
    have := length_lt_of_digits? hread
    simp only [List.length_cons]
    omega
  · obtain ⟨-, rfl⟩ := by simpa using hfound
    exact Nat.le_refl _

/-- The rest after the sign of a power of ten is not longer. -/
theorem length_scanSign_le (cs : List Char) : (scanSign cs).2.length ≤ cs.length := by
  unfold scanSign
  split <;> simp

/-- The rest after the power of ten is not longer. -/
theorem length_le_of_scanPower? {cs rest : List Char} {power : Option (Bool × List Char)}
    (hfound : scanPower? cs = some (power, rest)) : rest.length ≤ cs.length := by
  unfold scanPower? at hfound
  split at hfound
  · obtain ⟨-, rfl⟩ := by simpa using hfound
    exact Nat.le_refl _
  · rename_i c after
    split at hfound
    · obtain ⟨⟨digits, last⟩, hread, hsame⟩ := Option.map_eq_some_iff.1 hfound
      obtain ⟨-, rfl⟩ := by simpa using hsame
      have := length_lt_of_digits? hread
      have := length_scanSign_le after
      simp only [List.length_cons]
      omega
    · obtain ⟨-, rfl⟩ := by simpa using hfound
      exact Nat.le_refl _

/-- A number text is not empty. -/
theorem length_lt_of_scan? {cs rest : List Char} {numeral : Numeral}
    (hfound : scan? cs = some (numeral, rest)) : rest.length < cs.length := by
  simp only [scan?, Option.bind_eq_bind, Option.bind_eq_some_iff, Option.pure_def,
    Option.some.injEq, Prod.mk.injEq, Prod.exists] at hfound
  obtain ⟨whole, cs₁, hwhole, fraction, cs₂, hfraction, power, cs₃, hpower, -, rfl⟩ := hfound
  have := length_scanMinus_le cs
  have := length_lt_of_scanWhole? hwhole
  have := length_le_of_scanFraction? hfraction
  have := length_le_of_scanPower? hpower
  omega

/-- Appends digits to a number for as long as it fits 64 bits, and gives the digits left over. -/
def accumulate (n : Nat) : List Char → Nat × List Char
  | [] => (n, [])
  | c :: cs =>
    let longer := 10 * n + (c.toNat - '0'.toNat)
    if longer < 2 ^ 64 then accumulate longer cs else (n, c :: cs)

/-- The value of a power of ten. -/
def powerValue : Option (Bool × List Char) → Int
  | none => 0
  | some (negative, digits) =>
    let value := Nat.ofDigitChars 10 digits 0
    if negative then -value else value

/-- The binary64 number nearest to `10 ^ n`. -/
def powerOfTen? (n : Nat) : Option Binary64 := Binary64.ofDecimal? false ⟨1, n⟩

/-- Divides by `10 ^ n`, at most `10 ^ 308` at a time, until nothing is left to divide. -/
def divideByPower? (x : Binary64) (n : Nat) : Option Binary64 :=
  if n ≤ 308 then do x.div? (← powerOfTen? n)
  else if x.isZero then some x
  else do
    let largest ← powerOfTen? 308
    divideByPower? (← x.div? largest) (n - 308)
termination_by n

/-- Multiplies by a power of ten; nothing but zero reaches beyond `10 ^ 308`. -/
def scale? (x : Binary64) (power : Int) : Option Binary64 :=
  if power < 0 then divideByPower? x power.natAbs
  else if power ≤ 308 then do x.mul? (← powerOfTen? power.natAbs)
  else if x.isZero then some x
  else none

/-- The binary64 number of a text; there is none when it is out of range. -/
def toBinary64? (n : Numeral) : Option Binary64 :=
  let (head, unread) := accumulate 0 n.whole
  let fraction := n.fraction.getD []
  -- a digit of the fraction may fit although a digit of the whole part did not
  let (significand, unused) := accumulate head fraction
  let places : Int := fraction.length - unused.length
  let power := unread.length - places + powerValue n.power
  (scale? (.ofInt significand) power).map (·.withSign n.negative)

/-- The integer of a text that has neither fraction nor power of ten, if it fits 64 bits. -/
def toInt? (n : Numeral) : Option Number :=
  let value := Nat.ofDigitChars 10 n.whole 0
  if n.fraction.isSome ∨ n.power.isSome then none
  -- minus zero is no integer
  else if n.negative then (if value = 0 then none else Number.ofInt? (-value))
  else Number.ofInt? value

/-- The number of a text; there is none when it is out of range. -/
def toNumber? (n : Numeral) : Option Number :=
  match n.toInt? with
  | some integer => some integer
  | none => n.toBinary64?.map .float

end Numeral

end DocQuery
