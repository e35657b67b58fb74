import DocQuery.Binary64.Decimal

/-!
# Shortest decimals

The decimal with the fewest digits that is read back as a given binary64 number, and of those the
nearest one. For one digit, two digits and so on, the two neighbours of the number on the grid of
that many digits are read back; the first grid with a hit decides. Seventeen digits always
suffice; should they not, the exact expansion, which every binary64 number has, is taken.

* `Binary64.ofDecimal?_of_shortest?`: a decimal that the search finds is read back.
-/

-- powers are those of the core library, also where other libraries are at hand
attribute [local instance (high)] instPowNat

namespace DocQuery

/-- Which of two equally near decimals is taken. -/
inductive TieRule where
  /-- The one whose last digit is even. -/
  | even
  /-- The greater one. -/
  | up
  deriving DecidableEq, Repr

namespace Decimal

/-- The two neighbours of `digits * 10 ^ exponent` among the decimals without the last `dropped`
digits, the nearer one first. -/
def neighbours (ties : TieRule) (d : Decimal) (dropped : Nat) : List Decimal :=
  let unit := 10 ^ dropped
  let low := d.digits / unit
  let twice := 2 * (d.digits % unit)
  let lowFirst := twice < unit ∨ (twice = unit ∧ ties = .even ∧ low % 2 = 0)
  let below : Decimal := ⟨low, d.exponent + dropped⟩
  let above : Decimal := ⟨low + 1, d.exponent + dropped⟩
  if lowFirst then [below, above] else [above, below]

end Decimal

namespace Binary64

/-- The exact decimal expansion of the magnitude. -/
def exactDecimal (x : Binary64) : Decimal := ⟨x.units * 5 ^ 1074, -1074⟩

/-- Whether a decimal is read back as the number. -/
def isReadFrom (x : Binary64) (d : Decimal) : Bool :=
  ofDecimal? x.negative d == some x

/-- The shortest decimal on the first seventeen grids that is read back as the number. -/
def shortest? (ties : TieRule) (x : Binary64) : Option Decimal :=
  let exact := x.exactDecimal
  let width := decimalWidth exact.digits
  (List.range 17).findSome? fun i =>
    (exact.neighbours ties (width - (i + 1))).find? x.isReadFrom

/-- The shortest decimal that is read back as the number. -/
def shortest (ties : TieRule) (x : Binary64) : Decimal :=
  if x.rank = 0 then ⟨0, 0⟩ else (x.shortest? ties |>.getD x.exactDecimal).trim

/-- A decimal that the search finds is read back as the number. -/
theorem ofDecimal?_of_shortest? {ties : TieRule} {x : Binary64} {d : Decimal}
    (hfound : x.shortest? ties = some d) : ofDecimal? x.negative d = some x := by
  obtain ⟨i, -, hit⟩ := List.exists_of_findSome?_eq_some hfound
  simpa [isReadFrom] using List.find?_some hit

end Binary64

end DocQuery
