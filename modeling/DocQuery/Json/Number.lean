import DocQuery.Binary64.Round

/-!
# JSON numbers

A JSON number is an integer that fits 64 bits, signed or unsigned, or a finite binary64 number.
Two numbers are compared as signed integers if both are such, else as unsigned integers, and else as
binary64 numbers, an integer being rounded first.

* `Number.order_swap`: swapping the sides of a comparison swaps its outcome.
* `Number.order_int`: two integers are compared exactly, whichever of the three ways is taken.
-/

namespace DocQuery

/-- A number of a JSON document. -/
inductive Number where
  /-- An integer from `-2 ^ 63` up to `2 ^ 64 - 1`. -/
  | int (value : Int) (hrange : -2 ^ 63 ≤ value ∧ value < 2 ^ 64)
  /-- A finite binary64 number. -/
  | float (value : Binary64)
  deriving DecidableEq, Repr

namespace Number

/-- The integer as a JSON number, if it fits. -/
def ofInt? (value : Int) : Option Number :=
  if hrange : -2 ^ 63 ≤ value ∧ value < 2 ^ 64 then some (.int value hrange) else none

/-- A signed 64-bit word as a JSON number. -/
def ofInt64 (word : Int64) : Number :=
  .int word.toInt ⟨word.le_toInt, by have := word.toInt_lt; omega⟩

/-- An unsigned 64-bit word as a JSON number. -/
def ofUInt64 (word : UInt64) : Number :=
  .int word.toNat ⟨by omega, by have := word.toNat_lt; omega⟩

/-- The nearest binary64 number. -/
def toBinary64 : Number → Binary64
  | .int value _ => .ofInt value
  | .float value => value

/-- The number as a signed 64-bit integer, if it is one. -/
def toSigned? : Number → Option Int
  | .int value _ => if value < 2 ^ 63 then some value else none
  | .float _ => none

/-- The number as an unsigned 64-bit integer, if it is one. -/
def toUnsigned? : Number → Option Nat
  | .int value _ => if 0 ≤ value then some value.toNat else none
  | .float _ => none

/-- The numerical order. -/
def order (a b : Number) : Ordering :=
  match a.toSigned?, b.toSigned? with
  | some x, some y => compare x y
  | _, _ =>
    match a.toUnsigned?, b.toUnsigned? with
    | some x, some y => compare x y
    | _, _ => a.toBinary64.order b.toBinary64

/-- Numerical equality, whatever the representation. -/
def equal (a b : Number) : Bool := a.order b == .eq

/-- Equality of representation: an integer is not the same as a binary64 number, and the two
binary64 zeros are the same. -/
def same : Number → Number → Bool
  | .int a _, .int b _ => a == b
  | .float a, .float b => a.same b
  | _, _ => false

/-- Swapping the sides of a comparison swaps its outcome. -/
theorem order_swap (a b : Number) : (order a b).swap = order b a := by
  have hsigned (x y : Int) : (compare x y).swap = compare y x := Std.OrientedOrd.eq_swap.symm
  have hunsigned (x y : Nat) : (compare x y).swap = compare y x := Std.OrientedOrd.eq_swap.symm
  simp only [order]
  cases a.toSigned? <;> cases b.toSigned? <;> cases a.toUnsigned? <;> cases b.toUnsigned? <;>
    simp only [hsigned, hunsigned, Binary64.order_swap]

/-- A number is not before or after itself. -/
theorem order_self (a : Number) : order a a = .eq := by
  have hswap := order_swap a a
  cases same : order a a <;> simp [same] at hswap ⊢

/-- A number equals itself. -/
theorem equal_self (a : Number) : equal a a = true := by
  rw [equal, order_self]
  rfl

/-- Two integers are compared exactly, whichever of the three ways is taken. -/
theorem order_int (a b : Int) (ha : -2 ^ 63 ≤ a ∧ a < 2 ^ 64)
    (hb : -2 ^ 63 ≤ b ∧ b < 2 ^ 64) :
    order (.int a ha) (.int b hb) = compare a b := by
  simp only [order, toSigned?, toUnsigned?, toBinary64]
  split
  -- both are signed
  · rename_i x y hleft hright
    obtain ⟨-, ⟨⟩⟩ := Option.ite_none_right_eq_some.1 hleft
    obtain ⟨-, ⟨⟩⟩ := Option.ite_none_right_eq_some.1 hright
    rfl
  · rename_i hnotsigned
    split
    -- both are unsigned
    · rename_i x y hleft hright
      obtain ⟨hx, ⟨⟩⟩ := Option.ite_none_right_eq_some.1 hleft
      obtain ⟨hy, ⟨⟩⟩ := Option.ite_none_right_eq_some.1 hright
      have hbefore : a.toNat < b.toNat ↔ a < b := by omega
      have same : a.toNat = b.toNat ↔ a = b := by omega
      show compareOfLessAndEq a.toNat b.toNat = compareOfLessAndEq a b
      simp only [compareOfLessAndEq, hbefore, same]
    -- one is negative, and the other one too large to be signed
    · rename_i hnotunsigned
      rcases Int.lt_or_le a 0 with hnegative | _
      · have hpositive : 0 < b := by grind
        rw [Binary64.order_ofInt_of_neg_of_pos hnegative hpositive]
        exact (Std.compare_eq_lt.2 (Int.lt_trans hnegative hpositive)).symm
      · have hnegative : b < 0 := by grind
        have hpositive : 0 < a := by grind
        rw [← Binary64.order_swap, Binary64.order_ofInt_of_neg_of_pos hnegative hpositive]
        exact (Std.compare_eq_gt.2 (Int.lt_trans hnegative hpositive)).symm

/-- A binary64 number is compared with the nearest binary64 number on the other side. -/
theorem order_float_left (x : Binary64) (b : Number) : order (.float x) b = x.order b.toBinary64 :=
  rfl

/-- A number is compared with a binary64 number as its nearest binary64 number. -/
theorem order_float_right (a : Number) (y : Binary64) :
    order a (.float y) = a.toBinary64.order y := by
  rw [← order_swap, order_float_left, Binary64.order_swap]

end Number

end DocQuery
