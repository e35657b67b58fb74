/-!
# Finite binary64 numbers

A finite number of the 64-bit binary floating-point format is a sign and the *rank* of its
magnitude, that is, its position among all non-negative finite numbers in ascending order. The
rank of `0` is `0`, the rank of the least positive number `2 ^ -1074` is `1`, and consecutive
numbers have consecutive ranks. Hence magnitudes are compared by comparing ranks, and the largest
finite number has rank `2047 * 2 ^ 52 - 1`.

All magnitudes are whole multiples of `2 ^ -1074`; `Binary64.units` is that multiple.

* `Binary64.order_swap`: swapping the sides of a comparison swaps its outcome.
-/

-- powers are those of the core library, also where other libraries are at hand; the default for
-- numerals in the exponent cannot be set for one module alone
attribute [default_instance (high + 1)] instPowNat
attribute [local instance (high)] instPowNat

namespace DocQuery

/-- A finite binary64 number. -/
structure Binary64 where
  /-- Whether the number carries a minus sign; zero may carry one too. -/
  negative : Bool
  /-- The position of the magnitude among the non-negative finite numbers. -/
  rank : Nat
  /-- Ranks from `2047 * 2 ^ 52` on would be infinite. -/
  rank_lt : rank < 2047 * 2 ^ 52
  deriving DecidableEq, Repr

namespace Binary64

/-- Positive zero. -/
def zero : Binary64 := ⟨false, 0, by decide⟩

/-- The same magnitude with the given sign. -/
def withSign (x : Binary64) (negative : Bool) : Binary64 := { x with negative }

/-- Whether the number is a positive or a negative zero. -/
def isZero (x : Binary64) : Bool := x.rank == 0

/-- The power of two by which the significand of a rank is scaled: `0` for the smallest numbers,
and one more at each further power of two. -/
def scaleOfRank (rank : Nat) : Nat := rank / 2 ^ 52 - 1

/-- The magnitude of a rank as a multiple of `2 ^ -1074`. -/
def unitsOfRank (rank : Nat) : Nat :=
  (rank - scaleOfRank rank * 2 ^ 52) * 2 ^ scaleOfRank rank

/-- The magnitude as a multiple of `2 ^ -1074`. -/
def units (x : Binary64) : Nat := unitsOfRank x.rank

/-- The signed rank, which orders the numbers and is `0` for either zero. -/
def signedRank (x : Binary64) : Int := if x.negative then -x.rank else x.rank

/-- The numerical order; the two zeros are equal. -/
def order (x y : Binary64) : Ordering := compare x.signedRank y.signedRank

/-- Numerical equality; the two zeros are equal. -/
def same (x y : Binary64) : Bool := x.signedRank == y.signedRank

/-- Swapping the sides of a comparison swaps its outcome. -/
theorem order_swap (x y : Binary64) : (order x y).swap = order y x := by
  simp only [order]
  exact (Std.OrientedOrd.eq_swap).symm

/-- Two numbers compare as equal exactly when they are numerically equal. -/
theorem order_eq_eq_iff_same (x y : Binary64) : order x y = .eq ↔ same x y = true := by
  simp [order, same]

end Binary64

end DocQuery
