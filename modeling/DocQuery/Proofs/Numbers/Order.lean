import DocQuery.Json.Number
import DocQuery.Proofs.Numbers.Exactness
import Mathlib.Data.Set.Defs

/-!
# The order of numbers

The three ways of comparing numbers come down to one. Numbers are compared as the nearest binary64
numbers, and integers that are rounded to the same one are compared exactly. As rounding keeps the
order of integers, this is no different from comparing integers exactly in the first place.

So the order of numbers is transitive but for one case. A binary64 number equals all integers that
are rounded to it, and from `2 ^ 53` on these are several, which do not equal each other.

* `Number.order_eq`: the order of two numbers.
* `Number.order_trans`: transitivity, if no binary64 number equals two of the integers at hand.
* `Number.separated_of_natAbs_le`: this is so of integers up to `2 ^ 53`.
-/

namespace DocQuery

/-- In a transitive order, two outcomes that do not descend make up a third one. -/
theorem compare_eq_then {α : Type} [Ord α] [Std.TransOrd α] {x y z : α} (hxy : compare x y ≠ .gt)
    (hyz : compare y z ≠ .gt) : compare x z = (compare x y).then (compare y z) := by
  cases h : compare x y with
  | lt => exact Std.TransCmp.lt_of_lt_of_isLE h (Ordering.isLE_iff_ne_gt.2 hyz)
  | eq => exact Std.TransCmp.congr_left h
  | gt => exact absurd h hxy

namespace Binary64

/-- Rounding keeps the order of two integers, or makes them the same. -/
theorem signedRank_ofInt_mono {m n : Int} (hle : m ≤ n) :
    (ofInt m).signedRank ≤ (ofInt n).signedRank := by
  have hranks {a b : Nat} (h : a ≤ b) : rankOfRatio a 1 ≤ rankOfRatio b 1 :=
    rankOfRatio_mono Nat.one_pos h
  simp only [signedRank, ofInt, decide_eq_true_eq]
  rcases Int.lt_or_le n 0 with hneg | hnonneg
  · have hrank := hranks (show n.natAbs ≤ m.natAbs by omega)
    rw [if_pos hneg, if_pos (by omega)]
    omega
  rcases Int.lt_or_le m 0 with hneg | hnonneg'
  · rw [if_pos hneg, if_neg (by omega)]
    omega
  · have hrank := hranks (show m.natAbs ≤ n.natAbs by omega)
    rw [if_neg (by omega), if_neg (by omega)]
    omega

/-- Integers are in the order that they have when they are rounded. -/
theorem lt_of_signedRank_ofInt_lt {m n : Int} (h : (ofInt m).signedRank < (ofInt n).signedRank) :
    m < n :=
  Int.not_le.1 fun hle => Int.not_le.2 h (signedRank_ofInt_mono hle)

/-- The magnitude of an integer up to `2 ^ 53` is not rounded. -/
theorem units_ofInt_of_natAbs_le {n : Int} (h : n.natAbs ≤ 2 ^ 53) :
    (ofInt n).units = n.natAbs * unitsPerOne := by
  have hrank : (ofInt n).rank = (ofInt n.natAbs).rank := by simp only [ofInt, Int.natAbs_natCast]
  rw [← Numeral.units_ofInt_of_le h, units, hrank, ← units]

/-- Integers up to `2 ^ 53` are rounded to different numbers. -/
theorem signedRank_ofInt_inj {m n : Int} (hm : m.natAbs ≤ 2 ^ 53) (hn : n.natAbs ≤ 2 ^ 53)
    (h : (ofInt m).signedRank = (ofInt n).signedRank) : m = n := by
  have habs : m.natAbs = n.natAbs := by
    have hsign (k : Int) : (ofInt k).negative = decide (k < 0) := by simp only [ofInt]
    have hrank : (ofInt m).rank = (ofInt n).rank := by
      simp only [signedRank, hsign, decide_eq_true_eq] at h
      split at h <;> split at h <;> omega
    have hunits : (ofInt m).units = (ofInt n).units := by rw [units, hrank, ← units]
    rw [units_ofInt_of_natAbs_le hm, units_ofInt_of_natAbs_le hn] at hunits
    exact Nat.eq_of_mul_eq_mul_right unitsPerOne_pos hunits
  have hsigns {k l : Int} (hk : k < 0) (hl : 0 < l) : (ofInt k).signedRank ≠ (ofInt l).signedRank :=
    (compare_lt_iff_lt.1 (order_ofInt_of_neg_of_pos hk hl)).ne
  -- of two different integers with one magnitude, one is negative and the other one positive
  by_contra hne
  rcases Int.lt_or_le m 0 with hneg | hnonneg
  · exact hsigns hneg (by omega) h
  · exact hsigns (show n < 0 by omega) (by omega) h.symm

end Binary64

namespace Number

/-- The signed rank of the nearest binary64 number. -/
def rank (x : Number) : Int := x.toBinary64.signedRank

/-- The order of two integers; all other numbers are taken to be equal. -/
def orderOfInts : Number → Number → Ordering
  | .int a _, .int b _ => compare a b
  | _, _ => .eq

/-- A binary64 number is taken to be equal to every number. -/
@[simp]
theorem orderOfInts_float_left (x : Binary64) (y : Number) : orderOfInts (.float x) y = .eq := by
  cases y <;> rfl

/-- Every number is taken to be equal to a binary64 number. -/
@[simp]
theorem orderOfInts_float_right (x : Number) (y : Binary64) : orderOfInts x (.float y) = .eq := by
  cases x <;> rfl

/-- Numbers are compared as the nearest binary64 numbers, and integers that are rounded to the same
one are compared exactly. -/
theorem order_eq (x y : Number) : x.order y = (compare x.rank y.rank).then (x.orderOfInts y) := by
  cases x with
  | float x => simp [order_float_left, Binary64.order, rank, toBinary64]
  | int a ha =>
    cases y with
    | float y => simp [order_float_right, Binary64.order, rank, toBinary64]
    | int b hb =>
      rw [order_int, orderOfInts]
      rcases lt_trichotomy (rank (.int a ha)) (rank (.int b hb)) with hlt | heq | hlt
      · have hab : a < b := Binary64.lt_of_signedRank_ofInt_lt hlt
        rw [compare_lt_iff_lt.2 hlt, compare_lt_iff_lt.2 hab]
        rfl
      · rw [compare_eq_iff_eq.2 heq]
        rfl
      · have hba : b < a := Binary64.lt_of_signedRank_ofInt_lt hlt
        rw [compare_gt_iff_gt.2 hlt, compare_gt_iff_gt.2 hba]
        rfl

variable {x y z : Number}

/-- A number whose nearest binary64 number is smaller is before the other one. -/
theorem order_of_rank_lt (h : x.rank < y.rank) : x.order y = .lt := by
  rw [order_eq, compare_lt_iff_lt.2 h]
  rfl

/-- Numbers with the same nearest binary64 number are compared exactly if both are integers. -/
theorem order_of_rank_eq (h : x.rank = y.rank) : x.order y = x.orderOfInts y := by
  rw [order_eq, compare_eq_iff_eq.2 h]
  rfl

/-- A number that is not after another one has no greater nearest binary64 number. -/
theorem rank_le_of_order (h : x.order y ≠ .gt) : x.rank ≤ y.rank := by
  by_contra hlt
  rw [order_eq, compare_gt_iff_gt.2 (not_le.1 hlt)] at h
  exact h rfl

/-- A number equals the binary64 numbers that are as large as the nearest one. -/
theorem equal_float_iff {y : Binary64} : x.equal (.float y) = true ↔ x.rank = y.signedRank := by
  rw [equal, order_float_right, Binary64.order, beq_iff_eq, compare_eq_iff_eq, rank]

/-- Integers are equal if they are the same. -/
theorem equal_int_iff {a b : Int} {ha : -2 ^ 63 ≤ a ∧ a < 2 ^ 64} {hb : -2 ^ 63 ≤ b ∧ b < 2 ^ 64} :
    (int a ha).equal (.int b hb) = true ↔ a = b := by
  rw [equal, order_int, beq_iff_eq, compare_eq_iff_eq]

/-- No binary64 number among the given numbers equals two different integers among them. -/
def Separated (range : Set Number) : Prop :=
  ∀ x, float x ∈ range → ∀ m hm, int m hm ∈ range → ∀ n hn, int n hn ∈ range →
    (int m hm).equal (.float x) = true → (int n hn).equal (.float x) = true → m = n

/-- Integers that are rounded to a binary64 number at hand are the same. -/
theorem Separated.orderOfInts_eq {range : Set Number} (hrange : Separated range) (hx : x ∈ range)
    (hy : y ∈ range) {u : Binary64} (hu : float u ∈ range) (hxu : x.rank = u.signedRank)
    (hyu : y.rank = u.signedRank) : x.orderOfInts y = .eq := by
  cases x with
  | float _ => exact orderOfInts_float_left _ y
  | int m hm =>
    cases y with
    | float _ => exact orderOfInts_float_right _ _
    | int n hn =>
      exact compare_eq_iff_eq.2
        (hrange u hu m hm hx n hn hy (equal_float_iff.2 hxu) (equal_float_iff.2 hyu))

/-- The order of numbers is transitive if no binary64 number equals two of the integers at hand. -/
theorem order_trans {range : Set Number} (hrange : Separated range) (hx : x ∈ range)
    (hy : y ∈ range) (hz : z ∈ range) (hxy : x.order y ≠ .gt) (hyz : y.order z ≠ .gt) :
    x.order z = (x.order y).then (y.order z) := by
  have hle := rank_le_of_order hxy
  have hle' := rank_le_of_order hyz
  rcases hle.lt_or_eq with hlt | heq
  · rw [order_of_rank_lt (hlt.trans_le hle'), order_of_rank_lt hlt]
    rfl
  rcases hle'.lt_or_eq with hlt | heq'
  · rw [order_of_rank_lt (heq.trans_lt hlt), order_of_rank_lt hlt]
    cases h : x.order y with
    | gt => exact absurd h hxy
    | _ => rfl
  -- all three are rounded to the same number: it is one of them, or they are all integers
  rw [order_of_rank_eq heq] at hxy
  rw [order_of_rank_eq heq'] at hyz
  rw [order_of_rank_eq (heq.trans heq'), order_of_rank_eq heq, order_of_rank_eq heq']
  cases y with
  | float u =>
    rw [hrange.orderOfInts_eq hx hz hy heq heq'.symm]
    simp
  | int b hb =>
    cases x with
    | float u =>
      rw [hrange.orderOfInts_eq hy hz hx heq.symm (heq.trans heq').symm]
      simp
    | int a ha =>
      cases z with
      | float u =>
        rw [hrange.orderOfInts_eq hx hy hz (heq.trans heq') heq']
        simp
      | int c hc => exact compare_eq_then hxy hyz

/-- Integers up to `2 ^ 53` are rounded to themselves, so that no binary64 number equals two of
them. -/
theorem separated_of_natAbs_le {range : Set Number}
    (h : ∀ n hn, int n hn ∈ range → n.natAbs ≤ 2 ^ 53) : Separated range := by
  intro x _ m hm hmem n hn hmem' hmx hnx
  have hranks := (equal_float_iff.1 hmx).trans (equal_float_iff.1 hnx).symm
  exact Binary64.signedRank_ofInt_inj (h m hm hmem) (h n hn hmem') hranks

end Number

end DocQuery
