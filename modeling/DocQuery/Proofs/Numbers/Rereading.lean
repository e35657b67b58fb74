import DocQuery.Proofs.Numbers.Accuracy

/-!
# Numbers that are written and read again

An integer is read again as itself. A binary64 number is written with the fewest digits that lead
back to it if the number nearest to them is taken, but the decoder of documents rounds more than
once. It always reads some number, with the same sign and at most five ranks away.

* `Binary64.abs_rank_reread_sub_le`: how far a number is moved.
* `Numeral.exists_isText_numberText`: what the text of a number is decoded as.
-/

namespace DocQuery

namespace Binary64

/-- The number that is decoded from the text of a number. -/
def reread? (x : Binary64) : Option Binary64 :=
  (Numeral.scan? (Json.floatText Json.floatLayout x)).bind fun scanned => scanned.1.toBinary64?

/-- The number that is decoded from the text of a number, which there always is. -/
def reread (x : Binary64) : Binary64 := x.reread?.getD x

/-- The exact decimals of the largest numbers have 1383 digits. -/
theorem decimalWidth_exactDecimal_of_lt (negative : Bool) (i : Fin 5) :
    decimalWidth (exactDecimal ⟨negative, 2047 * 2 ^ 52 - 1 - i, by omega⟩).digits = 1383 := by
  set digits := (exactDecimal ⟨negative, 2047 * 2 ^ 52 - 1 - i, by omega⟩).digits with hdigits
  have hbounds : 10 ^ 1382 ≤ digits ∧ digits < 10 ^ 1383 := by
    rw [hdigits]
    decide +revert +kernel
  have hle := (Nat.length_toDigits_le_iff (b := 10) (by decide) (by decide)).2 hbounds.2
  have hlt := mt (Nat.length_toDigits_le_iff (b := 10) (by decide) (by decide)).1
    (Nat.not_lt.2 hbounds.1)
  exact Nat.le_antisymm hle (Nat.lt_of_not_le hlt)

/-- A decimal is read back as a number if that has the rank nearest to the decimal. -/
theorem isReadFrom_eq (x : Binary64) (d : Decimal) :
    x.isReadFrom d = decide (rankOfRatio d.numerator d.denominator = x.rank) := by
  obtain ⟨negative, rank, hlt⟩ := x
  rw [isReadFrom, ofDecimal?_eq, ofRatio?, ofRank?, Bool.eq_iff_iff]
  -- a decimal out of range has no number, and its rank is no number's rank
  split
  · simp
  · rename_i hle
    have hne : rankOfRatio d.numerator d.denominator ≠ rank := by omega
    simp [hne]

/-- Among the largest numbers the significand decides whether a decimal is read back. -/
theorem isReadFrom_of_lt (negative : Bool) (i : Fin 5) :
    isReadFrom ⟨negative, 2047 * 2 ^ 52 - 1 - i, by omega⟩ = fun d =>
      decide (roundDivEven (d.numerator * unitsPerOne) (d.denominator * 2 ^ 2045) =
        2 ^ 53 - 1 - i) := by
  funext d
  have hrank : 2047 * 2 ^ 52 - 1 - i.val = 2045 * 2 ^ 52 + (2 ^ 53 - 1 - i.val) := by omega
  rw [isReadFrom_eq, decide_eq_decide]
  dsimp only
  rw [hrank]
  exact rankOfRatio_eq_iff d.denominator_pos (by omega) (by omega)

/-- The largest numbers are read again, although there is not much room above them. -/
theorem isSome_reread?_of_lt (negative : Bool) (i : Fin 5) :
    (reread? ⟨negative, 2047 * 2 ^ 52 - 1 - i, by omega⟩).isSome = true := by
  simp only [reread?, Json.floatText, shortest, shortest?, decimalWidth_exactDecimal_of_lt,
    isReadFrom_of_lt]
  decide +revert +kernel

/-- The number that is read again is at most five ranks away. -/
theorem exists_rank_reread? (x : Binary64) :
    ∃ rank : Nat, x.reread? = ofRank? x.negative rank ∧ |(rank : Int) - x.rank| ≤ 5 := by
  obtain ⟨n, htext, -, hsign, hnearest⟩ := Numeral.exists_isText_floatText x
  obtain ⟨rank, hrank, hclose⟩ := Numeral.exists_rank_toBinary64? htext.hasDigits
  rw [ofDecimal?_eq, ofRatio?, ofRank?] at hnearest
  split at hnearest
  · have hsame := congrArg Binary64.rank (Option.some.inj hnearest)
    dsimp only at hsame
    rw [hsame] at hclose
    exact ⟨rank, by rw [reread?, htext.scan?_eq, Option.bind_some, hrank, hsign], hclose⟩
  · cases hnearest

/-- Every number is read again. -/
theorem isSome_reread? (x : Binary64) : x.reread?.isSome = true := by
  obtain ⟨rank, hrank, hclose⟩ := exists_rank_reread? x
  -- five ranks lead out of range only from the five largest numbers
  by_cases htop : x.rank + 5 < 2047 * 2 ^ 52
  · have hlt : rank < 2047 * 2 ^ 52 := by
      have hupper := (abs_le.1 hclose).2
      omega
    rw [hrank, ofRank?, dif_pos hlt]
    rfl
  · obtain ⟨negative, rank, hlt⟩ := x
    dsimp only at htop
    obtain ⟨i, rfl⟩ : ∃ i : Fin 5, rank = 2047 * 2 ^ 52 - 1 - i :=
      ⟨⟨2047 * 2 ^ 52 - 1 - rank, by omega⟩, by dsimp only; omega⟩
    exact isSome_reread?_of_lt negative i

/-- What is read again. -/
theorem reread?_eq (x : Binary64) : x.reread? = some x.reread := by
  obtain ⟨y, hy⟩ := Option.isSome_iff_exists.1 x.isSome_reread?
  rw [reread, hy, Option.getD_some]

/-- The sign of a number is read again. -/
theorem negative_reread (x : Binary64) : x.reread.negative = x.negative := by
  obtain ⟨rank, hrank, -⟩ := exists_rank_reread? x
  rw [reread?_eq, ofRank?] at hrank
  split at hrank
  · rw [Option.some.inj hrank]
  · cases hrank

/-- A number is moved by at most five ranks. -/
theorem abs_rank_reread_sub_le (x : Binary64) : |(x.reread.rank : Int) - x.rank| ≤ 5 := by
  obtain ⟨rank, hrank, hclose⟩ := exists_rank_reread? x
  rw [reread?_eq, ofRank?] at hrank
  split at hrank
  · rw [Option.some.inj hrank]
    exact hclose
  · cases hrank

end Binary64

/-- A number as it is written and read again. -/
def Number.reread : Number → Number
  | .int value hrange => .int value hrange
  | .float value => .float value.reread

namespace Numeral

/-- The text of a number is a number text that is decoded as what is read again. -/
theorem exists_isText_numberText (value : Number) :
    ∃ n, IsText n (Json.numberText value) ∧ n.toNumber? = some value.reread := by
  cases value with
  | int value hrange => exact ⟨_, isText_intText value, toNumber?_intText value hrange⟩
  | float x =>
    obtain ⟨n, htext, hreal, -, -⟩ := exists_isText_floatText x
    refine ⟨n, htext, ?_⟩
    have hread := x.reread?_eq
    rw [Binary64.reread?, htext.scan?_eq, Option.bind_some] at hread
    rw [toNumber?, toInt?_of_isReal hreal, hread]
    rfl

end Numeral

end DocQuery
