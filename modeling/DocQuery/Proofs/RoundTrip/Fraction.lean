import DocQuery.Proofs.RoundTrip.Recognition

/-!
# Fractions are read as they are written

A decimal number is written as digits, a point, at least one more digit, and a power of ten where
the layout asks for one. The digits may have zeros in front or behind that the number does not have,
but what is written is read as the same number.

* `Decimal.fractionText_text`: the form of a number that is written in a query.
* `Lexeme.scanNumber_append`: the token that it is recognised as.
-/

-- powers are those of the core library, also where other libraries are at hand
attribute [local instance (high)] instPowNat

namespace DocQuery

namespace Decimal

/-! ## What is written -/

/-- The text of a power of ten, which may be absent. -/
inductive PowerText : List Char → Int → Prop
  | absent : PowerText [] 0
  | present (power : Int) : PowerText (exponentText power) power

/-- Digits with a point among them and maybe a power of ten behind, which make up a decimal number
with some more zeros at its end. -/
inductive FractionText (d : Decimal) : List Char → Prop
  | intro (whole fraction source : List Char) (power : Int) (zeros : Nat) (hwhole : whole ≠ [])
      (hfraction : fraction ≠ []) (hdigits : ∀ c ∈ whole ++ fraction, c.isDigit = true)
      (hpower : PowerText source power)
      (hvalue : Nat.ofDigitChars 10 (whole ++ fraction) 0 = 10 ^ zeros * d.digits)
      (hexponent : power - fraction.length + zeros = d.exponent) :
      FractionText d (whole ++ '.' :: (fraction ++ source))

/-- What is written begins with a digit. -/
theorem FractionText.exists_cons {d : Decimal} {text : List Char} (h : d.FractionText text) :
    ∃ c cs, text = c :: cs ∧ c.isDigit = true := by
  obtain ⟨whole, fraction, source, power, zeros, hwhole, -, hdigits, -, -, -⟩ := h
  obtain ⟨c, cs, rfl⟩ := List.exists_cons_of_ne_nil hwhole
  exact ⟨c, _, rfl, hdigits c (by simp)⟩

/-- Zeros are digits. -/
theorem isDigit_of_mem_replicate {k : Nat} {c : Char} (h : c ∈ List.replicate k '0') :
    c.isDigit = true := by
  rw [List.eq_of_mem_replicate h]
  rfl

/-- The digits of a number followed by zeros. -/
theorem ofDigitChars_toDigits_append_replicate (n k : Nat) :
    Nat.ofDigitChars 10 (Nat.toDigits 10 n ++ List.replicate k '0') 0 = 10 ^ k * n := by
  rw [Nat.ofDigitChars_append, Nat.ofDigitChars_ten_toDigits, Nat.ofDigitChars_replicate_zero]

/-- The digits of a number after zeros. -/
theorem ofDigitChars_replicate_append_toDigits (n k : Nat) :
    Nat.ofDigitChars 10 (List.replicate k '0' ++ Nat.toDigits 10 n) 0 = n := by
  rw [Nat.ofDigitChars_append, Nat.ofDigitChars_replicate_zero, Nat.mul_zero,
    Nat.ofDigitChars_ten_toDigits]

/-- A whole number is written with a fraction of zero. -/
theorem fractionText_whole {d : Decimal} (h : 0 ≤ d.exponent) :
    FractionText d
      (Nat.toDigits 10 d.digits ++ List.replicate d.exponent.toNat '0' ++ ['.', '0']) := by
  refine .intro _ ['0'] [] 0 (d.exponent.toNat + 1) (by simp) (by simp) ?_ .absent ?_ ?_
  · intro c hc
    simp only [List.mem_append, List.mem_singleton] at hc
    rcases hc with (hc | hc) | rfl
    · exact Lexeme.isDigit_of_mem_toDigits hc
    · exact isDigit_of_mem_replicate hc
    · rfl
  · -- the zero after the point is one more final zero
    rw [List.append_assoc, ← List.replicate_succ', ofDigitChars_toDigits_append_replicate]
  · rw [List.length_singleton]
    omega

/-- A number with the point among its digits. -/
theorem fractionText_inside {d : Decimal} {places : Nat} (h : d.exponent = -places)
    (hpos : 0 < places) (hlt : places < (Nat.toDigits 10 d.digits).length) :
    FractionText d
      ((Nat.toDigits 10 d.digits).take ((Nat.toDigits 10 d.digits).length - places) ++
        '.' :: (Nat.toDigits 10 d.digits).drop ((Nat.toDigits 10 d.digits).length - places)) := by
  -- the digits are cut so that as many stand after the point as there are places
  generalize hcut : (Nat.toDigits 10 d.digits).length - places = cut
  have hlength : ((Nat.toDigits 10 d.digits).drop cut).length = places := by
    rw [List.length_drop]
    omega
  have htext := FractionText.intro (d := d) ((Nat.toDigits 10 d.digits).take cut)
    ((Nat.toDigits 10 d.digits).drop cut) [] 0 0 ?_ ?_ ?_ .absent ?_ ?_
  · rwa [List.append_nil] at htext
  · rw [← List.length_pos_iff, List.length_take]
    omega
  · rw [← List.length_pos_iff, hlength]
    exact hpos
  · rw [List.take_append_drop]
    exact fun _ => Lexeme.isDigit_of_mem_toDigits
  · rw [List.take_append_drop, Nat.ofDigitChars_ten_toDigits, Nat.pow_zero, Nat.one_mul]
  · rw [hlength]
    omega

/-- A number below one is written with zeros before and after the point. -/
theorem fractionText_below {d : Decimal} {places : Nat} (h : d.exponent = -places)
    (hle : (Nat.toDigits 10 d.digits).length ≤ places) :
    FractionText d ('0' :: '.' ::
      (List.replicate (places - (Nat.toDigits 10 d.digits).length) '0' ++
        Nat.toDigits 10 d.digits)) := by
  generalize hzeros : places - (Nat.toDigits 10 d.digits).length = zeros
  have htext := FractionText.intro (d := d) ['0']
    (List.replicate zeros '0' ++ Nat.toDigits 10 d.digits) [] 0 0 (by simp) (by simp) ?_ .absent
    ?_ ?_
  · rwa [List.append_nil] at htext
  · intro c hc
    simp only [List.mem_append, List.mem_singleton] at hc
    rcases hc with rfl | hc | hc
    · rfl
    · exact isDigit_of_mem_replicate hc
    · exact Lexeme.isDigit_of_mem_toDigits hc
  · rw [← List.append_assoc]
    show Nat.ofDigitChars 10 (List.replicate (zeros + 1) '0' ++ Nat.toDigits 10 d.digits) 0 = _
    rw [ofDigitChars_replicate_append_toDigits, Nat.pow_zero, Nat.one_mul]
  · rw [List.length_append, List.length_replicate]
    omega

/-- A number in scientific notation. -/
theorem fractionText_scientific (d : Decimal) : FractionText d (scientificText true d) := by
  obtain ⟨c, cs, hdigits⟩ : ∃ c cs, Nat.toDigits 10 d.digits = c :: cs :=
    List.exists_cons_of_ne_nil Nat.toDigits_ne_nil
  have hdigit : ∀ e ∈ c :: cs, e.isDigit = true := by
    rw [← hdigits]
    exact fun _ => Lexeme.isDigit_of_mem_toDigits
  have hvalue : Nat.ofDigitChars 10 (c :: cs) 0 = d.digits := by
    rw [← hdigits, Nat.ofDigitChars_ten_toDigits]
  have hmagnitude : d.magnitude = d.exponent + cs.length + 1 := by
    rw [magnitude, decimalWidth, hdigits, List.length_cons]
    omega
  rw [scientificText, hdigits]
  -- a single digit gets a zero after the point
  cases cs with
  | nil =>
    refine .intro [c] ['0'] _ _ 1 (by simp) (by simp) ?_ (.present _) ?_ ?_
    · simpa using hdigit
    · rw [Nat.ofDigitChars_append, hvalue]
      exact Nat.ofDigitChars_replicate_zero (n := 1)
    · rw [hmagnitude]
      simp
  | cons next others =>
    refine .intro [c] (next :: others) _ _ 0 (by simp) (by simp) hdigit (.present _) ?_ ?_
    · rw [Nat.pow_zero, Nat.one_mul]
      exact hvalue
    · rw [hmagnitude]
      omega

/-- A number in positional notation. -/
theorem fractionText_positional (d : Decimal) : FractionText d (positionalText true d) := by
  rw [positionalText]
  split
  · rename_i hwhole
    exact fractionText_whole hwhole
  · rename_i hbelow
    have hexponent : d.exponent = -((-d.exponent).toNat : Nat) := by omega
    dsimp only
    split
    · rename_i hlt
      exact fractionText_inside hexponent (by omega) hlt
    · rename_i hle
      exact fractionText_below hexponent (Nat.not_lt.1 hle)

/-- A decimal number that is written in a query has a point with digits on either side of it. -/
theorem fractionText_text (d : Decimal) : FractionText d (d.text Selector.floatLayout) := by
  show FractionText d (if _ then positionalText true d else scientificText true d)
  split
  · exact fractionText_positional d
  · exact fractionText_scientific d

end Decimal

/-! ## What is read -/

/-- Moving final zeros into the exponent does not change the number. -/
theorem Binary64.ofDecimal?_pow_mul (negative : Bool) (n k : Nat) (e : Int) :
    ofDecimal? negative ⟨10 ^ k * n, e⟩ = ofDecimal? negative ⟨n, e + k⟩ := by
  induction k generalizing e with
  | zero => simp
  | succ k ih =>
    rw [Nat.pow_succ', Nat.mul_assoc, ofDecimal?_mul_ten, ih]
    congr 2
    omega

namespace Lexeme

/-- Whether a character would be taken for a part of a number that it follows. -/
def continuesNumber (c : Char) : Bool := c.isDigit || c == '.' || c == 'e' || c == 'E'

/-- A text that does not go on as a number does not begin with a digit. -/
theorem ends_isDigit {rest : List Char} (h : Ends continuesNumber rest) :
    Ends Char.isDigit rest :=
  h.of_imp fun c hc => by simp [continuesNumber, hc]

/-- A power of ten in front of a text that does not go on as a number. -/
theorem scanPower_append {source rest : List Char} {power : Int}
    (hpower : Decimal.PowerText source power) (hrest : Ends continuesNumber rest) :
    scanPower (source ++ rest) = .ok (power, source, rest) := by
  have hdigit := ends_isDigit hrest
  cases hpower with
  | absent =>
    cases rest with
    | nil => rfl
    | cons c rest =>
      have hc := hrest c rfl
      simp only [continuesNumber, Bool.or_eq_false_iff, beq_eq_false_iff_ne] at hc
      simp only [List.nil_append, scanPower, hc.1.2, hc.2, or_self, if_false]
  | present power =>
    have hdigits : ∀ c ∈ Nat.toDigits 10 power.natAbs, c.isDigit = true :=
      fun _ => isDigit_of_mem_toDigits
    have htake := hdigit.takeWhile_append hdigits
    have hdrop := hdigit.dropWhile_append hdigits
    have hne : (Nat.toDigits 10 power.natAbs).isEmpty = false := by simp
    -- the sign is taken off, the digits are taken up to the text, and the sign is put on again
    by_cases hneg : power < 0
    · have hvalue : (-(power.natAbs : Int)) = power := by omega
      simp only [Decimal.exponentText, if_pos hneg, List.cons_append, scanPower, signOf,
        List.length_singleton, List.drop_succ_cons, List.drop_zero, htake, hdrop, hne,
        Nat.ofDigitChars_ten_toDigits, hvalue, List.nil_append, true_or, if_true]
      rfl
    · have hvalue : (power.natAbs : Int) = power := by omega
      simp only [Decimal.exponentText, if_neg hneg, List.cons_append, scanPower, signOf,
        List.length_singleton, List.drop_succ_cons, List.drop_zero, htake, hdrop, hne,
        Nat.ofDigitChars_ten_toDigits, hvalue, List.nil_append, true_or, if_true]
      rfl

/-- A decimal number in front of a text that does not go on as a number. -/
theorem scanNumber_append {d : Decimal} {text rest : List Char} (htext : d.FractionText text)
    (hrest : Ends continuesNumber rest) :
    scanNumber (text ++ rest) = .ok ⟨.float (Binary64.ofDecimal? false d), text, rest⟩ := by
  cases htext with
  | intro whole fraction source power zeros hwhole hfraction hdigits hpower hvalue hexponent =>
    -- each of the two runs of digits ends: at the point, and at the power of ten or the text
    have hboth := List.forall_mem_append.1 hdigits
    have hsource : Ends Char.isDigit (source ++ rest) := by
      cases hpower with
      | absent => exact ends_isDigit hrest
      | present power =>
        rintro c ⟨⟩
        rfl
    have hpoint : Ends Char.isDigit ('.' :: (fraction ++ (source ++ rest))) := by
      rintro c ⟨⟩
      rfl
    have hempty : fraction.isEmpty = false := List.isEmpty_eq_false_iff.2 hfraction
    rw [List.append_assoc, List.cons_append, List.append_assoc, scanNumber]
    simp only [hpoint.takeWhile_append hboth.1, hpoint.dropWhile_append hboth.1,
      hsource.takeWhile_append hboth.2, hsource.dropWhile_append hboth.2, hempty,
      scanPower_append hpower hrest, hvalue, Binary64.ofDecimal?_pow_mul, hexponent]
    rfl

end Lexeme

end DocQuery
