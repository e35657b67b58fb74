import DocQuery.Proofs.Numbers.Decimals
import DocQuery.Proofs.Numbers.Nearness

/-!
# How accurate the numbers of documents are

The decoder of number texts takes the digits that fit an unsigned 64-bit word, and multiplies or
divides the number that they make up by a power of ten. The digits left out, the two operands and
the result are all rounded, so the outcome need not be the number nearest to the text. It is never
far from it, though: every step keeps the value up to a factor close to one, and all factors
together make up five ranks at most.

* `Numeral.near_taken`: the digits that are taken, against all digits.
* `Numeral.exists_rank_toBinary64?`: the outcome is at most five ranks away from the nearest number.
-/

-- powers are those of the core library, also where other libraries are at hand
attribute [local instance (high)] instPowNat

namespace DocQuery

/-! ## Values of digits -/

/-- A digit is at most nine. -/
theorem digit_le {c : Char} (h : c.isDigit = true) : c.toNat - '0'.toNat ≤ 9 := by
  have hbounds : 48 ≤ c.toNat ∧ c.toNat ≤ 57 := by
    simpa [Char.isDigit, UInt32.le_iff_toNat_le] using h
  have hzero : '0'.toNat = 48 := rfl
  omega

/-- Some digits make up less than the power of ten of their number. -/
theorem ofDigitChars_lt {digits : List Char} (h : ∀ c ∈ digits, c.isDigit = true) :
    Nat.ofDigitChars 10 digits 0 < 10 ^ digits.length := by
  induction digits with
  | nil => exact Nat.one_pos
  | cons c digits ih =>
    obtain ⟨hc, hdigits⟩ := List.forall_mem_cons.1 h
    have hrest := ih hdigits
    have hle := Nat.mul_le_mul_left (10 ^ digits.length) (digit_le hc)
    rw [Nat.ofDigitChars_cons, Nat.ofDigitChars_eq_ofDigitChars_zero, Nat.mul_zero, Nat.zero_add,
      List.length_cons, Nat.pow_succ]
    omega

/-- Digits that are appended move a decimal up, but not to the next number. -/
theorem Decimal.value_mem_cell {digits : List Char} (h : ∀ c ∈ digits, c.isDigit = true)
    (head : Nat) (e : Int) :
    head * 10 ^ (e + digits.length) ≤ value ⟨Nat.ofDigitChars 10 digits head, e⟩ ∧
      value ⟨Nat.ofDigitChars 10 digits head, e⟩ ≤ (head + 1) * 10 ^ (e + digits.length) := by
  have hten : (10 : ℚ) ≠ 0 := by norm_num
  have hpow : (0 : ℚ) ≤ 10 ^ e := zpow_nonneg (by norm_num) _
  have hvalue : (Nat.ofDigitChars 10 digits head : ℚ) =
      10 ^ digits.length * head + Nat.ofDigitChars 10 digits 0 := by
    exact_mod_cast Nat.ofDigitChars_eq_ofDigitChars_zero
  have hlt : (Nat.ofDigitChars 10 digits 0 : ℚ) ≤ 10 ^ digits.length := by
    exact_mod_cast (ofDigitChars_lt h).le
  have hnonneg : (0 : ℚ) ≤ Nat.ofDigitChars 10 digits 0 := Nat.cast_nonneg _
  rw [value, zpow_add₀ hten, zpow_natCast, hvalue, mul_comm (10 ^ e), ← mul_assoc, ← mul_assoc]
  -- what is appended adds less than one at the place of the last digit before it
  constructor
  · refine mul_le_mul_of_nonneg_right ?_ hpow
    linarith
  · refine mul_le_mul_of_nonneg_right ?_ hpow
    linarith

namespace Numeral

/-! ## The digits that are taken -/

/-- The number that the decoder makes up of the digits that it takes, and the power of ten by which
it is scaled. -/
def taken (n : Numeral) : Decimal :=
  let (head, unread) := accumulate 0 n.whole
  let (significand, unused) := accumulate head (n.fraction.getD [])
  let places : Int := (n.fraction.getD []).length - unused.length
  ⟨significand, unread.length - places + powerValue n.power⟩

/-- The binary64 number of a text is the number that is taken, scaled. -/
theorem toBinary64?_eq (n : Numeral) :
    n.toBinary64? = (scale? (.ofInt n.taken.digits) n.taken.exponent).map (·.withSign n.negative) :=
  rfl

/-- Whether the characters before and after the point are digits. -/
def HasDigits (n : Numeral) : Prop :=
  (∀ c ∈ n.whole, c.isDigit = true) ∧ ∀ c ∈ n.fraction.getD [], c.isDigit = true

/-- The parts of a number text are digits. -/
theorem IsText.hasDigits {n : Numeral} {text : List Char} (h : n.IsText text) : n.HasDigits := by
  obtain @⟨_, _, _, fraction, _, hwhole, hfraction, -⟩ := h
  refine ⟨hwhole.isDigit, ?_⟩
  cases fraction with
  | none => exact List.forall_mem_nil _
  | some digits => exact (hfraction digits rfl).2

/-- Digits are taken from the front for as long as the number fits 64 bits. -/
theorem exists_of_accumulate {n m : Nat} {digits rest : List Char}
    (h : accumulate n digits = (m, rest)) (hn : n < 2 ^ 64) :
    ∃ front, digits = front ++ rest ∧ m = Nat.ofDigitChars 10 front n ∧ m < 2 ^ 64 ∧
      ((∀ c ∈ digits, c.isDigit = true) → rest = [] ∨ 2 ^ 64 ≤ 10 * m + 9) := by
  fun_induction accumulate n digits with
  | case1 n =>
    cases h
    exact ⟨[], rfl, rfl, hn, fun _ => .inl rfl⟩
  | case2 n c cs longer hlt ih =>
    obtain ⟨front, rfl, rfl, hm, hrest⟩ := ih h hlt
    exact ⟨c :: front, rfl, Nat.ofDigitChars_cons.symm, hm,
      fun hdigits => hrest (List.forall_mem_cons.1 hdigits).2⟩
  | case3 n c cs longer hge =>
    cases h
    -- a digit is left out because ten times the number and the digit are beyond the word
    refine ⟨[], rfl, rfl, hn, fun hdigits => .inr ?_⟩
    have := digit_le (hdigits c List.mem_cons_self)
    omega

/-- The number that is taken fits 64 bits. -/
theorem digits_taken_lt (n : Numeral) : n.taken.digits < 2 ^ 64 := by
  obtain ⟨_, -, -, hhead, -⟩ := exists_of_accumulate (rfl : accumulate 0 n.whole = _) (by decide)
  obtain ⟨_, -, -, hlt, -⟩ :=
    exists_of_accumulate (rfl : accumulate _ (n.fraction.getD []) = _) hhead
  exact hlt

/-- Values between a number of at least `2 ^ 60` and the next one are close to each other. -/
theorem near_of_cell {x y c : ℚ} {head : Nat} (hhead : 2 ^ 64 ≤ 10 * head + 9) (hc : 0 ≤ c)
    (hx : head * c ≤ x ∧ x ≤ (head + 1) * c) (hy : head * c ≤ y ∧ y ≤ (head + 1) * c) :
    Near 1 x y := by
  have hlarge : (2 ^ 60 : ℚ) ≤ head := by exact_mod_cast (by omega : 2 ^ 60 ≤ head)
  -- one is at most the part of such a number by which a single factor is above one
  have hup {z : ℚ} (hz : head * c ≤ z) : (head + 1) * c ≤ z * grain ^ 1 := by
    have hpart : c ≤ head * c / 2 ^ 60 := by
      rw [le_div_iff₀ (by positivity), mul_comm]
      exact mul_le_mul_of_nonneg_right hlarge hc
    have hgrain : head * c + head * c / 2 ^ 60 ≤ z + z / 2 ^ 60 := by gcongr
    rw [pow_one, grain]
    linarith
  exact ⟨hx.2.trans (hup hy.1), hy.2.trans (hup hx.1)⟩

/-- What is taken is a front of the digits before the point and, even if some of them are left out,
a front of those after it. Digits are left out only behind a number that all but fills 64 bits. -/
theorem exists_taken {n : Numeral} (h : n.HasDigits) :
    ∃ (head : Nat) (unread places unused : List Char),
      (∀ c ∈ unread ++ (places ++ unused), c.isDigit = true) ∧
      n.taken = ⟨Nat.ofDigitChars 10 places head,
        unread.length - places.length + powerValue n.power⟩ ∧
      n.decimal = ⟨Nat.ofDigitChars 10 (unread ++ (places ++ unused)) head,
        powerValue n.power - (places ++ unused).length⟩ ∧
      (unread = [] ∨ 2 ^ 64 ≤ 10 * head + 9) ∧
      (unused = [] ∨ 2 ^ 64 ≤ 10 * Nat.ofDigitChars 10 places head + 9) := by
  obtain ⟨hwhole, hfraction⟩ := h
  rcases hhead : accumulate 0 n.whole with ⟨head, unread⟩
  rcases hall : accumulate head (n.fraction.getD []) with ⟨significand, unused⟩
  obtain ⟨front, hfront, hheadvalue, hlt, hunread⟩ := exists_of_accumulate hhead (by decide)
  obtain ⟨places, hplaces, rfl, -, hunused⟩ := exists_of_accumulate hall hlt
  refine ⟨head, unread, places, unused, ?_, ?_, ?_, hunread hwhole, hunused hfraction⟩
  · rw [hfront] at hwhole
    rw [hplaces] at hfraction
    exact List.forall_mem_append.2 ⟨(List.forall_mem_append.1 hwhole).2, hfraction⟩
  · have hcount : ((n.fraction.getD []).length : Int) - unused.length = places.length := by
      rw [hplaces, List.length_append]
      omega
    simp only [taken, hhead, hall, hcount]
  · rw [decimal, hfront, hplaces, List.append_assoc, Nat.ofDigitChars_append, hheadvalue]

/-- The number that is taken differs from the decimal by one part in `2 ^ 60` at most. -/
theorem near_taken {n : Numeral} (h : n.HasDigits) : Near 1 n.taken.value n.decimal.value := by
  obtain ⟨head, unread, places, unused, hdigits, htaken, hdecimal, hunread, hunused⟩ :=
    exists_taken h
  rw [htaken, hdecimal]
  generalize powerValue n.power = power
  have hfraction := (List.forall_mem_append.1 hdigits).2
  have hten {e : Int} : (0 : ℚ) ≤ 10 ^ e := zpow_nonneg (by norm_num) e
  rcases hunread with rfl | hfull
  · -- the whole part is taken, so the number that is taken precedes the digits that are not
    have hexponent : (([] : List Char).length : Int) - places.length + power =
        power - (places ++ unused).length + unused.length := by
      rw [List.length_append, List.length_nil]
      omega
    rw [List.nil_append, Nat.ofDigitChars_append, hexponent]
    rcases hunused with rfl | hfull
    · rw [Nat.ofDigitChars_nil, List.length_nil, Nat.cast_zero, add_zero]
      exact .refl (mul_nonneg (Nat.cast_nonneg _) hten)
    · have hcell := Decimal.value_mem_cell (List.forall_mem_append.1 hfraction).2
        (Nat.ofDigitChars 10 places head) (power - (places ++ unused).length)
      refine near_of_cell hfull hten ⟨le_rfl, ?_⟩ hcell
      exact mul_le_mul_of_nonneg_right (by linarith) hten
  · -- otherwise both numbers begin with what is taken of the whole part
    have htakencell := Decimal.value_mem_cell (List.forall_mem_append.1 hfraction).1 head
      (unread.length - places.length + power)
    have hcell := Decimal.value_mem_cell hdigits head (power - (places ++ unused).length)
    have hsame : power - ((places ++ unused).length : Int) +
        ((unread ++ (places ++ unused)).length : Nat) =
        unread.length - places.length + power + places.length := by
      simp only [List.length_append]
      omega
    rw [hsame] at hcell
    exact near_of_cell hfull hten htakencell hcell

/-- Digits that make up a number that fits 64 bits are all taken. -/
theorem accumulate_of_lt {n : Nat} {digits : List Char}
    (h : Nat.ofDigitChars 10 digits n < 2 ^ 64) :
    accumulate n digits = (Nat.ofDigitChars 10 digits n, []) := by
  induction digits generalizing n with
  | nil => rfl
  | cons c digits ih =>
    rw [Nat.ofDigitChars_cons] at h ⊢
    -- the digits that follow do not make the number smaller
    have hle := Nat.le_mul_of_pos_left (10 * n + (c.toNat - '0'.toNat))
      (Nat.pow_pos (n := digits.length) (show 0 < 10 by decide))
    have hgrow : Nat.ofDigitChars 10 digits (10 * n + (c.toNat - '0'.toNat)) = _ :=
      Nat.ofDigitChars_eq_ofDigitChars_zero
    rw [accumulate, if_pos (by omega), ih h]

/-- A number text whose digits make up a number that fits 64 bits is taken as it is. -/
theorem taken_eq_decimal {n : Numeral} (h : n.decimal.digits < 2 ^ 64) : n.taken = n.decimal := by
  rw [decimal, Nat.ofDigitChars_append] at h
  dsimp only at h
  have hwhole : Nat.ofDigitChars 10 n.whole 0 < 2 ^ 64 := by
    have hle := Nat.le_mul_of_pos_left (Nat.ofDigitChars 10 n.whole 0)
      (Nat.pow_pos (n := (n.fraction.getD []).length) (show 0 < 10 by decide))
    have hgrow : Nat.ofDigitChars 10 (n.fraction.getD []) (Nat.ofDigitChars 10 n.whole 0) = _ :=
      Nat.ofDigitChars_eq_ofDigitChars_zero
    omega
  simp only [taken, accumulate_of_lt hwhole, accumulate_of_lt h, decimal, Nat.ofDigitChars_append,
    List.length_nil, Decimal.mk.injEq, true_and]
  omega

/-! ## Scaling -/

open Binary64

/-- A quotient that agrees with a value up to some factors has a rank near its position. -/
theorem abs_rank_sub_position_lt {num den n : Nat} {q : ℚ} (hden : 0 < den)
    (h : Near n (unitsOfRatio num den) q) (hq : 0 ≤ q) (hn : n ≤ 600) :
    |(rankOfRatio num den : ℚ) - position q| < 11 / 2 := by
  -- half a rank is lost to the rounding, and less than five ranks are lost to 600 factors
  have hround := abs_rankOfRatio_sub_position_le num hden
  have hnear := h.abs_position_sub_le (unitsOfRatio_nonneg _ _) hq
  have hfactor := grain_pow_le (hn.trans (by decide))
  have hcast : (n : ℚ) ≤ 600 := by exact_mod_cast hn
  have hsum := abs_sub_le (rankOfRatio num den : ℚ) (position (unitsOfRatio num den)) (position q)
  linarith

/-- The magnitude of the number nearest to a power of ten. -/
def tenUnits (n : Nat) : Nat := unitsOfRank (rankOfRatio (10 ^ n) 1)

/-- A positive whole number is rounded with 53 binary digits. -/
theorem near_rankOfRatio_one {w : Nat} (hw : w ≠ 0) :
    Near 129 (unitsOfRank (rankOfRatio w 1)) (w * unitsPerOne) := by
  have hone : (1 : ℚ) ≤ w := by exact_mod_cast Nat.one_le_iff_ne_zero.2 hw
  have hunits : (2 : ℚ) ^ 52 ≤ unitsPerOne := by
    exact_mod_cast two_pow_le_unitsPerOne (k := 52) (by decide)
  have hlarge : 2 ^ 52 ≤ unitsOfRatio w 1 := by
    rw [unitsOfRatio_one]
    exact hunits.trans (le_mul_of_one_le_left (Nat.cast_nonneg _) hone)
  have hnear := near_unitsOfRank Nat.one_pos hlarge
  rwa [unitsOfRatio_one] at hnear

/-- A power of ten is rounded with 53 binary digits. -/
theorem near_tenUnits (n : Nat) : Near 129 (tenUnits n) (10 ^ n * unitsPerOne) := by
  have hnear := near_rankOfRatio_one (w := 10 ^ n) (Nat.ne_of_gt (Nat.pow_pos (by decide)))
  rwa [Nat.cast_pow, Nat.cast_ofNat] at hnear

/-- There is at least one unit in one. -/
theorem unitsPerOne_cast_pos : (0 : ℚ) < unitsPerOne := by exact_mod_cast unitsPerOne_pos

/-- The number nearest to a power of ten is positive. -/
theorem tenUnits_pos (n : Nat) : (0 : ℚ) < tenUnits n :=
  (near_tenUnits n).pos (mul_pos (by positivity) unitsPerOne_cast_pos)

/-- The number nearest to ten or more is at least one. -/
theorem unitsPerOne_le_tenUnits {n : Nat} (hn : n ≠ 0) : (unitsPerOne : ℚ) ≤ tenUnits n := by
  have hten : (10 : ℚ) ≤ 10 ^ n := le_self_pow₀ (by norm_num) hn
  have hunits := mul_le_mul_of_nonneg_right hten unitsPerOne_cast_pos.le
  have hdouble := (near_tenUnits n).symm.le_mul_two (tenUnits_pos n).le (by decide)
  linarith [unitsPerOne_cast_pos]

/-- A power of two with three times the exponent, or less, is not above a power of ten. -/
theorem two_pow_le_ten_pow {k n : Nat} (h : k ≤ 3 * n) : 2 ^ k ≤ 10 ^ n :=
  calc 2 ^ k ≤ 2 ^ (3 * n) := Nat.pow_le_pow_right (by decide) h
    _ = (2 ^ 3) ^ n := Nat.pow_mul ..
    _ ≤ 10 ^ n := Nat.pow_le_pow_left (by decide) n

/-- Whole numbers up to `10 ^ 308` are in range. -/
theorem mul_unitsPerOne_le {s n : Nat} (h : s ≤ 10 ^ n) (hn : n ≤ 308) :
    s * unitsPerOne ≤ (2 ^ 53 - 1) * 2 ^ 2045 :=
  (Nat.mul_le_mul_right _ (h.trans (Nat.pow_le_pow_right (by decide) hn))).trans (by decide +kernel)

/-- The magnitude of an unsigned 64-bit word. -/
theorem units_ofInt {s : Nat} (h : s < 2 ^ 64) :
    (Binary64.ofInt s).units = unitsOfRank (rankOfRatio s 1) := by
  have hword : s ≤ 10 ^ 64 := h.le.trans (two_pow_le_ten_pow (by decide))
  have hrank : rankOfRatio s 1 < 2047 * 2 ^ 52 :=
    rankOfRatio_one_lt (mul_unitsPerOne_le hword (by decide))
  have hmin : min (rankOfRatio s 1) (2047 * 2 ^ 52 - 1) = rankOfRatio s 1 :=
    Nat.min_eq_left (Nat.le_sub_one_of_lt hrank)
  exact congrArg unitsOfRank hmin

/-- Zero is rounded to itself. -/
theorem ofInt_zero : Binary64.ofInt (0 : Nat) = zero := by
  have hrank : rankOfRatio 0 1 = 0 := rankOfRatio_eq_zero Nat.one_pos (by simp [unitsOfRatio])
  simp only [Binary64.ofInt, Int.natAbs_natCast, hrank]
  rfl

/-- A word other than zero is not rounded to zero. -/
theorem rank_ofInt_ne_zero {s : Nat} (hs : s ≠ 0) (hlt : s < 2 ^ 64) :
    (Binary64.ofInt s).rank ≠ 0 := by
  intro hzero
  have hpos := (near_rankOfRatio_one hs).pos
    (mul_pos (Nat.cast_pos.2 (Nat.pos_of_ne_zero hs)) unitsPerOne_cast_pos)
  rw [← units_ofInt hlt, units, hzero] at hpos
  exact lt_irrefl _ hpos

/-- A power of ten up to `10 ^ 308` is in range. -/
theorem exists_powerOfTen? {n : Nat} (hn : n ≤ 308) :
    ∃ ten, powerOfTen? n = some ten ∧ ten.negative = false ∧ ten.units = tenUnits n := by
  have hrank : rankOfRatio (10 ^ n) 1 < 2047 * 2 ^ 52 :=
    rankOfRatio_one_lt (mul_unitsPerOne_le le_rfl hn)
  refine ⟨⟨false, _, hrank⟩, ?_, rfl, rfl⟩
  have hnum : Decimal.numerator ⟨1, n⟩ = 10 ^ n := by simp [Decimal.numerator]
  have hden : Decimal.denominator ⟨1, n⟩ = 1 := by simp [Decimal.denominator]
  rw [powerOfTen?, ofDecimal?_eq, hnum, hden, ofRatio?, ofRank?, dif_pos hrank]

/-- The quotient of two numbers without a sign has none. -/
theorem div?_eq {x y : Binary64} (hx : x.negative = false) (hy : y.negative = false) :
    x.div? y = ofRatio? false x.units y.units := by
  rw [div?, hx, hy, bne_self_eq_false]

/-- The product of two numbers without a sign has none. -/
theorem mul?_eq {x y : Binary64} (hx : x.negative = false) (hy : y.negative = false) :
    x.mul? y = ofRatio? false (x.units * y.units) (unitsPerOne * unitsPerOne) := by
  rw [mul?, hx, hy, bne_self_eq_false]

/-- A division by a power of ten up to `10 ^ 308` is a single division. -/
theorem divideByPower?_of_le {x : Binary64} {n : Nat} (hx : x.negative = false) (hn : n ≤ 308) :
    divideByPower? x n = ofRatio? false x.units (tenUnits n) := by
  obtain ⟨ten, hten, hsign, hunits⟩ := exists_powerOfTen? hn
  rw [divideByPower?, if_pos hn, hten, ← hunits, ← div?_eq hx hsign]
  exact Option.bind_some ..

/-- A multiplication by a power of ten up to `10 ^ 308` is a single multiplication. -/
theorem scale?_of_le {x : Binary64} {n : Nat} (hx : x.negative = false) (hn : n ≤ 308) :
    scale? x n = ofRatio? false (x.units * tenUnits n) (unitsPerOne * unitsPerOne) := by
  obtain ⟨ten, hten, hsign, hunits⟩ := exists_powerOfTen? hn
  have hnonneg : ¬(n : Int) < 0 := by omega
  have hle : (n : Int) ≤ 308 := by omega
  rw [scale?, if_neg hnonneg, if_pos hle, Int.natAbs_natCast, hten, ← hunits, ← mul?_eq hx hsign]
  exact Option.bind_some ..

/-- A division by a greater power of ten begins with a division by `10 ^ 308`. -/
theorem divideByPower?_of_lt {x : Binary64} {n : Nat} (hx : x.negative = false)
    (hzero : x.rank ≠ 0) (hn : 308 < n) :
    divideByPower? x n =
      (ofRatio? false x.units (tenUnits 308)).bind (divideByPower? · (n - 308)) := by
  obtain ⟨ten, hten, hsign, hunits⟩ := exists_powerOfTen? (Nat.le_refl 308)
  have hisZero : ¬x.isZero = true := by simpa [isZero] using hzero
  have hlarge : ¬n ≤ 308 := by omega
  rw [divideByPower?, if_neg hlarge, if_neg hisZero, hten, ← hunits, ← div?_eq hx hsign]
  exact Option.bind_some ..

/-- A quotient below half a unit is rounded to positive zero. -/
theorem ofRatio?_eq_zero {num den : Nat} (hden : 0 < den) (h : unitsOfRatio num den < 1 / 2) :
    ofRatio? false num den = some zero := by
  rw [ofRatio?, rankOfRatio_eq_zero hden h]
  rfl

/-- Zero is rounded to zero. -/
theorem ofRatio?_zero {den : Nat} (hden : 0 < den) : ofRatio? false 0 den = some zero :=
  ofRatio?_eq_zero hden (by rw [unitsOfRatio, Nat.zero_mul, Nat.cast_zero, zero_div]; norm_num)

/-- Zero stays zero when it is divided. -/
theorem divideByPower?_zero (n : Nat) : divideByPower? zero n = some zero := by
  by_cases hn : n ≤ 308
  · rw [divideByPower?_of_le rfl hn]
    exact ofRatio?_zero (by exact_mod_cast tenUnits_pos n)
  · rw [divideByPower?, if_neg hn]
    rfl

/-- Zero stays zero when it is scaled. -/
theorem scale?_zero (p : Int) : scale? zero p = some zero := by
  by_cases hneg : p < 0
  · rw [scale?, if_pos hneg, divideByPower?_zero]
  by_cases hle : p ≤ 308
  · obtain ⟨n, rfl⟩ := Int.eq_ofNat_of_zero_le (Int.not_lt.1 hneg)
    have hunits : zero.units * tenUnits n = 0 := Nat.zero_mul _
    rw [scale?_of_le rfl (by omega), hunits]
    exact ofRatio?_zero (Nat.mul_pos unitsPerOne_pos unitsPerOne_pos)
  · rw [scale?, if_neg hneg, if_neg hle]
    rfl

/-- The factors of a product with a power of ten. -/
theorem near_mul_tenUnits {u k : Nat} {v : ℚ} (h : Near k u v) (hv : 0 ≤ v) (n : Nat) :
    Near (k + 129) (unitsOfRatio (u * tenUnits n) (unitsPerOne * unitsPerOne)) (v * 10 ^ n) := by
  have hone := unitsPerOne_cast_pos
  have hproduct := (h.mul (near_tenUnits n) (Nat.cast_nonneg _) (Nat.cast_nonneg _) hv
    (mul_nonneg (by positivity) hone.le)).div (.refl hone.le : Near 0 _ _)
    (mul_nonneg (Nat.cast_nonneg _) (Nat.cast_nonneg _))
    (mul_nonneg hv (mul_nonneg (by positivity) hone.le)) hone hone
  have hleft : unitsOfRatio (u * tenUnits n) (unitsPerOne * unitsPerOne) =
      u * tenUnits n / unitsPerOne := by
    rw [unitsOfRatio, Nat.cast_mul, Nat.cast_mul unitsPerOne, Nat.cast_mul,
      mul_div_mul_right _ _ hone.ne']
  have hright : v * (10 ^ n * unitsPerOne) / unitsPerOne = v * 10 ^ n := by
    rw [← mul_assoc, mul_div_cancel_right₀ _ hone.ne']
  rwa [hleft, ← hright]

/-- The factors of a quotient by a power of ten. -/
theorem near_div_tenUnits {u k : Nat} {v : ℚ} (h : Near k u v) (hv : 0 ≤ v) (n : Nat) :
    Near (k + 129) (unitsOfRatio u (tenUnits n)) (v / 10 ^ n) := by
  have hone := unitsPerOne_cast_pos
  have hten : (0 : ℚ) < 10 ^ n := by positivity
  have hquotient := (h.mul (.refl hone.le : Near 0 _ _) (Nat.cast_nonneg _) hone.le hv hone.le).div
    (near_tenUnits n) (mul_nonneg (Nat.cast_nonneg _) hone.le) (mul_nonneg hv hone.le)
    (tenUnits_pos n) (mul_pos hten hone)
  have hleft : unitsOfRatio u (tenUnits n) = u * unitsPerOne / tenUnits n := by
    rw [unitsOfRatio, Nat.cast_mul]
  have hright : v * unitsPerOne / (10 ^ n * unitsPerOne) = v / 10 ^ n :=
    mul_div_mul_right _ _ hone.ne'
  rwa [hleft, ← hright]

/-- A quotient whose rank is in range is rounded to a number. -/
theorem exists_of_ofRatio? {num den : Nat} (h : rankOfRatio num den < 2047 * 2 ^ 52) :
    ∃ x, ofRatio? false num den = some x ∧ x.negative = false ∧
      x.units = unitsOfRank (rankOfRatio num den) := by
  refine ⟨⟨false, _, h⟩, ?_, rfl, rfl⟩
  rw [ofRatio?, ofRank?, dif_pos h]

/-- A magnitude that agrees with a word is in range after a division by `10 ^ 308`. -/
theorem rankOfRatio_tenUnits_lt {u : Nat} {v : ℚ} (h : Near 129 u (v * unitsPerOne)) (hlow : 1 ≤ v)
    (hhigh : v ≤ 2 ^ 64) : rankOfRatio u (tenUnits 308) < 2047 * 2 ^ 52 := by
  have hone := unitsPerOne_cast_pos
  have hword : u ≤ 2 ^ 65 * unitsPerOne := by
    have hdouble := h.le_mul_two (mul_nonneg (zero_le_one.trans hlow) hone.le) (by decide)
    have hscaled := mul_le_mul_of_nonneg_right hhigh hone.le
    have hunits : (u : ℚ) ≤ 2 ^ 65 * unitsPerOne := by linarith
    rw [← Nat.cast_le (α := ℚ)]
    push_cast
    exact hunits
  have hunits : unitsPerOne ≤ tenUnits 308 := by
    exact_mod_cast unitsPerOne_le_tenUnits (n := 308) (by decide)
  have hlimit := mul_unitsPerOne_le (two_pow_le_ten_pow (by decide : 65 ≤ 3 * 65)) (by decide)
  have hproduct := Nat.mul_le_mul (hword.trans hlimit) hunits
  exact rankOfRatio_lt (by exact_mod_cast tenUnits_pos 308) hproduct

/-- Even one divided by `10 ^ 308` has 51 binary digits. -/
theorem two_pow_le_unitsOfRatio_tenUnits {u : Nat} {v : ℚ} (h : Near 129 u (v * unitsPerOne))
    (hlow : 1 ≤ v) : 2 ^ 50 ≤ unitsOfRatio u (tenUnits 308) := by
  have hone := unitsPerOne_cast_pos
  have hquotient := near_div_tenUnits h (mul_nonneg (zero_le_one.trans hlow) hone.le) 308
  have hcast {n : Nat} (h : 2 ^ 49 * 3 * 10 ^ n ≤ unitsPerOne) :
      (2 ^ 49 * 3 * 10 ^ n : ℚ) ≤ unitsPerOne := by exact_mod_cast h
  have hlimit : 2 ^ 49 * 3 * 10 ^ 308 ≤ unitsPerOne := by decide +kernel
  have hunit : (2 ^ 49 * 3 : ℚ) ≤ v * unitsPerOne / 10 ^ 308 := by
    rw [le_div_iff₀ (pow_pos (by norm_num) _)]
    exact (hcast hlimit).trans (le_mul_of_one_le_left hone.le hlow)
  have hfactor : grain ^ (129 + 129) ≤ 3 / 2 := (grain_pow_le (by decide)).trans (by norm_num)
  have hscaled := mul_le_mul_of_nonneg_left hfactor (unitsOfRatio_nonneg u (tenUnits 308))
  have hbound := (hunit.trans hquotient.2).trans hscaled
  linarith only [hbound]

/-- The first of several divisions by `10 ^ 308`. What it yields is rounded with 53 binary digits,
unless it lies among the numbers that are one unit apart. -/
theorem exists_div_tenUnits {u : Nat} {v : ℚ} (h : Near 129 u (v * unitsPerOne)) (hlow : 1 ≤ v)
    (hhigh : v ≤ 2 ^ 64) :
    ∃ x, ofRatio? false u (tenUnits 308) = some x ∧ x.negative = false ∧
      Near 771 x.units (v * unitsPerOne / 10 ^ 308) ∧
      (Near 387 x.units (v * unitsPerOne / 10 ^ 308) ∨ (x.units : ℚ) ≤ 2 ^ 52 + 3) := by
  have hpos : 0 < tenUnits 308 := by exact_mod_cast tenUnits_pos 308
  have hvalue : 0 ≤ v * unitsPerOne :=
    mul_nonneg (zero_le_one.trans hlow) unitsPerOne_cast_pos.le
  have hquotient := near_div_tenUnits h hvalue 308
  obtain ⟨x, hx, hsign, hunits⟩ := exists_of_ofRatio? (rankOfRatio_tenUnits_lt h hlow hhigh)
  refine ⟨x, hx, hsign, ?_⟩
  rw [hunits]
  have hcoarse := near_unitsOfRank_of_le hpos (two_pow_le_unitsOfRatio_tenUnits h hlow)
  have hscaled : 0 ≤ v * unitsPerOne / 10 ^ 308 := div_nonneg hvalue (pow_nonneg (by norm_num) _)
  refine ⟨(hcoarse.trans hquotient).mono (by decide) (Nat.cast_nonneg _) hscaled, ?_⟩
  by_cases hnormal : 2 ^ 52 ≤ unitsOfRatio u (tenUnits 308)
  · have hfine := (near_unitsOfRank hpos hnormal).trans hquotient
    exact .inl (hfine.mono (by decide) (Nat.cast_nonneg _) hscaled)
  · have hfactor := grain_pow_le (n := 513) (by decide)
    have hscaled := mul_le_mul_of_nonneg_left hfactor (unitsOfRatio_nonneg u (tenUnits 308))
    refine .inr (hcoarse.1.trans (hscaled.trans ?_))
    linarith [not_le.1 hnormal]

/-- A quotient whose operand lies among the numbers that are one unit apart. -/
theorem abs_rank_sub_position_lt_of_le {u n : Nat} {q : ℚ} (hn : n ≠ 0) (hu : (u : ℚ) ≤ 2 ^ 52 + 3)
    (h : Near 901 (unitsOfRatio u (tenUnits n)) q) (hq : 0 ≤ q) :
    |(rankOfRatio u (tenUnits n) : ℚ) - position q| < 11 / 2 := by
  have hpos : 0 < tenUnits n := by exact_mod_cast tenUnits_pos n
  have hlimit : unitsOfRatio u (tenUnits n) ≤ 2 ^ 52 + 3 := by
    rw [unitsOfRatio, Nat.cast_mul, div_le_iff₀ (tenUnits_pos n)]
    exact mul_le_mul hu (unitsPerOne_le_tenUnits hn) unitsPerOne_cast_pos.le (by norm_num)
  -- so many factors would be too much for 53 binary digits, but here there are 52 at most
  have hround := abs_rankOfRatio_sub_position_le u hpos
  have hnear := h.abs_position_sub_le_of_le (unitsOfRatio_nonneg _ _) hq hlimit
  have hfactor := grain_pow_le (n := 901) (by decide)
  have hsum := abs_sub_le (rankOfRatio u (tenUnits n) : ℚ) (position (unitsOfRatio u (tenUnits n)))
    (position q)
  linarith

/-- A word that is divided by `10 ^ 616` or more is far below half a unit. -/
theorem mul_unitsPerOne_div_le {v : ℚ} {n : Nat} (hhigh : v ≤ 2 ^ 64) (hn : 616 ≤ n) :
    v * unitsPerOne / 10 ^ n ≤ 1 / 8 := by
  have hunits : unitsPerOne ≤ 2 ^ (3 * n - 67) := unitsPerOne_le_two_pow (by omega)
  have hlimit : ((2 ^ 64 * unitsPerOne * 2 ^ 3 : Nat) : ℚ) ≤ (10 ^ n : Nat) := by
    refine Nat.cast_le.2 ((Nat.mul_le_mul_right _ (Nat.mul_le_mul_left _ hunits)).trans ?_)
    rw [← Nat.pow_add, ← Nat.pow_add]
    exact two_pow_le_ten_pow (by omega)
  push_cast at hlimit
  have hscaled := mul_le_mul_of_nonneg_right hhigh unitsPerOne_cast_pos.le
  rw [div_le_iff₀ (pow_pos (by norm_num) _)]
  linarith

/-- A word that is divided by more than `10 ^ 616` is rounded to zero. -/
theorem divideByPower?_eq_zero {x : Binary64} {v : ℚ} {n : Nat} (hx : x.negative = false)
    (hn : 308 < n) (h : Near 771 x.units (v * unitsPerOne / 10 ^ 308)) (hlow : 0 ≤ v)
    (hhigh : v ≤ 2 ^ 64) : divideByPower? x n = some zero := by
  have hpos : 0 < tenUnits 308 := by exact_mod_cast tenUnits_pos 308
  by_cases hrank : x.rank = 0
  · obtain ⟨negative, rank, hlt⟩ := x
    obtain rfl : negative = false := hx
    obtain rfl : rank = 0 := hrank
    exact divideByPower?_zero n
  · have hvalue : 0 ≤ v * unitsPerOne / 10 ^ 308 :=
      div_nonneg (mul_nonneg hlow unitsPerOne_cast_pos.le) (pow_nonneg (by norm_num) _)
    have hquotient := near_div_tenUnits h hvalue 308
    have hsmall : unitsOfRatio x.units (tenUnits 308) < 1 / 2 := by
      have htiny := mul_unitsPerOne_div_le (n := 308 + 308) hhigh (by decide)
      rw [pow_add, ← div_div] at htiny
      have hdouble := hquotient.le_mul_two (div_nonneg hvalue (by positivity)) (by decide)
      have hbound := hdouble.trans (mul_le_mul_of_nonneg_right htiny zero_le_two)
      linarith only [hbound]
    rw [divideByPower?_of_lt hx hrank hn, ofRatio?_eq_zero hpos hsmall, Option.bind_some,
      divideByPower?_zero]

/-- What a word is divided to is near the position of the exact quotient. -/
theorem exists_rank_divideByPower? {s n : Nat} {q : ℚ} (hs : s ≠ 0) (hlt : s < 2 ^ 64)
    (h : Near 1 q (s * unitsPerOne / 10 ^ n)) (hq : 0 ≤ q) :
    ∃ rank, divideByPower? (.ofInt s) n = ofRank? false rank ∧
      |(rank : ℚ) - position q| < 11 / 2 := by
  have hone := unitsPerOne_cast_pos
  have hvalue : 0 ≤ (s * unitsPerOne : ℚ) := mul_nonneg (Nat.cast_nonneg _) hone.le
  have hword := near_rankOfRatio_one hs
  have hunits := units_ofInt hlt
  have hsign : (Binary64.ofInt s).negative = false := by simp [Binary64.ofInt]
  rw [← hunits] at hword
  -- it takes one division, or two, or more than two, which leave nothing
  by_cases hsingle : n ≤ 308
  · have hpos : 0 < tenUnits n := by exact_mod_cast tenUnits_pos n
    have hquotient := (near_div_tenUnits hword hvalue n).trans h.symm
    exact ⟨_, divideByPower?_of_le hsign hsingle,
      abs_rank_sub_position_lt hpos hquotient hq (by decide)⟩
  · have hlow : (1 : ℚ) ≤ s := by exact_mod_cast Nat.one_le_iff_ne_zero.2 hs
    have hhigh : (s : ℚ) ≤ 2 ^ 64 := by exact_mod_cast hlt.le
    obtain ⟨x, hx, hxsign, hcoarse, hfine⟩ := exists_div_tenUnits hword hlow hhigh
    rw [divideByPower?_of_lt hsign (rank_ofInt_ne_zero hs hlt) (Nat.not_le.1 hsingle), hx,
      Option.bind_some]
    have hsplit : (s * unitsPerOne : ℚ) / 10 ^ 308 / 10 ^ (n - 308) = s * unitsPerOne / 10 ^ n := by
      rw [div_div, ← pow_add, Nat.add_sub_cancel' (Nat.le_of_not_le hsingle)]
    have hscaled : (0 : ℚ) ≤ s * unitsPerOne / 10 ^ 308 :=
      div_nonneg hvalue (pow_nonneg (by norm_num) _)
    by_cases hdouble : n - 308 ≤ 308
    · have hpos : 0 < tenUnits (n - 308) := by exact_mod_cast tenUnits_pos (n - 308)
      refine ⟨_, divideByPower?_of_le hxsign hdouble, ?_⟩
      rcases hfine with hfine | hsmall
      · have hquotient := near_div_tenUnits hfine hscaled (n - 308)
        rw [hsplit] at hquotient
        exact abs_rank_sub_position_lt hpos (hquotient.trans h.symm) hq (by decide)
      · have hquotient := near_div_tenUnits hcoarse hscaled (n - 308)
        rw [hsplit] at hquotient
        have hnear := hquotient.trans h.symm
        exact abs_rank_sub_position_lt_of_le (by omega) hsmall hnear hq
    · refine ⟨0, divideByPower?_eq_zero hxsign (Nat.not_le.1 hdouble) hcoarse
        (zero_le_one.trans hlow) hhigh, ?_⟩
      -- the exact quotient lies below half a unit as well
      have htiny := mul_unitsPerOne_div_le (n := n) hhigh (by omega)
      have hdouble := h.le_mul_two (div_nonneg hvalue (by positivity)) (by decide)
      have hposition := position_le hq 0
      rw [Nat.cast_zero, zero_mul, zero_add, pow_zero, div_one] at hposition
      rw [Nat.cast_zero, zero_sub, abs_neg, abs_of_nonneg (position_nonneg hq)]
      linarith only [htiny, hdouble, hposition]

/-- A word that is multiplied by more than `10 ^ 308` is out of range. -/
theorem exists_rank_of_lt {s : Nat} {p : Int} {q : ℚ} (hs : s ≠ 0)
    (h : Near 1 q (s * 10 ^ p * unitsPerOne)) (hq : 0 ≤ q) (hp : 308 < p) :
    ∃ rank, ofRank? false rank = none ∧ |(rank : ℚ) - position q| < 11 / 2 := by
  have hone := unitsPerOne_cast_pos
  have hlarge : (2 : ℚ) ^ (52 + 2047) ≤ q := by
    have hpower : (10 : ℚ) ^ 309 ≤ s * 10 ^ p := by
      have hle : ((309 : Nat) : Int) ≤ p := by omega
      have hgrow := zpow_le_zpow_right₀ (by norm_num : (1 : ℚ) ≤ 10) hle
      rw [zpow_natCast] at hgrow
      refine hgrow.trans (le_mul_of_one_le_left (zpow_nonneg (by norm_num) _) ?_)
      exact_mod_cast Nat.one_le_iff_ne_zero.2 hs
    have hdouble := h.symm.le_mul_two hq (by decide)
    exact le_of_mul_le_mul_right ((two_pow_mul_two_le hpower).trans hdouble) two_pos
  -- the position is beyond the ranks of all numbers, so the rank next to it is none of theirs
  have hposition := position_mono (pow_nonneg zero_le_two _) hlarge
  rw [position_two_pow 2047] at hposition
  refine ⟨⌊position q⌋₊, dif_neg (Nat.not_lt.2 (Nat.le_floor ?_)), ?_⟩
  · refine le_trans ?_ hposition
    norm_num
  · have hfloor := Nat.floor_le (position_nonneg hq)
    have hnext := Nat.lt_floor_add_one (position q)
    rw [abs_lt]
    constructor <;> linarith only [hfloor, hnext]

/-- What a word is scaled to is near the position of the exact value. -/
theorem exists_rank_scale? {s : Nat} {p : Int} {q : ℚ} (hs : s ≠ 0) (hlt : s < 2 ^ 64)
    (h : Near 1 q (s * 10 ^ p * unitsPerOne)) (hq : 0 ≤ q) :
    ∃ rank, scale? (.ofInt s) p = ofRank? false rank ∧ |(rank : ℚ) - position q| < 11 / 2 := by
  have hsign : (Binary64.ofInt s).negative = false := by simp [Binary64.ofInt]
  by_cases hneg : p < 0
  · obtain ⟨n, hn⟩ := Int.eq_ofNat_of_zero_le (show 0 ≤ -p by omega)
    obtain rfl : p = -n := by omega
    have hvalue : (s : ℚ) * 10 ^ (-(n : Int)) * unitsPerOne = s * unitsPerOne / 10 ^ n := by
      rw [zpow_neg, zpow_natCast, div_eq_mul_inv]
      ring
    rw [hvalue] at h
    rw [scale?, if_pos hneg, Int.natAbs_neg, Int.natAbs_natCast]
    exact exists_rank_divideByPower? hs hlt h hq
  by_cases hle : p ≤ 308
  · obtain ⟨n, rfl⟩ := Int.eq_ofNat_of_zero_le (Int.not_lt.1 hneg)
    have hword := near_rankOfRatio_one hs
    rw [← units_ofInt hlt] at hword
    have hproduct := near_mul_tenUnits hword
      (mul_nonneg (Nat.cast_nonneg _) unitsPerOne_cast_pos.le) n
    rw [zpow_natCast, mul_right_comm] at h
    exact ⟨_, scale?_of_le hsign (by omega), abs_rank_sub_position_lt
      (Nat.mul_pos unitsPerOne_pos unitsPerOne_pos) (hproduct.trans h.symm) hq (by decide)⟩
  · obtain ⟨rank, hrank, hnear⟩ := exists_rank_of_lt hs h hq (by omega)
    refine ⟨rank, ?_, hnear⟩
    have hisZero : ¬(Binary64.ofInt s).isZero = true := by
      simpa [isZero] using rank_ofInt_ne_zero hs hlt
    rw [hrank, scale?, if_neg hneg, if_neg hle, if_neg hisZero]

/-- What is scaled to is near the position of the decimal, also when that is zero. -/
theorem exists_rank_scale?_taken {n : Numeral} (h : n.HasDigits) :
    ∃ rank, scale? (.ofInt n.taken.digits) n.taken.exponent = ofRank? false rank ∧
      |(rank : ℚ) - position (n.decimal.value * unitsPerOne)| < 11 / 2 := by
  have hone := unitsPerOne_cast_pos
  have hnonneg (d : Decimal) : 0 ≤ d.value :=
    mul_nonneg (Nat.cast_nonneg _) (zpow_nonneg (by norm_num) _)
  by_cases hs : n.taken.digits = 0
  · have hzero : n.decimal.value = 0 := by
      have hle := (near_taken h).2
      rw [Decimal.value.eq_def n.taken, hs, Nat.cast_zero, zero_mul, zero_mul] at hle
      exact le_antisymm hle (hnonneg _)
    refine ⟨0, ?_, ?_⟩
    · rw [hs, ofInt_zero, scale?_zero]
      rfl
    · have hposition := position_le (le_refl (0 : ℚ)) 0
      rw [Nat.cast_zero, zero_mul, zero_add, zero_div] at hposition
      rw [hzero, zero_mul, le_antisymm hposition (position_nonneg le_rfl), Nat.cast_zero, sub_zero,
        abs_zero]
      norm_num
  · have hnear := ((near_taken h).mul (.refl hone.le : Near 0 _ _) (hnonneg _) hone.le (hnonneg _)
      hone.le).symm
    exact exists_rank_scale? hs (digits_taken_lt n) hnear (mul_nonneg (hnonneg _) hone.le)

/-- The number of a text is at most five ranks away from the one nearest to the decimal that the
text makes up. -/
theorem exists_rank_toBinary64? {n : Numeral} (h : n.HasDigits) :
    ∃ rank : Nat, n.toBinary64? = ofRank? n.negative rank ∧
      |(rank : Int) - rankOfRatio n.decimal.numerator n.decimal.denominator| ≤ 5 := by
  obtain ⟨rank, hrank, hnear⟩ := exists_rank_scale?_taken h
  refine ⟨rank, ?_, ?_⟩
  · rw [toBinary64?_eq, hrank, ofRank?, ofRank?]
    split <;> rfl
  · have hround := abs_rankOfRatio_sub_position_le n.decimal.numerator n.decimal.denominator_pos
    rw [Decimal.unitsOfRatio_eq] at hround
    have hsum := abs_sub_le (rank : ℚ) (position (n.decimal.value * unitsPerOne))
      (rankOfRatio n.decimal.numerator n.decimal.denominator)
    rw [abs_sub_comm] at hround
    have hlt :
        |((rank : Int) - rankOfRatio n.decimal.numerator n.decimal.denominator : ℚ)| < 6 := by
      have hcast : (((rank : Int) : ℚ)) = rank := Int.cast_natCast rank
      rw [hcast]
      linarith only [hsum, hround, hnear]
    exact Int.le_of_lt_add_one (by exact_mod_cast hlt)

end Numeral

end DocQuery
