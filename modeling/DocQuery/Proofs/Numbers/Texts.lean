import DocQuery.Json.Printer
import DocQuery.Json.Reader
import DocQuery.Proofs.RoundTrip.Fraction
import DocQuery.Proofs.RoundTrip.Shortest

/-!
# Number texts of JSON documents

A number text is made of a sign, whole digits without a superfluous zero in front, maybe a fraction
and maybe a power of ten. In front of a text that does not go on as a number it is taken apart into
these again, so the texts that are written for numbers are read as what they are made of: the text
of an integer as that integer, and the text of a binary64 number as a decimal whose nearest binary64
number it is.

* `Numeral.scan?_append`: a number text is taken apart.
* `Numeral.isText_intText`, `Numeral.exists_isText_floatText`: the texts that are written.
-/

-- powers are those of the core library, also where other libraries are at hand
attribute [local instance (high)] instPowNat

namespace DocQuery

/-- A positive number is not written with a zero in front. -/
theorem head?_toDigits_ne {n : Nat} (h : n ≠ 0) : (Nat.toDigits 10 n).head? ≠ some '0' := by
  induction n using Nat.strongRecOn with
  | ind n ih =>
    rw [Nat.toDigits_eq_if (by decide)]
    split
    · simpa using h
    · -- the digits before the last one are those of a smaller number, which is positive
      have hsmaller := ih (n / 10) (by omega) (by omega)
      obtain ⟨c, cs, hcons⟩ :=
        List.exists_cons_of_ne_nil (Nat.toDigits_ne_nil (n := n / 10) (b := 10))
      rw [hcons] at hsmaller ⊢
      exact hsmaller

namespace Numeral

/-! ## What a number text is -/

/-- The whole part of a number text: a zero alone, or digits that do not begin with a zero. -/
def IsWhole (whole : List Char) : Prop :=
  whole = ['0'] ∨ (whole ≠ [] ∧ whole.head? ≠ some '0' ∧ ∀ c ∈ whole, c.isDigit = true)

/-- The text of a power of ten, which may be absent and may go without a sign. -/
inductive IsPower : Option (Bool × List Char) → List Char → Prop
  | absent : IsPower none []
  | present {letter : Char} {sign digits : List Char} (hletter : letter = 'e' ∨ letter = 'E')
      (hsign : sign = [] ∨ sign = ['+'] ∨ sign = ['-']) (hne : digits ≠ [])
      (hdigits : ∀ c ∈ digits, c.isDigit = true) :
      IsPower (some (decide (sign = ['-']), digits)) (letter :: (sign ++ digits))

/-- The minus sign of a number text. -/
def minusText (negative : Bool) : List Char := if negative then ['-'] else []

/-- The point and the digits of a fraction, if there is one. -/
def fractionText : Option (List Char) → List Char
  | none => []
  | some digits => '.' :: digits

/-- A number text and the parts that it is made of. -/
inductive IsText : Numeral → List Char → Prop
  | intro {negative : Bool} {whole source : List Char} {fraction : Option (List Char)}
      {power : Option (Bool × List Char)} (hwhole : IsWhole whole)
      (hfraction : ∀ digits ∈ fraction, digits ≠ [] ∧ ∀ c ∈ digits, c.isDigit = true)
      (hpower : IsPower power source) :
      IsText ⟨negative, whole, fraction, power⟩
        (minusText negative ++ (whole ++ (fractionText fraction ++ source)))

/-- The decimal number that is made up by the digits and the power of ten. -/
def decimal (n : Numeral) : Decimal :=
  ⟨Nat.ofDigitChars 10 (n.whole ++ n.fraction.getD []) 0,
    powerValue n.power - (n.fraction.getD []).length⟩

/-- The characters of a whole part are digits. -/
theorem IsWhole.isDigit {whole : List Char} (h : IsWhole whole) :
    ∀ c ∈ whole, c.isDigit = true := by
  rcases h with rfl | ⟨-, -, hdigits⟩
  · rintro c hc
    rw [List.mem_singleton.1 hc]
    rfl
  · exact hdigits

/-- A whole part is not empty. -/
theorem IsWhole.ne_nil {whole : List Char} (h : IsWhole whole) : whole ≠ [] := by
  rcases h with rfl | ⟨hne, -, -⟩
  · exact List.cons_ne_nil _ _
  · exact hne

/-- The digits of a number are a whole part. -/
theorem isWhole_toDigits (n : Nat) : IsWhole (Nat.toDigits 10 n) := by
  by_cases h : n = 0
  · exact .inl (by rw [h, Nat.toDigits_zero])
  · exact .inr ⟨Nat.toDigits_ne_nil, head?_toDigits_ne h, fun _ => Lexeme.isDigit_of_mem_toDigits⟩

/-! ## Taking a number text apart -/

/-- Digits in front of a text that does not begin with one. -/
theorem digits?_append {digits rest : List Char} (hne : digits ≠ [])
    (hdigits : ∀ c ∈ digits, c.isDigit = true) (hrest : Ends Char.isDigit rest) :
    digits? (digits ++ rest) = some (digits, rest) := by
  rw [digits?, hrest.takeWhile_append hdigits, hrest.dropWhile_append hdigits]
  split
  · exact absurd rfl hne
  · rfl

/-- A whole part in front of a text that does not begin with a digit. -/
theorem scanWhole?_append {whole rest : List Char} (h : IsWhole whole)
    (hrest : Ends Char.isDigit rest) : scanWhole? (whole ++ rest) = some (whole, rest) := by
  rcases h with rfl | ⟨hne, hhead, hdigits⟩
  · rfl
  · obtain ⟨c, cs, rfl⟩ := List.exists_cons_of_ne_nil hne
    rw [← digits?_append hne hdigits hrest, scanWhole?]
    rintro rest heq
    cases heq
    exact hhead rfl

/-- A fraction in front of a text that begins neither with a digit nor with a point. -/
theorem scanFraction?_append {fraction : Option (List Char)} {rest : List Char}
    (h : ∀ digits ∈ fraction, digits ≠ [] ∧ ∀ c ∈ digits, c.isDigit = true)
    (hdigit : Ends Char.isDigit rest) (hpoint : ∀ after, rest ≠ '.' :: after) :
    scanFraction? (fractionText fraction ++ rest) = some (fraction, rest) := by
  cases fraction with
  | none => rw [fractionText, List.nil_append, scanFraction?]; exact hpoint
  | some digits =>
    obtain ⟨hne, hdigits⟩ := h digits rfl
    rw [fractionText, List.cons_append, scanFraction?, digits?_append hne hdigits hdigit]
    rfl

/-- A power of ten in front of a text that does not go on as a number. -/
theorem scanPower?_append {power : Option (Bool × List Char)} {source rest : List Char}
    (h : IsPower power source) (hrest : Ends Lexeme.continuesNumber rest) :
    scanPower? (source ++ rest) = some (power, rest) := by
  cases h with
  | absent =>
    cases rest with
    | nil => rfl
    | cons c rest =>
      have hc := hrest c rfl
      simp only [Lexeme.continuesNumber, Bool.or_eq_false_iff, beq_eq_false_iff_ne] at hc
      simp [scanPower?, hc]
  | @present letter sign digits hletter hsign hne hdigits =>
    have hread := digits?_append hne hdigits (Lexeme.ends_isDigit hrest)
    -- an unsigned power begins with its first digit, which is not taken for a sign
    have hscan : scanSign (sign ++ (digits ++ rest)) = (decide (sign = ['-']), digits ++ rest) := by
      rcases hsign with rfl | rfl | rfl
      · obtain ⟨d, ds, rfl⟩ := List.exists_cons_of_ne_nil hne
        have hd : d.isDigit = true := hdigits d List.mem_cons_self
        rw [List.nil_append, List.cons_append, scanSign]
        · rfl
        · rintro rest heq
          cases heq
          cases hd
        · rintro rest heq
          cases heq
          cases hd
      · rfl
      · rfl
    rw [List.cons_append, List.append_assoc, scanPower?, if_pos hletter, hscan]
    simp [hread]

/-- A number text in front of a text that does not go on as a number is taken apart. -/
theorem scan?_append {n : Numeral} {text rest : List Char} (h : n.IsText text)
    (hrest : Ends Lexeme.continuesNumber rest) : scan? (text ++ rest) = some (n, rest) := by
  obtain @⟨negative, whole, source, fraction, power, hwhole, hfraction, hpower⟩ := h
  -- the power of ten ends the digits before it, and so does the text that follows
  have hsource : Ends Char.isDigit (source ++ rest) ∧ ∀ after, source ++ rest ≠ '.' :: after := by
    cases hpower with
    | absent =>
      refine ⟨Lexeme.ends_isDigit hrest, ?_⟩
      rintro after rfl
      simpa [Lexeme.continuesNumber] using hrest '.' rfl
    | present hletter _ _ _ =>
      rcases hletter with rfl | rfl <;> exact ⟨by rintro _ ⟨⟩; rfl, by simp⟩
  have hpoint : Ends Char.isDigit (fractionText fraction ++ (source ++ rest)) := by
    cases fraction with
    | none => exact hsource.1
    | some digits => rintro _ ⟨⟩; rfl
  have hminus :
      scanMinus (minusText negative ++ (whole ++ (fractionText fraction ++ (source ++ rest)))) =
      (negative, whole ++ (fractionText fraction ++ (source ++ rest))) := by
    cases negative with
    | true => rfl
    | false =>
      obtain ⟨c, cs, rfl⟩ := List.exists_cons_of_ne_nil hwhole.ne_nil
      have hc := hwhole.isDigit c List.mem_cons_self
      rw [minusText, if_neg (by decide), List.nil_append, List.cons_append, scanMinus]
      rintro rest heq
      cases heq
      cases hc
  simp only [List.append_assoc]
  simp [scan?, hminus, scanWhole?_append hwhole hpoint,
    scanFraction?_append hfraction hsource.1 hsource.2, scanPower?_append hpower hrest]

/-- Whether a character begins a number text. -/
def beginsNumber (c : Char) : Bool := c == '-' || c.isDigit

/-- A number text begins with a minus sign or a digit. -/
theorem IsText.exists_cons {n : Numeral} {text : List Char} (h : n.IsText text) :
    ∃ c cs, text = c :: cs ∧ beginsNumber c = true := by
  obtain @⟨negative, whole, source, fraction, power, hwhole, hfraction, hpower⟩ := h
  cases negative with
  | true => exact ⟨_, _, rfl, rfl⟩
  | false =>
    obtain ⟨c, cs, rfl⟩ := List.exists_cons_of_ne_nil hwhole.ne_nil
    have hc := hwhole.isDigit c List.mem_cons_self
    exact ⟨_, _, rfl, by rw [beginsNumber, hc, Bool.or_true]⟩

/-- A whole number text is taken apart. -/
theorem IsText.scan?_eq {n : Numeral} {text : List Char} (h : n.IsText text) :
    scan? text = some (n, []) := by
  have hnil : Ends Lexeme.continuesNumber [] := by rintro _ ⟨⟩
  have hscan := scan?_append h hnil
  rwa [List.append_nil] at hscan

/-! ## What is taken apart -/

/-- What is taken as digits stands in front of the rest. -/
theorem append_of_digits? {cs digits rest : List Char} (h : digits? cs = some (digits, rest)) :
    digits ++ rest = cs ∧ digits ≠ [] ∧ ∀ c ∈ digits, c.isDigit = true := by
  unfold digits? at h
  split at h
  · cases h
  · rename_i hne
    cases h
    exact ⟨List.takeWhile_append_dropWhile, hne, List.all_eq_true.1 List.all_takeWhile⟩

/-- What is taken as a whole part stands in front of the rest. -/
theorem append_of_scanWhole? {cs whole rest : List Char} (h : scanWhole? cs = some (whole, rest)) :
    whole ++ rest = cs ∧ IsWhole whole := by
  unfold scanWhole? at h
  split at h
  · cases h
    exact ⟨rfl, .inl rfl⟩
  · rename_i hzero
    obtain ⟨rfl, hne, hdigits⟩ := append_of_digits? h
    refine ⟨rfl, .inr ⟨hne, ?_, hdigits⟩⟩
    intro hhead
    obtain ⟨cs, rfl⟩ := List.head?_eq_some_iff.1 hhead
    exact hzero _ rfl

/-- What is taken as a fraction stands in front of the rest. -/
theorem append_of_scanFraction? {cs rest : List Char} {fraction : Option (List Char)}
    (h : scanFraction? cs = some (fraction, rest)) :
    fractionText fraction ++ rest = cs ∧
      ∀ digits ∈ fraction, digits ≠ [] ∧ ∀ c ∈ digits, c.isDigit = true := by
  unfold scanFraction? at h
  split at h
  · obtain ⟨⟨digits, after⟩, hread, hsame⟩ := Option.map_eq_some_iff.1 h
    cases hsame
    obtain ⟨rfl, hdigits⟩ := append_of_digits? hread
    refine ⟨rfl, ?_⟩
    rintro _ ⟨⟩
    exact hdigits
  · cases h
    exact ⟨rfl, by rintro _ ⟨⟩⟩

/-- What is taken as a sign stands in front of the rest. -/
theorem append_of_scanSign (cs : List Char) :
    ∃ sign, sign ++ (scanSign cs).2 = cs ∧ (sign = [] ∨ sign = ['+'] ∨ sign = ['-']) ∧
      decide (sign = ['-']) = (scanSign cs).1 := by
  unfold scanSign
  split
  · exact ⟨['+'], rfl, .inr (.inl rfl), rfl⟩
  · exact ⟨['-'], rfl, .inr (.inr rfl), rfl⟩
  · exact ⟨[], rfl, .inl rfl, rfl⟩

/-- What is taken as a power of ten stands in front of the rest. -/
theorem append_of_scanPower? {cs rest : List Char} {power : Option (Bool × List Char)}
    (h : scanPower? cs = some (power, rest)) :
    ∃ source, source ++ rest = cs ∧ IsPower power source := by
  unfold scanPower? at h
  split at h
  · cases h
    exact ⟨[], rfl, .absent⟩
  · rename_i letter after
    split at h
    · rename_i hletter
      obtain ⟨⟨digits, last⟩, hread, hsame⟩ := Option.map_eq_some_iff.1 h
      cases hsame
      obtain ⟨sign, hafter, hsign, hnegative⟩ := append_of_scanSign after
      obtain ⟨hdigits, hne, hall⟩ := append_of_digits? hread
      refine ⟨letter :: (sign ++ digits), ?_, ?_⟩
      · rw [List.cons_append, List.append_assoc, hdigits, hafter]
      · rw [← hnegative]
        exact .present hletter hsign hne hall
    · cases h
      exact ⟨[], rfl, .absent⟩

/-- What is taken from the front of a text is a number text. -/
theorem append_of_scan? {text rest : List Char} {n : Numeral} (h : scan? text = some (n, rest)) :
    ∃ source, source ++ rest = text ∧ n.IsText source := by
  simp only [scan?, bind, Option.bind_eq_some_iff, Prod.exists] at h
  obtain
    ⟨whole, afterWhole, hwhole, fraction, afterFraction, hfraction, power, last, hpower, hn⟩ := h
  cases hn
  obtain ⟨hwholeText, hiswhole⟩ := append_of_scanWhole? hwhole
  obtain ⟨rfl, hdigits⟩ := append_of_scanFraction? hfraction
  obtain ⟨source, rfl, hispower⟩ := append_of_scanPower? hpower
  have hminus : minusText (scanMinus text).1 ++ (scanMinus text).2 = text := by
    unfold scanMinus
    split <;> rfl
  refine ⟨_, ?_, .intro hiswhole hdigits hispower⟩
  rw [List.append_assoc, List.append_assoc, List.append_assoc, hwholeText, hminus]

/-- A text that is taken as a number as a whole is a number text. -/
theorem isText_iff {text : List Char} {n : Numeral} :
    n.IsText text ↔ scan? text = some (n, []) := by
  refine ⟨IsText.scan?_eq, fun h => ?_⟩
  obtain ⟨source, rfl, htext⟩ := append_of_scan? h
  rwa [List.append_nil]

/-! ## The texts of integers -/

/-- The text of an integer is a number text without fraction and power of ten. -/
theorem isText_intText (value : Int) :
    IsText ⟨decide (value < 0), Nat.toDigits 10 value.natAbs, none, none⟩ (Json.intText value) := by
  have htext : Json.intText value = minusText (decide (value < 0)) ++
      (Nat.toDigits 10 value.natAbs ++ (fractionText none ++ [])) := by
    by_cases h : value < 0 <;> simp [Json.intText, minusText, fractionText, h]
  rw [htext]
  exact .intro (isWhole_toDigits _) (by rintro _ ⟨⟩) .absent

/-- The text of an integer is decoded as the integer. -/
theorem toNumber?_intText (value : Int) (hrange : -2 ^ 63 ≤ value ∧ value < 2 ^ 64) :
    toNumber? ⟨decide (value < 0), Nat.toDigits 10 value.natAbs, none, none⟩ =
      some (.int value hrange) := by
  have hfits : Number.ofInt? value = some (.int value hrange) := dif_pos hrange
  have hvalue : toInt? ⟨decide (value < 0), Nat.toDigits 10 value.natAbs, none, none⟩ =
      some (.int value hrange) := by
    by_cases h : value < 0
    · have hnat : -(value.natAbs : Int) = value := by omega
      have hne : value.natAbs ≠ 0 := by omega
      simp only [toInt?, h, Nat.ofDigitChars_ten_toDigits, hnat, hne, hfits, decide_true,
        Option.isSome_none, Bool.false_eq_true, or_self, if_true, if_false]
    · have hnat : (value.natAbs : Int) = value := by omega
      simp only [toInt?, h, Nat.ofDigitChars_ten_toDigits, hnat, hfits, decide_false,
        Option.isSome_none, Bool.false_eq_true, or_self, if_false]
  rw [toNumber?, hvalue]

/-! ## The texts of binary64 numbers -/

/-- A power of ten, taken apart. -/
def powerParts (power : Int) : Bool × List Char :=
  (decide (power < 0), Nat.toDigits 10 power.natAbs)

/-- A power of ten is written with its sign and its digits. -/
theorem isPower_exponentText (power : Int) :
    IsPower (some (powerParts power)) (Decimal.exponentText power) := by
  have hsign : [if power < 0 then '-' else '+'] = [] ∨ [if power < 0 then '-' else '+'] = ['+'] ∨
      [if power < 0 then '-' else '+'] = ['-'] := by split <;> simp
  have hpower := IsPower.present (.inl (rfl : 'e' = 'e')) hsign Nat.toDigits_ne_nil
    (fun _ => Lexeme.isDigit_of_mem_toDigits (n := power.natAbs))
  by_cases hneg : power < 0 <;> simpa [powerParts, Decimal.exponentText, hneg] using hpower

/-- The value of a power of ten is put together again. -/
theorem powerValue_powerParts (power : Int) : powerValue (some (powerParts power)) = power := by
  simp only [powerParts, powerValue, Nat.ofDigitChars_ten_toDigits, decide_eq_true_eq]
  split <;> omega

/-- A power of ten that is written, or absent, is the text of one. -/
theorem exists_isPower {source : List Char} {power : Int} (h : Decimal.PowerText source power) :
    ∃ parts, IsPower parts source ∧ powerValue parts = power := by
  cases h with
  | absent => exact ⟨none, .absent, rfl⟩
  | present power => exact ⟨_, isPower_exponentText power, powerValue_powerParts power⟩

/-- Whether a text begins with a superfluous zero. -/
def ZeroLed (text : List Char) : Prop := ∃ c rest, text = '0' :: c :: rest ∧ c.isDigit = true

/-- A text that begins with another character does not begin with a superfluous zero. -/
theorem not_zeroLed_of_head? {text : List Char} (h : text.head? ≠ some '0') : ¬ZeroLed text := by
  rintro ⟨c, rest, rfl, -⟩
  exact h rfl

/-- Digits that do not begin a text with a superfluous zero are a whole part. -/
theorem isWhole_of_not_zeroLed {whole rest : List Char} (hne : whole ≠ [])
    (hdigits : ∀ c ∈ whole, c.isDigit = true) (hzero : ¬ZeroLed (whole ++ rest)) :
    IsWhole whole := by
  obtain ⟨c, cs, rfl⟩ := List.exists_cons_of_ne_nil hne
  by_cases hc : c = '0'
  · subst hc
    cases cs with
    | nil => exact .inl rfl
    | cons next cs => exact absurd ⟨next, _, rfl, hdigits next (by simp)⟩ hzero
  · exact .inr ⟨hne, by simpa using hc, hdigits⟩

/-- Whether a number text has a fraction or a power of ten. -/
def isReal (n : Numeral) : Bool := n.fraction.isSome || n.power.isSome

/-- A number text with a fraction or a power of ten is no integer. -/
theorem toInt?_of_isReal {n : Numeral} (h : n.isReal = true) : n.toInt? = none := by
  rw [toInt?, if_pos (by simpa [isReal] using h)]

/-- A number text that makes up a decimal number, maybe with some more zeros at its end. -/
inductive Denotes (d : Decimal) : List Char → Prop
  | intro {n : Numeral} {text : List Char} (zeros : Nat) (htext : n.IsText text)
      (hsign : n.negative = false) (hreal : n.isReal = true)
      (hdecimal : n.decimal = ⟨10 ^ zeros * d.digits, d.exponent - zeros⟩) : Denotes d text

/-- Digits with a point among them are a number text, unless they begin with a superfluous zero. -/
theorem denotes_of_fractionText {d : Decimal} {text : List Char} (h : d.FractionText text)
    (hzero : ¬ZeroLed text) : Denotes d text := by
  obtain ⟨whole, fraction, source, power, zeros, hwhole, hfraction, hdigits, hpower, hvalue,
    hexponent⟩ := h
  obtain ⟨parts, hparts, rfl⟩ := exists_isPower hpower
  have hboth := List.forall_mem_append.1 hdigits
  have hiswhole := isWhole_of_not_zeroLed hwhole hboth.1 hzero
  have htext : IsText ⟨false, whole, some fraction, parts⟩ _ :=
    .intro hiswhole (by rintro _ ⟨⟩; exact ⟨hfraction, hboth.2⟩) hparts
  refine .intro zeros htext rfl rfl ?_
  simp only [decimal, Option.getD_some, hvalue, Decimal.mk.injEq, true_and]
  omega

/-- A lone digit with a power of ten is a number text. -/
theorem denotes_exponentText {c : Char} {n : Nat} (h : Nat.toDigits 10 n = [c]) (power : Int) :
    Denotes ⟨n, power⟩ ([c] ++ Decimal.exponentText power) := by
  have hwhole : IsWhole [c] := h ▸ isWhole_toDigits n
  have htext : IsText ⟨false, [c], none, _⟩ _ :=
    .intro hwhole (by rintro _ ⟨⟩) (isPower_exponentText power)
  refine .intro 0 htext rfl rfl ?_
  simp [decimal, powerValue_powerParts, ← h, Nat.ofDigitChars_ten_toDigits]

/-- A decimal number in positional notation. -/
theorem denotes_positionalText {d : Decimal} (h : d.digits = 0 → d.exponent = 0) :
    Denotes d (d.positionalText true) := by
  refine denotes_of_fractionText d.fractionText_positional ?_
  by_cases hzero : d.digits = 0
  · -- zero is written with a point behind its only digit
    obtain ⟨digits, exponent⟩ := d
    obtain rfl : digits = 0 := hzero
    obtain rfl : exponent = 0 := h rfl
    rintro ⟨c, rest, heq, hc⟩
    cases heq
    cases hc
  · -- the digits do not begin with a zero, and before a number below one stands a lone zero
    obtain ⟨c, cs, hcons⟩ :=
      List.exists_cons_of_ne_nil (Nat.toDigits_ne_nil (n := d.digits) (b := 10))
    have hhead := head?_toDigits_ne hzero
    rw [Decimal.positionalText]
    split
    · exact not_zeroLed_of_head? (by simpa [hcons] using hhead)
    · dsimp only
      split
      · rename_i hplaces
        refine not_zeroLed_of_head? ?_
        obtain ⟨k, hk⟩ : ∃ k, (Nat.toDigits 10 d.digits).length - (-d.exponent).toNat = k + 1 :=
          ⟨_, (Nat.succ_pred (by omega)).symm⟩
        rw [hk, hcons] at *
        simpa using hhead
      · rintro ⟨c, rest, heq, hc⟩
        cases heq
        cases hc

/-- A decimal number in scientific notation. -/
theorem denotes_scientificText (d : Decimal) : Denotes d (d.scientificText false) := by
  obtain ⟨c, cs, hcons⟩ :=
    List.exists_cons_of_ne_nil (Nat.toDigits_ne_nil (n := d.digits) (b := 10))
  cases cs with
  | nil =>
    have hmagnitude : d.magnitude - 1 = d.exponent := by
      simp [Decimal.magnitude, decimalWidth, hcons]
    have htext := denotes_exponentText hcons d.exponent
    simpa [Decimal.scientificText, hcons, Decimal.zeroFraction, hmagnitude] using htext
  | cons next others =>
    -- the point stands behind the first digit, so no zero is superfluous
    have hsame : d.scientificText false = d.scientificText true := by
      simp [Decimal.scientificText, hcons]
    rw [hsame]
    refine denotes_of_fractionText d.fractionText_scientific ?_
    rintro ⟨second, rest, heq, hsecond⟩
    simp only [Decimal.scientificText, hcons, List.drop_succ_cons, List.drop_zero,
      List.take_succ_cons, List.take_zero, List.cons_append, List.nil_append] at heq
    cases heq
    cases hsecond

/-- A decimal number as it is written in a document. -/
theorem denotes_text {d : Decimal} (h : d.digits = 0 → d.exponent = 0) :
    Denotes d (d.text Json.floatLayout) := by
  show Denotes d (if _ then d.positionalText true else d.scientificText false)
  split
  · exact denotes_positionalText h
  · exact denotes_scientificText d

/-- A number text with a sign in front. -/
theorem IsText.withSign {n : Numeral} {text : List Char} (h : n.IsText text)
    (hsign : n.negative = false) (negative : Bool) :
    IsText { n with negative := negative } (minusText negative ++ text) := by
  obtain ⟨hwhole, hfraction, hpower⟩ := h
  subst hsign
  exact .intro hwhole hfraction hpower

/-- The shortest decimal of zero is no other form of it. -/
theorem exponent_shortest_of_digits (x : Binary64) (ties : TieRule)
    (h : (x.shortest ties).digits = 0) : (x.shortest ties).exponent = 0 := by
  have hread := Binary64.ofDecimal?_shortest ties x
  rw [Binary64.ofDecimal?, if_pos h] at hread
  -- only zero is read from the digit zero, and zero is written in one form
  have hrank : x.rank = 0 := by
    rw [← Option.some.inj hread]
    rfl
  rw [Binary64.shortest, if_pos hrank]

/-- The text of a binary64 number makes up a decimal number whose nearest one it is. -/
theorem exists_isText_floatText (x : Binary64) :
    ∃ n : Numeral, n.IsText (Json.floatText Json.floatLayout x) ∧ n.isReal = true ∧
      n.negative = x.negative ∧ Binary64.ofDecimal? x.negative n.decimal = some x := by
  obtain @⟨n, text, zeros, htext, hsign, hreal, hdecimal⟩ :=
    denotes_text (exponent_shortest_of_digits x .even)
  refine ⟨{ n with negative := x.negative }, ?_, hreal, rfl, ?_⟩
  · -- the sign is written in front of the text without one
    have hwith := htext.withSign hsign x.negative
    cases hnegative : x.negative <;> simpa [Json.floatText, minusText, hnegative] using hwith
  · show Binary64.ofDecimal? x.negative n.decimal = some x
    rw [hdecimal, Binary64.ofDecimal?_pow_mul]
    have hexponent : (x.shortest .even).exponent - zeros + zeros = (x.shortest .even).exponent := by
      omega
    rw [hexponent]
    exact Binary64.ofDecimal?_shortest .even x

end Numeral

end DocQuery
