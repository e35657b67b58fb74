import DocQuery.Proofs.Numbers.Literals
import DocQuery.Proofs.Numbers.Order

/-!
# Integers in predicates

An integer of a predicate is read as a word of 64 bits, a signed one if it fits and an unsigned one
otherwise, and it is compared with an integer of a document in one of three ways. None of this is
seen from outside: the predicate holds of exactly those integers that the digits say. Digits that
no word can hold are refused where they stand. The text in front of them is passed first, and it is
passed as it is in front of digits that are accepted.

* `Operator.holds_int`: an operator compares integers as numbers.
* `Grammar.filter_eq_error`: where the right side of a comparison begins with no token, it fails
  there.
* `Filter.parse_compare_digits`: what becomes of a comparison with digits.
-/

namespace DocQuery

open Grammar

/-! ## Comparing integers -/

/-- What an operator says of two integers. -/
def Operator.Relates : Operator → Int → Int → Prop
  | .equal, a, b => a = b
  | .notEqual, a, b => a ≠ b
  | .less, a, b => a < b
  | .lessOrEqual, a, b => a ≤ b
  | .greater, a, b => a > b
  | .greaterOrEqual, a, b => a ≥ b
  | _, _, _ => False

instance (op : Operator) (a b : Int) : Decidable (op.Relates a b) :=
  match op with
  | .equal => inferInstanceAs (Decidable (a = b))
  | .notEqual => inferInstanceAs (Decidable (a ≠ b))
  | .less => inferInstanceAs (Decidable (a < b))
  | .lessOrEqual => inferInstanceAs (Decidable (a ≤ b))
  | .greater => inferInstanceAs (Decidable (a > b))
  | .greaterOrEqual => inferInstanceAs (Decidable (a ≥ b))
  | .within => .isFalse id
  | .like => .isFalse id

/-- An operator other than the two words. -/
def Operator.IsSymbol (op : Operator) : Prop := op ≠ .within ∧ op ≠ .like

/-- An operator compares integers as numbers, whichever words they are held in. -/
theorem Operator.holds_int {op : Operator} (hop : op.IsSymbol) {a b : Int}
    (ha : -2 ^ 63 ≤ a ∧ a < 2 ^ 64) (hb : -2 ^ 63 ≤ b ∧ b < 2 ^ 64) :
    op.holds (.number (.int a ha)) (.number (.int b hb)) = true ↔ op.Relates a b := by
  have hequal : Json.equal (.number (.int a ha)) (.number (.int b hb)) = true ↔ a = b := by
    show Number.equal _ _ = true ↔ _
    exact Number.equal_int_iff
  have horder : Json.order? (.number (.int a ha)) (.number (.int b hb)) = some (compare a b) := by
    rw [Json.order?, Number.order_int]
  obtain ⟨hwithin, hlike⟩ := hop
  cases op with
  | equal => exact hequal
  | notEqual =>
    show (!Json.equal _ _) = true ↔ a ≠ b
    rw [Bool.not_eq_true', ← Bool.not_eq_true, hequal]
  | less => simp [holds, horder, Relates, compare_lt_iff_lt]
  | lessOrEqual =>
    simp only [holds, horder, Relates, Bool.or_eq_true, beq_iff_eq, Option.some_inj,
      compare_lt_iff_lt, compare_eq_iff_eq]
    omega
  | greater => simp [holds, horder, Relates, compare_gt_iff_gt]
  | greaterOrEqual =>
    simp only [holds, horder, Relates, Bool.or_eq_true, beq_iff_eq, Option.some_inj,
      compare_gt_iff_gt, compare_eq_iff_eq]
    omega
  | within => exact absurd rfl hwithin
  | like => exact absurd rfl hlike

/-! ## Digits -/

namespace Lexeme

/-- Digits alone are an integer. -/
theorem scan_digits {c : Char} {rest : List Char} (h : ∀ d ∈ c :: rest, d.isDigit = true) :
    scan c rest = (integerKind (c :: rest)).map fun kind => ⟨kind, c :: rest, []⟩ := by
  have hscan : scanNumber (c :: rest ++ []) = _ := scanNumber_digits h (by simp [Ends]) (by simp)
  rw [List.append_nil] at hscan
  rw [scan_of_isDigit rest (h c List.mem_cons_self), hscan]

/-- An integer that fits a word of 64 bits has a kind. -/
theorem exists_integerKind {whole : List Char} (h : Nat.ofDigitChars 10 whole 0 < 2 ^ 64) :
    ∃ kind, integerKind whole = .ok kind := by
  unfold integerKind
  dsimp only
  rw [if_pos h]
  split
  · exact ⟨_, rfl⟩
  · exact ⟨_, rfl⟩

/-- An integer that fits no word of 64 bits is too large. -/
theorem integerKind_of_ge {whole : List Char} (h : 2 ^ 64 ≤ Nat.ofDigitChars 10 whole 0) :
    integerKind whole = .error (.integerTooLarge (.ofList whole)) := by
  unfold integerKind
  dsimp only
  rw [if_neg (by omega), if_neg (by omega)]

end Lexeme

/-! ## Where the right side fails -/

namespace Grammar

open Parse

/-- Where no token begins behind the operator of a comparison, the comparison fails there. -/
theorem filter_eq_error {cursor mid after : Cursor} {lhs : Selector} {op : Operator}
    {error : SyntaxError} (hlhs : selector cursor = (.ok lhs, mid))
    (hop : operator? mid.token.kind = some op) (hnext : advance mid = (.error error, after)) :
    filter cursor = (.error error, after) := by
  simp only [filter, Bind.bind, hlhs, kind, hop, hnext]

section Member

variable {op : Operator} (rest : List Char)

/-- The cursor at the beginning of a member, in front of the symbol of an operator. -/
def memberCursor (op : Operator) (policies : List Bool) : Cursor :=
  ⟨⟨'x' :: ' ' :: (op.symbol.toList ++ ' ' :: rest), 1, policies⟩, ⟨.dot, 0⟩⟩

/-- The cursor at the white space behind the member. -/
def separatorCursor (op : Operator) (policies : List Bool) : Cursor :=
  ⟨⟨op.symbol.toList ++ ' ' :: rest, 3, policies⟩, ⟨.separator, 2⟩⟩

/-- The cursor at the symbol of the operator. -/
def symbolCursor (op : Operator) : Cursor :=
  ⟨⟨' ' :: rest, 3 + utf8Length op.symbol.toList, []⟩, ⟨.operator op, 3⟩⟩

/-- A member is a single step. -/
theorem steps_memberCursor :
    steps (memberCursor rest op [false]) = (.ok [.field "x"], separatorCursor rest op [false]) := by
  have hstep : step (memberCursor rest op [false]) =
      (.ok (some [.field "x"]), separatorCursor rest op [false]) := by
    -- no operator begins with white space, so the separator is a single space
    cases op <;> rfl
  have hnone : step (separatorCursor rest op [false]) =
      (.ok none, separatorCursor rest op [false]) := rfl
  have hmany : many step consuming_step (memberCursor rest op [false]) =
      (.ok [[.field "x"]], separatorCursor rest op [false]) :=
    many_of_some hstep (many_of_none hnone)
  simp only [steps, Bind.bind, hmany]
  rfl

/-- A member is passed together with the white space behind it. -/
theorem selector_memberCursor (hop : op.IsSymbol) :
    selector (memberCursor rest op []) = (.ok (.single (.field "x")), symbolCursor rest op) := by
  -- the member is read while white space is significant, and the space behind it then skipped
  have hbare : bareSelector (memberCursor rest op [false]) =
      (.ok (.single (.field "x")), separatorCursor rest op [false]) := by
    show (do return (⟨← steps⟩ : Selector) : Parse Selector) _ = _
    simp only [Bind.bind, steps_memberCursor]
    rfl
  have hpolicy : withPolicy false bareSelector (memberCursor rest op []) =
      (.ok (.single (.field "x")), separatorCursor rest op []) := by
    have hpushed : { memberCursor rest op [] with
        lexer := (memberCursor rest op []).lexer.push false } = memberCursor rest op [false] := rfl
    rw [withPolicy, hpushed, hbare]
    rfl
  have hskip : skipSeparator (separatorCursor rest op []) = (.ok (), symbolCursor rest op) := by
    obtain ⟨hwithin, hlike⟩ := hop
    cases op with
    | within => exact absurd rfl hwithin
    | like => exact absurd rfl hlike
    | _ => rfl
  simp only [selector, Bind.bind, hpolicy, hskip]
  rfl

/-- Where no token begins behind the symbol and a space, this is the error. -/
theorem exists_advance_symbolCursor {c : Char} {cs : List Char} {fault : LexFault}
    (hblank : isBlank c = false) (hscan : Lexeme.scan c cs = .error fault) :
    ∃ after, advance (symbolCursor (c :: cs) op) =
      (.error (.lex ⟨(".x " ++ op.symbol ++ " ").utf8ByteSize, fault⟩), after) := by
  -- behind the symbol the lexer skips the space, and then stands at the text
  have hstart : (symbolCursor (c :: cs) op).lexer.skipBlanks =
      ⟨c :: cs, (".x " ++ op.symbol ++ " ").utf8ByteSize, []⟩ := by
    have hspace : isBlank ' ' = true := rfl
    have hposition : 3 + utf8Length op.symbol.toList + utf8Length [' '] =
        (".x " ++ op.symbol ++ " ").utf8ByteSize := by
      cases op <;> rfl
    have hskips : (symbolCursor (c :: cs) op).lexer.skips = true := rfl
    rw [Lexer.skipBlanks, if_pos hskips, ← hposition]
    show Lexer.advance _ ((' ' :: c :: cs).takeWhile isBlank)
      ((' ' :: c :: cs).dropWhile isBlank) = _
    rw [List.takeWhile_cons_of_pos hspace, List.dropWhile_cons_of_pos hspace,
      List.takeWhile_cons_of_neg (by simp [hblank]), List.dropWhile_cons_of_neg (by simp [hblank])]
    rfl
  rw [advance, Lexer.next, hstart]
  dsimp only
  rw [hscan]
  exact ⟨_, rfl⟩

end Member

end Grammar

/-- A comparison whose right side begins with no token fails there. -/
theorem Filter.parse_compare_eq_error {op : Operator} (hop : op.IsSymbol) {text : String} {c : Char}
    {cs : List Char} {fault : LexFault} (htext : text.toList = c :: cs)
    (hblank : isBlank c = false) (hscan : Lexeme.scan c cs = .error fault) :
    Filter.parse (".x " ++ op.symbol ++ " " ++ text) =
      .error (.lex ⟨(".x " ++ op.symbol ++ " ").utf8ByteSize, fault⟩) := by
  have hstart : Cursor.ofString (".x " ++ op.symbol ++ " " ++ text) =
      .ok (memberCursor (c :: cs) op []) := by
    have htoList : (".x " ++ op.symbol ++ " " ++ text).toList =
        '.' :: 'x' :: ' ' :: (op.symbol.toList ++ ' ' :: c :: cs) := by
      simp [htext]
    rw [Cursor.ofString, Lexer.ofString, htoList]
    rfl
  obtain ⟨after, hadvance⟩ := exists_advance_symbolCursor hblank hscan
  have hfilter := filter_eq_error (selector_memberCursor (c :: cs) hop) rfl hadvance
  rw [Filter.parse, parseAll, hstart]
  simp only [Bind.bind, hfilter]

/-! ## A comparison with digits -/

/-- A comparison of a member with digits, of which there may be superfluous zeros in front. If their
value fits a word of 64 bits, the comparison is parsed, and it holds of an integer exactly if the
operator relates the integer to the value. Otherwise it is not parsed, and the error is at the
offset of the digits. -/
theorem Filter.parse_compare_digits {op : Operator} (hop : op.IsSymbol) {digits : String}
    (hne : digits ≠ "") (hdigits : ∀ c ∈ digits.toList, c.isDigit = true) :
    let value := Nat.ofDigitChars 10 digits.toList 0
    (value < 2 ^ 64 → ∃ filter, Filter.parse (".x " ++ op.symbol ++ " " ++ digits) = .ok filter ∧
      ∀ (m : Int) (hm : -2 ^ 63 ≤ m ∧ m < 2 ^ 64),
        filter.holds (.object [("x", .number (.int m hm))]) = true ↔ op.Relates m value) ∧
    (2 ^ 64 ≤ value → Filter.parse (".x " ++ op.symbol ++ " " ++ digits) =
      .error (.lex ⟨(".x " ++ op.symbol ++ " ").utf8ByteSize, .integerTooLarge digits⟩)) := by
  intro value
  have hvalue : Nat.ofDigitChars 10 digits.toList 0 = value := rfl
  clear_value value
  obtain ⟨c, cs, htext⟩ : ∃ c cs, digits.toList = c :: cs := by
    apply List.exists_cons_of_ne_nil
    simpa using hne
  rw [htext] at hdigits
  have hscan := Lexeme.scan_digits hdigits
  constructor
  · -- the word that holds the value decides about the kind of the token, but not about the number
    intro hlt
    obtain ⟨kind, hkind⟩ := Lexeme.exists_integerKind (hvalue ▸ hlt)
    obtain ⟨number, hliteral, hnumber⟩ := exists_literal_of_integerKind hkind
    have hrange : -2 ^ 63 ≤ (value : Int) ∧ (value : Int) < 2 ^ 64 := by omega
    obtain rfl : .int value hrange = number := by
      have hfits : Number.ofInt? value = some (.int value hrange) := dif_pos hrange
      rw [Numeral.toNumber?, Numeral.toInt?_digits, hvalue, hfits] at hnumber
      exact Option.some.inj hnumber
    have hspells : Spells digits.toList [kind] [] := by
      rw [htext] at hkind ⊢
      rw [hkind] at hscan
      exact .cons_of_eq hscan (.nil _)
    refine ⟨_, Filter.parse_compare_literal op hliteral hspells, fun m hm => ?_⟩
    rw [Filter.holds_compare_constant hop.1, Operator.holds_int hop]
  · -- no token begins at the digits, and everything in front of them is passed
    intro hge
    have hkind := Lexeme.integerKind_of_ge (hvalue ▸ hge)
    rw [String.ofList_toList, htext] at hkind
    rw [hkind] at hscan
    exact Filter.parse_compare_eq_error hop htext
      (isBlank_of_isDigit (hdigits c List.mem_cons_self)) hscan

/-- The two largest words round to one binary64 number and are told apart all the same, also with a
zero in front of the digits. What is larger by one is refused. -/
theorem Filter.parse_compare_digits_boundary :
    (∃ filter, Filter.parse ".x < 018446744073709551615" = .ok filter ∧
      filter.holds (.object [("x", .number (.int 18446744073709551614 (by decide)))]) = true ∧
      filter.holds (.object [("x", .number (.int 18446744073709551615 (by decide)))]) = false ∧
      filter.holds (.object [("x", .number (.int (-9223372036854775808) (by decide)))]) = true) ∧
    Filter.parse ".x < 18446744073709551616" =
      .error (.lex ⟨5, .integerTooLarge "18446744073709551616"⟩) := by
  have hop : Operator.less.IsSymbol := ⟨by decide, by decide⟩
  have hsmall : ∀ c ∈ "018446744073709551615".toList, c.isDigit = true :=
    List.all_eq_true.1 (by decide)
  have hlarge : ∀ c ∈ "18446744073709551616".toList, c.isDigit = true :=
    List.all_eq_true.1 (by decide)
  constructor
  · obtain ⟨filter, hparse, hholds⟩ :=
      (Filter.parse_compare_digits hop (by decide) hsmall).1 (by decide)
    refine ⟨filter, hparse, ?_, ?_, ?_⟩
    · exact (hholds _ _).2 (by decide)
    · rw [← Bool.not_eq_true, hholds]
      decide
    · exact (hholds _ _).2 (by decide)
  · exact (Filter.parse_compare_digits hop (by decide) hlarge).2 (by decide)

end DocQuery
