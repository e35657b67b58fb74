import DocQuery.Proofs.Numbers.Texts
import DocQuery.Proofs.Grammar.Lookahead

/-!
# Number tokens of queries

A number token of a query is made of the same parts as a number text of a document, but for three
differences: it has no minus sign, it has a power of ten only behind a fraction, and it may begin
with superfluous zeros. Without these zeros it is a number text.

* `Lexeme.exists_isText_of_scan`: the number text that a token is made of, and its kind.
-/

namespace DocQuery

/-- Whether a token is a number. -/
def Token.Kind.isNumber : Token.Kind → Bool
  | .integer _ | .unsigned _ | .float _ => true
  | _ => false

namespace Lexeme

open Numeral

/-- A number is recognised where a digit stands. -/
theorem scanNumber_of_isNumber {c : Char} {rest : List Char} {lexeme : Lexeme}
    (h : scan c rest = .ok lexeme) (hnumber : lexeme.kind.isNumber = true) :
    c.isDigit = true ∧ scanNumber (c :: rest) = .ok lexeme := by
  cases scanned_of_scan h with
  | number hdigit h => exact ⟨hdigit, h⟩
  | @mark kind hmark => cases kind <;> simp_all [IsMark, Token.Kind.isNumber]
  | operator h =>
    obtain ⟨op, hkind⟩ := exists_operator_of_scanOperator h
    simp [hkind, Token.Kind.isNumber] at hnumber
  | string h =>
    obtain ⟨value, hkind⟩ := exists_string_of_scanString h
    simp [hkind, Token.Kind.isNumber] at hnumber
  | dotDot _ => cases hnumber
  | blank _ => cases hnumber
  | name _ => cases hnumber

/-- The power of ten that follows a fraction, taken apart. -/
theorem exists_isPower_of_scanPower {cs source rest : List Char} {power : Int}
    (h : scanPower cs = .ok (power, source, rest)) :
    ∃ parts, IsPower parts source ∧ powerValue parts = power := by
  cases scannedPower_of_scanPower h with
  | absent _ => exact ⟨none, .absent, rfl⟩
  | @present letter after digits rest hletter htaken _ hne =>
    have hsign : signOf after = [] ∨ signOf after = ['+'] ∨ signOf after = ['-'] := by
      unfold signOf
      split <;> simp
    refine ⟨_, .present hletter hsign hne (htaken ▸ of_mem_takeWhile), ?_⟩
    simp only [powerValue, decide_eq_true_eq]

/-- A number token that does not begin with a superfluous zero is a number text. It is an integer if
it has no fraction, and otherwise the binary64 number nearest to its decimal. -/
theorem exists_isText_of_scan {c : Char} {rest : List Char} {lexeme : Lexeme}
    (h : scan c rest = .ok lexeme) (hnumber : lexeme.kind.isNumber = true)
    (hzero : ¬ZeroLed lexeme.source) :
    ∃ n : Numeral, n.IsText lexeme.source ∧ n.negative = false ∧
      ((n.isReal = false ∧ integerKind n.whole = .ok lexeme.kind) ∨
        (n.isReal = true ∧ lexeme.kind = .float (Binary64.ofDecimal? false n.decimal))) := by
  obtain ⟨hdigit, hscan⟩ := scanNumber_of_isNumber h hnumber
  have hne : (c :: rest).takeWhile Char.isDigit ≠ [] := by simp [hdigit]
  cases scannedNumber_of_scanNumber hscan with
  | fraction _ hfraction hpower =>
    obtain ⟨parts, hparts, rfl⟩ := exists_isPower_of_scanPower hpower
    have hwhole := isWhole_of_not_zeroLed hne of_mem_takeWhile hzero
    refine ⟨⟨false, _, some _, parts⟩, .intro hwhole ?_ hparts, rfl, .inr ⟨rfl, rfl⟩⟩
    rintro _ ⟨⟩
    exact ⟨hfraction, of_mem_takeWhile⟩
  | integer _ hkind =>
    -- nothing follows the whole part, and it is not signed
    dsimp only at hzero ⊢
    rw [← List.append_nil (List.takeWhile _ _)] at hzero
    have hwhole := isWhole_of_not_zeroLed hne of_mem_takeWhile hzero
    have htext : IsText ⟨false, (c :: rest).takeWhile Char.isDigit, none, none⟩ _ :=
      .intro hwhole (by rintro _ ⟨⟩) .absent
    simp only [minusText, fractionText, List.append_nil] at htext
    exact ⟨_, htext, rfl, .inl ⟨rfl, hkind⟩⟩

end Lexeme

end DocQuery
