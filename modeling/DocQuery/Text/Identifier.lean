import DocQuery.Text.Alphabetic
import DocQuery.Text.Numeric

/-!
# Identifiers

An identifier begins with an alphabetic character or `_` and goes on with alphabetic and numeric
characters and `_`. Field names of this form are written bare, all others in quotes.

* `continuesIdentifier_of_begins`: what may begin an identifier may also go on one.
-/

namespace DocQuery

/-- Whether a character may begin an identifier. -/
def beginsIdentifier (c : Char) : Bool := isAlphabetic c || c == '_'

/-- Whether a character may go on an identifier. -/
def continuesIdentifier (c : Char) : Bool := isAlphabetic c || isNumeric c || c == '_'

/-- Whether a text is an identifier. -/
def isIdentifier (text : String) : Bool :=
  match text.toList with
  | [] => false
  | c :: rest => beginsIdentifier c && rest.all continuesIdentifier

/-- What may begin an identifier may also go on one. -/
theorem continuesIdentifier_of_begins {c : Char} (hbegins : beginsIdentifier c = true) :
    continuesIdentifier c = true := by
  simp only [beginsIdentifier, continuesIdentifier, Bool.or_eq_true] at hbegins ⊢
  exact hbegins.imp_left .inl

end DocQuery
