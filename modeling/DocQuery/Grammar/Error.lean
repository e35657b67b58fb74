import DocQuery.Token.Lexer

/-!
# Errors in query texts

A text fails to parse because no token begins at some place, or because the token at some place
does not fit the grammar. Either way the error tells the byte offset of the place.
-/

namespace DocQuery

/-- What the grammar calls for at a place. -/
inductive Expectation where
  /-- The start of a selector. -/
  | selector
  /-- The name after a dot. -/
  | identifier
  /-- The name or the bracket after two dots. -/
  | identifierOrBracket
  /-- What may stand inside brackets. -/
  | bracketContent
  /-- The bracket that closes an open one. -/
  | bracketClose
  deriving DecidableEq, Repr

/-- The wording of an expectation in messages. -/
def Expectation.describe : Expectation → String
  | .selector => "Selector"
  | .identifier => "Identifier"
  | .identifierOrBracket => "Identifier or '['"
  | .bracketContent => "String, index or slice"
  | .bracketClose => "']'"

/-- Why a token does not fit the grammar. -/
inductive GrammarFault where
  /-- Something else is called for. -/
  | expected (what : Expectation) (found : Token.Kind)
  /-- The text should have ended. -/
  | unexpected (found : Token.Kind)
  /-- The number lies beyond the finite binary64 numbers. -/
  | outOfRange
  deriving DecidableEq, Repr

/-- The message of a fault. -/
def GrammarFault.message : GrammarFault → String
  | .expected what found => what.describe ++ " expected, found " ++ found.describe
  | .unexpected found => "Unexpected token: " ++ found.describe
  | .outOfRange => "Number out of range: " ++ Token.Kind.floatText none

/-- Why a text fails to parse. -/
inductive SyntaxError where
  /-- No token begins at a place. -/
  | lex (error : LexError)
  /-- The token at a place does not fit the grammar. -/
  | parse (position : Nat) (fault : GrammarFault)
  deriving DecidableEq, Repr

namespace SyntaxError

/-- The byte offset of an error. -/
def position : SyntaxError → Nat
  | .lex error => error.position
  | .parse position _ => position

/-- The message of an error. -/
def message : SyntaxError → String
  | .lex error =>
    "Lex error at offset " ++ toString error.position ++ ": " ++ error.fault.message
  | .parse position fault =>
    "Parse error at offset " ++ toString position ++ ": " ++ fault.message

end SyntaxError

end DocQuery
