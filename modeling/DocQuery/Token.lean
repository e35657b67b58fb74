import DocQuery.Binary64.Shortest
import DocQuery.Decimal.Layout
import DocQuery.Operator

/-!
# Tokens of the query language

A token has a kind, which carries its payload, and the byte offset of its first character.
`Token.Kind.describe` names a kind in error messages.
-/

namespace DocQuery

/-- The kind of a token. -/
inductive Token.Kind where
  /-- A bare name or keyword. -/
  | identifier (name : String)
  /-- An integer below `2 ^ 63`. -/
  | integer (value : Int64)
  /-- An integer from `2 ^ 63` up to `2 ^ 64 - 1`. -/
  | unsigned (value : UInt64)
  /-- A number with a fraction; absent when it lies beyond the finite binary64 numbers. -/
  | float (value : Option Binary64)
  /-- A quoted text, its escapes resolved. -/
  | string (value : String)
  /-- One of the six comparison symbols. -/
  | operator (op : Operator)
  /-- `$` or `*`. -/
  | root
  /-- A single dot. -/
  | dot
  /-- Two dots. -/
  | dotDot
  /-- An opening bracket. -/
  | bracketOpen
  /-- A closing bracket. -/
  | bracketClose
  /-- A comma. -/
  | comma
  /-- The colon between the bounds of a slice. -/
  | colon
  /-- A run of white space, where white space is significant. -/
  | separator
  /-- The end of the text. -/
  | endOfInput
  deriving DecidableEq, Repr

/-- A token and the byte offset at which it begins. -/
structure Token where
  /-- What the token is. -/
  kind : Token.Kind
  /-- The byte offset of its first character. -/
  position : Nat
  deriving DecidableEq, Repr

namespace Token.Kind

/-- The layout of numbers in messages: all digits, and no fraction after a whole number. -/
def floatLayout : Decimal.Layout := ⟨none, false, false⟩

/-- The text of a number with a fraction in messages. -/
def floatText : Option Binary64 → String
  | none => "inf"
  | some value => .ofList ((value.shortest .up).text floatLayout)

/-- The payload of a token as a text, if it has one. -/
def payload? : Kind → Option String
  | .identifier name => some name
  | .integer value => some (toString value.toInt)
  | .unsigned value => some (toString value.toNat)
  | .float value => some (floatText value)
  | .string value => some value
  | .operator op => some op.symbol
  | _ => none

/-- The name of a token in messages; of a long text only the first 32 characters are shown. -/
def describe : Kind → String
  | .identifier name => "identifier '" ++ name ++ "'"
  | .integer value => "integer " ++ toString value.toInt
  | .unsigned value => "integer " ++ toString value.toNat
  | .float value => "float " ++ floatText value
  | .string value => "string '" ++ .ofList (value.toList.take 32) ++ "'"
  | .operator op => "operator '" ++ op.symbol ++ "'"
  | .root => "'$'"
  | .dot => "'.'"
  | .dotDot => "'..'"
  | .bracketOpen => "'['"
  | .bracketClose => "']'"
  | .comma => "','"
  | .colon => "':'"
  | .separator => "whitespace"
  | .endOfInput => "end of input"

/-- Whether the token is a given keyword, which is written in small letters. -/
def isKeyword (keyword : String) : Kind → Bool
  | .identifier name => DocQuery.isKeyword keyword name
  | _ => false

end Token.Kind

/-- The text of a token in messages. -/
def Token.describe (token : Token) : String :=
  token.kind.describe ++ " at " ++ toString token.position

end DocQuery
