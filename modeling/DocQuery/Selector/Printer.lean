import DocQuery.Json.Printer
import DocQuery.Selector.Basic
import DocQuery.Text.Identifier

/-!
# Writing selectors

The text of a selector in the query language. Field names that are identifiers are written with a
dot, all others in brackets and quotes; after a descent the dot is left out. The identity is `$`.

A constant is written as in a JSON text, with two exceptions: strings are put in single quotes, and
a number in scientific notation always has a fraction, as the language demands before a power of
ten.
-/

namespace DocQuery

namespace Selector

/-- A character of a quoted text. -/
def escape (c : Char) : List Char :=
  if c = '\x27' ∨ c = '\\' then ['\\', c]
  else if c = '\n' then ['\\', 'n']
  else if c = '\t' then ['\\', 't']
  else if c = '\r' then ['\\', 'r']
  else [c]

/-- A text in single quotes. -/
def quoted (text : String) : List Char :=
  '\x27' :: (text.toList.flatMap escape ++ ['\x27'])

/-- The layout of binary64 numbers in queries. -/
def floatLayout : Decimal.Layout := ⟨some (-5, 16), true, true⟩

/-- The text of a constant. -/
def constantText : Json → List Char
  | .string value => quoted value
  | .number (.float value) => Json.floatText floatLayout value
  | value => value.text .compact 0

/-- The text of a bound of a slice, which may be absent. -/
def boundText : Option Int64 → List Char
  | none => []
  | some bound => Json.intText bound.toInt

/-- The text of a segment that follows something other than a descent. -/
def segmentText : Segment → List Char
  | .constant value => constantText value
  | .field name => if isIdentifier name then '.' :: name.toList else '[' :: (quoted name ++ [']'])
  | .index position => '[' :: (Json.intText position.toInt ++ [']'])
  | .slice none none => ['[', ']']
  | .slice first last => '[' :: (boundText first ++ ':' :: (boundText last ++ [']']))
  | .descent => ['.', '.']

/-- The text of a segment, given whether it follows a descent. -/
def segmentTextAfter (descent : Bool) : Segment → List Char
  | .field name => if descent && isIdentifier name then name.toList else segmentText (.field name)
  | segment => segmentText segment

/-- The text of segments, given whether they follow a descent. -/
def segmentsText (descent : Bool) : List Segment → List Char
  | [] => []
  | segment :: rest => segmentTextAfter descent segment ++ segmentsText segment.isDescent rest

/-- The characters of the text of a selector. -/
def chars (selector : Selector) : List Char :=
  if selector.isIdentity then ['$'] else segmentsText false selector.segments

/-- The text of a selector. -/
def text (selector : Selector) : String := .ofList selector.chars

end Selector

end DocQuery
