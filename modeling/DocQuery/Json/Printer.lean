import DocQuery.Binary64.Shortest
import DocQuery.Decimal.Layout
import DocQuery.Json.Basic

/-!
# Writing JSON texts

`Json.render` writes a value as a JSON text, on a single line without white space or over many
lines with an indentation of four spaces. Empty arrays and objects stay on one line in either
style. In a string only the quote, the backslash and the control characters are escaped.

A binary64 number is written with the fewest digits that read back as it, positionally while the
power of ten of its leading digit is from `-5` up to `15`, and always with a fraction there.
-/

namespace DocQuery

/-- How a JSON text is laid out. -/
inductive Rendering where
  /-- Over many lines, four spaces of indentation for each level. -/
  | pretty
  /-- On one line, without white space. -/
  | compact
  deriving DecidableEq, Repr

namespace Json

/-- The layout of binary64 numbers in JSON texts. -/
def floatLayout : Decimal.Layout := ⟨some (-5, 16), true, false⟩

/-- The text of a binary64 number in a given layout: its sign and its shortest decimal. -/
def floatText (layout : Decimal.Layout) (x : Binary64) : List Char :=
  let magnitude := (x.shortest .even).text layout
  if x.negative then '-' :: magnitude else magnitude

/-- The text of an integer. -/
def intText (n : Int) : List Char :=
  let digits := Nat.toDigits 10 n.natAbs
  if n < 0 then '-' :: digits else digits

/-- The text of a number. -/
def numberText : Number → List Char
  | .int value _ => intText value
  | .float value => floatText floatLayout value

/-- A character inside a string: the quote, the backslash and control characters are escaped. -/
def escape (c : Char) : List Char :=
  if c = '\x22' ∨ c = '\\' then ['\\', c]
  else if c = '\x08' then ['\\', 'b']
  else if c = '\x0c' then ['\\', 'f']
  else if c = '\n' then ['\\', 'n']
  else if c = '\r' then ['\\', 'r']
  else if c = '\t' then ['\\', 't']
  else if c.toNat < 0x20 then
    ['\\', 'u', '0', '0', Nat.digitChar (c.toNat / 16), Nat.digitChar (c.toNat % 16)]
  else [c]

/-- The text of a string with its quotes. -/
def stringText (s : String) : List Char :=
  '\x22' :: (s.toList.flatMap escape ++ ['\x22'])

/-- The break before an item at a given level of indentation. -/
def lineBreak (style : Rendering) (level : Nat) : List Char :=
  match style with
  | .compact => []
  | .pretty => '\n' :: List.replicate (4 * level) ' '

/-- What stands between a key and its value. -/
def colonText (style : Rendering) : List Char :=
  match style with
  | .compact => [':']
  | .pretty => [':', ' ']

mutual

/-- The text of a value at a given level of indentation. -/
def text (style : Rendering) (level : Nat) : Json → List Char
  | .null => ['n', 'u', 'l', 'l']
  | .bool true => ['t', 'r', 'u', 'e']
  | .bool false => ['f', 'a', 'l', 's', 'e']
  | .number value => numberText value
  | .string value => stringText value
  | .array [] => ['[', ']']
  | .array (item :: items) =>
    '[' :: (lineBreak style (level + 1) ++ text style (level + 1) item ++
      itemsText style (level + 1) items ++ lineBreak style level ++ [']'])
  | .object [] => ['\x7b', '\x7d']
  | .object ((key, value) :: members) =>
    '\x7b' :: (lineBreak style (level + 1) ++ stringText key ++ colonText style ++
      text style (level + 1) value ++ membersText style (level + 1) members ++
      lineBreak style level ++ ['\x7d'])

/-- The text of the items after the first, each after a comma. -/
def itemsText (style : Rendering) (level : Nat) : List Json → List Char
  | [] => []
  | item :: items =>
    ',' :: (lineBreak style level ++ text style level item ++ itemsText style level items)

/-- The text of the members after the first, each after a comma. -/
def membersText (style : Rendering) (level : Nat) : Members → List Char
  | [] => []
  | (key, value) :: members =>
    ',' :: (lineBreak style level ++ stringText key ++ colonText style ++
      text style level value ++ membersText style level members)

end

/-- The JSON text of a value in a given style. -/
def render (style : Rendering) (value : Json) : String := .ofList (value.text style 0)

end Json

end DocQuery
