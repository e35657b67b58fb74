import DocQuery.Text.Keyword

/-!
# Comparison operators

The operators of a predicate, the symbols they are written with, and for each order the
operator that holds with the two sides exchanged.

* `Operator.ofSymbol?_symbol`: the symbol of an operator is read as that operator.
* `Operator.flip_flip`: exchanging the sides twice changes nothing.
-/

namespace DocQuery

/-- An operator between the two sides of a predicate. -/
inductive Operator where
  /-- Equality by value. -/
  | equal
  /-- The negation of equality. -/
  | notEqual
  /-- Strictly before. -/
  | less
  /-- Before or equal. -/
  | lessOrEqual
  /-- Strictly after. -/
  | greater
  /-- After or equal. -/
  | greaterOrEqual
  /-- Membership in an array, or inclusion of one array in another. -/
  | within
  /-- A text matching a pattern. -/
  | like
  deriving DecidableEq, Repr

namespace Operator

/-- The symbol that an operator is written with. -/
def symbol : Operator → String
  | .equal => "=="
  | .notEqual => "!="
  | .less => "<"
  | .lessOrEqual => "<="
  | .greater => ">"
  | .greaterOrEqual => ">="
  | .within => "in"
  | .like => "like"

/-- The operator that a word stands for, in any case. -/
def ofWord? (word : String) : Option Operator :=
  if isKeyword "in" word then some .within
  else if isKeyword "like" word then some .like
  else none

/-- The operator that a symbol or a word stands for. -/
def ofSymbol? (text : String) : Option Operator :=
  if text = "==" then some .equal
  else if text = "!=" then some .notEqual
  else if text = "<" then some .less
  else if text = "<=" then some .lessOrEqual
  else if text = ">" then some .greater
  else if text = ">=" then some .greaterOrEqual
  else ofWord? text

/-- The operator that holds of two values exchanged. -/
def flip : Operator → Operator
  | .less => .greater
  | .lessOrEqual => .greaterOrEqual
  | .greater => .less
  | .greaterOrEqual => .lessOrEqual
  | op => op

/-- The symbol of an operator is read as that operator. -/
theorem ofSymbol?_symbol (op : Operator) : ofSymbol? op.symbol = some op := by
  cases op <;> decide

/-- Exchanging the sides twice changes nothing. -/
theorem flip_flip (op : Operator) : op.flip.flip = op := by
  cases op <;> rfl

end Operator

end DocQuery
