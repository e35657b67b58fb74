import DocQuery.Operator
import DocQuery.Selector.Printer

/-!
# Filters

A filter is a predicate on values: it holds always, or where a selector matches something, or where
two selections compare in a given way.
-/

namespace DocQuery

/-- A predicate on values. -/
inductive Filter where
  /-- Holds of every value. -/
  | always
  /-- Holds where the selector matches at least one value. -/
  | exists (selector : Selector)
  /-- Holds where what the two selectors match compares as the operator says. -/
  | compare (lhs : Selector) (op : Operator) (rhs : Selector)
  deriving Inhabited, Repr

namespace Filter

/-- The selectors of a filter. -/
def selectors : Filter → List Selector
  | .always => []
  | .exists selector => [selector]
  | .compare lhs _ rhs => [lhs, rhs]

/-- Equality of filters, constants being compared by representation. -/
def same : Filter → Filter → Bool
  | .always, .always => true
  | .exists a, .exists b => a.same b
  | .compare a op b, .compare c other d => a.same c && op == other && b.same d
  | _, _ => false

/-- The characters of the text of a filter. -/
def chars : Filter → List Char
  | .always => ['$']
  | .exists selector => selector.chars
  | .compare lhs op rhs => lhs.chars ++ ' ' :: (op.symbol.toList ++ ' ' :: rhs.chars)

/-- The text of a filter. -/
def text (filter : Filter) : String := .ofList filter.chars

end Filter

end DocQuery
