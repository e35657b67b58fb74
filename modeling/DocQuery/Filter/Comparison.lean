import DocQuery.Json.Comparison
import DocQuery.Like
import DocQuery.Operator

/-!
# What the operators mean

`Operator.holds` compares two values. The four order operators hold only of comparable values, so
of two incomparable values neither `<=` nor `>` holds. A value is in an array if it equals one of
its items, and an array is in an array if all of its items are. A pattern matches texts only.
-/

namespace DocQuery

namespace Json

/-- Whether the value equals an item. -/
def isItemOf (items : List Json) (value : Json) : Bool := items.any (value.equal ·)

/-- Membership in an array, or inclusion of one array in another. -/
def isWithin (value whole : Json) : Bool :=
  match whole with
  | .array items =>
    match value with
    | .array parts => parts.all (isItemOf items)
    | part => isItemOf items part
  | _ => false

/-- Whether the value is a text that a pattern matches. -/
def isLike (pattern : Like) : Json → Bool
  | .string text => pattern.accepts text
  | _ => false

end Json

namespace Operator

/-- Whether an operator holds of two values. -/
def holds (op : Operator) (lhs rhs : Json) : Bool :=
  match op with
  | .equal => lhs.equal rhs
  | .notEqual => !lhs.equal rhs
  | .less => lhs.order? rhs == some .lt
  | .lessOrEqual => lhs.order? rhs == some .lt || lhs.order? rhs == some .eq
  | .greater => lhs.order? rhs == some .gt
  | .greaterOrEqual => lhs.order? rhs == some .gt || lhs.order? rhs == some .eq
  | .within => lhs.isWithin rhs
  | .like =>
    match rhs with
    | .string pattern => lhs.isLike (.compile pattern)
    | _ => false

end Operator

end DocQuery
