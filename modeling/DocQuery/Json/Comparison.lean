import DocQuery.Json.Basic

/-!
# Comparing JSON values

Three ways of comparing values:

* `Json.equal`: deep equality with numbers compared by value, so `1` equals `1.0`;
* `Json.same`: deep equality with numbers compared by representation, so `1` is not `1.0`;
* `Json.order?`: the order of numbers, texts, truth values, and arrays of such values item by item.
  All other pairs are incomparable.

Neither equality looks at the order in which an object lists its members. Texts are ordered by
code points.

* `Json.order?_swap`: exchanging two values reverses their order.
-/

namespace DocQuery

namespace Json

mutual

/-- Deep equality of values under a given equality of numbers. -/
def equalBy (numbers : Number → Number → Bool) : Json → Json → Bool
  | .null, .null => true
  | .bool a, .bool b => a == b
  | .number a, .number b => numbers a b
  | .string a, .string b => a == b
  | .array as, .array bs => itemsEqualBy numbers as bs
  | .object as, .object bs => as.length == bs.length && membersFoundBy numbers as bs
  | _, _ => false

/-- Whether two sequences have equal items at equal positions. -/
def itemsEqualBy (numbers : Number → Number → Bool) : List Json → List Json → Bool
  | [], [] => true
  | a :: as, b :: bs => equalBy numbers a b && itemsEqualBy numbers as bs
  | _, _ => false

/-- Whether every member is found under its key, with an equal value, among the others. -/
def membersFoundBy (numbers : Number → Number → Bool) : Members → Members → Bool
  | [], _ => true
  | (key, a) :: as, others =>
    (match others.get? key with
      | some b => equalBy numbers a b
      | none => false) && membersFoundBy numbers as others

end

/-- Deep equality with numbers compared by value. -/
def equal (a b : Json) : Bool := equalBy Number.equal a b

/-- Deep equality with numbers compared by representation. -/
def same (a b : Json) : Bool := equalBy Number.same a b

mutual

/-- The order of two values, if they are comparable. -/
def order? : Json → Json → Option Ordering
  | .number a, .number b => some (a.order b)
  | .string a, .string b => some (compare a b)
  | .bool a, .bool b => some (compare a b)
  | .array as, .array bs => itemsOrder? as bs
  | _, _ => none

/-- The order of two sequences: the first pair of items that is not equal decides, and otherwise
the shorter sequence comes first. -/
def itemsOrder? : List Json → List Json → Option Ordering
  | [], [] => some .eq
  | [], _ :: _ => some .lt
  | _ :: _, [] => some .gt
  | a :: as, b :: bs =>
    match order? a b with
    | some .eq => itemsOrder? as bs
    | decided => decided

end

mutual

/-- Exchanging two values reverses their order. -/
theorem order?_swap : (a b : Json) → (a.order? b).map Ordering.swap = b.order? a
  | .number a, .number b => by simp [order?, Number.order_swap]
  | .string a, .string b => by simp [order?, ← Std.OrientedOrd.eq_swap]
  | .bool a, .bool b => by simp [order?, ← Std.OrientedOrd.eq_swap]
  | .array as, .array bs => by simpa only [order?] using itemsOrder?_swap as bs
  | .null, b => by cases b <;> rfl
  | .object _, b => by cases b <;> rfl
  | .number _, .null | .number _, .bool _ | .number _, .string _ | .number _, .array _
  | .number _, .object _ => rfl
  | .string _, .null | .string _, .bool _ | .string _, .number _ | .string _, .array _
  | .string _, .object _ => rfl
  | .bool _, .null | .bool _, .number _ | .bool _, .string _ | .bool _, .array _
  | .bool _, .object _ => rfl
  | .array _, .null | .array _, .bool _ | .array _, .number _ | .array _, .string _
  | .array _, .object _ => rfl

/-- Exchanging two sequences reverses their order. -/
theorem itemsOrder?_swap : (as bs : List Json) →
    (itemsOrder? as bs).map Ordering.swap = itemsOrder? bs as
  | [], [] => rfl
  | [], _ :: _ => rfl
  | _ :: _, [] => rfl
  | a :: as, b :: bs => by
    have hfirst := order?_swap a b
    have hrest := itemsOrder?_swap as bs
    simp only [itemsOrder?]
    rw [← hfirst]
    cases order? a b with
    | none => rfl
    | some decided =>
      cases decided with
      | lt => rfl
      | eq => exact hrest
      | gt => rfl

end

end Json

end DocQuery
