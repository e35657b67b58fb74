import DocQuery.Filter.Basic
import DocQuery.Filter.Comparison
import DocQuery.Matches.Walk
import DocQuery.Selector.Selection

/-!
# Evaluating filters

Each side of a comparison selects any number of values. A side with a single value is compared with
each value of the other side in turn, and it suffices that one pair compares as the operator says;
otherwise the two sides are compared as arrays. Membership always compares them as arrays.

`Filter.keep` filters a list of values. When the right side is a constant pattern, it compiles the
pattern once for the whole list.

* `Filter.keep_eq_filter`: compiling the pattern once keeps the same values.
* `Filter.holds_exists`: a selector holds of the values in which it matches something.
-/

namespace DocQuery

namespace Filter

/-- Whether an operator holds of two selections. The pattern is the compiled form of the right side
if that is a single text. -/
def selectionsCompare (pattern? : Option Like) (lhs : List Json) (op : Operator)
    (rhs : List Json) : Bool :=
  if op = .within then op.holds (.array lhs) (.array rhs)
  else
    match lhs, rhs with
    -- a single text on the right is one pattern for all values on the left
    | values, [single] =>
      match op, single with
      | .like, .string text => values.any (Json.isLike (pattern?.getD (.compile text)))
      | _, _ => values.any (op.holds · single)
    | [single], values => values.any (op.holds single ·)
    | _, _ => op.holds (.array lhs) (.array rhs)

/-- Whether a filter holds of a value, given the compiled form of its constant pattern if it has
been compiled. -/
def holdsWith (pattern? : Option Like) (filter : Filter) (value : Json) : Bool :=
  match filter with
  | .always => true
  | .exists selector => !(selector.select value).isEmpty
  | .compare lhs op rhs =>
    selectionsCompare pattern? (lhs.select value).drain op (rhs.select value).drain

/-- Whether a filter holds of a value. -/
def holds (filter : Filter) (value : Json) : Bool := filter.holdsWith none value

/-- The compiled pattern of a filter whose right side is a constant pattern. -/
def constantPattern? : Filter → Option Like
  | .compare _ .like ⟨[.constant (.string pattern)]⟩ => some (.compile pattern)
  | _ => none

/-- The values of which a filter holds, in order. -/
def keep (filter : Filter) (values : List Json) : List Json :=
  let pattern? := filter.constantPattern?
  values.filter (filter.holdsWith pattern?)

/-- A compiled constant pattern is the one that would be compiled for each value. -/
theorem holdsWith_constantPattern? (filter : Filter) (value : Json) :
    filter.holdsWith filter.constantPattern? value = filter.holds value := by
  rw [holds]
  unfold constantPattern?
  split
  · rename_i lhs pattern
    -- the right side selects the pattern itself, whatever the value
    have hselected : ((Selector.mk [.constant (.string pattern)]).select value).drain =
        [.string pattern] := by
      rw [Matches.drain_eq_toList]
      rfl
    simp only [holdsWith, hselected, selectionsCompare, Option.getD_some, Option.getD_none]
  · rfl

/-- The values that are kept are those of which the filter holds. -/
theorem keep_eq_filter (filter : Filter) (values : List Json) :
    filter.keep values = values.filter filter.holds :=
  List.filter_congr fun value _ => filter.holdsWith_constantPattern? value

/-- A selector holds of the values in which it matches something. -/
theorem holds_exists (selector : Selector) (value : Json) :
    (Filter.exists selector).holds value = !(selector.select value).toList.isEmpty := by
  rw [holds, holdsWith, Bool.not_inj_iff, Bool.eq_iff_iff, Matches.isEmpty_iff, List.isEmpty_iff]

end Filter

/-- The matches of which a filter holds. -/
def Matches.filter (found : Matches) (filter : Filter) : Matches :=
  .ofList (filter.keep found.walk.toList)

/-- The flattened values that remain are those of which the filter holds. -/
@[simp]
theorem Matches.toList_filter (found : Matches) (filter : Filter) :
    (found.filter filter).toList = found.toList.filter filter.holds := by
  rw [Matches.filter, toList_ofList, toList_walk, Filter.keep_eq_filter]

end DocQuery
