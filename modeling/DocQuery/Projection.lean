import DocQuery.Json.Merge
import DocQuery.Matches.Walk
import DocQuery.Selector.Selection

/-!
# Projections

`Matches.select` applies selectors to each of some matches. A single selector just replaces a value
by its matches. Of several selectors, each yields one projection of a value, and the projections of
a value are merged into one value.

A projection is the only match itself, or the array of all matches; it is the member of an object,
under the name of the field, when the selector ends in a field. Selectors without matches have no
projection, and values without projections yield nothing.

* `Matches.select_single`: a single selector cannot fail.
-/

namespace DocQuery

/-- One value for several: the value itself if it is alone, and otherwise the array of them. -/
def gather? : List Json → Option Json
  | [] => none
  | [value] => some value
  | values => some (.array values)

namespace Selector

/-- Puts a value under the name of the field that the selector ends with, if it ends with one. -/
def labelled (selector : Selector) (value : Json) : Json :=
  match selector.label? with
  | some name => .object [(name, value)]
  | none => value

/-- The projection of a value. -/
def project? (selector : Selector) (value : Json) : Option Json :=
  (gather? (selector.select value).drain).map selector.labelled

/-- The projections of a value by several selectors, merged from left to right. -/
def projectAll (selectors : List Selector) (value : Json) : Except MergeError (Option Json) :=
  selectors.foldlM (fun merged selector => Json.mergeOptional merged (selector.project? value)) none

end Selector

/-- Applies selectors to each of the matches. -/
def Matches.select (found : Matches) (selectors : List Selector) : Except MergeError Matches :=
  match selectors with
  | [selector] => .ok (.collect selector.select found.walk.toList)
  | _ =>
    (found.walk.toList.mapM (Selector.projectAll selectors)).map fun rows =>
      .ofList (rows.filterMap id)

/-- A single selector cannot fail. -/
theorem Matches.select_single (found : Matches) (selector : Selector) :
    found.select [selector] = .ok (.collect selector.select found.toList) := by
  rw [select, toList_walk]

end DocQuery
