import DocQuery.Grammar.Query

/-!
# Filtering and selecting by query texts

A filter or a list of selectors may be given as a text. A text that does not parse leaves no
matches; it is not an error.

* `Matches.filterText_of_parse`, `Matches.selectText_of_parse`: a text that parses acts as what it
  parses to.
-/

namespace DocQuery

namespace Matches

/-- The matches of which the filter of a text holds. -/
def filterText (found : Matches) (text : String) : Matches :=
  match Filter.parse text with
  | .ok filter => found.filter filter
  | .error _ => empty

/-- Applies the selectors of a text to each of the matches. -/
def selectText (found : Matches) (text : String) : Except MergeError Matches :=
  match Selector.parseList text with
  | .ok selectors => found.select selectors
  | .error _ => .ok empty

/-- The text of a filter acts as the filter. -/
theorem filterText_of_parse {text : String} {filter : Filter}
    (hparsed : Filter.parse text = .ok filter) (found : Matches) :
    found.filterText text = found.filter filter := by
  rw [filterText, hparsed]

/-- The text of selectors acts as the selectors. -/
theorem selectText_of_parse {text : String} {selectors : List Selector}
    (hparsed : Selector.parseList text = .ok selectors) (found : Matches) :
    found.selectText text = found.select selectors := by
  rw [selectText, hparsed]

end Matches

end DocQuery
