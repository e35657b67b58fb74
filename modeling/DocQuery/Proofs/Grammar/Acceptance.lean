import DocQuery.Proofs.Grammar.Completeness
import DocQuery.Proofs.Grammar.Soundness

/-!
# The accepted texts

Each entry point of the language accepts exactly the texts of its part of the grammar, and returns
what the derivation stands for. Since a parse is a function, no text has two derivations with
different results.

* `parse_eq_ok_iff_written`: the statement for all four entry points.
* `Filter.parse_eq_ok_iff`, `Query.parse_eq_ok_iff`, `Selector.parse_eq_ok_iff`: the same for one.
-/

namespace DocQuery

open Grammar Grammar.Derivation

/-- A text is parsed exactly when it is a derivation of the result, if the parse has passed a
derivation whenever it succeeds and succeeds wherever one is ahead. -/
theorem Grammar.parseAll_eq_ok_iff_written {α : Type} {content : Parse α}
    {derivation : List Token.Kind → α → Prop} {follows : List Token.Kind → Prop}
    (hsound : Sound true content derivation) (hcomplete : Complete true content derivation follows)
    (hend : follows []) (text : String) (result : α) :
    parseAll content text = .ok result ↔ Written derivation text result :=
  ⟨written_of_parseAll hsound, parseAll_of_written hcomplete hend⟩

/-- The text of a selector. -/
theorem Selector.parse_eq_ok_iff (text : String) (selector : Selector) :
    Selector.parse text = .ok selector ↔ Written (Spaced Path) text selector := by
  refine parseAll_eq_ok_iff_written Sound.selector Complete.selector ?_ text selector
  intro kind hkind
  cases hkind

/-- The text of selectors. -/
theorem Selector.parseList_eq_ok_iff (text : String) (selectors : List Selector) :
    Selector.parseList text = .ok selectors ↔ Written PathList text selectors := by
  refine parseAll_eq_ok_iff_written Sound.selectors Complete.selectors ?_ text selectors
  intro kind hkind
  cases hkind

/-- The text of a filter. -/
theorem Filter.parse_eq_ok_iff (text : String) (filter : Filter) :
    Filter.parse text = .ok filter ↔ Written Predicate text filter :=
  parseAll_eq_ok_iff_written Sound.filter Complete.filter rfl text filter

/-- The text of a query. -/
theorem Query.parse_eq_ok_iff (text : String) (query : Query) :
    Query.parse text = .ok query ↔ Written Statement text query :=
  parseAll_eq_ok_iff_written Sound.query Complete.query rfl text query

/-- Every entry point accepts exactly the texts that the grammar derives, and returns what the
derivation stands for. -/
theorem parse_eq_ok_iff_written (text : String) :
    (∀ selector, Selector.parse text = .ok selector ↔ Written (Spaced Path) text selector) ∧
      (∀ selectors, Selector.parseList text = .ok selectors ↔ Written PathList text selectors) ∧
      (∀ filter, Filter.parse text = .ok filter ↔ Written Predicate text filter) ∧
      ∀ query, Query.parse text = .ok query ↔ Written Statement text query :=
  ⟨Selector.parse_eq_ok_iff text, Selector.parseList_eq_ok_iff text, Filter.parse_eq_ok_iff text,
    Query.parse_eq_ok_iff text⟩

end DocQuery
