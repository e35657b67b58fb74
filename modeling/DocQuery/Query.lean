import DocQuery.Filter.Evaluation
import DocQuery.Projection

/-!
# Queries

A query says where its elements come from, which of them are kept, and what is selected of each. An
array that is matched as a source stands for its items.

* `Query.toList_kept`: the elements that a query keeps.
* `Query.evaluate_single`: a query with a single selector cannot fail.
-/

namespace DocQuery

/-- A query over a document. -/
structure Query where
  /-- What is selected of each element. -/
  select : List Selector
  /-- Where the elements come from. -/
  source : Selector
  /-- Which elements are kept. -/
  filter : Filter
  deriving Repr

namespace Query

/-- The query without clauses, which selects the document. -/
def root : Query := ⟨[.identity], .identity, .always⟩

instance : Inhabited Query := ⟨root⟩

/-- Equality of queries, constants being compared by representation. -/
def same (a b : Query) : Bool :=
  Selector.listSame a.select b.select && a.source.same b.source && a.filter.same b.filter

/-- The selectors of a query. -/
def selectors (query : Query) : List Selector :=
  query.select ++ query.source :: query.filter.selectors

/-! ## Writing queries -/

/-- The characters of the text of selectors separated by commas. -/
def listChars (selectors : List Selector) : List Char :=
  [',', ' '].intercalate (selectors.map Selector.chars)

/-- The text of a query made of the texts of its three clauses. -/
def assemble (select source filter : String) : String :=
  "SELECT " ++ select ++ " FROM " ++ source ++ " WHERE " ++ filter

/-- The text of a query. -/
def text (query : Query) : String :=
  assemble (.ofList (listChars query.select)) query.source.text query.filter.text

/-! ## Evaluating queries -/

/-- What the source of a query matches. -/
def sources (query : Query) (document : Json) : Matches := query.source.select document

/-- The elements of a query: its sources, arrays replaced by their items. -/
def elements (query : Query) (document : Json) : Matches := (query.sources document).expandArrays

/-- The elements that the filter of a query keeps. -/
def kept (query : Query) (document : Json) : Matches :=
  (query.elements document).filter query.filter

/-- The values that are kept are those elements of which the filter holds. -/
theorem toList_kept (query : Query) (document : Json) :
    (query.kept document).toList =
      ((query.source.select document).toList.flatMap Json.expand).filter query.filter.holds := by
  rw [kept, elements, sources, Matches.toList_filter, Matches.toList_expandArrays]

/-- The outcome of a query. -/
def evaluate (query : Query) (document : Json) : Except MergeError Matches :=
  (query.kept document).select query.select

/-- The values that a query yields. -/
def values (query : Query) (document : Json) : Except MergeError (List Json) :=
  (query.evaluate document).map Matches.drain

/-- A query with a single selector cannot fail. -/
theorem evaluate_single (query : Query) (selector : Selector) (hselect : query.select = [selector])
    (document : Json) :
    query.evaluate document = .ok (.collect selector.select (query.kept document).toList) := by
  rw [evaluate, hselect, Matches.select_single]

end Query

end DocQuery
