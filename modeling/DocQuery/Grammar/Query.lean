import DocQuery.Grammar.Selector
import DocQuery.Query

/-!
# Parsing queries

The clauses of a query are introduced by the keywords `SELECT`, `FROM` and `WHERE`, in this order;
the last two may be left out, and so may the whole query, which then selects the document. A filter
is a selector, or two selectors with an operator between them. A filter that is the identity alone
holds always.

`Query.parse`, `Selector.parse`, `Selector.parseList` and `Filter.parse` read a whole text.
-/

namespace DocQuery

namespace Grammar

open Parse

/-- A comma and the selector after it, if the token at hand, which is of the given kind, is a
comma. -/
def commaSelectorAt : Token.Kind → Parse (Option Selector)
  | .comma => do
    advance
    return some (← selector)
  | _ => return none

/-- A comma and the selector after it, if a comma is at hand. -/
def commaSelector : Parse (Option Selector) := do commaSelectorAt (← kind)

/-- A comma and a selector shorten what is yet to be read, given the kind of the token at hand. -/
theorem pending_commaSelectorAt_lt {cursor : Cursor} {first : Token.Kind} {result : Selector}
    (hshape : cursor.token.kind = first)
    (hfound : (commaSelectorAt first cursor).1 = .ok (some result)) :
    (commaSelectorAt first cursor).2.pending < cursor.pending := by
  cases first with
  | comma =>
    exact pending_bind_lt (fun _ hpassed => pending_advance_lt (by simp [hshape]) hpassed)
      (fun _ => bounded_bind bounded_selector fun _ => bounded_pure _) hfound
  | _ => cases hfound

/-- A comma and a selector may be repeated, as they shorten what is yet to be read. -/
theorem consuming_commaSelector : Consuming commaSelector :=
  fun _ _ hfound => pending_commaSelectorAt_lt rfl hfound

/-- Selectors separated by commas. -/
def selectors : Parse (List Selector) := do
  let first ← selector
  return first :: (← many commaSelector consuming_commaSelector)

/-- The operator that a token stands for between two selectors. -/
def operator? : Token.Kind → Option Operator
  | .operator op => some op
  | .identifier word => Operator.ofWord? word
  | _ => none

/-- A filter. -/
def filter : Parse Filter := do
  let lhs ← selector
  match operator? (← kind) with
  | some op =>
    advance
    return .compare lhs op (← selector)
  | none => return if lhs.isIdentity then .always else .exists lhs

/-- A clause with its keyword, or a default if the keyword is not at hand. -/
def clause {α : Type} (keyword : String) (content : Parse α) (absent : α) : Parse α := do
  if (← kind).isKeyword keyword then
    advance
    content
  else
    return absent

/-- The clauses of a query after its first keyword. -/
def clauses : Parse Query := do
  let select ← selectors
  let source ← clause "from" selector .identity
  let filter ← clause "where" filter .always
  return ⟨select, source, filter⟩

/-- A query. -/
def query : Parse Query := clause "select" clauses .root

/-- Fails unless the text has been read to its end. -/
def expectEnd : Parse Unit := do
  match (← kind) with
  | .endOfInput => return ()
  | found => fail (.unexpected found)

/-- Parses a whole text. -/
def parseAll {α : Type} (content : Parse α) (text : String) : Except SyntaxError α :=
  match Cursor.ofString text with
  | .error error => .error error
  | .ok cursor =>
    let whole : Parse α := do
      let result ← content
      expectEnd
      return result
    (whole cursor).1

end Grammar

/-- The selector of a text. -/
def Selector.parse (text : String) : Except SyntaxError Selector :=
  Grammar.parseAll Grammar.selector text

/-- The selectors of a text, separated by commas. -/
def Selector.parseList (text : String) : Except SyntaxError (List Selector) :=
  Grammar.parseAll Grammar.selectors text

/-- The filter of a text. -/
def Filter.parse (text : String) : Except SyntaxError Filter :=
  Grammar.parseAll Grammar.filter text

/-- The query of a text. -/
def Query.parse (text : String) : Except SyntaxError Query :=
  Grammar.parseAll Grammar.query text

end DocQuery
