import DocQuery.CommandLine.Arguments
import DocQuery.Document.Parsing

/-!
# A run of the command

A run decodes the document, parses the query, evaluates it, and writes the array of what it
selects, followed by a line feed. Errors are reported in this order: the document comes before the
query.

* `loadDocument_text_eq_ok_iff`, `Document.query_eq_ok_iff`: documents that are loaded, and what is
  queried of them.
* `run_eq_ok_iff`: what a successful run writes.
-/

namespace DocQuery

/-- What is found where the input of a run should be. -/
inductive Input where
  /-- A text. -/
  | text (content : String)
  /-- Nothing. -/
  | missing
  /-- Something that cannot be read as a text. -/
  | unreadable
  deriving DecidableEq, Repr

/-- Why a run fails. -/
inductive RunError where
  /-- The document is not a JSON text. -/
  | invalidJson
  /-- The document cannot be read. -/
  | unreadable
  /-- There is no document at the path. -/
  | fileNotFound (path : String)
  /-- The query does not parse. -/
  | query (error : SyntaxError)
  /-- What the query selects cannot be merged. -/
  | merge (error : MergeError)
  deriving Repr

/-- The message of an error, where the command words it itself. -/
def RunError.message? : RunError → Option String
  | .invalidJson => none
  | .unreadable => none
  | .fileNotFound path => some ("File not found: " ++ path)
  | .query error => some error.message
  | .merge error => some error.message

/-- The document of a run. -/
def loadDocument (path : String) : Input → Except RunError Document
  | .text content =>
    match Document.read? content with
    | some document => .ok document
    | none => .error .invalidJson
  | .missing => .error (.fileNotFound path)
  | .unreadable => .error .unreadable

/-- A text is loaded if it is a JSON text. -/
theorem loadDocument_text_eq_ok_iff {path content : String} {document : Document} :
    loadDocument path (.text content) = .ok document ↔ Document.read? content = some document := by
  rw [loadDocument]
  cases Document.read? content <;> simp

/-- The outcome of a query text on a document. -/
def Document.query (document : Document) (text : String) : Except RunError DocumentMatches :=
  match DocumentQuery.parse text with
  | .error error => .error (.query error)
  | .ok query =>
    match query.evaluate document with
    | .error error => .error (.merge error)
    | .ok found => .ok found

/-- A query text yields something if it parses and the query evaluates. -/
theorem Document.query_eq_ok_iff {document : Document} {text : String} {found : DocumentMatches} :
    document.query text = .ok found ↔
      ∃ query, DocumentQuery.parse text = .ok query ∧ query.evaluate document = .ok found := by
  rw [Document.query]
  cases DocumentQuery.parse text with
  | error error => simp
  | ok query => cases hfound : query.evaluate document <;> simp [hfound]

/-- The output of a run, given what is found at its input. -/
def run (arguments : Arguments) (input : Input) : Except RunError String := do
  let document ← loadDocument arguments.input input
  let found ← document.query arguments.queryText
  return found.toJson.render arguments.rendering ++ "\n"

/-- A run succeeds exactly when its document is a JSON text and its query parses and evaluates, and
it writes the array of what the query selects. -/
theorem run_eq_ok_iff (arguments : Arguments) (input : Input) (output : String) :
    run arguments input = .ok output ↔
      ∃ document found, loadDocument arguments.input input = .ok document ∧
        document.query arguments.queryText = .ok found ∧
        output = found.toJson.render arguments.rendering ++ "\n" := by
  rw [run, bind_eq_ok_iff]
  simp only [bind_eq_ok_iff, pure, Except.pure, Except.ok.injEq]
  constructor
  · rintro ⟨document, hload, found, hfound, rfl⟩
    exact ⟨document, found, hload, hfound, rfl⟩
  · rintro ⟨document, found, hload, hfound, rfl⟩
    exact ⟨document, hload, found, hfound, rfl⟩

end DocQuery
