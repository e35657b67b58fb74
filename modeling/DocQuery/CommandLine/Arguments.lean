import DocQuery.Json.Printer
import DocQuery.Query

/-!
# Arguments of the command line

The command takes one input and the options `--from`, `--where`, `--select` and `--query`, each
with a value, and the flag `--compact`. All options but the flag have a short form, the first
letter. The value of an option is attached, as in `--from=.a`, `-f=.a` and `-f.a`, or is the next
argument. After `--` every argument is an input.

An option that still waits for its value, or whose value has just been read, is settled only when a
later argument is understood. So an argument that is not understood at all is reported before an
option that lacks its value or is given twice.

* `Arguments.queryText_of_query`: a full query overrides the three clauses.
-/

namespace DocQuery

/-- Why the arguments are not accepted; asking for help or for the version counts as such. -/
inductive UsageError where
  /-- Help was asked for. -/
  | displayHelp
  /-- The version was asked for. -/
  | displayVersion
  /-- There is no such option, or there is a second input. -/
  | unknownArgument
  /-- An option lacks its value. -/
  | invalidValue
  /-- An option is given twice. -/
  | argumentConflict
  /-- A flag is given a value. -/
  | tooManyValues
  /-- The input is missing. -/
  | missingRequiredArgument
  deriving DecidableEq, Repr

/-- An option that takes a value. -/
inductive Setting where
  /-- The selector of the sources. -/
  | source
  /-- The filter of the elements. -/
  | filter
  /-- The selectors that are output. -/
  | select
  /-- A full query. -/
  | query
  deriving DecidableEq, Repr

namespace Setting

/-- The option with a long name. -/
def ofName? (name : String) : Option Setting :=
  if name = "from" then some .source
  else if name = "where" then some .filter
  else if name = "select" then some .select
  else if name = "query" then some .query
  else none

/-- The option with a short name. -/
def ofLetter? : Char → Option Setting
  | 'f' => some .source
  | 'w' => some .filter
  | 's' => some .select
  | 'q' => some .query
  | _ => none

end Setting

/-- The arguments of a run. -/
structure Arguments where
  /-- The path of the document, or `-` for standard input. -/
  input : String
  /-- The values of the options that were given. -/
  settings : List (Setting × String)
  /-- Whether the output is a single line. -/
  compact : Bool
  deriving DecidableEq, Repr

namespace Arguments

/-- The value of a clause; a clause that is not given is the identity. -/
def clause (arguments : Arguments) (setting : Setting) : String :=
  (List.lookup setting arguments.settings).getD "$"

/-- The text of the query to run: the full query if it is given, and otherwise the one assembled
from the clauses. -/
def queryText (arguments : Arguments) : String :=
  match List.lookup .query arguments.settings with
  | some query => query
  | none =>
    Query.assemble (arguments.clause .select) (arguments.clause .source) (arguments.clause .filter)

/-- The style of the output. -/
def rendering (arguments : Arguments) : Rendering :=
  if arguments.compact then .compact else .pretty

/-- A full query overrides the three clauses. -/
theorem queryText_of_query {arguments : Arguments} {query : String}
    (hgiven : List.lookup .query arguments.settings = some query) :
    arguments.queryText = query := by
  rw [queryText, hgiven]

/-! ## Reading the arguments -/

/-- What has been read of the arguments. -/
structure Progress where
  /-- The input, if it has been read. -/
  input : Option String
  /-- The options that have been settled. -/
  settings : List (Setting × String)
  /-- Whether the flag has been read. -/
  compact : Bool
  /-- The option that was read last, and its value, if they are yet to be settled. -/
  waiting : Option (Setting × Option String)
  /-- Whether all further arguments are inputs. -/
  onlyInputs : Bool

namespace Progress

/-- Nothing has been read. -/
def start : Progress := ⟨none, [], false, none, false⟩

/-- Gives an option its value, which it must not have yet. -/
def store (progress : Progress) (setting : Setting) (value : String) :
    Except UsageError Progress :=
  if (List.lookup setting progress.settings).isSome then .error .argumentConflict
  else .ok { progress with settings := progress.settings ++ [(setting, value)] }

/-- Settles the option that was read last. -/
def settle (progress : Progress) : Except UsageError Progress :=
  match progress.waiting with
  | none => .ok progress
  | some (_, none) => .error .invalidValue
  | some (setting, some value) => { progress with waiting := none }.store setting value

/-- Reads an input, of which there is at most one. -/
def readInput (progress : Progress) (argument : String) : Except UsageError Progress :=
  if progress.input.isSome then .error .unknownArgument
  else do return { ← progress.settle with input := some argument }

/-- Reads an option, with the value attached to it if there is one. -/
def readSetting (progress : Progress) (setting : Setting) (attached : Option String) :
    Except UsageError Progress := do
  let settled ← progress.settle
  match attached with
  | some value => settled.store setting value
  | none => return { settled with waiting := some (setting, none) }

/-- Reads the flag. -/
def readCompact (progress : Progress) : Except UsageError Progress := do
  let settled ← progress.settle
  if settled.compact then throw .argumentConflict
  return { settled with compact := true }

/-- Stops at a question for help or for the version. -/
def stop (progress : Progress) (answer : UsageError) : Except UsageError Progress := do
  let _ ← progress.settle
  throw answer

/-- Reads an argument that begins with two dashes, given what follows them. -/
def readLong (progress : Progress) (body : List Char) : Except UsageError Progress :=
  let name := String.ofList (body.takeWhile (· ≠ '='))
  let attached := match body.dropWhile (· ≠ '=') with
    | [] => none
    | _ :: value => some (String.ofList value)
  match Setting.ofName? name with
  | some setting => progress.readSetting setting attached
  | none =>
    if name = "compact" ∨ name = "help" ∨ name = "version" then
      if attached.isSome then .error .tooManyValues
      else if name = "compact" then progress.readCompact
      else progress.stop (if name = "help" then .displayHelp else .displayVersion)
    else .error .unknownArgument

/-- Reads an argument that begins with one dash, given the letter after it and what follows. -/
def readShort (progress : Progress) (letter : Char) (rest : List Char) :
    Except UsageError Progress :=
  match Setting.ofLetter? letter with
  | some setting =>
    progress.readSetting setting (match rest with
      | [] => none
      | '=' :: value => some (String.ofList value)
      | value => some (String.ofList value))
  | none =>
    if letter = 'h' then progress.stop .displayHelp
    else if letter = 'V' then progress.stop .displayVersion
    else .error .unknownArgument

/-- Reads an argument without dashes: the value of an option that waits for one, or the input. -/
def readPlain (progress : Progress) (argument : String) : Except UsageError Progress :=
  match progress.waiting with
  | some (setting, none) => .ok { progress with waiting := some (setting, some argument) }
  | _ => progress.readInput argument

/-- Reads an argument. -/
def read (progress : Progress) (argument : String) : Except UsageError Progress :=
  if progress.onlyInputs then progress.readInput argument
  else
    match argument.toList with
    -- a lone dash is no option: it falls through to the last case
    | ['-', '-'] => .ok { progress with onlyInputs := true }
    | '-' :: '-' :: body => progress.readLong body
    | '-' :: letter :: rest => progress.readShort letter rest
    | _ => progress.readPlain argument

/-- The arguments of a run, once all have been read. -/
def finish (progress : Progress) : Except UsageError Arguments := do
  let settled ← progress.settle
  match settled.input with
  | some input => return ⟨input, settled.settings, settled.compact⟩
  | none => throw .missingRequiredArgument

end Progress

/-- Reads the arguments of the command line. -/
def parse (arguments : List String) : Except UsageError Arguments := do
  (← arguments.foldlM Progress.read .start).finish

end Arguments

end DocQuery
