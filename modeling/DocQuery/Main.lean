import DocQuery.CommandLine.Run

/-!
# The command

Reads the input that the arguments name, runs the query, and writes its outcome to standard output
or an error to standard error.
-/

namespace DocQuery

/-- Reads what is at a path; `-` is standard input. -/
def readInput (path : String) : IO Input := do
  if path = "-" then
    return .text (← (← IO.getStdin).readToEnd)
  try
    return .text (← IO.FS.readFile path)
  catch
    | .noFileOrDirectory .. => return .missing
    | _ => return .unreadable

/-- The wording of an error on the terminal. -/
def RunError.display (error : RunError) : String :=
  match error.message?, error with
  | some message, _ => message
  | none, .invalidJson => "JSON error"
  | none, _ => "I/O error"

end DocQuery

/-- Runs the command and gives its exit code: `2` for a fault in the arguments, `1` for any other
error, and `0` otherwise. -/
def main (arguments : List String) : IO UInt32 := do
  match DocQuery.Arguments.parse arguments with
  | .error .displayHelp =>
    IO.println "usage: docquery [-f SELECTOR] [-w PREDICATE] [-s SELECTORS] [-q QUERY] [--compact] INPUT"
    return 0
  | .error .displayVersion =>
    IO.println "docquery 0.1.0"
    return 0
  | .error _ =>
    IO.eprintln "usage: docquery [-f SELECTOR] [-w PREDICATE] [-s SELECTORS] [-q QUERY] [--compact] INPUT"
    return 2
  | .ok parsed =>
    match DocQuery.run parsed (← DocQuery.readInput parsed.input) with
    | .ok output =>
      IO.print output
      return 0
    | .error error =>
      IO.eprintln error.display
      return 1
