/-!
# Patterns of texts

A pattern is matched against a whole text: `%` stands for any run of characters, `_` for exactly
one character, and every other character for itself.

A pattern is compiled to pieces once and then matched from its end towards its start. For each
suffix of the text, the longest first, a column tells whether the pieces so far match it; each
further piece turns the column into the next. So the work grows with the product of the two
lengths.
-/

namespace DocQuery

/-- A piece of a pattern. -/
inductive Like.Piece where
  /-- Any run of characters, also an empty one. -/
  | run
  /-- Exactly one character, whichever it is. -/
  | one
  /-- A given character. -/
  | exactly (c : Char)
  deriving DecidableEq, Repr

/-- A compiled pattern. -/
structure Like where
  /-- The pieces in order. -/
  pieces : List Like.Piece
  deriving DecidableEq, Repr

namespace Like

/-- The piece that a character of a pattern stands for. -/
def Piece.ofChar (c : Char) : Piece :=
  if c = '%' then .run else if c = '_' then .one else .exactly c

/-- Compiles a pattern. -/
def compile (pattern : String) : Like := ⟨pattern.toList.map Piece.ofChar⟩

/-- Each entry becomes true if it or a later entry is. -/
def anyLater : List Bool → List Bool
  | [] => []
  | entry :: later =>
    let rest := anyLater later
    (entry || rest.headD false) :: rest

/-- The column of a piece followed by what the given column stands for. -/
def Piece.extend (text : List Char) (column : List Bool) : Piece → List Bool
  | .run => anyLater column
  | .one => column.tail ++ [false]
  | .exactly c => List.zipWith (fun d entry => d == c && entry) text column.tail ++ [false]

/-- For each suffix of the text, the longest first, whether the pieces match it. -/
def column (text : List Char) : List Piece → List Bool
  | [] => text.map (fun _ => false) ++ [true]
  | piece :: pieces => piece.extend text (column text pieces)

/-- Whether the pattern matches a text. -/
def accepts (pattern : Like) (text : String) : Bool :=
  (column text.toList pattern.pieces).headD false

end Like

end DocQuery
