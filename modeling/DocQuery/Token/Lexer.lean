import DocQuery.Token.Lexeme

/-!
# The lexer

A `Lexer` splits a text into tokens one at a time. Whether it skips white space before a token is
decided by a stack of flags: the top flag holds, and an empty stack skips. Where white space is not
skipped, a run of it is a token of its own, the separator.

Positions are byte offsets in the UTF-8 encoding of the text. When no token begins at a place, the
white space before it has already been skipped, so the offset is then the position of the fault.

* `Lexer.next_cases`: all that can come of reading a token; `Lexer.next_eq_ok` and
  `Lexer.next_eq_error` tell it from the outcome.
* `Lexer.length_rest_next_lt`: a token other than the end of input shortens the text.
* `Lexer.policies_next`: reading a token leaves the flags alone.
-/

-- the empty sum is the zero of the core library, also where other libraries are at hand
attribute [local instance (high)] Zero.ofOfNat0

namespace DocQuery

/-- How many bytes characters take in the UTF-8 encoding. -/
def utf8Length (cs : List Char) : Nat := (cs.map Char.utf8Size).sum

/-- The bytes of two texts one after the other. -/
theorem utf8Length_append (cs ds : List Char) :
    utf8Length (cs ++ ds) = utf8Length cs + utf8Length ds := by
  simp [utf8Length]

/-- The bytes of a string are those of its characters. -/
theorem utf8ByteSize_ofList (cs : List Char) : (String.ofList cs).utf8ByteSize = utf8Length cs := by
  induction cs with
  | nil => rfl
  | cons c cs ih =>
    rw [← List.singleton_append, String.ofList_append, String.utf8ByteSize_append, ih,
      utf8Length_append, ← String.singleton_eq_ofList, String.utf8ByteSize_singleton]
    simp [utf8Length]

/-- Every character takes a byte. -/
theorem eq_nil_of_utf8Length_eq_zero {cs : List Char} (hnone : utf8Length cs = 0) : cs = [] := by
  cases cs with
  | nil => rfl
  | cons c cs =>
    have := c.utf8Size_pos
    rw [utf8Length, List.map_cons, List.sum_cons] at hnone
    omega

/-- A fault and the byte offset at which it lies. -/
structure LexError where
  /-- The byte offset of the fault. -/
  position : Nat
  /-- What is wrong there. -/
  fault : LexFault
  deriving DecidableEq, Repr

/-- A text that is being split into tokens. -/
structure Lexer where
  /-- The characters that have not been read. -/
  rest : List Char
  /-- The byte offset of the first of them. -/
  offset : Nat
  /-- Flags, the innermost first, that say whether white space is skipped. -/
  policies : List Bool
  deriving DecidableEq, Repr

namespace Lexer

/-- The lexer in front of the given characters, with no flags. -/
def ofList (cs : List Char) : Lexer := ⟨cs, 0, []⟩

/-- The lexer at the start of a text, in front of all its characters. -/
def ofString (text : String) : Lexer := ofList text.toList

/-- Whether white space is skipped before the next token. -/
def skips (lexer : Lexer) : Bool := lexer.policies.head?.getD true

/-- Puts a flag on the stack. -/
def push (lexer : Lexer) (skip : Bool) : Lexer :=
  { lexer with policies := skip :: lexer.policies }

/-- Takes the top flag from the stack, which stays empty if it is. -/
def pop (lexer : Lexer) : Lexer :=
  { lexer with policies := lexer.policies.tail }

/-- The lexer after the given characters of its text. -/
def advance (lexer : Lexer) (read rest : List Char) : Lexer :=
  { lexer with rest, offset := lexer.offset + utf8Length read }

/-- The lexer after the white space that it skips. -/
def skipBlanks (lexer : Lexer) : Lexer :=
  if lexer.skips then
    lexer.advance (lexer.rest.takeWhile isBlank) (lexer.rest.dropWhile isBlank)
  else lexer

/-- Reads the next token. -/
def next (lexer : Lexer) : Except LexError Token × Lexer :=
  let start := lexer.skipBlanks
  match start.rest with
  | [] => (.ok ⟨.endOfInput, start.offset⟩, start)
  | c :: rest =>
    match Lexeme.scan c rest with
    -- the lexer stays at the fault, so that reading on fails again in the same way
    | .error fault => (.error ⟨start.offset, fault⟩, start)
    | .ok lexeme => (.ok ⟨lexeme.kind, start.offset⟩, start.advance lexeme.source lexeme.rest)

/-- Skipping white space leaves the flags alone. -/
@[simp]
theorem policies_skipBlanks (lexer : Lexer) : lexer.skipBlanks.policies = lexer.policies := by
  unfold skipBlanks
  split <;> rfl

/-- All that can come of reading a token: there is none left, or none begins behind the white space,
or the one that begins there is passed. -/
theorem next_cases (lexer : Lexer) :
    (lexer.skipBlanks.rest = [] ∧
      lexer.next = (.ok ⟨.endOfInput, lexer.skipBlanks.offset⟩, lexer.skipBlanks)) ∨
    ∃ c rest, lexer.skipBlanks.rest = c :: rest ∧
      ((∃ fault, Lexeme.scan c rest = .error fault ∧
        lexer.next = (.error ⟨lexer.skipBlanks.offset, fault⟩, lexer.skipBlanks)) ∨
      ∃ lexeme, Lexeme.scan c rest = .ok lexeme ∧
        lexer.next = (.ok ⟨lexeme.kind, lexer.skipBlanks.offset⟩,
          lexer.skipBlanks.advance lexeme.source lexeme.rest)) := by
  unfold next
  dsimp only
  split
  · rename_i hempty
    exact .inl ⟨hempty, rfl⟩
  · rename_i c rest hshape
    refine .inr ⟨c, rest, hshape, ?_⟩
    split
    · rename_i fault hfailed
      exact .inl ⟨fault, hfailed, rfl⟩
    · rename_i lexeme hfound
      exact .inr ⟨lexeme, hfound, rfl⟩

/-- What is read is the end of the text, where none is left behind the white space, or else the
token that begins there, which is passed. -/
theorem next_eq_ok {lexer after : Lexer} {token : Token} (hread : lexer.next = (.ok token, after)) :
    (lexer.skipBlanks.rest = [] ∧ token = ⟨.endOfInput, lexer.skipBlanks.offset⟩ ∧
      after = lexer.skipBlanks) ∨
    ∃ c rest lexeme, lexer.skipBlanks.rest = c :: rest ∧ Lexeme.scan c rest = .ok lexeme ∧
      token = ⟨lexeme.kind, lexer.skipBlanks.offset⟩ ∧
      after = lexer.skipBlanks.advance lexeme.source lexeme.rest := by
  rcases lexer.next_cases with
    ⟨hempty, heq⟩ | ⟨c, rest, hshape, ⟨fault, -, heq⟩ | ⟨lexeme, hscanned, heq⟩⟩
  all_goals
    rw [heq] at hread
    cases hread
  · exact .inl ⟨hempty, rfl, rfl⟩
  · exact .inr ⟨c, rest, lexeme, hshape, hscanned, rfl, rfl⟩

/-- Reading fails where no token begins behind the white space, and it passes no more than that. -/
theorem next_eq_error {lexer after : Lexer} {error : LexError}
    (hfailed : lexer.next = (.error error, after)) :
    (∃ c rest, lexer.skipBlanks.rest = c :: rest ∧ Lexeme.scan c rest = .error error.fault) ∧
      error.position = lexer.skipBlanks.offset ∧ after = lexer.skipBlanks := by
  rcases lexer.next_cases with
    ⟨-, heq⟩ | ⟨c, rest, hshape, ⟨fault, hscanned, heq⟩ | ⟨lexeme, -, heq⟩⟩
  all_goals
    rw [heq] at hfailed
    cases hfailed
  exact ⟨⟨c, rest, hshape, hscanned⟩, rfl, rfl⟩

/-- Reading a token leaves the flags alone. -/
@[simp]
theorem policies_next (lexer : Lexer) : lexer.next.2.policies = lexer.policies := by
  rcases lexer.next_cases with ⟨-, heq⟩ | ⟨c, rest, -, ⟨fault, -, heq⟩ | ⟨lexeme, -, heq⟩⟩
  all_goals
    rw [heq]
    exact lexer.policies_skipBlanks

/-- Skipping white space does not lengthen the text. -/
theorem length_rest_skipBlanks_le (lexer : Lexer) :
    lexer.skipBlanks.rest.length ≤ lexer.rest.length := by
  unfold skipBlanks
  split
  · exact (List.dropWhile_suffix isBlank).length_le
  · exact Nat.le_refl _

/-- Reading a token does not lengthen the text. -/
theorem length_rest_next_le (lexer : Lexer) : lexer.next.2.rest.length ≤ lexer.rest.length := by
  have hskipped := lexer.length_rest_skipBlanks_le
  rcases lexer.next_cases with
    ⟨-, heq⟩ | ⟨c, rest, hshape, ⟨fault, -, heq⟩ | ⟨lexeme, hfound, heq⟩⟩
  all_goals rw [heq]
  · exact hskipped
  · exact hskipped
  · have := Lexeme.length_rest_lt_of_scan hfound
    rw [hshape] at hskipped
    exact Nat.le_of_lt (Nat.lt_of_lt_of_le this hskipped)

/-- A token is the end of input, after which nothing is left, or it shortens the text. -/
theorem length_rest_next_lt {lexer : Lexer} {token : Token} (hfound : lexer.next.1 = .ok token) :
    (token.kind = .endOfInput ∧ lexer.next.2.rest = []) ∨
      lexer.next.2.rest.length < lexer.rest.length := by
  have hskipped := lexer.length_rest_skipBlanks_le
  have hread : lexer.next = (.ok token, lexer.next.2) := Prod.ext hfound rfl
  rcases next_eq_ok hread with
    ⟨hempty, rfl, hafter⟩ | ⟨c, rest, lexeme, hshape, hscanned, -, hafter⟩
  · rw [hafter]
    exact .inl ⟨rfl, hempty⟩
  · have := Lexeme.length_rest_lt_of_scan hscanned
    rw [hshape] at hskipped
    rw [hafter]
    exact .inr (Nat.lt_of_lt_of_le this hskipped)

/-- All further tokens, each with the lexer after it, up to the end of input or the first fault. -/
def remaining (lexer : Lexer) : List (Except LexError Token × Lexer) :=
  match _hfound : lexer.next.1 with
  | .error error => [(.error error, lexer.next.2)]
  | .ok token =>
    if token.kind = .endOfInput then [(.ok token, lexer.next.2)]
    else (.ok token, lexer.next.2) :: remaining lexer.next.2
termination_by lexer.rest.length
decreasing_by
  rcases length_rest_next_lt _hfound with ⟨hended, -⟩ | hshorter
  · contradiction
  · exact hshorter

end Lexer

end DocQuery
