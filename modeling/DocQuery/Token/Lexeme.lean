import DocQuery.Text.Blank
import DocQuery.Text.Identifier
import DocQuery.Token

/-!
# Recognising tokens

`Lexeme.scan` recognises the token at the front of a text that is not empty, without regard to
where it stands. The lexeme keeps the characters it was made from.

A number is a run of digits; a point after it must be followed by at least one digit, and then, and
only then, a power of ten may follow. A string is quoted with `'` or with a double quote, and a
backslash takes the special meaning from the character after it, except that `n`, `t` and `r` then
stand for a line feed, a tab and a carriage return.

* `Lexeme.scanned_of_scan`, `Lexeme.scannedNumber_of_scanNumber`: everything that is recognised.
* `Lexeme.source_append_rest_of_scan`: nothing of the text is lost.
* `Lexeme.source_ne_nil_of_scan`: a lexeme is not empty.
-/

namespace DocQuery

/-- Why no token begins at a place. -/
inductive LexFault where
  /-- A character that belongs to an operator, but not to one that exists. -/
  | invalidOperator (c : Char)
  /-- A character that begins no token. -/
  | invalidCharacter (c : Char)
  /-- A point or a power of ten that lacks its digits. -/
  | numberExpected
  /-- An integer of `2 ^ 64` or more, with its text. -/
  | integerTooLarge (digits : String)
  /-- A string without its closing quote. -/
  | closingQuoteExpected
  deriving DecidableEq, Repr

/-- The message of a fault. -/
def LexFault.message : LexFault → String
  | .invalidOperator c => "Invalid operator: '" ++ .singleton c ++ "'"
  | .invalidCharacter c => "Invalid character: '" ++ .singleton c ++ "'"
  | .numberExpected => "Number expected"
  | .integerTooLarge digits =>
    "Invalid number '" ++ digits ++ "': number too large to fit in target type"
  | .closingQuoteExpected => "Closing quote expected"

/-- A token at the front of a text. -/
structure Lexeme where
  /-- The kind of the token. -/
  kind : Token.Kind
  /-- The characters it was made from. -/
  source : List Char
  /-- The text that follows it. -/
  rest : List Char

namespace Lexeme

/-! ## Operators -/

/-- An operator that begins with one of `=`, `!`, `<` and `>`. -/
def scanOperator : Char → List Char → Except LexFault Lexeme
  | '=', '=' :: rest => .ok ⟨.operator .equal, ['=', '='], rest⟩
  | '!', '=' :: rest => .ok ⟨.operator .notEqual, ['!', '='], rest⟩
  | '<', '=' :: rest => .ok ⟨.operator .lessOrEqual, ['<', '='], rest⟩
  | '>', '=' :: rest => .ok ⟨.operator .greaterOrEqual, ['>', '='], rest⟩
  | '<', rest => .ok ⟨.operator .less, ['<'], rest⟩
  | '>', rest => .ok ⟨.operator .greater, ['>'], rest⟩
  | c, _ => .error (.invalidOperator c)

/-! ## Strings -/

/-- The character that a character after a backslash stands for. -/
def unescape : Char → Char
  | 'n' => '\n'
  | 't' => '\t'
  | 'r' => '\r'
  | c => c

/-- The inside of a string after its opening quote: its value, the characters up to and with the
closing quote, and the text after them. -/
def quotedBody? (quote : Char) : List Char → Option (List Char × List Char × List Char)
  | [] => none
  | c :: rest =>
    if c = quote then some ([], [c], rest)
    else if c = '\\' then
      match rest with
      | [] => none
      | e :: after =>
        (quotedBody? quote after).map fun (value, source, last) =>
          (unescape e :: value, c :: e :: source, last)
    else
      (quotedBody? quote rest).map fun (value, source, last) => (c :: value, c :: source, last)

/-- A string that begins with the given quote. -/
def scanString (quote : Char) (rest : List Char) : Except LexFault Lexeme :=
  match quotedBody? quote rest with
  | none => .error .closingQuoteExpected
  | some (value, source, after) => .ok ⟨.string (.ofList value), quote :: source, after⟩

/-! ## Numbers -/

/-- The kind of an integer, which depends on its size. -/
def integerKind (digits : List Char) : Except LexFault Token.Kind :=
  let value := Nat.ofDigitChars 10 digits 0
  if value < 2 ^ 63 then .ok (.integer (.ofNat value))
  else if value < 2 ^ 64 then .ok (.unsigned (.ofNat value))
  else .error (.integerTooLarge (.ofList digits))

/-- The sign at the front of a text, if there is one. -/
def signOf : List Char → List Char
  | '+' :: _ => ['+']
  | '-' :: _ => ['-']
  | _ => []

/-- The power of ten that may follow a fraction: its value, its characters, and the text after
them. -/
def scanPower (cs : List Char) : Except LexFault (Int × List Char × List Char) :=
  match cs with
  | [] => .ok (0, [], [])
  | letter :: after =>
    if letter = 'e' ∨ letter = 'E' then
      let sign := signOf after
      let unsigned := after.drop sign.length
      let digits := unsigned.takeWhile Char.isDigit
      let value := Nat.ofDigitChars 10 digits 0
      if digits.isEmpty then .error .numberExpected
      else
        .ok (if sign = ['-'] then -value else value, letter :: (sign ++ digits),
          unsigned.dropWhile Char.isDigit)
    else .ok (0, [], cs)

/-- A number at the front of a text that begins with a digit. -/
def scanNumber (cs : List Char) : Except LexFault Lexeme :=
  let whole := cs.takeWhile Char.isDigit
  match cs.dropWhile Char.isDigit with
  | '.' :: after =>
    let fraction := after.takeWhile Char.isDigit
    if fraction.isEmpty then .error .numberExpected
    else
      match scanPower (after.dropWhile Char.isDigit) with
      | .error fault => .error fault
      | .ok (power, source, rest) =>
        let digits := Nat.ofDigitChars 10 (whole ++ fraction) 0
        let value := Binary64.ofDecimal? false ⟨digits, power - fraction.length⟩
        .ok ⟨.float value, whole ++ '.' :: (fraction ++ source), rest⟩
  | rest =>
    match integerKind whole with
    | .error fault => .error fault
    | .ok kind => .ok ⟨kind, whole, rest⟩

/-! ## All tokens -/

/-- The token at the front of a text, given by its first character and the others. -/
def scan (c : Char) (rest : List Char) : Except LexFault Lexeme :=
  match c with
  | '$' => .ok ⟨.root, [c], rest⟩
  | '*' => .ok ⟨.root, [c], rest⟩
  | '[' => .ok ⟨.bracketOpen, [c], rest⟩
  | ']' => .ok ⟨.bracketClose, [c], rest⟩
  | ',' => .ok ⟨.comma, [c], rest⟩
  | ':' => .ok ⟨.colon, [c], rest⟩
  | '.' =>
    match rest with
    | '.' :: after => .ok ⟨.dotDot, [c, '.'], after⟩
    | _ => .ok ⟨.dot, [c], rest⟩
  | _ =>
    if c = '<' ∨ c = '>' ∨ c = '=' ∨ c = '!' then scanOperator c rest
    else if isBlank c then
      .ok ⟨.separator, c :: rest.takeWhile isBlank, rest.dropWhile isBlank⟩
    else if c = '\x27' ∨ c = '\x22' then scanString c rest
    else if c.isDigit then scanNumber (c :: rest)
    else if beginsIdentifier c then
      let name := c :: rest.takeWhile continuesIdentifier
      .ok ⟨.identifier (.ofList name), name, rest.dropWhile continuesIdentifier⟩
    else .error (.invalidCharacter c)

/-! ## What is recognised -/

/-- The kinds that stand for a fixed punctuation mark. -/
def IsMark : Token.Kind → Prop
  | .root | .dot | .dotDot | .bracketOpen | .bracketClose | .comma | .colon => True
  | _ => False

/-- The ways in which a power of ten is recognised: by its letter, or not at all. -/
inductive ScannedPower : List Char → Int × List Char × List Char → Prop
  | absent {cs : List Char} (hnoletter : ∀ c ∈ cs.head?, ¬(c = 'e' ∨ c = 'E')) :
    ScannedPower cs (0, [], cs)
  | present {letter : Char} {after digits rest : List Char} (hletter : letter = 'e' ∨ letter = 'E')
    (htaken : (after.drop (signOf after).length).takeWhile Char.isDigit = digits)
    (hleft : (after.drop (signOf after).length).dropWhile Char.isDigit = rest)
    (hnonempty : digits ≠ []) :
    ScannedPower (letter :: after)
      (if signOf after = ['-'] then -Nat.ofDigitChars 10 digits 0 else Nat.ofDigitChars 10 digits 0,
        letter :: (signOf after ++ digits), rest)

/-- Every power of ten that is recognised. -/
theorem scannedPower_of_scanPower {cs : List Char} {result : Int × List Char × List Char}
    (hfound : scanPower cs = .ok result) : ScannedPower cs result := by
  unfold scanPower at hfound
  split at hfound
  · cases hfound
    exact .absent (by simp)
  · rename_i letter after
    dsimp only at hfound
    split at hfound
    · rename_i hletter
      split at hfound
      · cases hfound
      · rename_i hnonempty
        cases hfound
        exact .present hletter rfl rfl (by simpa using hnonempty)
    · rename_i hnoletter
      cases hfound
      exact .absent (by simpa using hnoletter)

/-- The ways in which a number is recognised: with a fraction, and then perhaps a power of ten, or
as an integer. -/
inductive ScannedNumber (cs : List Char) : Lexeme → Prop
  | fraction {after source rest : List Char} {power : Int}
    (hpoint : cs.dropWhile Char.isDigit = '.' :: after)
    (hnonempty : after.takeWhile Char.isDigit ≠ [])
    (hfound : scanPower (after.dropWhile Char.isDigit) = .ok (power, source, rest)) :
    ScannedNumber cs
      ⟨.float (Binary64.ofDecimal? false
          ⟨Nat.ofDigitChars 10 (cs.takeWhile Char.isDigit ++ after.takeWhile Char.isDigit) 0,
            power - (after.takeWhile Char.isDigit).length⟩),
        cs.takeWhile Char.isDigit ++ '.' :: (after.takeWhile Char.isDigit ++ source), rest⟩
  | integer {kind : Token.Kind} (hnopoint : ∀ after, cs.dropWhile Char.isDigit ≠ '.' :: after)
    (hfound : integerKind (cs.takeWhile Char.isDigit) = .ok kind) :
    ScannedNumber cs ⟨kind, cs.takeWhile Char.isDigit, cs.dropWhile Char.isDigit⟩

/-- Every number that is recognised. -/
theorem scannedNumber_of_scanNumber {cs : List Char} {lexeme : Lexeme}
    (hfound : scanNumber cs = .ok lexeme) : ScannedNumber cs lexeme := by
  unfold scanNumber at hfound
  split at hfound
  · rename_i after hpoint
    dsimp only at hfound
    split at hfound
    · cases hfound
    · rename_i hnonempty
      split at hfound
      · cases hfound
      · rename_i hpower
        cases hfound
        exact .fraction hpoint (by simpa using hnonempty) hpower
  · rename_i hnopoint
    dsimp only at hfound
    split at hfound
    · cases hfound
    · rename_i hkind
      cases hfound
      exact .integer hnopoint hkind

/-- The ways in which a token is recognised at a character and the text behind it. -/
inductive Scanned (c : Char) (rest : List Char) : Lexeme → Prop
  | mark {kind : Token.Kind} (hmark : IsMark kind) : Scanned c rest ⟨kind, [c], rest⟩
  | dotDot {after : List Char} (htwice : c :: rest = '.' :: '.' :: after) :
    Scanned c rest ⟨.dotDot, ['.', '.'], after⟩
  | operator {lexeme : Lexeme} (hfound : scanOperator c rest = .ok lexeme) : Scanned c rest lexeme
  | blank (hfirst : isBlank c = true) :
    Scanned c rest ⟨.separator, c :: rest.takeWhile isBlank, rest.dropWhile isBlank⟩
  | string {lexeme : Lexeme} (hfound : scanString c rest = .ok lexeme) : Scanned c rest lexeme
  | number {lexeme : Lexeme} (hdigit : c.isDigit = true)
    (hfound : scanNumber (c :: rest) = .ok lexeme) : Scanned c rest lexeme
  | name (hfirst : beginsIdentifier c = true) :
    Scanned c rest ⟨.identifier (.ofList (c :: rest.takeWhile continuesIdentifier)),
      c :: rest.takeWhile continuesIdentifier, rest.dropWhile continuesIdentifier⟩

/-- Everything that is recognised, by the first character. -/
theorem scanned_of_scan {c : Char} {rest : List Char} {lexeme : Lexeme}
    (hfound : scan c rest = .ok lexeme) : Scanned c rest lexeme := by
  -- the marks are tried first, and then the classes of characters
  unfold scan at hfound
  split at hfound
  iterate 6 cases hfound; exact .mark trivial
  · split at hfound <;> cases hfound
    · exact .dotDot rfl
    · exact .mark trivial
  · split at hfound
    · exact .operator hfound
    split at hfound
    · rename_i hfirst
      cases hfound
      exact .blank hfirst
    split at hfound
    · exact .string hfound
    split at hfound
    · rename_i hdigit
      exact .number hdigit hfound
    split at hfound
    · rename_i hfirst
      cases hfound
      exact .name hfirst
    · cases hfound

/-- A lexeme and what follows it make up the text it was recognised in, and it is not empty. -/
def Covers (lexeme : Lexeme) (text : List Char) : Prop :=
  lexeme.source ++ lexeme.rest = text ∧ lexeme.source ≠ []

/-- An operator covers its text. -/
theorem covers_of_scanOperator {c : Char} {rest : List Char} {lexeme : Lexeme}
    (hfound : scanOperator c rest = .ok lexeme) : lexeme.Covers (c :: rest) := by
  unfold scanOperator at hfound
  split at hfound <;> cases hfound <;> exact ⟨rfl, by simp⟩

/-- The characters of the inside of a string and what follows them make up its text. -/
theorem source_append_of_quotedBody? {quote : Char} {cs value source rest : List Char}
    (hfound : quotedBody? quote cs = some (value, source, rest)) : source ++ rest = cs := by
  fun_induction quotedBody? quote cs generalizing value source rest with
  | case1 => cases hfound
  | case2 => cases hfound; rfl
  | case3 => cases hfound
  | case4 _ _ _ ih =>
    obtain ⟨⟨value, source, last⟩, hinner, hsame⟩ := Option.map_eq_some_iff.1 hfound
    cases hsame
    simp [ih hinner]
  | case5 _ _ _ _ ih =>
    obtain ⟨⟨value, source, last⟩, hinner, hsame⟩ := Option.map_eq_some_iff.1 hfound
    cases hsame
    simp [ih hinner]

/-- A string covers its text. -/
theorem covers_of_scanString {quote : Char} {rest : List Char} {lexeme : Lexeme}
    (hfound : scanString quote rest = .ok lexeme) : lexeme.Covers (quote :: rest) := by
  unfold scanString at hfound
  split at hfound
  · cases hfound
  · rename_i hinner
    cases hfound
    exact ⟨by simp [source_append_of_quotedBody? hinner], by simp⟩

/-- A sign stands at the front of the text it was found in. -/
theorem signOf_append_drop (cs : List Char) : signOf cs ++ cs.drop (signOf cs).length = cs := by
  unfold signOf
  split <;> rfl

/-- The characters of a power of ten and what follows them make up its text. -/
theorem source_append_of_scanPower {cs source rest : List Char} {power : Int}
    (hfound : scanPower cs = .ok (power, source, rest)) : source ++ rest = cs := by
  cases scannedPower_of_scanPower hfound with
  | absent _ => rfl
  | present _ htaken hleft _ =>
    simp only [← htaken, ← hleft, List.cons_append, List.append_assoc,
      List.takeWhile_append_dropWhile, signOf_append_drop]

/-- A number covers its text. -/
theorem covers_of_scanNumber {c : Char} {rest : List Char} {lexeme : Lexeme}
    (hdigit : c.isDigit = true) (hfound : scanNumber (c :: rest) = .ok lexeme) :
    lexeme.Covers (c :: rest) := by
  have hwhole : (c :: rest).takeWhile Char.isDigit ≠ [] := by simp [hdigit]
  have hsplit := List.takeWhile_append_dropWhile (p := Char.isDigit) (l := c :: rest)
  cases scannedNumber_of_scanNumber hfound with
  | fraction hpoint _ hpower =>
    -- whole digits, point, fraction and power are put together again
    refine ⟨?_, by simp [hdigit]⟩
    simp only [List.append_assoc, List.cons_append, source_append_of_scanPower hpower,
      List.takeWhile_append_dropWhile]
    rw [← hpoint]
    exact hsplit
  | integer _ _ => exact ⟨hsplit, hwhole⟩

/-- A lexeme covers the text it was recognised in. -/
theorem covers_of_scan {c : Char} {rest : List Char} {lexeme : Lexeme}
    (hfound : scan c rest = .ok lexeme) : lexeme.Covers (c :: rest) := by
  cases scanned_of_scan hfound with
  | mark _ => exact ⟨rfl, List.cons_ne_nil _ _⟩
  | dotDot htwice => exact ⟨htwice.symm, List.cons_ne_nil _ _⟩
  | operator hfound => exact covers_of_scanOperator hfound
  | blank _ => exact ⟨congrArg (c :: ·) List.takeWhile_append_dropWhile, List.cons_ne_nil _ _⟩
  | string hfound => exact covers_of_scanString hfound
  | number hdigit hfound => exact covers_of_scanNumber hdigit hfound
  | name _ => exact ⟨congrArg (c :: ·) List.takeWhile_append_dropWhile, List.cons_ne_nil _ _⟩

/-- Nothing of the text is lost. -/
theorem source_append_rest_of_scan {c : Char} {rest : List Char} {lexeme : Lexeme}
    (hfound : scan c rest = .ok lexeme) : lexeme.source ++ lexeme.rest = c :: rest :=
  (covers_of_scan hfound).1

/-- A lexeme is not empty. -/
theorem source_ne_nil_of_scan {c : Char} {rest : List Char} {lexeme : Lexeme}
    (hfound : scan c rest = .ok lexeme) : lexeme.source ≠ [] :=
  (covers_of_scan hfound).2

/-- What follows a lexeme is shorter than the text it was recognised in. -/
theorem length_rest_lt_of_scan {c : Char} {rest : List Char} {lexeme : Lexeme}
    (hfound : scan c rest = .ok lexeme) : lexeme.rest.length < (c :: rest).length := by
  have htotal := congrArg List.length (source_append_rest_of_scan hfound)
  have hpositive := List.length_pos_iff.2 (source_ne_nil_of_scan hfound)
  rw [List.length_append] at htotal
  omega

end Lexeme

end DocQuery
