import DocQuery.Json.Basic
import DocQuery.Json.Numeral

/-!
# Reading JSON texts

`Json.read?` decodes a text that holds exactly one JSON value. The syntax is strict: no trailing
commas, no comments, no raw control characters and no lone surrogates in strings, and white space
is a space, a tab, a carriage return or a line feed. At most `Json.maxDepth` arrays and objects may
be open at a time. A key that is repeated keeps its first place and takes the last value.

Each reader takes a value from the front of a text and returns a `Reading`, which carries the rest
of the text and the fact that something was consumed; the loops over items and members end for
that reason.

* `Json.length_lt_of_stringBody?`: reading the inside of a string consumes its closing quote.
-/

namespace DocQuery

namespace Json

/-- How many arrays and objects may be open at a time. -/
def maxDepth : Nat := 127

/-- A result read from the front of a text. -/
structure Reading (α : Type) (cs : List Char) where
  /-- What was read. -/
  result : α
  /-- The text that follows it. -/
  rest : List Char
  /-- At least one character was read. -/
  shorter : rest.length < cs.length

/-- Whether a character is white space between the tokens of a JSON text. -/
def isSpace (c : Char) : Bool :=
  c == ' ' || c == '\t' || c == '\n' || c == '\r'

/-- The text after the white space at its front. -/
def skipSpace (cs : List Char) : List Char := cs.dropWhile isSpace

/-- White space is not added. -/
theorem length_skipSpace_le (cs : List Char) : (skipSpace cs).length ≤ cs.length :=
  (List.dropWhile_suffix isSpace).length_le

/-- What follows the first character that is no white space is shorter than the text. -/
theorem length_lt_of_skipSpace {cs after : List Char} {c : Char} (h : skipSpace cs = c :: after) :
    after.length < cs.length := by
  have hskip := length_skipSpace_le cs
  rwa [h, List.length_cons] at hskip

/-! ## Strings -/

/-- The value of a hexadecimal digit. -/
def hexDigit? (c : Char) : Option Nat :=
  if '0' ≤ c ∧ c ≤ '9' then some (c.toNat - '0'.toNat)
  else if 'a' ≤ c ∧ c ≤ 'f' then some (c.toNat - 'a'.toNat + 10)
  else if 'A' ≤ c ∧ c ≤ 'F' then some (c.toNat - 'A'.toNat + 10)
  else none

/-- The 16-bit unit written by four hexadecimal digits. -/
def hexUnit? (a b c d : Char) : Option Nat := do
  return ((← hexDigit? a) * 4096 + (← hexDigit? b) * 256 + (← hexDigit? c) * 16 + (← hexDigit? d))

/-- The character that a letter after a backslash stands for, `u` apart. -/
def escaped? (c : Char) : Option Char :=
  if c = '\x22' ∨ c = '\\' ∨ c = '/' then some c
  else if c = 'b' then some '\x08'
  else if c = 'f' then some '\x0c'
  else if c = 'n' then some '\n'
  else if c = 'r' then some '\r'
  else if c = 't' then some '\t'
  else none

/-- The character of a pair of surrogate units. -/
def ofSurrogates (high low : Nat) : Char :=
  Char.ofNat (0x10000 + (high - 0xd800) * 0x400 + (low - 0xdc00))

/-- The inside of a string up to its closing quote, decoded, and the text after the quote. -/
def stringBody? : List Char → Option (List Char × List Char)
  | [] => none
  | '\\' :: 'u' :: a :: b :: c :: d :: rest =>
    match hexUnit? a b c d with
    | none => none
    | some unit =>
      -- the second unit of a pair cannot come first
      if 0xdc00 ≤ unit ∧ unit < 0xe000 then none
      -- and the first one cannot stand alone
      else if 0xd800 ≤ unit ∧ unit < 0xdc00 then
        match rest with
        | '\\' :: 'u' :: e :: f :: g :: h :: after =>
          match hexUnit? e f g h with
          | none => none
          | some low =>
            if 0xdc00 ≤ low ∧ low < 0xe000 then
              match stringBody? after with
              | none => none
              | some (more, last) => some (ofSurrogates unit low :: more, last)
            else none
        | _ => none
      else
        match stringBody? rest with
        | none => none
        | some (more, last) => some (Char.ofNat unit :: more, last)
  | '\\' :: c :: rest =>
    match escaped? c with
    | none => none
    | some plain =>
      match stringBody? rest with
      | none => none
      | some (more, last) => some (plain :: more, last)
  | c :: rest =>
    if c = '\x22' then some ([], rest)
    else if c = '\\' ∨ c.toNat < 0x20 then none
    else
      match stringBody? rest with
      | none => none
      | some (more, last) => some (c :: more, last)

/-- Reading the inside of a string consumes its closing quote. -/
theorem length_lt_of_stringBody? {cs body rest : List Char}
    (h : stringBody? cs = some (body, rest)) : rest.length < cs.length := by
  fun_induction stringBody? cs generalizing body rest <;>
    simp only [List.length_nil, List.length_cons] <;> grind

/-- A string with its quotes at the front of a text. -/
def readString? : (cs : List Char) → Option (Reading String cs)
  | '\x22' :: rest =>
    match hbody : stringBody? rest with
    | none => none
    | some (body, after) =>
      some ⟨.ofList body, after, Nat.lt_succ_of_lt (length_lt_of_stringBody? hbody)⟩
  | _ => none

/-! ## Sequences -/

/-- Elements with commas between them, up to and with a closing mark. -/
def readSequence? {α : Type} (element : (cs : List Char) → Option (Reading α cs)) (close : Char)
    (cs : List Char) : Option (Reading (List α) cs) :=
  match element cs with
  | none => none
  | some first =>
    match hmark : skipSpace first.rest with
    | [] => none
    | mark :: after =>
      have hafter := Nat.lt_trans (length_lt_of_skipSpace hmark) first.shorter
      if mark = close then some ⟨[first.result], after, hafter⟩
      else if mark = ',' then
        match readSequence? element close after with
        | none => none
        | some more =>
          some ⟨first.result :: more.result, more.rest, Nat.lt_trans more.shorter hafter⟩
      else none
termination_by cs.length

/-- What stands behind an opening mark, up to and with the closing one: nothing, or elements with
commas between them. -/
def readEnclosed? {α : Type} (element : (cs : List Char) → Option (Reading α cs)) (close : Char)
    (cs : List Char) : Option (Reading (List α) cs) :=
  match hmark : skipSpace cs with
  | [] => none
  | mark :: after =>
    if mark = close then some ⟨[], after, length_lt_of_skipSpace hmark⟩
    else readSequence? element close cs

section Elements

variable {α : Type} {element : (cs : List Char) → Option (Reading α cs)} {close : Char}
  {cs : List Char} {P : α → Prop}
  (helement : ∀ {cs reading}, element cs = some reading → P reading.result)
include helement

/-- What holds of each element that can be read holds of each element of a sequence. -/
theorem of_mem_readSequence? {reading : Reading (List α) cs}
    (h : readSequence? element close cs = some reading) : ∀ result ∈ reading.result, P result := by
  fun_induction readSequence? element close cs with
  | case3 cs first hfirst =>
    cases h
    exact List.forall_mem_singleton.2 (helement hfirst)
  | case5 cs first hfirst after more hmore _ _ _ ih =>
    cases h
    exact List.forall_mem_cons.2 ⟨helement hfirst, ih hmore⟩
  | _ => cases h

/-- What holds of each element that can be read holds of each element between two marks. -/
theorem of_mem_readEnclosed? {reading : Reading (List α) cs}
    (h : readEnclosed? element close cs = some reading) : ∀ result ∈ reading.result, P result := by
  unfold readEnclosed? at h
  split at h
  · cases h
  split at h
  · cases h
    exact List.forall_mem_nil _
  · exact of_mem_readSequence? helement h

end Elements

/-- A member of an object: a key, a colon and a value. -/
def readMember? (value : (cs : List Char) → Option (Reading Json cs)) (cs : List Char) :
    Option (Reading (String × Json) cs) :=
  match readString? (skipSpace cs) with
  | none => none
  | some key =>
    match hcolon : skipSpace key.rest with
    | ':' :: after =>
      have hafter := Nat.lt_trans (length_lt_of_skipSpace hcolon) key.shorter
      match value after with
      | none => none
      | some item =>
        some ⟨(key.result, item.result), item.rest,
          Nat.lt_of_lt_of_le (Nat.lt_trans item.shorter hafter) (length_skipSpace_le cs)⟩
    | _ => none

/-- Members in order of first appearance, each with the last value given to its key. -/
def settle (members : Members) : Members :=
  members.foldl (fun settled (key, value) => settled.put key value) []

/-! ## Values -/

/-- A value other than an array or an object, whose text begins with the given character. -/
def readScalar? : (cs : List Char) → Option (Reading Json cs)
  | 'n' :: 'u' :: 'l' :: 'l' :: rest => some ⟨.null, rest, by simp; omega⟩
  | 't' :: 'r' :: 'u' :: 'e' :: rest => some ⟨.bool true, rest, by simp; omega⟩
  | 'f' :: 'a' :: 'l' :: 's' :: 'e' :: rest => some ⟨.bool false, rest, by simp; omega⟩
  | '\x22' :: rest =>
    (readString? ('\x22' :: rest)).map fun text => ⟨.string text.result, text.rest, text.shorter⟩
  | cs =>
    match hscan : Numeral.scan? cs with
    | none => none
    | some (numeral, rest) =>
      match numeral.toNumber? with
      | none => none
      | some value => some ⟨.number value, rest, Numeral.length_lt_of_scan? hscan⟩

/-- A value at the front of a text, white space before it allowed, with at most `depth` arrays and
objects open at a time. -/
def readValue? : (depth : Nat) → (cs : List Char) → Option (Reading Json cs)
  | 0, cs => (readScalar? (skipSpace cs)).map fun value =>
    ⟨value.result, value.rest, Nat.lt_of_lt_of_le value.shorter (length_skipSpace_le cs)⟩
  | depth + 1, cs =>
    match hmark : skipSpace cs with
    | '[' :: inside =>
      (readEnclosed? (readValue? depth) ']' inside).map fun items =>
        ⟨.array items.result, items.rest, Nat.lt_trans items.shorter (length_lt_of_skipSpace hmark)⟩
    | '\x7b' :: inside =>
      (readEnclosed? (readMember? (readValue? depth)) '\x7d' inside).map fun members =>
        ⟨.object (settle members.result), members.rest,
          Nat.lt_trans members.shorter (length_lt_of_skipSpace hmark)⟩
    | _ => (readScalar? (skipSpace cs)).map fun value =>
      ⟨value.result, value.rest, Nat.lt_of_lt_of_le value.shorter (length_skipSpace_le cs)⟩

/-- The value of a text that holds exactly one, white space around it allowed. -/
def read? (text : String) : Option Json :=
  match readValue? maxDepth text.toList with
  | none => none
  | some value => if (skipSpace value.rest).isEmpty then some value.result else none

end Json

end DocQuery
