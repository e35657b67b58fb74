import DocQuery.Proofs.Patterns.Pieces
import Mathlib.Data.String.Basic

/-!
# Patterns as regular expressions

A pattern is often matched by translating it into a regular expression: `%` becomes `.*`, `_`
becomes `.`, every other character is escaped, and the whole is anchored at both ends. Here the
part of the regular expressions that such a translation needs is given its usual meaning, and an
engine is any function that follows it. Two things are easily missed. A dot stands for a line break
only if the expression says so, and `$` is to stand for the end of the text only, not for a line
break in front of it.

* `Expression.read?_expressionText`: the translation of a pattern reads as it is meant.
* `Expression.matchesAt_iff_cuts`: what the atoms of a pattern find.
* `Like.matches_iff_cuts`: the engine and the columns both accept the texts that can be cut into
  the pieces of the pattern.
-/

namespace DocQuery

/-- What a regular expression asks for, one thing after the other. -/
inductive Expression.Atom where
  /-- The start of the text. -/
  | start
  /-- The end of the text. -/
  | stop
  /-- A character that a dot stands for. -/
  | any
  /-- Any number of characters that a dot stands for. -/
  | run
  /-- A given character. -/
  | literal (c : Char)
  deriving DecidableEq, Repr

/-- A regular expression without alternatives and groups. -/
structure Expression where
  /-- Whether a dot stands for a line break too. -/
  dotAll : Bool
  /-- The atoms in order. -/
  atoms : List Expression.Atom
  deriving DecidableEq, Repr

namespace Expression

/-! ## How expressions are written -/

/-- Whether a character means something else than itself in an expression. -/
def isSpecial (c : Char) : Bool := "\\.+*?()|[]\x7b\x7d^$#&-~".toList.contains c

/-- The atom that a single character is, if it is one. -/
def Atom.ofSign? (c : Char) : Option Atom :=
  if c = '^' then some .start
  else if c = '$' then some .stop
  else if c = '.' then some .any
  else if isSpecial c then none
  else some (.literal c)

/-- Reads atoms. A special character has to be escaped to mean itself. -/
def readAtoms? : List Char → Option (List Atom)
  | [] => some []
  | '.' :: '*' :: text => (readAtoms? text).map (.run :: ·)
  | '\\' :: c :: text => if isSpecial c then (readAtoms? text).map (.literal c :: ·) else none
  | c :: text => do
    let atom ← Atom.ofSign? c
    let atoms ← readAtoms? text
    return atom :: atoms

/-- Reads an expression. A flag in front of it makes dots stand for line breaks too. -/
def read? (text : String) : Option Expression :=
  match text.toList with
  | '(' :: '?' :: 's' :: ')' :: rest => (readAtoms? rest).map (⟨true, ·⟩)
  | rest => (readAtoms? rest).map (⟨false, ·⟩)

/-! ## What expressions mean -/

/-- Whether a dot stands for a character. -/
def dot (dotAll : Bool) (c : Char) : Bool := dotAll || c != '\n'

/-- Whether atoms are found one after the other at a place in a text, given the characters before
the place and those after it. -/
def MatchesAt (dotAll : Bool) : List Atom → List Char → List Char → Prop
  | [], _, _ => True
  | .start :: atoms, before, after => before = [] ∧ MatchesAt dotAll atoms before after
  | .stop :: atoms, before, after => after = [] ∧ MatchesAt dotAll atoms before after
  | .any :: _, _, [] => False
  | .any :: atoms, before, c :: after =>
    dot dotAll c = true ∧ MatchesAt dotAll atoms (before ++ [c]) after
  | .run :: atoms, before, after =>
    ∃ n ≤ after.length, (∀ c ∈ after.take n, dot dotAll c = true) ∧
      MatchesAt dotAll atoms (before ++ after.take n) (after.drop n)
  | .literal _ :: _, _, [] => False
  | .literal c :: atoms, before, d :: after => d = c ∧ MatchesAt dotAll atoms (before ++ [d]) after

/-- Whether an expression is found anywhere in a text. -/
def FoundIn (expression : Expression) (text : List Char) : Prop :=
  ∃ n ≤ text.length, MatchesAt expression.dotAll expression.atoms (text.take n) (text.drop n)

/-- Places are tried one after the other. -/
def decidableMatchesAt (dotAll : Bool) : (atoms : List Atom) → (before after : List Char) →
    Decidable (MatchesAt dotAll atoms before after)
  | [], _, _ => .isTrue trivial
  | .start :: atoms, before, after =>
    have := decidableMatchesAt dotAll atoms before after
    inferInstanceAs (Decidable (before = [] ∧ MatchesAt dotAll atoms before after))
  | .stop :: atoms, before, after =>
    have := decidableMatchesAt dotAll atoms before after
    inferInstanceAs (Decidable (after = [] ∧ MatchesAt dotAll atoms before after))
  | .any :: _, _, [] => .isFalse id
  | .any :: atoms, before, c :: after =>
    have := decidableMatchesAt dotAll atoms (before ++ [c]) after
    inferInstanceAs
      (Decidable (dot dotAll c = true ∧ MatchesAt dotAll atoms (before ++ [c]) after))
  | .run :: atoms, before, after =>
    have (n : Nat) := decidableMatchesAt dotAll atoms (before ++ after.take n) (after.drop n)
    inferInstanceAs (Decidable (∃ n ≤ after.length, (∀ c ∈ after.take n, dot dotAll c = true) ∧
      MatchesAt dotAll atoms (before ++ after.take n) (after.drop n)))
  | .literal _ :: _, _, [] => .isFalse id
  | .literal c :: atoms, before, d :: after =>
    have := decidableMatchesAt dotAll atoms (before ++ [d]) after
    inferInstanceAs (Decidable (d = c ∧ MatchesAt dotAll atoms (before ++ [d]) after))

instance (dotAll : Bool) (atoms : List Atom) (before after : List Char) :
    Decidable (MatchesAt dotAll atoms before after) :=
  decidableMatchesAt dotAll atoms before after

instance (expression : Expression) (text : List Char) : Decidable (expression.FoundIn text) :=
  inferInstanceAs (Decidable (∃ n ≤ text.length,
    MatchesAt expression.dotAll expression.atoms (text.take n) (text.drop n)))

end Expression

/-- An implementation of regular expressions. -/
structure Engine where
  /-- Escapes what is special in a text. -/
  escape : String → String
  /-- Compiles an expression to a function that searches texts for it. -/
  compile? : String → Option (String → Bool)

namespace Engine

/-- The engine gives expressions their usual meaning and takes them at any length. -/
structure IsStandard (engine : Engine) : Prop where
  /-- A character is escaped by a backslash if it is special. -/
  escape_eq (c : Char) : engine.escape (String.singleton c) =
    if Expression.isSpecial c then String.ofList ['\\', c] else String.singleton c
  /-- An expression is compiled, and found where its atoms are. -/
  exists_compile? (text : String) (expression : Expression) :
    Expression.read? text = some expression →
      ∃ finds, engine.compile? text = some finds ∧
        ∀ subject : String, finds subject = true ↔ expression.FoundIn subject.toList

/-- An engine that tries all places. -/
def exhaustive : Engine where
  escape text := String.ofList (text.toList.flatMap fun c =>
    if Expression.isSpecial c then ['\\', c] else [c])
  compile? text := (Expression.read? text).map fun expression subject =>
    decide (expression.FoundIn subject.toList)

/-- Trying all places gives expressions their usual meaning. -/
theorem isStandard_exhaustive : exhaustive.IsStandard where
  escape_eq c := by
    simp only [exhaustive]
    split <;> simp_all
  exists_compile? text expression h := by
    refine ⟨fun subject => decide (expression.FoundIn subject.toList), ?_, fun subject => ?_⟩
    · show (Expression.read? text).map _ = _
      rw [h, Option.map_some]
    · exact decide_eq_true_iff

end Engine

/-! ## The translation -/

/-- The regular expression that a pattern is translated to. -/
def Like.expressionText (escape : String → String) (pattern : String) : String :=
  "(?s)^" ++ String.join (pattern.toList.map fun c =>
    if c = '%' then ".*" else if c = '_' then "." else escape (String.singleton c)) ++ "$"

namespace Expression

/-- The atom that a character of a pattern is translated to. -/
def Atom.ofChar (c : Char) : Atom :=
  if c = '%' then .run else if c = '_' then .any else .literal c

/-- How the atom of a character is written. -/
def spelling (c : Char) : List Char :=
  if c = '%' then ['.', '*'] else if c = '_' then ['.'] else if isSpecial c then ['\\', c] else [c]

/-- A star that repeats what is in front of it is not written first. -/
theorem head?_spelling_append (c : Char) (text : List Char) :
    (spelling c ++ text).head? ≠ some '*' := by
  rw [spelling]
  split
  · simp
  split
  · simp
  split
  · simp
  · rename_i hplain
    rintro h
    obtain rfl : c = '*' := by simpa using h
    exact hplain (by decide)

/-- The atom of a character is read back, unless a star follows it. -/
theorem readAtoms?_spelling_append (c : Char) {text : List Char} (h : text.head? ≠ some '*') :
    readAtoms? (spelling c ++ text) = (readAtoms? text).map (Atom.ofChar c :: ·) := by
  rw [spelling, Atom.ofChar]
  split
  · rfl
  split
  · -- a dot with a star behind it would be a run
    show readAtoms? ('.' :: text) = _
    rw [readAtoms?]
    · cases readAtoms? text <;> rfl
    · rintro rest - rfl
      exact h rfl
    · simp
  split
  · rename_i hspecial
    show readAtoms? ('\\' :: c :: text) = _
    rw [readAtoms?, if_pos hspecial]
  · -- what is not escaped is none of the signs, all of which are special
    rename_i hplain
    have hsigns : c ≠ '^' ∧ c ≠ '$' ∧ c ≠ '.' ∧ c ≠ '\\' := by
      refine ⟨?_, ?_, ?_, ?_⟩ <;> rintro rfl <;> exact hplain (by decide)
    obtain ⟨hstart, hstop, hdot, hescape⟩ := hsigns
    show readAtoms? (c :: text) = _
    rw [readAtoms?, Atom.ofSign?, if_neg hstart, if_neg hstop, if_neg hdot, if_neg hplain]
    · cases readAtoms? text <;> rfl
    · rintro _ rfl
      exact absurd rfl hdot
    · rintro _ _ rfl
      exact absurd rfl hescape

/-- The atoms of a pattern are read back in front of the end of the text. -/
theorem readAtoms?_flatMap_spelling (pattern : List Char) :
    readAtoms? (pattern.flatMap spelling ++ ['$']) = some (pattern.map Atom.ofChar ++ [.stop]) ∧
      (pattern.flatMap spelling ++ ['$']).head? ≠ some '*' := by
  induction pattern with
  | nil => exact ⟨rfl, by simp⟩
  | cons c pattern ih =>
    obtain ⟨hread, hhead⟩ := ih
    rw [List.flatMap_cons, List.append_assoc]
    refine ⟨?_, head?_spelling_append c _⟩
    rw [readAtoms?_spelling_append c hhead, hread]
    rfl

/-- The translation of a pattern reads as it is meant. -/
theorem read?_expressionText {engine : Engine} (h : engine.IsStandard) (pattern : String) :
    read? (Like.expressionText engine.escape pattern) =
      some ⟨true, .start :: pattern.toList.map Atom.ofChar ++ [.stop]⟩ := by
  -- one character at a time, the translation is the text of an atom
  have hspelling (c : Char) : (if c = '%' then ".*" else if c = '_' then "." else
      engine.escape (String.singleton c)).toList = spelling c := by
    rw [spelling, h.escape_eq]
    split_ifs <;> simp
  have htext : (Like.expressionText engine.escape pattern).toList =
      '(' :: '?' :: 's' :: ')' :: '^' :: (pattern.toList.flatMap spelling ++ ['$']) := by
    rw [Like.expressionText, String.toList_append, String.toList_append, String.join_eq]
    simp only [String.toList_ofList, List.map_map, Function.comp_def, hspelling]
    rfl
  obtain ⟨hread, -⟩ := readAtoms?_flatMap_spelling pattern.toList
  rw [read?, htext]
  show (readAtoms? ('^' :: (pattern.toList.flatMap spelling ++ ['$']))).map _ = _
  rw [readAtoms?, hread]
  · rfl
  · simp
  · simp

/-! ## What the translation finds -/

/-- A line break is no exception if the expression says so. -/
theorem dot_true (c : Char) : dot true c = true := rfl

/-- The atoms of a pattern, up to the end of the text, are found where the rest of the text can be
cut into the pieces of the pattern. -/
theorem matchesAt_iff_cuts (pattern before after : List Char) :
    MatchesAt true (pattern.map Atom.ofChar ++ [.stop]) before after ↔ Like.Cuts pattern after := by
  induction pattern generalizing before after with
  | nil =>
    rw [Like.cuts_nil_iff]
    show after = [] ∧ True ↔ _
    rw [and_true]
  | cons c pattern ih =>
    rw [List.map_cons, List.cons_append, Atom.ofChar]
    rcases eq_or_ne c '%' with rfl | hrun
    · -- a run takes any number of characters, and so does the first piece
      rw [if_pos rfl, MatchesAt, Like.cuts_cons_iff]
      simp only [dot_true, implies_true, true_and, ih, Like.StandsFor, if_true]
      constructor
      · rintro ⟨n, -, hrest⟩
        exact ⟨after.take n, after.drop n, (List.take_append_drop n after).symm, hrest⟩
      · rintro ⟨piece, rest, rfl, hrest⟩
        refine ⟨piece.length, by simp, ?_⟩
        rwa [List.drop_left]
    rw [if_neg hrun]
    rcases eq_or_ne c '_' with rfl | hone
    · -- a dot takes one character, whichever it is, a line break included
      rw [if_pos rfl, Like.cuts_one_iff]
      cases after with
      | nil => simp [MatchesAt]
      | cons d after => simp [MatchesAt, dot_true, ih]
    · rw [if_neg hone, Like.cuts_exactly_iff hrun hone]
      -- a given character is compared with the next one on both sides
      cases after with
      | nil => simp [MatchesAt]
      | cons d after => simp [MatchesAt, ih]

/-- The translation of a pattern is found in a text only as the whole of it. -/
theorem foundIn_iff_cuts (pattern text : List Char) :
    FoundIn ⟨true, .start :: pattern.map Atom.ofChar ++ [.stop]⟩ text ↔ Like.Cuts pattern text := by
  constructor
  · -- nothing stands in front of the place, so what stands behind it is the whole text
    rintro ⟨n, -, hstart, hrest⟩
    have hcuts := (matchesAt_iff_cuts pattern _ _).1 hrest
    have htext : text.drop n = text := by
      rw [← List.nil_append (text.drop n), ← hstart, List.take_append_drop]
    rwa [htext] at hcuts
  · intro h
    refine ⟨0, Nat.zero_le _, rfl, ?_⟩
    show MatchesAt true (pattern.map Atom.ofChar ++ [.stop]) [] text
    rwa [matchesAt_iff_cuts]

end Expression

namespace Like

/-- Every pattern compiles, and what it is compiled to matches a text exactly if the text can be cut
into consecutive pieces, one for each character of the pattern: any piece for `%`, one of a single
character for `_`, and the character itself for all others. The columns accept the same texts as the
regular expression. -/
theorem matches_iff_cuts {engine : Engine} (hengine : engine.IsStandard) (pattern : String) :
    ∃ finds, engine.compile? (expressionText engine.escape pattern) = some finds ∧
      ∀ text : String, (finds text = true ↔ Cuts pattern.toList text.toList) ∧
        ((compile pattern).accepts text = true ↔ Cuts pattern.toList text.toList) := by
  obtain ⟨finds, hcompile, hfinds⟩ := hengine.exists_compile? _ _
    (Expression.read?_expressionText hengine pattern)
  refine ⟨finds, hcompile, fun text => ⟨?_, accepts_compile_iff pattern text⟩⟩
  rw [hfinds, Expression.foundIn_iff_cuts]

/-- Special characters, a line break and a character of several bytes stand where the pattern has
them, and a line break at the end of the text is not passed over. -/
theorem matches_iff_cuts_exhaustive :
    Engine.exhaustive.IsStandard ∧
      ∃ finds, Engine.exhaustive.compile? (expressionText Engine.exhaustive.escape "%(_)*") =
          some finds ∧
        finds "x\n(é)*" = true ∧ finds "x(éé)*" = false ∧ finds "(é)*\n" = false := by
  obtain ⟨finds, hcompile, hfinds⟩ := matches_iff_cuts Engine.isStandard_exhaustive "%(_)*"
  refine ⟨Engine.isStandard_exhaustive, finds, hcompile, ?_, ?_, ?_⟩
  · exact (hfinds _).1.2 ((hfinds _).2.1 (by decide))
  · rw [← Bool.not_eq_true, (hfinds _).1, ← (hfinds _).2]
    decide
  · rw [← Bool.not_eq_true, (hfinds _).1, ← (hfinds _).2]
    decide

end Like

end DocQuery
