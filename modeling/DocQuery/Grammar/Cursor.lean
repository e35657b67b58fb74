import DocQuery.Grammar.Error

/-!
# Reading tokens one ahead

A `Cursor` is a lexer together with the token that it read last, which is the token at hand. A
`Parse` turns a cursor into a result or an error and another cursor; the cursor is kept after an
error too.

What a cursor has yet to read is measured by `Cursor.pending`. No parse lengthens it (`Bounded`),
and passing a token other than the end of input shortens it (`Parse.pending_advance_lt`), so that
repetition ends.

* `Parse.bounded_many`: a repetition does not lengthen what is yet to be read.
-/

namespace DocQuery

/-- A lexer and the token that it read last. -/
structure Cursor where
  /-- The lexer after the token. -/
  lexer : Lexer
  /-- The token at hand. -/
  token : Token
  deriving DecidableEq, Repr

/-- The cursor at the first token of a text. -/
def Cursor.ofString (text : String) : Except SyntaxError Cursor :=
  match (Lexer.ofString text).next with
  | (.ok token, lexer) => .ok ⟨lexer, token⟩
  | (.error error, _) => .error (.lex error)

/-- A bound on the tokens that are yet to be read, the one at hand included. -/
def Cursor.pending (cursor : Cursor) : Nat :=
  cursor.lexer.rest.length + if cursor.token.kind = .endOfInput then 0 else 1

/-- A step of parsing. -/
def Parse (α : Type) : Type := Cursor → Except SyntaxError α × Cursor

namespace Parse

instance : Monad Parse where
  pure result := fun cursor => (.ok result, cursor)
  bind first then' := fun cursor =>
    match first cursor with
    | (.ok result, after) => then' result after
    | (.error error, after) => (.error error, after)

variable {α β : Type}

/-- The kind of the token at hand. -/
def kind : Parse Token.Kind := fun cursor => (.ok cursor.token.kind, cursor)

/-- Fails at the token at hand. -/
def fail (fault : GrammarFault) : Parse α := fun cursor =>
  (.error (.parse cursor.token.position fault), cursor)

/-- Fails because something else is called for. -/
def expected (what : Expectation) : Parse α := do fail (.expected what (← kind))

/-- Passes the token at hand. -/
def advance : Parse Unit := fun cursor =>
  match cursor.lexer.next with
  | (.ok token, lexer) => (.ok (), ⟨lexer, token⟩)
  | (.error error, lexer) => (.error (.lex error), { cursor with lexer })

/-- Parses under a flag that says whether white space is skipped; the flag is taken away again
whatever the outcome. -/
def withPolicy (skip : Bool) (inner : Parse α) : Parse α := fun cursor =>
  let (result, after) := inner { cursor with lexer := cursor.lexer.push skip }
  (result, { after with lexer := after.lexer.pop })

/-! ## What is read -/

/-- The first token at hand is the one that is read at the start of the text. -/
theorem next_of_ofString {text : String} {cursor : Cursor}
    (hfound : Cursor.ofString text = .ok cursor) :
    (Lexer.ofString text).next = (.ok cursor.token, cursor.lexer) := by
  rw [Cursor.ofString] at hfound
  split at hfound
  · rename_i token lexer hshape
    cases hfound
    exact hshape
  · cases hfound

/-- There is no first token where none can be read at the start of the text. -/
theorem exists_next_of_ofString {text : String} {error : SyntaxError}
    (hfailed : Cursor.ofString text = .error error) :
    ∃ fault lexer, (Lexer.ofString text).next = (.error fault, lexer) ∧ error = .lex fault := by
  rw [Cursor.ofString] at hfailed
  split at hfailed
  · cases hfailed
  · rename_i fault lexer hshape
    cases hfailed
    exact ⟨fault, lexer, hshape, rfl⟩

/-- After a token is passed, the one that is read next is at hand. -/
theorem next_of_advance {cursor after : Cursor} (hpassed : advance cursor = (.ok (), after)) :
    cursor.lexer.next = (.ok after.token, after.lexer) := by
  rw [advance] at hpassed
  split at hpassed
  · rename_i token lexer hshape
    cases hpassed
    exact hshape
  · cases hpassed

/-- Where the next token cannot be read, the one at hand stays. -/
theorem exists_next_of_advance {cursor after : Cursor} {error : SyntaxError}
    (hfailed : advance cursor = (.error error, after)) :
    ∃ fault, cursor.lexer.next = (.error fault, after.lexer) ∧ error = .lex fault ∧
      after.token = cursor.token := by
  rw [advance] at hfailed
  split at hfailed
  · cases hfailed
  · rename_i fault lexer hshape
    cases hfailed
    exact ⟨fault, hshape, rfl, rfl⟩

/-! ## Progress -/

/-- A parse that does not lengthen what is yet to be read. -/
def Bounded (parse : Parse α) : Prop := ∀ cursor, (parse cursor).2.pending ≤ cursor.pending

/-- A parse that shortens what is yet to be read whenever it finds something. -/
def Consuming (parse : Parse (Option α)) : Prop :=
  ∀ cursor result, (parse cursor).1 = .ok (some result) →
    (parse cursor).2.pending < cursor.pending

/-- A result changes nothing. -/
theorem bounded_pure (result : α) : Bounded (pure result) := fun _ => Nat.le_refl _

/-- Looking at the token at hand changes nothing. -/
theorem bounded_kind : Bounded kind := fun _ => Nat.le_refl _

/-- Failing at the token at hand passes nothing. -/
theorem bounded_fail (fault : GrammarFault) : Bounded (fail fault : Parse α) :=
  fun _ => Nat.le_refl _

/-- Telling what is expected looks at the token at hand and passes nothing. -/
theorem bounded_expected (what : Expectation) : Bounded (expected what : Parse α) :=
  fun _ => Nat.le_refl _

/-- Two bounded parses one after the other are bounded. -/
theorem bounded_bind {first : Parse α} {next : α → Parse β} (hbounded : Bounded first)
    (heach : ∀ result, Bounded (next result)) : Bounded (first >>= next) := by
  intro cursor
  have hle := hbounded cursor
  simp only [bind]
  split
  · rename_i result after hshape
    rw [hshape] at hle
    exact Nat.le_trans (heach result after) hle
  · rename_i error after hshape
    rw [hshape] at hle
    exact hle

/-- After a token is passed, no more is left than what the lexer had left. -/
theorem pending_advance_le {cursor after : Cursor} (hpassed : advance cursor = (.ok (), after)) :
    after.pending ≤ cursor.lexer.rest.length := by
  have hread := next_of_advance hpassed
  have hlast : cursor.lexer.next.2 = after.lexer := congrArg Prod.snd hread
  rcases Lexer.length_rest_next_lt (congrArg Prod.fst hread) with ⟨hended, hnothing⟩ | hshorter
  · rw [hlast] at hnothing
    simp [Cursor.pending, hended, hnothing]
  · rw [hlast] at hshorter
    rw [Cursor.pending]
    split <;> omega

/-- Passing a token is bounded. -/
theorem bounded_advance : Bounded advance := by
  intro cursor
  rcases hshape : advance cursor with ⟨error | _, after⟩
  · -- the lexer stops at a fault, and the token at hand stays
    obtain ⟨fault, hread, -, hsame⟩ := exists_next_of_advance hshape
    have hle := cursor.lexer.length_rest_next_le
    rw [hread] at hle
    rw [Cursor.pending, Cursor.pending, hsame]
    exact Nat.add_le_add_right hle _
  · -- the new token at hand is made of characters that the lexer had left
    exact Nat.le_trans (pending_advance_le hshape) (Nat.le_add_right _ _)

/-- Passing a token other than the end of input shortens what is yet to be read. -/
theorem pending_advance_lt {cursor : Cursor} (hmore : cursor.token.kind ≠ .endOfInput)
    (hpassed : (advance cursor).1 = .ok ()) : (advance cursor).2.pending < cursor.pending := by
  have hshape : advance cursor = (.ok (), (advance cursor).2) := Prod.ext hpassed rfl
  refine Nat.lt_of_le_of_lt (pending_advance_le hshape) ?_
  rw [Cursor.pending, if_neg hmore]
  exact Nat.lt_succ_self _

/-- A flag for white space does not matter for what is yet to be read. -/
theorem bounded_withPolicy {inner : Parse α} (skip : Bool) (hbounded : Bounded inner) :
    Bounded (withPolicy skip inner) :=
  fun cursor => hbounded { cursor with lexer := cursor.lexer.push skip }

/-- If the first of two parses shortens what is yet to be read, so do both together. -/
theorem pending_bind_lt {first : Parse α} {next : α → Parse β} {cursor : Cursor}
    (hshorter : ∀ result, (first cursor).1 = .ok result → (first cursor).2.pending < cursor.pending)
    (heach : ∀ result, Bounded (next result)) {result : β}
    (hfound : ((first >>= next) cursor).1 = .ok result) :
    ((first >>= next) cursor).2.pending < cursor.pending := by
  simp only [bind] at hfound ⊢
  split at hfound
  · rename_i between after hshape
    rw [hshape] at hshorter
    exact Nat.lt_of_le_of_lt (heach between after) (hshorter between rfl)
  · cases hfound

/-! ## Repetition -/

/-- Repeats a parse for as long as it finds something. -/
def many (parse : Parse (Option α)) (hconsuming : Consuming parse) (cursor : Cursor) :
    Except SyntaxError (List α) × Cursor :=
  match hshape : parse cursor with
  | (.error error, after) => (.error error, after)
  | (.ok none, after) => (.ok [], after)
  | (.ok (some result), after) =>
    have : after.pending < cursor.pending := by
      have hlt := hconsuming cursor result
      rw [hshape] at hlt
      exact hlt rfl
    match many parse hconsuming after with
    | (.ok results, last) => (.ok (result :: results), last)
    | (.error error, last) => (.error error, last)
termination_by cursor.pending

/-- A repetition does not lengthen what is yet to be read. -/
theorem bounded_many {parse : Parse (Option α)} (hconsuming : Consuming parse)
    (hbounded : Bounded parse) : Bounded (many parse hconsuming) := by
  intro cursor
  fun_induction many parse hconsuming cursor with
  | case1 cursor error after hshape =>
    have hle := hbounded cursor
    rwa [hshape] at hle
  | case2 cursor after hshape =>
    have hle := hbounded cursor
    rwa [hshape] at hle
  | case3 cursor result after hshape hlt results last hrest ih =>
    rw [hrest] at ih
    exact Nat.le_trans ih (Nat.le_of_lt hlt)
  | case4 cursor result after hshape hlt error last hrest ih =>
    rw [hrest] at ih
    exact Nat.le_trans ih (Nat.le_of_lt hlt)

end Parse

end DocQuery
