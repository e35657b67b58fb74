import DocQuery.Proofs.Grammar.Derivation

/-!
# What a cursor has ahead

A cursor that reads a text of tokens has the rest of these tokens ahead of it. The flags for white
space decide which separators are among them: a token that is read while white space is skipped
takes the separators after it along.

Two relations describe a parse on this view. `Moves` is what a parse that succeeds has done: the
tokens that it passed lie between two cursors. `Reaches` is what a parse will do: it succeeds and
leaves given tokens ahead.

What is ahead is known only where all of the text is made of tokens. What is behind a cursor is made
of tokens in any case, since it has been read. So `Moves` says what it adds to either.

* `Cursor.ahead_advance_iff`: what is ahead after a token is passed.
* `Moves.advance`, `Moves.advance_skipping`, `Reaches.advance`: passing a token under either flag.
* `Moves.withPolicy`, `Reaches.withPolicy`: a flag that is put and taken away.
* `Parse.parseAll_eq_ok_iff`: when a whole text is parsed.
-/

namespace DocQuery

namespace Cursor

/-- The kinds of the tokens that the cursor has yet to pass, the one at hand first. -/
def Ahead (cursor : Cursor) : List Token.Kind → Prop
  | [] => cursor.token.kind = .endOfInput
  | kind :: later =>
    cursor.token.kind = kind ∧ kind ≠ .endOfInput ∧ Spells cursor.lexer.rest later []

/-- The token at hand is the first one ahead. -/
theorem Ahead.kind_eq {cursor : Cursor} {kinds : List Token.Kind} (h : cursor.Ahead kinds) :
    cursor.token.kind = kinds.head?.getD .endOfInput := by
  cases kinds with
  | nil => exact h
  | cons kind later => exact h.1

/-- Reading a token brings the tokens ahead that the text holds after the skipped white space. -/
theorem ahead_next_iff {lexer after : Lexer} {token : Token}
    (h : lexer.next = (.ok token, after)) (kinds : List Token.Kind) :
    Ahead ⟨after, token⟩ kinds ↔ Spells lexer.skipBlanks.rest kinds [] := by
  rcases Lexer.next_eq_ok h with ⟨hrest, rfl, -⟩ | ⟨c, rest, lexeme, hrest, hscan, rfl, rfl⟩
  · rw [hrest]
    -- at the end of the text nothing is ahead
    constructor
    · intro hahead
      cases kinds with
      | nil => exact .nil _
      | cons kind later => exact (hahead.2.1 hahead.1.symm).elim
    · intro hspells
      rw [hspells.eq_nil_of_nil]
      rfl
  · rw [hrest]
    -- the token at hand is the first one, and the text goes on behind it
    constructor
    · intro hahead
      cases kinds with
      | nil => exact (Lexeme.kind_ne_endOfInput_of_scan hscan hahead).elim
      | cons kind later =>
        obtain ⟨rfl, -, hlater⟩ := hahead
        exact .cons hscan hlater
    · intro hspells
      obtain ⟨lexeme', later, hscan', rfl, hlater⟩ := hspells.exists_of_cons
      obtain rfl := Except.ok.inj (hscan.symm.trans hscan')
      exact ⟨rfl, Lexeme.kind_ne_endOfInput_of_scan hscan, hlater⟩

/-- Where the text goes on with tokens, the next one can be read. -/
theorem exists_next_of_spells {lexer : Lexer} {kinds : List Token.Kind}
    (h : Spells lexer.skipBlanks.rest kinds []) :
    ∃ token after, lexer.next = (.ok token, after) := by
  rcases lexer.next_cases with ⟨-, hnext⟩ | ⟨c, rest, hrest, ⟨_, hfault, -⟩ | ⟨_, -, hnext⟩⟩
  · exact ⟨_, _, hnext⟩
  · rw [hrest] at h
    obtain ⟨lexeme, later, hscan, -, -⟩ := h.exists_of_cons
    cases hfault.symm.trans hscan
  · exact ⟨_, _, hnext⟩

/-- Where white space is significant, the whole text is ahead. -/
theorem rest_skipBlanks_of_not_skips {lexer : Lexer} (h : lexer.skips = false) :
    lexer.skipBlanks.rest = lexer.rest := by
  simp [Lexer.skipBlanks, h]

/-- Where white space is skipped, the text after it is ahead. -/
theorem rest_skipBlanks_of_skips {lexer : Lexer} (h : lexer.skips = true) :
    lexer.skipBlanks.rest = lexer.rest.dropWhile isBlank := by
  simp [Lexer.skipBlanks, h, Lexer.advance]

/-- Of the tokens of a text those are ahead that are seen under the flag. -/
theorem spells_skipBlanks {lexer : Lexer} {kinds : List Token.Kind} {skip : Bool}
    (hskips : lexer.skips = skip) (h : Spells lexer.rest kinds []) :
    Spells lexer.skipBlanks.rest (Grammar.Derivation.seen skip kinds) [] := by
  cases skip with
  | false =>
    rw [rest_skipBlanks_of_not_skips hskips]
    exact h
  | true =>
    rw [rest_skipBlanks_of_skips hskips]
    exact h.dropBlanks

/-- What is ahead after a token is passed. -/
theorem ahead_advance_iff {cursor after : Cursor} (h : Parse.advance cursor = (.ok (), after))
    (kinds : List Token.Kind) :
    after.Ahead kinds ↔ Spells cursor.lexer.skipBlanks.rest kinds [] :=
  ahead_next_iff (Parse.next_of_advance h) kinds

/-- Where no token begins, the error is at the place where it is read. -/
theorem position_of_advance {cursor after : Cursor} {error : SyntaxError}
    (h : Parse.advance cursor = (.error error, after)) :
    error.position = cursor.lexer.skipBlanks.offset := by
  obtain ⟨fault, hnext, rfl, -⟩ := Parse.exists_next_of_advance h
  exact (Lexer.next_eq_error hnext).2.1

/-- Passing a token leaves the flags alone. -/
theorem policies_advance {cursor after : Cursor} (h : Parse.advance cursor = (.ok (), after)) :
    after.lexer.policies = cursor.lexer.policies := by
  rw [← cursor.lexer.policies_next, Parse.next_of_advance h]

/-! ## What is behind -/

/-- The text begins with tokens of the given kinds, and they end at the byte offset. -/
def Reached (text : List Char) (kinds : List Token.Kind) (position : Nat) : Prop :=
  ∃ last, Spells text kinds last ∧ position + utf8Length last = utf8Length text

/-- The text begins with tokens of the given kinds, and the token at hand follows them. -/
structure Behind (text : List Char) (kinds : List Token.Kind) (cursor : Cursor) : Prop where
  /-- The position of the token at hand is where the tokens end. -/
  reached : Reached text kinds cursor.token.position
  /-- The lexer stands after the token at hand. -/
  spells : ∀ kind, cursor.token.kind = kind → kind ≠ .endOfInput →
    Spells text (kinds ++ [kind]) cursor.lexer.rest
  /-- The offset of the lexer is where it stands. -/
  offset : cursor.lexer.offset + utf8Length cursor.lexer.rest = utf8Length text

/-- The white space that is skipped is a token, if there is any and it is skipped. -/
theorem exists_skipBlanks (lexer : Lexer) :
    ∃ b, Grammar.Derivation.Blank b ∧ (lexer.skips = false → b = []) ∧
      Spells lexer.rest b lexer.skipBlanks.rest ∧
      lexer.skipBlanks.offset + utf8Length lexer.skipBlanks.rest =
        lexer.offset + utf8Length lexer.rest := by
  rw [Lexer.skipBlanks]
  split
  · rename_i hskips
    obtain ⟨b, hb, hspells⟩ := Grammar.Derivation.exists_blank lexer.rest
    refine ⟨b, hb, fun hnot => ?_, hspells, ?_⟩
    · rw [hskips] at hnot
      cases hnot
    · rw [Lexer.advance, Nat.add_assoc, ← utf8Length_append, List.takeWhile_append_dropWhile]
  · exact ⟨[], Grammar.Derivation.blank_nil, fun _ => rfl, .nil _, rfl⟩

/-- Behind the next token is what is behind the place where it is read. -/
theorem behind_of_next {lexer after : Lexer} {token : Token} {text : List Char}
    {kinds : List Token.Kind} (h : lexer.next = (.ok token, after))
    (hspells : Spells text kinds lexer.skipBlanks.rest)
    (hoffset : lexer.skipBlanks.offset + utf8Length lexer.skipBlanks.rest = utf8Length text) :
    Behind text kinds ⟨after, token⟩ := by
  rcases Lexer.next_eq_ok h with ⟨-, rfl, rfl⟩ | ⟨c, rest, lexeme, hrest, hscan, rfl, rfl⟩
  · refine ⟨⟨_, hspells, hoffset⟩, fun kind hkind hne => ?_, hoffset⟩
    exact absurd hkind.symm hne
  · refine ⟨⟨_, hspells, hoffset⟩, ?_, ?_⟩
    · rintro kind rfl -
      rw [hrest] at hspells
      exact hspells.append (.cons hscan (.nil _))
    · -- the offset grows by the bytes of the token
      rw [hrest, ← Lexeme.source_append_rest_of_scan hscan, utf8Length_append,
        ← Nat.add_assoc] at hoffset
      exact hoffset

/-- At the start of a text its white space is behind. -/
theorem exists_behind_ofString {text : String} {cursor : Cursor}
    (h : Cursor.ofString text = .ok cursor) :
    ∃ b, Grammar.Derivation.Blank b ∧ Behind text.toList b cursor := by
  obtain ⟨b, hb, -, hspells, hoffset⟩ := exists_skipBlanks (Lexer.ofString text)
  refine ⟨b, hb, behind_of_next (Parse.next_of_ofString h) hspells (hoffset.trans ?_)⟩
  exact Nat.zero_add _

/-! ## The start of a text -/

/-- At the start of a text its tokens are ahead, after white space. -/
theorem ofString_eq_ok {text : String} {cursor : Cursor} (h : Cursor.ofString text = .ok cursor) :
    cursor.lexer.policies = [] ∧
      ∀ kinds, cursor.Ahead kinds ↔ Spells (text.toList.dropWhile isBlank) kinds [] := by
  have hnext := Parse.next_of_ofString h
  refine ⟨?_, ahead_next_iff hnext⟩
  have hpolicies := (Lexer.ofString text).policies_next
  rwa [hnext] at hpolicies

/-- A text of tokens can be read from its start. -/
theorem exists_ofString {text : String} {kinds : List Token.Kind}
    (h : Spells (text.toList.dropWhile isBlank) kinds []) :
    ∃ cursor, Cursor.ofString text = .ok cursor := by
  have hstart : Spells (Lexer.ofString text).skipBlanks.rest kinds [] := h
  obtain ⟨token, lexer, hnext⟩ := exists_next_of_spells hstart
  rw [Cursor.ofString, hnext]
  exact ⟨_, rfl⟩

end Cursor

namespace Parse

variable {α β : Type}

/-! ## Parses one after the other -/

/-- Two parses one after the other, the first of which succeeds. -/
theorem bind_of_ok {first : Parse α} {next : α → Parse β} {cursor mid : Cursor} {between : α}
    (h : first cursor = (.ok between, mid)) : (first >>= next) cursor = next between mid := by
  simp only [bind, h]

/-- Two parses one after the other, the first of which fails. -/
theorem bind_of_error {first : Parse α} {next : α → Parse β} {cursor mid : Cursor}
    {error : SyntaxError} (h : first cursor = (.error error, mid)) :
    (first >>= next) cursor = (.error error, mid) := by
  simp only [bind, h]

/-- Two parses succeed one after the other. -/
theorem bind_eq_ok {first : Parse α} {next : α → Parse β} {cursor last : Cursor} {result : β}
    (h : (first >>= next) cursor = (.ok result, last)) :
    ∃ between mid, first cursor = (.ok between, mid) ∧ next between mid = (.ok result, last) := by
  simp only [bind] at h
  split at h
  · rename_i between mid hfirst
    exact ⟨between, mid, hfirst, h⟩
  · cases h

/-- One of two parses fails, the second one only behind the first. -/
theorem bind_eq_error {first : Parse α} {next : α → Parse β} {cursor last : Cursor}
    {error : SyntaxError} (h : (first >>= next) cursor = (.error error, last)) :
    (∃ after, first cursor = (.error error, after)) ∨
      ∃ between mid, first cursor = (.ok between, mid) ∧
        next between mid = (.error error, last) := by
  simp only [bind] at h
  split at h
  · rename_i between mid hfirst
    exact .inr ⟨between, mid, hfirst, h⟩
  · rename_i hfirst
    cases h
    exact .inl ⟨_, hfirst⟩

/-- What a parse does that begins by looking at the token at hand is told by its kind. -/
theorem kind_bind_eq {next : Token.Kind → Parse β} {cursor : Cursor}
    {outcome : Except SyntaxError β × Cursor} (h : (kind >>= next) cursor = outcome) :
    ∃ found, cursor.token.kind = found ∧ next found cursor = outcome :=
  ⟨_, rfl, h⟩

/-- A result is found without reading on. -/
theorem pure_eq_ok {value result : α} {cursor last : Cursor}
    (h : (pure value : Parse α) cursor = (.ok result, last)) : value = result ∧ cursor = last := by
  cases h
  exact ⟨rfl, rfl⟩

/-- A repetition is a parse and, if it finds something, the repetition behind it. -/
theorem many_eq_bind (parse : Parse (Option α)) (hconsuming : Consuming parse) :
    (many parse hconsuming : Parse (List α)) = parse >>= fun
      | none => pure []
      | some result => many parse hconsuming >>= fun results => pure (result :: results) := by
  funext cursor
  -- one case for each outcome of the first parse, and where it finds something, of the rest
  rw [many]
  split
  · rename_i hshape
    rw [bind_of_error hshape]
  · rename_i hshape
    rw [bind_of_ok hshape]
    rfl
  · rename_i hshape
    rw [bind_of_ok hshape]
    dsimp only
    split
    · rename_i hrest
      rw [bind_of_ok hrest]
      rfl
    · rename_i hrest
      rw [bind_of_error hrest]

/-- A repetition ends where nothing more is found. -/
theorem many_of_none {parse : Parse (Option α)} {hconsuming : Consuming parse}
    {cursor after : Cursor} (h : parse cursor = (.ok none, after)) :
    many parse hconsuming cursor = (.ok [], after) := by
  rw [many_eq_bind, bind_of_ok h]
  rfl

/-- A repetition goes on behind what is found. -/
theorem many_of_some {parse : Parse (Option α)} {hconsuming : Consuming parse}
    {cursor after last : Cursor} {result : α} {results : List α}
    (h : parse cursor = (.ok (some result), after))
    (hmany : many parse hconsuming after = (.ok results, last)) :
    many parse hconsuming cursor = (.ok (result :: results), last) := by
  rw [many_eq_bind, bind_of_ok h]
  exact bind_of_ok hmany

/-- A whole text is parsed when its content is and nothing is left. -/
theorem parseAll_eq_ok_iff {content : Parse α} {text : String} {result : α} :
    Grammar.parseAll content text = .ok result ↔
      ∃ cursor after, Cursor.ofString text = .ok cursor ∧
        content cursor = (.ok result, after) ∧ after.token.kind = .endOfInput := by
  rw [Grammar.parseAll]
  constructor
  · intro h
    split at h
    · cases h
    · rename_i cursor hcursor
      obtain ⟨found, after, hcontent, hend⟩ := bind_eq_ok (Prod.ext h rfl)
      obtain ⟨_, last, hend, hpure⟩ := bind_eq_ok hend
      cases hpure
      refine ⟨cursor, after, hcursor, hcontent, ?_⟩
      -- the check for the end looks at the token at hand and passes nothing
      rw [Grammar.expectEnd] at hend
      obtain ⟨kind, hkind, hend⟩ := kind_bind_eq hend
      split at hend
      · exact hkind
      · cases hend
  · rintro ⟨cursor, after, hcursor, hcontent, hend⟩
    rw [hcursor]
    simp only [Bind.bind, hcontent, Grammar.expectEnd, kind, hend]
    rfl

end Parse

open Grammar.Derivation (Blank)

/-! ## What a parse has done -/

/-- The tokens of the given kinds lie between two cursors, under the same flags. -/
structure Moves (cursor : Cursor) (kinds : List Token.Kind) (after : Cursor) : Prop where
  /-- The flags for white space are what they were. -/
  policies_eq : after.lexer.policies = cursor.lexer.policies
  /-- What was ahead is the tokens between the two cursors and what is ahead afterwards. -/
  ahead : ∀ later, after.Ahead later → cursor.Ahead (kinds ++ later)
  /-- What is behind is what was behind before and the tokens between the two cursors. -/
  behind : ∀ text earlier, cursor.Behind text earlier → after.Behind text (earlier ++ kinds)

namespace Moves

variable {α : Type} {cursor mid after : Cursor} {ks ls : List Token.Kind}

/-- Nothing lies between a cursor and itself. -/
theorem refl (cursor : Cursor) : Moves cursor [] cursor := by
  refine ⟨rfl, fun _ h => h, fun text earlier h => ?_⟩
  rwa [List.append_nil]

/-- One move after another. -/
theorem trans (h₁ : Moves cursor ks mid) (h₂ : Moves mid ls after) :
    Moves cursor (ks ++ ls) after := by
  refine ⟨h₂.policies_eq.trans h₁.policies_eq, fun later hlater => ?_, fun text earlier h => ?_⟩
  · rw [List.append_assoc]
    exact h₁.ahead _ (h₂.ahead _ hlater)
  · rw [← List.append_assoc]
    exact h₂.behind _ _ (h₁.behind _ _ h)

/-- The same flag holds at both ends of a move. -/
theorem skips_eq (h : Moves cursor ks after) : after.lexer.skips = cursor.lexer.skips := by
  rw [Lexer.skips, Lexer.skips, h.policies_eq]

/-- Passing a token and the white space that is skipped after it. -/
theorem exists_advance {kind : Token.Kind} (hkind : cursor.token.kind = kind)
    (hne : kind ≠ .endOfInput) (h : Parse.advance cursor = (.ok (), after)) :
    ∃ b, Blank b ∧ (cursor.lexer.skips = false → b = []) ∧ Moves cursor ([kind] ++ b) after := by
  obtain ⟨b, hb, hnone, hspells, hoffset⟩ := Cursor.exists_skipBlanks cursor.lexer
  refine ⟨b, hb, hnone, Cursor.policies_advance h, fun later hlater => ?_,
    fun text earlier hbehind => ?_⟩
  · exact ⟨hkind, hne, hspells.append ((Cursor.ahead_advance_iff h later).1 hlater)⟩
  · refine Cursor.behind_of_next (Parse.next_of_advance h) ?_ (hoffset.trans hbehind.offset)
    rw [← List.append_assoc]
    exact (hbehind.spells kind hkind hne).append hspells

/-- Passing a token while white space is significant. -/
theorem advance {kind : Token.Kind} (hkind : cursor.token.kind = kind) (hne : kind ≠ .endOfInput)
    (hskips : cursor.lexer.skips = false) (h : Parse.advance cursor = (.ok (), after)) :
    Moves cursor [kind] after := by
  obtain ⟨b, -, hnone, hmoves⟩ := exists_advance hkind hne h
  rwa [hnone hskips] at hmoves

/-- Passing a token and white space that may be skipped after it. -/
theorem advance_skipping {kind : Token.Kind} (hkind : cursor.token.kind = kind)
    (hne : kind ≠ .endOfInput) (h : Parse.advance cursor = (.ok (), after)) :
    ∃ b, Blank b ∧ Moves cursor ([kind] ++ b) after := by
  obtain ⟨b, hb, -, hmoves⟩ := exists_advance hkind hne h
  exact ⟨b, hb, hmoves⟩

/-- A parse under a flag of its own moves as it would without the flag outside. -/
theorem withPolicy {skip : Bool} {inner : Parse α} {result : α}
    (h : Parse.withPolicy skip inner cursor = (.ok result, after)) :
    ∃ mid, inner { cursor with lexer := cursor.lexer.push skip } = (.ok result, mid) ∧
      after.token = mid.token ∧
      ∀ kinds, Moves { cursor with lexer := cursor.lexer.push skip } kinds mid →
        Moves cursor kinds after := by
  rw [Parse.withPolicy] at h
  dsimp only at h
  obtain ⟨hresult, rfl⟩ := Prod.mk.inj h
  refine ⟨_, Prod.ext hresult rfl, rfl, fun kinds hmoves => ⟨?_, hmoves.ahead, ?_⟩⟩
  · -- the flag that was put on the stack is the one that is taken away
    exact congrArg List.tail hmoves.policies_eq
  · -- what is behind does not depend on the flags
    intro text earlier hbehind
    obtain ⟨hreached, hspells, hoffset⟩ :=
      hmoves.behind text earlier ⟨hbehind.reached, hbehind.spells, hbehind.offset⟩
    exact ⟨hreached, hspells, hoffset⟩

end Moves

/-! ## What a parse will do -/

/-- The parse succeeds and leaves tokens of the given kinds ahead, under the same flags. -/
def Reaches {α : Type} (parse : Parse α) (cursor : Cursor) (result : α)
    (later : List Token.Kind) : Prop :=
  ∃ after, parse cursor = (.ok result, after) ∧
    after.lexer.policies = cursor.lexer.policies ∧ after.Ahead later

namespace Reaches

variable {α β : Type} {cursor : Cursor} {later mid : List Token.Kind}

/-- A result is reached at once. -/
theorem pure (result : α) (h : cursor.Ahead later) :
    Reaches (Pure.pure result) cursor result later :=
  ⟨cursor, rfl, rfl, h⟩

/-- Two parses one after the other. -/
theorem bind {first : Parse α} {next : α → Parse β} {between : α} {result : β}
    (h₁ : Reaches first cursor between mid)
    (h₂ : ∀ after : Cursor, after.lexer.policies = cursor.lexer.policies → after.Ahead mid →
      Reaches (next between) after result later) :
    Reaches (first >>= next) cursor result later := by
  obtain ⟨after, hfirst, hpolicies, hahead⟩ := h₁
  obtain ⟨last, hnext, hpolicies', hlater⟩ := h₂ after hpolicies hahead
  exact ⟨last, (Parse.bind_of_ok hfirst).trans hnext, hpolicies'.trans hpolicies, hlater⟩

/-- A parse that begins by looking at the token at hand reaches what it reaches for its kind. -/
theorem kind_bind {next : Token.Kind → Parse β} {result : β} {kind : Token.Kind}
    (hkind : cursor.token.kind = kind) (h : Reaches (next kind) cursor result later) :
    Reaches (Parse.kind >>= next) cursor result later := by
  subst hkind
  exact h

/-- A token can be passed when what follows is made of tokens. -/
theorem advance_of_spells {kinds : List Token.Kind}
    (h : Spells cursor.lexer.skipBlanks.rest kinds []) : Reaches Parse.advance cursor () kinds := by
  obtain ⟨token, lexer, hnext⟩ := Cursor.exists_next_of_spells h
  have hadvance : Parse.advance cursor = (.ok (), ⟨lexer, token⟩) := by
    simp only [Parse.advance, hnext]
  exact ⟨_, hadvance, Cursor.policies_advance hadvance, (Cursor.ahead_advance_iff hadvance _).2 h⟩

/-- Passing a token leaves ahead what is seen of the others. -/
theorem advance {kind : Token.Kind} {skip : Bool} (h : cursor.Ahead (kind :: later))
    (hskips : cursor.lexer.skips = skip) :
    Reaches Parse.advance cursor () (Grammar.Derivation.seen skip later) :=
  advance_of_spells (Cursor.spells_skipBlanks hskips h.2.2)

/-- A parse under a flag of its own. -/
theorem withPolicy {skip : Bool} {inner : Parse α} {result : α}
    (h : Reaches inner { cursor with lexer := cursor.lexer.push skip } result later) :
    Reaches (Parse.withPolicy skip inner) cursor result later := by
  obtain ⟨after, hinner, hpolicies, hahead⟩ := h
  refine ⟨{ after with lexer := after.lexer.pop }, ?_, congrArg List.tail hpolicies, ?_⟩
  · simp only [Parse.withPolicy, hinner]
  · -- taking the flag away changes neither the token at hand nor the text
    cases later with
    | nil => exact hahead
    | cons kind later => exact hahead

/-- A repetition that finds nothing more stands before the tokens that it found. -/
theorem many_nil {parse : Parse (Option α)} {hconsuming : Parse.Consuming parse}
    (h : Reaches parse cursor none later) :
    Reaches (Parse.many parse hconsuming) cursor [] later := by
  obtain ⟨after, hparse, hpolicies, hahead⟩ := h
  exact ⟨after, Parse.many_of_none hparse, hpolicies, hahead⟩

/-- A repetition goes on after something is found. -/
theorem many_cons {parse : Parse (Option α)} {hconsuming : Parse.Consuming parse} {result : α}
    {results : List α} (h₁ : Reaches parse cursor (some result) mid)
    (h₂ : ∀ after : Cursor, after.lexer.policies = cursor.lexer.policies → after.Ahead mid →
      Reaches (Parse.many parse hconsuming) after results later) :
    Reaches (Parse.many parse hconsuming) cursor (result :: results) later := by
  obtain ⟨after, hparse, hpolicies, hahead⟩ := h₁
  obtain ⟨last, hmany, hpolicies', hlater⟩ := h₂ after hpolicies hahead
  exact ⟨last, Parse.many_of_some hparse hmany, hpolicies'.trans hpolicies, hlater⟩

end Reaches

end DocQuery
