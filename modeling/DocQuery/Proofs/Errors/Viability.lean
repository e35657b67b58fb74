import DocQuery.Proofs.Errors.Completion
import DocQuery.Proofs.Grammar.Acceptance

/-!
# What is passed before an error can be completed

A parse that fails has passed the beginning of a derivation. What is missing is short. In a bracket
it is the closing bracket, whatever stands in the bracket; behind dots it is a name or a bracket;
behind a comma, an operator or a keyword it is a selector. Everything else that may follow may also
be absent, so what completes a part of a query completes the query.

* `Viable.selector`, `Viable.selectors`, `Viable.filter`, `Viable.query`: the parts of the language.
-/

namespace DocQuery

namespace Grammar

open Parse Grammar.Derivation

/-- Under the given flag, a parse that fails has passed the beginning of a derivation, the rest of
which can be put there. -/
def Viable {α : Type} (skip : Bool) (parse : Parse α) (content : List Token.Kind → α → Prop) :
    Prop :=
  ∀ ⦃cursor error after⦄, cursor.lexer.skips = skip → parse cursor = (.error error, after) →
    Completable content cursor error

namespace Viable

/-! ## Brackets -/

section Brackets

variable {cursor after : Cursor} {error : SyntaxError}

/-- A bound of a slice. -/
theorem bound (h : bound cursor = (.error error, after)) :
    StopsBehind (Spaced Bound) cursor error := by
  rw [Grammar.bound] at h
  obtain ⟨found, hkind, h⟩ := kind_bind_eq h
  split at h
  · rename_i value
    rcases bind_eq_error h with ⟨mid, hadvance⟩ | ⟨_, _, -, hpure⟩
    · obtain ⟨b, hb, -, hhalts⟩ := Halts.exists_advance hkind (by simp) hadvance
      exact ⟨_, some value, .intro (.present value) hb, hhalts⟩
    · cases hpure
  · cases h

/-- A bound alone is the content of a bracket. -/
theorem exists_content_of_bound {ks : List Token.Kind} {value : Option Int64}
    (h : Spaced Bound ks value) : ∃ segment, Spaced Content ks segment := by
  obtain ⟨h, hb⟩ := h
  cases h with
  | absent => exact ⟨_, .intro .whole hb⟩
  | present value => exact ⟨_, .intro (.position value) hb⟩

/-- A position or a slice. -/
theorem positionOrSlice (hskips : cursor.lexer.skips = true)
    (h : positionOrSlice cursor = (.error error, after)) :
    StopsBehind (Spaced Content) cursor error := by
  rw [Grammar.positionOrSlice] at h
  rcases bind_eq_error h with ⟨mid, hfirst⟩ | ⟨first, mid, hfirst, h⟩
  · obtain ⟨ks, value, hks, hhalts⟩ := bound hfirst
    obtain ⟨segment, hsegment⟩ := exists_content_of_bound hks
    exact ⟨ks, segment, hsegment, hhalts⟩
  obtain ⟨ks, hks, hmoves⟩ := Sound.bound hskips hfirst
  obtain ⟨found, hcolon, h⟩ := kind_bind_eq h
  split at h
  · rcases bind_eq_error h with ⟨colon, hadvance⟩ | ⟨_, colon, hadvance, h⟩
    · -- the last bound of a slice may be absent
      obtain ⟨b, hb, -, hhalts⟩ := Halts.exists_advance hcolon (by simp) hadvance
      refine ⟨_, _, .intro (.slice hks hb .absent) blank_nil, ?_⟩
      simpa only [List.append_assoc, List.append_nil] using hhalts.of_moves hmoves
    · obtain ⟨b, hb, hmoves'⟩ := Moves.advance_skipping hcolon (by simp) hadvance
      rcases bind_eq_error h with ⟨stop, hlast⟩ | ⟨_, _, -, hpure⟩
      · obtain ⟨ls, value, hls, hhalts⟩ := bound hlast
        obtain ⟨hls, hb'⟩ := hls
        refine ⟨_, _, .intro (.slice hks hb hls) hb', ?_⟩
        simpa only [List.append_assoc] using hhalts.of_moves (hmoves.trans hmoves')
      · cases hpure
  · split at h <;> cases h

/-- What stands in a bracket. -/
theorem bracketContent (hskips : cursor.lexer.skips = true)
    (h : bracketContent cursor = (.error error, after)) :
    StopsBehind (Spaced Content) cursor error := by
  rw [Grammar.bracketContent] at h
  obtain ⟨found, hkind, h⟩ := kind_bind_eq h
  -- the token at hand decides
  cases found with
  | string name =>
    rcases bind_eq_error h with ⟨mid, hadvance⟩ | ⟨_, _, -, hpure⟩
    · obtain ⟨b, hb, -, hhalts⟩ := Halts.exists_advance hkind (by simp) hadvance
      exact ⟨_, _, .intro (.name name) hb, hhalts⟩
    · cases hpure
  | integer value => exact positionOrSlice hskips h
  | colon => exact positionOrSlice hskips h
  | bracketClose => exact positionOrSlice hskips h
  | _ => exact ⟨_, _, .intro .whole blank_nil, .fail h⟩

/-- The inside of a bracket. -/
theorem bracketInside (hkind : cursor.token.kind = .bracketOpen)
    (hskips : cursor.lexer.skips = true) (h : bracketInside cursor = (.error error, after)) :
    ∃ b ks segment, Blank b ∧ Spaced Content ks segment ∧
      Halts cursor ([.bracketOpen] ++ b ++ ks) error := by
  rw [Grammar.bracketInside] at h
  rcases bind_eq_error h with ⟨opened, hopen⟩ | ⟨_, opened, hopen, h⟩
  · obtain ⟨b, hb, -, hhalts⟩ := Halts.exists_advance hkind (by simp) hopen
    refine ⟨b, _, _, hb, .intro .whole blank_nil, ?_⟩
    simpa only [List.append_nil] using hhalts
  obtain ⟨b, hb, hmoves⟩ := Moves.advance_skipping hkind (by simp) hopen
  have hskips := hmoves.skips_eq.trans hskips
  rcases bind_eq_error h with ⟨mid, hcontent⟩ | ⟨segment, mid, hcontent, h⟩
  · obtain ⟨ks, segment, hks, hhalts⟩ := bracketContent hskips hcontent
    exact ⟨b, ks, segment, hb, hks, hhalts.of_moves hmoves⟩
  · -- a bracket is not closed, and the content that was read is all that is needed
    obtain ⟨ks, hks, hmoves'⟩ := Sound.bracketContent hskips hcontent
    obtain ⟨found, -, h⟩ := kind_bind_eq h
    split at h
    · cases h
    · have hhalts := Halts.of_moves (hmoves.trans hmoves') (.fail h)
      rw [List.append_nil] at hhalts
      exact ⟨b, ks, segment, hb, hks, hhalts⟩

/-- A bracket. -/
theorem bracket (hkind : cursor.token.kind = .bracketOpen) (hskips : cursor.lexer.skips = false)
    (h : bracket cursor = (.error error, after)) : Completable Bracket cursor error := by
  rw [Grammar.bracket] at h
  rcases bind_eq_error h with ⟨mid, hinside⟩ | ⟨segment, mid, hinside, h⟩
  · -- whatever stands in the bracket, it may be closed
    obtain ⟨mid, hinside, houtside⟩ := Halts.withPolicy hinside
    obtain ⟨b, ks, segment, hb, hks, hhalts⟩ := bracketInside (by exact hkind) rfl hinside
    exact ⟨_, [.bracketClose], segment, .intro hb hks, .close _, houtside _ hhalts⟩
  · obtain ⟨inner, hinside, htoken, houtside⟩ := Moves.withPolicy hinside
    obtain ⟨hclosed, b, ks, hb, hks, hmoves⟩ := Sound.bracketInside (by exact hkind) rfl hinside
    have hto := houtside _ hmoves
    rcases bind_eq_error h with ⟨last, hclose⟩ | ⟨_, _, -, hpure⟩
    · obtain ⟨d, -, hnone, hhalts⟩ := Halts.exists_advance (htoken ▸ hclosed) (by simp) hclose
      obtain rfl := hnone (hto.skips_eq.trans hskips)
      exact StopsBehind.completable ⟨_, segment, .intro hb hks, hhalts.of_moves hto⟩
    · cases hpure

end Brackets

/-! ## Steps -/

/-- A pair of brackets. -/
theorem bracket_brackets : Bracket [.bracketOpen, .bracketClose] (.slice none none) := by
  have hbracket := Bracket.intro blank_nil (.intro .whole blank_nil)
  exact hbracket

section Steps

variable {cursor after : Cursor} {error : SyntaxError}

/-- Passing a token while white space is significant. -/
theorem halts_advance {kind : Token.Kind} (hkind : cursor.token.kind = kind)
    (hne : kind ≠ .endOfInput) (hskips : cursor.lexer.skips = false)
    (h : advance cursor = (.error error, after)) : Halts cursor [kind] error := by
  obtain ⟨b, -, hnone, hhalts⟩ := Halts.exists_advance hkind hne h
  rwa [hnone hskips] at hhalts

/-- The name after a dot. -/
theorem stepName {start : Cursor} (hmoves : Moves start [.dot] cursor)
    (hskips : cursor.lexer.skips = false) (h : stepName cursor = (.error error, after)) :
    Completable Step start error := by
  rw [Grammar.stepName] at h
  obtain ⟨found, hname, h⟩ := kind_bind_eq h
  split at h
  · rename_i name
    rcases bind_eq_error h with ⟨last, hadvance⟩ | ⟨_, _, -, hpure⟩
    · have hhalts := halts_advance hname (by simp) hskips hadvance
      exact StopsBehind.completable ⟨_, _, .field name, hhalts.of_moves hmoves⟩
    · cases hpure
  · -- some name is missing behind the dot
    exact ⟨[.dot], _, _, .field "x", .name, .of_moves hmoves (.fail h)⟩

/-- The name or the bracket after two dots. -/
theorem stepBelow {start : Cursor} (hmoves : Moves start [.dotDot] cursor)
    (hskips : cursor.lexer.skips = false) (h : stepBelow cursor = (.error error, after)) :
    Completable Step start error := by
  rw [Grammar.stepBelow] at h
  obtain ⟨found, hbelow, h⟩ := kind_bind_eq h
  split at h
  · rename_i name
    rcases bind_eq_error h with ⟨last, hadvance⟩ | ⟨_, _, -, hpure⟩
    · have hhalts := halts_advance hbelow (by simp) hskips hadvance
      exact StopsBehind.completable ⟨_, _, .descentField name, hhalts.of_moves hmoves⟩
    · cases hpure
  · rcases bind_eq_error h with ⟨last, hbracket⟩ | ⟨_, _, -, hpure⟩
    · exact (bracket hbelow hskips hbracket).of_moves hmoves fun h => ⟨_, .descentBracket h⟩
    · cases hpure
  · exact ⟨[.dotDot], _, _, .descentBracket bracket_brackets, .brackets _,
      .of_moves hmoves (.fail h)⟩

/-- A step. -/
theorem step (hskips : cursor.lexer.skips = false) (h : step cursor = (.error error, after)) :
    Completable Step cursor error := by
  rw [Grammar.step] at h
  obtain ⟨found, hkind, h⟩ := kind_bind_eq h
  unfold stepAt at h
  split at h
  · rcases bind_eq_error h with ⟨mid, hdot⟩ | ⟨_, mid, hdot, h⟩
    · exact ⟨_, _, _, .field "x", .name, halts_advance hkind (by simp) hskips hdot⟩
    · have hmoves := Moves.advance hkind (by simp) hskips hdot
      exact stepName hmoves (hmoves.skips_eq.trans hskips) h
  · rcases bind_eq_error h with ⟨mid, hdots⟩ | ⟨_, mid, hdots, h⟩
    · exact ⟨_, _, _, .descentBracket bracket_brackets, .brackets _,
        halts_advance hkind (by simp) hskips hdots⟩
    · have hmoves := Moves.advance hkind (by simp) hskips hdots
      exact stepBelow hmoves (hmoves.skips_eq.trans hskips) h
  · rcases bind_eq_error h with ⟨mid, hbracket⟩ | ⟨_, _, -, hpure⟩
    · exact (bracket hkind hskips hbracket).imp fun h => ⟨_, .bracket h⟩
    · cases hpure
  · cases h

/-- A step and any number of steps behind it. -/
def Steps (ks : List Token.Kind) (segments : List Segment) : Prop :=
  Chain ks segments ∧ Path ks ⟨segments⟩

/-- A step and the steps behind it. -/
theorem steps_cons {ks ls : List Token.Kind} {segments others : List Segment}
    (hhead : Step ks segments) (htail : Chain ls others) : Steps (ks ++ ls) (segments ++ others) :=
  ⟨.cons hhead htail, .steps hhead htail⟩

/-- Steps for as long as one follows. -/
theorem manySteps (hskips : cursor.lexer.skips = false)
    (h : many Grammar.step consuming_step cursor = (.error error, after)) :
    Completable Steps cursor error := by
  -- along the repetition: a step fails, or the steps behind it do
  fun_induction many Grammar.step consuming_step cursor generalizing after with
  | case1 cursor error' mid hstep =>
    cases h
    refine (step hskips hstep).imp fun {ls segments} h => ⟨segments, ?_⟩
    have hsteps := steps_cons h .nil
    rwa [List.append_nil, List.append_nil] at hsteps
  | case2 => cases h
  | case3 => cases h
  | case4 cursor segments mid hstep _ error' last hothers ih =>
    cases h
    obtain ⟨ks, hks, hmoves⟩ := Sound.step hskips hstep
    exact (ih (hmoves.skips_eq.trans hskips) hothers).of_moves hmoves
      fun h => ⟨_, steps_cons hks h.1⟩

/-- Steps for as long as one follows, put together. -/
theorem steps (hskips : cursor.lexer.skips = false) (h : steps cursor = (.error error, after)) :
    Completable Steps cursor error := by
  rw [Grammar.steps] at h
  rcases bind_eq_error h with ⟨mid, hmany⟩ | ⟨_, _, -, hpure⟩
  · exact manySteps hskips hmany
  · cases hpure

end Steps

/-! ## Selectors -/

section Selectors

variable {cursor after : Cursor} {error : SyntaxError}

/-- A selector that consists of a constant alone. -/
theorem constant {kind : Token.Kind} {value : Json} (hliteral : Literal [kind] value)
    (hkind : cursor.token.kind = kind) (hne : kind ≠ .endOfInput)
    (hskips : cursor.lexer.skips = false) (h : constant value cursor = (.error error, after)) :
    Completable Path cursor error := by
  rw [Grammar.constant] at h
  rcases bind_eq_error h with ⟨last, hadvance⟩ | ⟨_, _, -, hpure⟩
  · exact StopsBehind.completable
      ⟨_, _, .literal hliteral, halts_advance hkind hne hskips hadvance⟩
  · cases hpure

/-- A token and the steps behind it, if it makes up a selector with any of them. -/
theorem thenSteps (first : List Segment → Selector) {kind : Token.Kind}
    (hpath : ∀ {ks segments}, Chain ks segments → Path (kind :: ks) (first segments))
    (hkind : cursor.token.kind = kind) (hne : kind ≠ .endOfInput)
    (hskips : cursor.lexer.skips = false)
    (h : (do advance; return first (← Grammar.steps) : Parse Selector) cursor =
      (.error error, after)) : Completable Path cursor error := by
  rcases bind_eq_error h with ⟨mid, hadvance⟩ | ⟨_, mid, hadvance, h⟩
  · exact StopsBehind.completable ⟨_, _, hpath .nil, halts_advance hkind hne hskips hadvance⟩
  · have hmoves := Moves.advance hkind hne hskips hadvance
    rcases bind_eq_error h with ⟨last, hsteps⟩ | ⟨_, _, -, hpure⟩
    · exact (steps (hmoves.skips_eq.trans hskips) hsteps).of_moves hmoves
        fun h => ⟨_, hpath h.1⟩
    · cases hpure

/-- A selector that is made of steps alone. -/
theorem stepsAlone (hskips : cursor.lexer.skips = false)
    (h : (do return (⟨← Grammar.steps⟩ : Selector) : Parse Selector) cursor =
      (.error error, after)) : Completable Path cursor error := by
  rcases bind_eq_error h with ⟨mid, hsteps⟩ | ⟨_, _, -, hpure⟩
  · exact (steps hskips hsteps).imp fun h => ⟨_, h.2⟩
  · cases hpure

/-- A selector that begins with a name. -/
theorem named {name : String} (hkind : cursor.token.kind = .identifier name)
    (hskips : cursor.lexer.skips = false) (h : named name cursor = (.error error, after)) :
    Completable Path cursor error := by
  rw [Grammar.named] at h
  cases hliteral : literal? name with
  | some value =>
    rw [hliteral] at h
    exact constant (Sound.literal_of_literal? hliteral) hkind (by simp) hskips h
  | none =>
    rw [hliteral] at h
    exact thenSteps (fun segments => ⟨.field name :: segments⟩)
      (.named (Sound.ne_of_literal?_eq_none hliteral)) hkind (by simp) hskips h

/-- A selector, without the white space after it. -/
theorem bareSelector : Viable false bareSelector Path := by
  intro cursor error after hskips h
  rw [Grammar.bareSelector] at h
  obtain ⟨found, hkind, h⟩ := kind_bind_eq h
  -- where no selector begins, the root may stand
  have hroot {fault : GrammarFault}
      (h : (fail fault : Parse Selector) cursor = (.error error, after)) :
      Completable Path cursor error := ⟨[], [.root], _, .root .nil, .root [], .fail h⟩
  cases found with
  | root => exact thenSteps (fun segments => ⟨segments⟩) .root hkind (by simp) hskips h
  | dot => exact stepsAlone hskips h
  | dotDot => exact stepsAlone hskips h
  | bracketOpen => exact stepsAlone hskips h
  | identifier name => exact named hkind hskips h
  | string value => exact constant (.string value) hkind (by simp) hskips h
  | integer value => exact constant (.integer value) hkind (by simp) hskips h
  | unsigned value => exact constant (.unsigned value) hkind (by simp) hskips h
  | float value =>
    cases value with
    | some value => exact constant (.float value) hkind (by simp) hskips h
    | none => exact hroot h
  | _ => exact hroot h

/-- The white space at hand, if there is any. -/
theorem skipSeparator (h : skipSeparator cursor = (.error error, after)) :
    StopsBehind (fun ks (_ : Unit) => Blank ks) cursor error := by
  rw [Grammar.skipSeparator] at h
  obtain ⟨found, hkind, h⟩ := kind_bind_eq h
  split at h
  · obtain ⟨b, hb, -, hhalts⟩ := Halts.exists_advance hkind (by simp) h
    exact ⟨_, (), blank_cons hb, hhalts⟩
  · cases h

/-- A selector and the white space after it. -/
theorem selector : Viable true selector (Spaced Path) := by
  intro cursor error after hskips h
  rw [Grammar.selector] at h
  rcases bind_eq_error h with ⟨mid, hbare⟩ | ⟨found, mid, hbare, h⟩
  · obtain ⟨inner, hbare, houtside⟩ := Halts.withPolicy hbare
    obtain ⟨ks, ms, selector, hpath, hcompletes, hhalts⟩ := bareSelector rfl hbare
    refine ⟨ks, ms, selector, ?_, hcompletes, houtside _ hhalts⟩
    have hspaced := Spaced.intro hpath blank_nil
    rwa [List.append_nil] at hspaced
  · obtain ⟨inner, hbare, -, houtside⟩ := Moves.withPolicy hbare
    obtain ⟨ks, hks, hmoves⟩ := Sound.bareSelector rfl hbare
    rcases bind_eq_error h with ⟨last, hskip⟩ | ⟨_, _, -, hpure⟩
    · obtain ⟨b, -, hb, hhalts⟩ := skipSeparator hskip
      exact StopsBehind.completable ⟨_, _, .intro hks hb, hhalts.of_moves (houtside ks hmoves)⟩
    · cases hpure

end Selectors

/-! ## Queries -/

/-- Something that begins with the root, which may be put behind any tokens. -/
theorem spaced_root : Spaced Path [.root] .identity := by
  have hspaced := Spaced.intro (Path.root .nil) blank_nil
  exact hspaced

section Queries

variable {cursor after : Cursor} {error : SyntaxError}

/-- A comma and the selector behind it. -/
theorem commaSelector (hskips : cursor.lexer.skips = true)
    (h : commaSelector cursor = (.error error, after)) :
    Completable Sound.Further cursor error := by
  rw [Grammar.commaSelector] at h
  obtain ⟨found, hkind, h⟩ := kind_bind_eq h
  unfold commaSelectorAt at h
  split at h
  · rcases bind_eq_error h with ⟨mid, hadvance⟩ | ⟨_, mid, hadvance, h⟩
    · obtain ⟨b, hb, -, hhalts⟩ := Halts.exists_advance hkind (by simp) hadvance
      exact ⟨_, [.root], .identity, ⟨b, _, rfl, hb, spaced_root⟩, .root _, hhalts⟩
    · obtain ⟨b, hb, hmoves⟩ := Moves.advance_skipping hkind (by simp) hadvance
      rcases bind_eq_error h with ⟨last, hsecond⟩ | ⟨_, _, -, hpure⟩
      · exact (selector (hmoves.skips_eq.trans hskips) hsecond).of_moves hmoves
          fun h => ⟨_, b, _, rfl, hb, h⟩
      · cases hpure
  · cases h

/-- Further selectors, each behind a comma. -/
theorem manySelectors (hskips : cursor.lexer.skips = true)
    (h : many Grammar.commaSelector consuming_commaSelector cursor = (.error error, after)) :
    Completable Sound.Continues cursor error := by
  -- along the repetition: a comma or the selector behind it fails, or what is behind them does
  fun_induction many Grammar.commaSelector consuming_commaSelector cursor generalizing after with
  | case1 cursor error' mid hcomma =>
    cases h
    refine (commaSelector hskips hcomma).imp fun {_ second} h => ⟨[second], ?_⟩
    have hone := h.continues Sound.continues_nil
    rwa [List.append_nil] at hone
  | case2 => cases h
  | case3 => cases h
  | case4 cursor second mid hcomma _ error' last hothers ih =>
    cases h
    obtain ⟨ks, hks, hmoves⟩ := Sound.commaSelector hskips hcomma
    exact (ih (hmoves.skips_eq.trans hskips) hothers).of_moves hmoves
      fun h => ⟨_, Sound.Further.continues hks h⟩

/-- Selectors separated by commas. -/
theorem selectors : Viable true selectors PathList := by
  intro cursor error after hskips h
  rw [Grammar.selectors] at h
  rcases bind_eq_error h with ⟨mid, hfirst⟩ | ⟨first, mid, hfirst, h⟩
  · exact (selector hskips hfirst).imp fun h => ⟨_, .single h⟩
  · obtain ⟨ks, hks, hmoves⟩ := Sound.selector hskips hfirst
    rcases bind_eq_error h with ⟨last, hmany⟩ | ⟨_, _, -, hpure⟩
    · exact (manySelectors (hmoves.skips_eq.trans hskips) hmany).of_moves hmoves
        fun h => ⟨_, h hks⟩
    · cases hpure

/-- A selector alone is a filter. -/
theorem exists_predicate {ks : List Token.Kind} {selector : Selector}
    (h : Spaced Path ks selector) :
    ∃ filter, Predicate ks filter := by
  by_cases hid : selector = .identity
  · exact ⟨_, .always h hid⟩
  · exact ⟨_, .exists h hid⟩

/-- A filter. -/
theorem filter : Viable true filter Predicate := by
  intro cursor error after hskips h
  rw [Grammar.filter] at h
  rcases bind_eq_error h with ⟨mid, hlhs⟩ | ⟨lhs, mid, hlhs, h⟩
  · exact (selector hskips hlhs).imp exists_predicate
  obtain ⟨ks, hks, hmoves⟩ := Sound.selector hskips hlhs
  obtain ⟨found, hkind, h⟩ := kind_bind_eq h
  cases hop : operator? found with
  | none =>
    rw [hop] at h
    cases h
  | some op =>
    rw [hop] at h
    have hinfix := Sound.infix_of_operator? hop
    have hne : found ≠ .endOfInput := by
      rintro rfl
      cases hop
    rcases bind_eq_error h with ⟨passed, hadvance⟩ | ⟨_, passed, hadvance, h⟩
    · -- behind an operator, the root is a right side
      obtain ⟨b, hb, -, hhalts⟩ := Halts.exists_advance hkind hne hadvance
      refine ⟨_, [.root], .compare lhs op .identity, ?_, .root _, hhalts.of_moves hmoves⟩
      rw [← List.append_assoc]
      exact .compare hks hinfix hb spaced_root
    · obtain ⟨b, hb, hmoves'⟩ := Moves.advance_skipping hkind hne hadvance
      have hskips' := (hmoves.trans hmoves').skips_eq.trans hskips
      rcases bind_eq_error h with ⟨last, hrhs⟩ | ⟨_, _, -, hpure⟩
      · refine (selector hskips' hrhs).of_moves (hmoves.trans hmoves')
          fun {_ rhs} h => ⟨.compare lhs op rhs, ?_⟩
        rw [← List.append_assoc]
        exact .compare hks hinfix hb h
      · cases hpure

/-- A clause with its keyword, whose content may be the root alone. -/
theorem clause {α : Type} {keyword : String} {content : Parse α} {default root : α}
    {derivation : List Token.Kind → α → Prop} (hcontent : Viable true content derivation)
    (hroot : derivation [.root] root) :
    Viable true (clause keyword content default) (Clause keyword derivation default) := by
  intro cursor error after hskips h
  rw [Grammar.clause] at h
  obtain ⟨found, hkind, h⟩ := kind_bind_eq h
  by_cases hword : found.isKeyword keyword = true
  · rw [if_pos hword] at h
    -- only an identifier can be a keyword
    cases found with
    | identifier word =>
      rcases bind_eq_error h with ⟨mid, hadvance⟩ | ⟨_, mid, hadvance, h⟩
      · obtain ⟨b, hb, -, hhalts⟩ := Halts.exists_advance hkind (by simp) hadvance
        exact ⟨_, [.root], _, .present hword hb hroot, .root _, hhalts⟩
      · obtain ⟨b, hb, hmoves⟩ := Moves.advance_skipping hkind (by simp) hadvance
        exact (hcontent (hmoves.skips_eq.trans hskips) h).of_moves hmoves
          fun h => ⟨_, .present hword hb h⟩
    | _ => cases hword
  · rw [if_neg hword] at h
    cases h

/-- What follows the first keyword of a query. -/
theorem clauses : Viable true clauses Clauses := by
  intro cursor error after hskips h
  rw [Grammar.clauses] at h
  -- the clauses behind the one that fails may be absent
  rcases bind_eq_error h with ⟨mid, hselect⟩ | ⟨select, mid, hselect, h⟩
  · refine (selectors hskips hselect).imp fun {_ select} h => ⟨⟨select, .identity, .always⟩, ?_⟩
    have hclauses := Clauses.intro h .absent .absent
    rwa [List.append_nil, List.append_nil] at hclauses
  obtain ⟨ks, hks, hmoves⟩ := Sound.selectors hskips hselect
  have hskips' := hmoves.skips_eq.trans hskips
  rcases bind_eq_error h with ⟨mid', hsource⟩ | ⟨source, mid', hsource, h⟩
  · refine (clause selector spaced_root hskips' hsource).of_moves hmoves
      fun {_ source} h => ⟨⟨select, source, .always⟩, ?_⟩
    have hclauses := Clauses.intro hks h .absent
    rwa [List.append_nil] at hclauses
  obtain ⟨ls, hls, hmoves'⟩ := Sound.clause Sound.selector hskips' hsource
  have hskips'' := hmoves'.skips_eq.trans hskips'
  rcases bind_eq_error h with ⟨last, hfilter⟩ | ⟨_, _, -, hpure⟩
  · exact (clause filter (.always spaced_root rfl) hskips'' hfilter).of_moves
      (hmoves.trans hmoves') fun h => ⟨_, .intro hks hls h⟩
  · cases hpure

/-- A query. -/
theorem query : Viable true query Statement := by
  have hroot := Clauses.intro (.single spaced_root) .absent .absent
  exact clause clauses hroot

end Queries

end Viable

end Grammar

end DocQuery
