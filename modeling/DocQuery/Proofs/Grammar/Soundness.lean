import DocQuery.Proofs.Grammar.Ahead

/-!
# What is parsed is derived

A parse that succeeds has passed a derivation of its result. Each parse has one statement of this
form, `Sound`, under the flag for white space that holds where the parse is called: white space is
significant between the parts of a selector and skipped everywhere else.

* `Sound.selector`, `Sound.selectors`, `Sound.filter`, `Sound.query`: the parts of the language.
* `written_of_parseAll`: a whole text that is parsed is a derivation of the result.
-/

namespace DocQuery

namespace Grammar

open Parse Grammar.Derivation

/-- Under the given flag, a parse that succeeds has passed a derivation of its result. -/
def Sound {α : Type} (skip : Bool) (parse : Parse α) (content : List Token.Kind → α → Prop) :
    Prop :=
  ∀ ⦃cursor after result⦄, cursor.lexer.skips = skip → parse cursor = (.ok result, after) →
    ∃ ks, content ks result ∧ Moves cursor ks after

namespace Sound

/-! ## Brackets -/

/-- Passing a token while white space is skipped passes the white space after it too. -/
theorem advance_spaced {α : Type} {content : List Token.Kind → α → Prop} {cursor after : Cursor}
    {kind : Token.Kind} {result : α} (hcontent : content [kind] result)
    (hkind : cursor.token.kind = kind) (hne : kind ≠ .endOfInput)
    (h : advance cursor = (.ok (), after)) :
    ∃ ks, Spaced content ks result ∧ Moves cursor ks after := by
  obtain ⟨b, hb, hmoves⟩ := Moves.advance_skipping hkind hne h
  exact ⟨_, .intro hcontent hb, hmoves⟩

/-- A bound and the white space after it. -/
theorem bound : Sound true bound (Spaced Bound) := by
  intro cursor after result hskips h
  rw [Grammar.bound] at h
  obtain ⟨found, hkind, h⟩ := kind_bind_eq h
  split at h
  · rename_i value
    obtain ⟨_, mid, hadvance, hpure⟩ := bind_eq_ok h
    obtain ⟨rfl, rfl⟩ := pure_eq_ok hpure
    exact advance_spaced (.present value) hkind (by simp) hadvance
  · obtain ⟨rfl, rfl⟩ := pure_eq_ok h
    exact ⟨_, .intro .absent blank_nil, .refl cursor⟩

/-- A position or a slice and the white space after it. -/
theorem positionOrSlice : Sound true positionOrSlice (Spaced Content) := by
  intro cursor after result hskips h
  rw [Grammar.positionOrSlice] at h
  obtain ⟨first, mid, hfirst, h⟩ := bind_eq_ok h
  obtain ⟨ks, hks, hmoves⟩ := bound hskips hfirst
  obtain ⟨found, hcolon, h⟩ := kind_bind_eq h
  split at h
  · obtain ⟨_, colon, hadvance, h⟩ := bind_eq_ok h
    obtain ⟨last, stop, hlast, hpure⟩ := bind_eq_ok h
    obtain ⟨rfl, rfl⟩ := pure_eq_ok hpure
    have hskips' : mid.lexer.skips = true := hmoves.skips_eq.trans hskips
    obtain ⟨b, hb, hmoves'⟩ := Moves.advance_skipping hcolon (by simp) hadvance
    obtain ⟨ls, hls, hmoves''⟩ := bound (hmoves'.skips_eq.trans hskips') hlast
    -- the white space after the last bound is the white space after the slice
    cases hls with
    | intro hls hb' =>
      refine ⟨_, .intro (.slice hks hb hls) hb', ?_⟩
      have := (hmoves.trans hmoves').trans hmoves''
      simpa only [List.append_assoc] using this
  · -- without a colon, the bound alone tells a position from the slice of everything
    cases hks with
    | intro hks hb =>
      cases hks with
      | absent =>
        obtain ⟨rfl, rfl⟩ := pure_eq_ok h
        exact ⟨_, .intro .whole hb, hmoves⟩
      | present value =>
        obtain ⟨rfl, rfl⟩ := pure_eq_ok h
        exact ⟨_, .intro (.position value) hb, hmoves⟩

/-- What stands in a bracket and the white space after it. -/
theorem bracketContent : Sound true bracketContent (Spaced Content) := by
  intro cursor after result hskips h
  rw [Grammar.bracketContent] at h
  obtain ⟨found, hkind, h⟩ := kind_bind_eq h
  -- the token at hand decides
  cases found with
  | string name =>
    obtain ⟨_, mid, hadvance, hpure⟩ := bind_eq_ok h
    obtain ⟨rfl, rfl⟩ := pure_eq_ok hpure
    exact advance_spaced (.name name) hkind (by simp) hadvance
  | integer value => exact positionOrSlice hskips h
  | colon => exact positionOrSlice hskips h
  | bracketClose => exact positionOrSlice hskips h
  | _ => cases h

/-- The inside of a bracket, up to the closing bracket, which is then at hand. -/
theorem bracketInside {cursor after : Cursor} {segment : Segment}
    (hkind : cursor.token.kind = .bracketOpen) (hskips : cursor.lexer.skips = true)
    (h : bracketInside cursor = (.ok segment, after)) :
    after.token.kind = .bracketClose ∧ ∃ b ks, Blank b ∧ Spaced Content ks segment ∧
      Moves cursor ([.bracketOpen] ++ b ++ ks) after := by
  rw [Grammar.bracketInside] at h
  obtain ⟨_, opened, hopen, h⟩ := bind_eq_ok h
  obtain ⟨content, mid, hcontent, h⟩ := bind_eq_ok h
  obtain ⟨found, hclosed, h⟩ := kind_bind_eq h
  obtain ⟨b, hb, hmoves⟩ := Moves.advance_skipping hkind (by simp) hopen
  obtain ⟨ks, hks, hmoves'⟩ := bracketContent (hmoves.skips_eq.trans hskips) hcontent
  split at h
  · obtain ⟨rfl, rfl⟩ := pure_eq_ok h
    exact ⟨hclosed, b, ks, hb, hks, hmoves.trans hmoves'⟩
  · cases h

/-- A bracket that begins at the token at hand. -/
theorem bracket {cursor after : Cursor} {segment : Segment}
    (hkind : cursor.token.kind = .bracketOpen) (hskips : cursor.lexer.skips = false)
    (h : bracket cursor = (.ok segment, after)) :
    ∃ ks, Bracket ks segment ∧ Moves cursor ks after := by
  rw [Grammar.bracket] at h
  obtain ⟨content, closing, hinside, h⟩ := bind_eq_ok h
  obtain ⟨_, last, hclose, hpure⟩ := bind_eq_ok h
  obtain ⟨rfl, rfl⟩ := pure_eq_ok hpure
  obtain ⟨mid, hinside, htoken, houtside⟩ := Moves.withPolicy hinside
  obtain ⟨hclosed, b, ks, hb, hks, hmoves⟩ := bracketInside (by exact hkind) rfl hinside
  -- the flag of the bracket ends before the closing bracket is passed
  have hto := houtside _ hmoves
  have hlast := Moves.advance (htoken ▸ hclosed) (by simp) (hto.skips_eq.trans hskips) hclose
  exact ⟨_, .intro hb hks, hto.trans hlast⟩

/-! ## Steps -/

/-- Nothing, or a derivation of the result that was found. -/
def Optional {α : Type} (content : List Token.Kind → α → Prop) (ks : List Token.Kind) :
    Option α → Prop
  | none => ks = []
  | some result => content ks result

/-- The name behind a dot. -/
theorem stepName {start cursor after : Cursor} {result : Option (List Segment)}
    (hmoves : Moves start [.dot] cursor) (hskips : cursor.lexer.skips = false)
    (h : stepName cursor = (.ok result, after)) :
    ∃ ks segments, result = some segments ∧ Step ks segments ∧ Moves start ks after := by
  rw [Grammar.stepName] at h
  obtain ⟨found, hname, h⟩ := kind_bind_eq h
  split at h
  · rename_i name
    obtain ⟨_, last, hadvance, hpure⟩ := bind_eq_ok h
    obtain ⟨rfl, rfl⟩ := pure_eq_ok hpure
    have hmoves' := Moves.advance hname (by simp) hskips hadvance
    exact ⟨_, _, rfl, .field name, hmoves.trans hmoves'⟩
  · cases h

/-- The name or the bracket behind two dots. -/
theorem stepBelow {start cursor after : Cursor} {result : Option (List Segment)}
    (hmoves : Moves start [.dotDot] cursor) (hskips : cursor.lexer.skips = false)
    (h : stepBelow cursor = (.ok result, after)) :
    ∃ ks segments, result = some segments ∧ Step ks segments ∧ Moves start ks after := by
  rw [Grammar.stepBelow] at h
  obtain ⟨found, hbelow, h⟩ := kind_bind_eq h
  split at h
  · rename_i name
    obtain ⟨_, last, hadvance, hpure⟩ := bind_eq_ok h
    obtain ⟨rfl, rfl⟩ := pure_eq_ok hpure
    have hmoves' := Moves.advance hbelow (by simp) hskips hadvance
    exact ⟨_, _, rfl, .descentField name, hmoves.trans hmoves'⟩
  · obtain ⟨segment, last, hbracket, hpure⟩ := bind_eq_ok h
    obtain ⟨rfl, rfl⟩ := pure_eq_ok hpure
    obtain ⟨ks, hks, hmoves'⟩ := bracket hbelow hskips hbracket
    exact ⟨_, _, rfl, .descentBracket hks, hmoves.trans hmoves'⟩
  · cases h

/-- A step is passed where one begins. Elsewhere nothing is. -/
theorem step_cases {cursor after : Cursor} {result : Option (List Segment)}
    (hskips : cursor.lexer.skips = false) (h : Grammar.step cursor = (.ok result, after)) :
    (∃ ks segments, result = some segments ∧ Step ks segments ∧ Moves cursor ks after) ∨
      result = none ∧ after = cursor ∧ ¬BeginsStep cursor.token.kind := by
  rw [Grammar.step] at h
  obtain ⟨found, hkind, h⟩ := kind_bind_eq h
  rw [hkind]
  unfold stepAt at h
  split at h
  · obtain ⟨_, mid, hdot, h⟩ := bind_eq_ok h
    have hmoves := Moves.advance hkind (by simp) hskips hdot
    exact .inl (stepName hmoves (hmoves.skips_eq.trans hskips) h)
  · obtain ⟨_, mid, hdots, h⟩ := bind_eq_ok h
    have hmoves := Moves.advance hkind (by simp) hskips hdots
    exact .inl (stepBelow hmoves (hmoves.skips_eq.trans hskips) h)
  · obtain ⟨segment, last, hbracket, hpure⟩ := bind_eq_ok h
    obtain ⟨rfl, rfl⟩ := pure_eq_ok hpure
    obtain ⟨ks, hks, hmoves⟩ := bracket hkind hskips hbracket
    exact .inl ⟨_, _, rfl, .bracket hks, hmoves⟩
  · -- none of the three tokens that begin a step is at hand
    rename_i hdot hdotDot hopen
    obtain ⟨rfl, rfl⟩ := pure_eq_ok h
    refine .inr ⟨rfl, rfl, fun hbegins => ?_⟩
    unfold BeginsStep at hbegins
    split at hbegins
    · exact hdot rfl
    · exact hdotDot rfl
    · exact hopen rfl
    · exact hbegins

/-- A step, if one begins at the token at hand. -/
theorem step : Sound false step (Optional Step) := by
  intro cursor after result hskips h
  rcases step_cases hskips h with ⟨ks, segments, rfl, hks, hmoves⟩ | ⟨rfl, rfl, -⟩
  · exact ⟨ks, hks, hmoves⟩
  · exact ⟨[], rfl, .refl after⟩

/-- Steps for as long as one follows. -/
theorem manySteps :
    Sound false (many Grammar.step consuming_step) fun ks results => Chain ks results.flatten := by
  intro cursor after results hskips h
  -- along the repetition: the parse fails, stops where no step begins, or goes on behind a step
  fun_induction many Grammar.step consuming_step cursor generalizing results after with
  | case1 => cases h
  | case2 cursor mid hstep =>
    cases h
    obtain ⟨_, rfl, hmoves⟩ := step hskips hstep
    exact ⟨[], .nil, hmoves⟩
  | case3 cursor segments mid hstep _ others last hothers ih =>
    cases h
    obtain ⟨ks, hks, hmoves⟩ := step hskips hstep
    obtain ⟨ls, hls, hmoves'⟩ := ih (hmoves.skips_eq.trans hskips) hothers
    exact ⟨_, .cons hks hls, hmoves.trans hmoves'⟩
  | case4 => cases h

/-- Steps for as long as one follows, put together. -/
theorem steps : Sound false steps Chain := by
  intro cursor after result hskips h
  rw [Grammar.steps] at h
  obtain ⟨results, last, hmany, hpure⟩ := bind_eq_ok h
  obtain ⟨rfl, rfl⟩ := pure_eq_ok hpure
  exact manySteps hskips hmany

/-! ## Selectors -/

/-- A selector that consists of a constant alone. -/
theorem constant {cursor after : Cursor} {kind : Token.Kind} {value : Json} {selector : Selector}
    (hliteral : Literal [kind] value) (hkind : cursor.token.kind = kind) (hne : kind ≠ .endOfInput)
    (hskips : cursor.lexer.skips = false) (h : constant value cursor = (.ok selector, after)) :
    ∃ ks, Path ks selector ∧ Moves cursor ks after := by
  rw [Grammar.constant] at h
  obtain ⟨_, last, hadvance, hpure⟩ := bind_eq_ok h
  obtain ⟨rfl, rfl⟩ := pure_eq_ok hpure
  exact ⟨_, .literal hliteral, Moves.advance hkind hne hskips hadvance⟩

/-- The names of the literals, each with its value. -/
theorem literal_of_literal? {name : String} {value : Json} (h : literal? name = some value) :
    Literal [.identifier name] value := by
  rw [literal?] at h
  split at h
  · rename_i hname
    cases h
    rw [hname]
    exact .true
  split at h
  · rename_i hname
    cases h
    rw [hname]
    exact .false
  split at h
  · rename_i hname
    cases h
    rw [hname]
    exact .null
  · cases h

/-- A name that is no literal. -/
theorem ne_of_literal?_eq_none {name : String} (h : literal? name = none) :
    name ≠ "true" ∧ name ≠ "false" ∧ name ≠ "null" := by
  refine ⟨?_, ?_, ?_⟩ <;> rintro rfl <;> cases h

/-- A token and the steps behind it, if it makes up a selector with any of them. -/
theorem thenSteps {cursor after : Cursor} {selector : Selector} (first : List Segment → Selector)
    {kind : Token.Kind}
    (hpath : ∀ {ks segments}, Chain ks segments → Path (kind :: ks) (first segments))
    (hkind : cursor.token.kind = kind) (hne : kind ≠ .endOfInput)
    (hskips : cursor.lexer.skips = false)
    (h : (do advance; return first (← Grammar.steps) : Parse Selector) cursor =
      (.ok selector, after)) : ∃ ks, Path ks selector ∧ Moves cursor ks after := by
  obtain ⟨_, mid, hadvance, h⟩ := bind_eq_ok h
  obtain ⟨segments, last, hsteps, hpure⟩ := bind_eq_ok h
  obtain ⟨rfl, rfl⟩ := pure_eq_ok hpure
  have hmoves := Moves.advance hkind hne hskips hadvance
  obtain ⟨ks, hks, hmoves'⟩ := steps (hmoves.skips_eq.trans hskips) hsteps
  exact ⟨_, hpath hks, hmoves.trans hmoves'⟩

/-- A selector that begins with a name. -/
theorem named {cursor after : Cursor} {name : String} {selector : Selector}
    (hkind : cursor.token.kind = .identifier name) (hskips : cursor.lexer.skips = false)
    (h : named name cursor = (.ok selector, after)) :
    ∃ ks, Path ks selector ∧ Moves cursor ks after := by
  rw [Grammar.named] at h
  cases hliteral : literal? name with
  | some value =>
    rw [hliteral] at h
    exact constant (literal_of_literal? hliteral) hkind (by simp) hskips h
  | none =>
    rw [hliteral] at h
    exact thenSteps (fun segments => ⟨.field name :: segments⟩)
      (.named (ne_of_literal?_eq_none hliteral)) hkind (by simp) hskips h

/-- A selector that is made of steps alone, the first of which is at hand. -/
theorem stepsAlone {cursor after : Cursor} {selector : Selector}
    (hbegins : BeginsStep cursor.token.kind) (hskips : cursor.lexer.skips = false)
    (h : (do return (⟨← Grammar.steps⟩ : Selector) : Parse Selector) cursor =
      (.ok selector, after)) :
    ∃ ks, Path ks selector ∧ Moves cursor ks after := by
  obtain ⟨segments, last, hsteps, hpure⟩ := bind_eq_ok h
  obtain ⟨rfl, rfl⟩ := pure_eq_ok hpure
  rw [Grammar.steps] at hsteps
  obtain ⟨results, last, hmany, hpure⟩ := bind_eq_ok hsteps
  obtain ⟨rfl, rfl⟩ := pure_eq_ok hpure
  -- the repetition does not stop before the first step
  rw [many_eq_bind] at hmany
  obtain ⟨found, mid, hstep, hrest⟩ := bind_eq_ok hmany
  rcases step_cases hskips hstep with ⟨ks, first, rfl, hks, hmoves⟩ | ⟨-, -, hnot⟩
  · obtain ⟨others, _, hothers, hpure⟩ := bind_eq_ok hrest
    obtain ⟨rfl, rfl⟩ := pure_eq_ok hpure
    obtain ⟨ls, hls, hmoves'⟩ := manySteps (hmoves.skips_eq.trans hskips) hothers
    exact ⟨_, .steps hks hls, hmoves.trans hmoves'⟩
  · exact absurd hbegins hnot

/-- A selector, without the white space after it. -/
theorem bareSelector : Sound false bareSelector Path := by
  intro cursor after selector hskips h
  rw [Grammar.bareSelector] at h
  obtain ⟨found, hkind, h⟩ := kind_bind_eq h
  -- the token at hand decides
  cases found with
  | root => exact thenSteps (fun segments => ⟨segments⟩) .root hkind (by simp) hskips h
  | dot => exact stepsAlone (hkind ▸ trivial) hskips h
  | dotDot => exact stepsAlone (hkind ▸ trivial) hskips h
  | bracketOpen => exact stepsAlone (hkind ▸ trivial) hskips h
  | identifier name => exact named hkind hskips h
  | string value => exact constant (.string value) hkind (by simp) hskips h
  | integer value => exact constant (.integer value) hkind (by simp) hskips h
  | unsigned value => exact constant (.unsigned value) hkind (by simp) hskips h
  | float value =>
    cases value with
    | some value => exact constant (.float value) hkind (by simp) hskips h
    | none => cases h
  | _ => cases h

/-- The white space at hand, if there is any. -/
theorem skipSeparator : Sound true skipSeparator fun ks _ => Blank ks := by
  intro cursor after result hskips h
  rw [Grammar.skipSeparator] at h
  obtain ⟨found, hkind, h⟩ := kind_bind_eq h
  split at h
  · obtain ⟨b, hb, hmoves⟩ := Moves.advance_skipping hkind (by simp) h
    exact ⟨_, blank_cons hb, hmoves⟩
  · obtain ⟨rfl, rfl⟩ := pure_eq_ok h
    exact ⟨[], blank_nil, .refl cursor⟩

/-- A selector and the white space after it. -/
theorem selector : Sound true selector (Spaced Path) := by
  intro cursor after result hskips h
  rw [Grammar.selector] at h
  obtain ⟨found, mid, hbare, h⟩ := bind_eq_ok h
  obtain ⟨_, last, hskip, hpure⟩ := bind_eq_ok h
  obtain ⟨rfl, rfl⟩ := pure_eq_ok hpure
  -- white space is significant inside the selector and skipped again behind it
  obtain ⟨inner, hbare, -, houtside⟩ := Moves.withPolicy hbare
  obtain ⟨ks, hks, hmoves⟩ := bareSelector rfl hbare
  have hmoves' := houtside ks hmoves
  obtain ⟨b, hb, hmoves''⟩ := skipSeparator (hmoves'.skips_eq.trans hskips) hskip
  exact ⟨_, .intro hks hb, hmoves'.trans hmoves''⟩

/-! ## Queries -/

/-- A comma and the selector behind it. -/
def Further (ks : List Token.Kind) (selector : Selector) : Prop :=
  ∃ b ls, ks = [.comma] ++ b ++ ls ∧ Blank b ∧ Spaced Path ls selector

/-- What makes a list of a selector, when it stands behind that selector. -/
def Continues (ls : List Token.Kind) (others : List Selector) : Prop :=
  ∀ ⦃ks first⦄, Spaced Path ks first → PathList (ks ++ ls) (first :: others)

/-- A selector alone is a list. -/
theorem continues_nil : Continues [] [] := by
  intro ks first hfirst
  rw [List.append_nil]
  exact .single hfirst

/-- A comma and a selector in front of what makes a list of the selector. -/
theorem Further.continues {ks ls : List Token.Kind} {second : Selector} {others : List Selector}
    (h : Further ks second) (hothers : Continues ls others) :
    Continues (ks ++ ls) (second :: others) := by
  obtain ⟨b, ms, rfl, hb, hsecond⟩ := h
  intro ks first hfirst
  have hlist := PathList.cons hfirst hb (hothers hsecond)
  simpa only [List.append_assoc] using hlist

/-- A comma and the selector behind it, if a comma is at hand. -/
theorem commaSelector : Sound true commaSelector (Optional Further) := by
  intro cursor after result hskips h
  rw [Grammar.commaSelector] at h
  obtain ⟨found, hkind, h⟩ := kind_bind_eq h
  unfold commaSelectorAt at h
  split at h
  · obtain ⟨_, mid, hadvance, h⟩ := bind_eq_ok h
    obtain ⟨second, last, hsecond, hpure⟩ := bind_eq_ok h
    obtain ⟨rfl, rfl⟩ := pure_eq_ok hpure
    obtain ⟨b, hb, hmoves⟩ := Moves.advance_skipping hkind (by simp) hadvance
    obtain ⟨ls, hls, hmoves'⟩ := selector (hmoves.skips_eq.trans hskips) hsecond
    exact ⟨_, ⟨b, ls, rfl, hb, hls⟩, hmoves.trans hmoves'⟩
  · obtain ⟨rfl, rfl⟩ := pure_eq_ok h
    exact ⟨[], rfl, .refl cursor⟩

/-- Further selectors, each behind a comma. -/
theorem manySelectors :
    Sound true (many Grammar.commaSelector consuming_commaSelector) Continues := by
  intro cursor after others hskips h
  -- a list is derived from its end, so the selector in front is left open
  fun_induction many Grammar.commaSelector consuming_commaSelector cursor
    generalizing others after with
  | case1 => cases h
  | case2 cursor mid hcomma =>
    cases h
    obtain ⟨_, rfl, hmoves⟩ := commaSelector hskips hcomma
    exact ⟨[], continues_nil, hmoves⟩
  | case3 cursor second mid hcomma _ others last hothers ih =>
    cases h
    obtain ⟨ks, hks, hmoves⟩ := commaSelector hskips hcomma
    obtain ⟨ls, hls, hmoves'⟩ := ih (hmoves.skips_eq.trans hskips) hothers
    exact ⟨_, Further.continues hks hls, hmoves.trans hmoves'⟩
  | case4 => cases h

/-- Selectors separated by commas. -/
theorem selectors : Sound true selectors PathList := by
  intro cursor after result hskips h
  rw [Grammar.selectors] at h
  obtain ⟨first, mid, hfirst, h⟩ := bind_eq_ok h
  obtain ⟨others, last, hmany, hpure⟩ := bind_eq_ok h
  obtain ⟨rfl, rfl⟩ := pure_eq_ok hpure
  obtain ⟨ks, hks, hmoves⟩ := selector hskips hfirst
  obtain ⟨ls, hls, hmoves'⟩ := manySelectors (hmoves.skips_eq.trans hskips) hmany
  exact ⟨_, hls hks, hmoves.trans hmoves'⟩

/-- The operators that are found between two selectors. -/
theorem infix_of_operator? {kind : Token.Kind} {op : Operator} (h : operator? kind = some op) :
    Infix kind op := by
  unfold operator? at h
  split at h
  · cases h
    exact .symbol op
  · rw [Operator.ofWord?] at h
    split at h
    · rename_i hword
      cases h
      exact .within hword
    split at h
    · rename_i hword
      cases h
      exact .like hword
    · cases h
  · cases h

/-- A filter. -/
theorem filter : Sound true filter Predicate := by
  intro cursor after result hskips h
  rw [Grammar.filter] at h
  obtain ⟨lhs, mid, hlhs, h⟩ := bind_eq_ok h
  obtain ⟨ks, hks, hmoves⟩ := selector hskips hlhs
  obtain ⟨found, hkind, h⟩ := kind_bind_eq h
  cases hop : operator? found with
  | some op =>
    rw [hop] at h
    obtain ⟨_, passed, hadvance, h⟩ := bind_eq_ok h
    obtain ⟨rhs, last, hrhs, hpure⟩ := bind_eq_ok h
    obtain ⟨rfl, rfl⟩ := pure_eq_ok hpure
    have hinfix := infix_of_operator? hop
    have hskips' := hmoves.skips_eq.trans hskips
    have hne : found ≠ .endOfInput := by
      rintro rfl
      cases hop
    obtain ⟨b, hb, hopMoves⟩ := Moves.advance_skipping hkind hne hadvance
    obtain ⟨ls, hls, hrhsMoves⟩ := selector (hopMoves.skips_eq.trans hskips') hrhs
    refine ⟨_, .compare hks hinfix hb hls, ?_⟩
    have := (hmoves.trans hopMoves).trans hrhsMoves
    simpa only [List.append_assoc] using this
  | none =>
    -- the identity alone is the filter that is always true
    rw [hop] at h
    obtain ⟨hresult, rfl⟩ := pure_eq_ok h
    refine ⟨ks, ?_, hmoves⟩
    obtain ⟨segments⟩ := lhs
    cases segments with
    | nil =>
      rw [← hresult]
      exact .always hks rfl
    | cons segment segments =>
      rw [← hresult]
      refine .exists hks ?_
      intro hid
      cases hid

/-- A clause with its keyword, which may be absent. -/
theorem clause {α : Type} {keyword : String} {content : Parse α} {default : α}
    {derivation : List Token.Kind → α → Prop} (hcontent : Sound true content derivation) :
    Sound true (clause keyword content default) (Clause keyword derivation default) := by
  intro cursor after result hskips h
  rw [Grammar.clause] at h
  obtain ⟨found, hkind, h⟩ := kind_bind_eq h
  by_cases hword : found.isKeyword keyword = true
  · rw [if_pos hword] at h
    obtain ⟨_, mid, hadvance, h⟩ := bind_eq_ok h
    -- only an identifier can be a keyword
    cases found with
    | identifier word =>
      obtain ⟨b, hb, hmoves⟩ := Moves.advance_skipping hkind (by simp) hadvance
      obtain ⟨ks, hks, hmoves'⟩ := hcontent (hmoves.skips_eq.trans hskips) h
      exact ⟨_, .present hword hb hks, hmoves.trans hmoves'⟩
    | _ => cases hword
  · rw [if_neg hword] at h
    obtain ⟨rfl, rfl⟩ := pure_eq_ok h
    exact ⟨[], .absent, .refl cursor⟩

/-- What follows the first keyword of a query. -/
theorem clauses : Sound true clauses Clauses := by
  intro cursor after result hskips h
  rw [Grammar.clauses] at h
  obtain ⟨select, afterSelect, hselect, h⟩ := bind_eq_ok h
  obtain ⟨source, afterSource, hsource, h⟩ := bind_eq_ok h
  obtain ⟨filter', last, hfilter, hpure⟩ := bind_eq_ok h
  obtain ⟨rfl, rfl⟩ := pure_eq_ok hpure
  obtain ⟨ks, hks, hmoves⟩ := selectors hskips hselect
  have hskips' := hmoves.skips_eq.trans hskips
  obtain ⟨ls, hls, hmoves'⟩ := clause selector hskips' hsource
  obtain ⟨ms, hms, hmoves''⟩ := clause filter (hmoves'.skips_eq.trans hskips') hfilter
  exact ⟨_, .intro hks hls hms, (hmoves.trans hmoves').trans hmoves''⟩

/-- A query. -/
theorem query : Sound true query Statement := clause clauses

end Sound

/-! ## Whole texts -/

/-- A whole text that is parsed is white space and a derivation of the result. -/
theorem written_of_parseAll {α : Type} {content : Parse α}
    {derivation : List Token.Kind → α → Prop} (hsound : Sound true content derivation)
    {text : String} {result : α} (h : parseAll content text = .ok result) :
    Written derivation text result := by
  obtain ⟨cursor, after, hcursor, hcontent, hend⟩ := parseAll_eq_ok_iff.1 h
  obtain ⟨hpolicies, hahead⟩ := Cursor.ofString_eq_ok hcursor
  have hskips : cursor.lexer.skips = true := by rw [Lexer.skips, hpolicies]; rfl
  obtain ⟨ks, hks, hmoves⟩ := hsound hskips hcontent
  -- nothing is ahead at the end, so the derivation is all that was ahead at the start
  have hstart := (hahead _).1 (hmoves.ahead [] hend)
  rw [List.append_nil] at hstart
  obtain ⟨b, hb, hblank⟩ := exists_blank text.toList
  exact ⟨b, ks, hb, hks, hblank.append hstart⟩

end Grammar

end DocQuery
