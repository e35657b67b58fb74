import DocQuery.Proofs.Grammar.Ahead

/-!
# What is derived is parsed

Where a derivation is ahead of a cursor, the parse succeeds with the result of the derivation and
leaves ahead what follows it. Each parse has one statement of this form, `Complete`. It names what
may follow the derivation: the parse reads one token ahead and must not take that token for a
continuation.

* `Complete.selector`, `Complete.selectors`, `Complete.filter`, `Complete.query`: the parts of the
  language.
* `parseAll_of_written`: a whole text that is a derivation is parsed.
-/

namespace DocQuery

namespace Grammar

open Parse Grammar.Derivation

/-- Under the given flag, a derivation that is seen ahead is parsed, if what follows it is as
given. -/
def Complete {α : Type} (skip : Bool) (parse : Parse α) (content : List Token.Kind → α → Prop)
    (follows : List Token.Kind → Prop) : Prop :=
  ∀ ⦃cursor ks later result⦄, cursor.lexer.skips = skip → content ks result → follows later →
    cursor.Ahead (seen skip (ks ++ later)) → Reaches parse cursor result (seen skip later)

/-- Cursors with the same flags skip white space alike. -/
theorem skips_of_policies_eq {cursor after : Cursor} {skip : Bool}
    (h : after.lexer.policies = cursor.lexer.policies) (hskips : cursor.lexer.skips = skip) :
    after.lexer.skips = skip := by
  rw [← hskips, Lexer.skips, Lexer.skips, h]

namespace Complete

/-! ## Brackets -/

/-- A bound and the white space after it. -/
theorem bound : Complete true bound (Spaced Bound)
    fun later => ∀ value, (seen true later).head? ≠ some (.integer value) := by
  intro cursor ks later result hskips h hfollows hahead
  cases h with
  | intro h hb =>
    rw [List.append_assoc] at hahead
    cases h with
    | absent =>
      -- what follows is at hand, and it is no integer
      rw [List.nil_append, seen_blank_append hb] at hahead
      refine Reaches.kind_bind hahead.kind_eq ?_
      split
      · rename_i value hvalue
        cases hhead : (seen true later).head? with
        | none => rw [hhead] at hvalue; cases hvalue
        | some kind =>
          rw [hhead] at hvalue
          exact (hfollows value (by rw [hhead]; exact congrArg some hvalue)).elim
      · exact Reaches.pure none hahead
    | present value =>
      rw [List.cons_append, List.nil_append, seen_cons_of_ne (by simp)] at hahead
      refine Reaches.kind_bind hahead.kind_eq ?_
      refine Reaches.bind (Reaches.advance hahead hskips) fun after _ hafter => ?_
      rw [seen_blank_append hb] at hafter
      exact Reaches.pure (some value) hafter

/-- Behind the content of a bracket stands the closing bracket. -/
def Closes (later : List Token.Kind) : Prop := (seen true later).head? = some .bracketClose

/-- A closing bracket is no bound. -/
theorem Closes.ne_integer {later : List Token.Kind} (h : Closes later) (value : Int64) :
    (seen true later).head? ≠ some (.integer value) := by
  rw [h]
  intro himpossible
  cases himpossible

/-- A slice whose two bounds stand around a colon. -/
theorem slice {cursor : Cursor} {ks b ls later : List Token.Kind} {first last : Option Int64}
    (hskips : cursor.lexer.skips = true) (hfirst : Spaced Bound ks first) (hb : Blank b)
    (hlast : Spaced Bound ls last) (hcloses : Closes later)
    (hahead : cursor.Ahead (seen true (ks ++ .colon :: (b ++ (ls ++ later))))) :
    Reaches positionOrSlice cursor (.slice first last) (seen true later) := by
  have hcolon : seen true (.colon :: (b ++ (ls ++ later))) = .colon :: (b ++ (ls ++ later)) :=
    seen_cons_of_ne (by simp) _
  have hne : ∀ value,
      (seen true (.colon :: (b ++ (ls ++ later)))).head? ≠ some (.integer value) := by
    intro value
    rw [hcolon]
    simp
  -- the first bound is read up to the colon, and the last one up to what closes the bracket
  refine Reaches.bind (bound hskips hfirst hne hahead) fun mid hmid hahead => ?_
  have hskips := skips_of_policies_eq hmid hskips
  rw [hcolon] at hahead
  refine Reaches.kind_bind hahead.kind_eq ?_
  refine Reaches.bind (Reaches.advance hahead hskips) fun after hafter hahead => ?_
  rw [seen_blank_append hb] at hahead
  have hskips := skips_of_policies_eq hafter hskips
  exact Reaches.bind (bound hskips hlast hcloses.ne_integer hahead) fun _ _ hahead =>
    Reaches.pure _ hahead

/-- A bound that no colon follows is a position, and no bound is the slice of everything. -/
theorem positionOrWhole {cursor : Cursor} {ks later : List Token.Kind} {first : Option Int64}
    {segment : Segment} (hskips : cursor.lexer.skips = true) (hfirst : Spaced Bound ks first)
    (hsegment : segment = match first with
      | some position => .index position
      | none => .slice none none)
    (hcloses : Closes later) (hahead : cursor.Ahead (seen true (ks ++ later))) :
    Reaches positionOrSlice cursor segment (seen true later) := by
  refine Reaches.bind (bound hskips hfirst hcloses.ne_integer hahead) fun mid _ hahead => ?_
  have hkind := hahead.kind_eq
  rw [hcloses] at hkind
  refine Reaches.kind_bind hkind ?_
  subst hsegment
  cases first <;> exact Reaches.pure _ hahead

/-- What stands in a bracket and the white space after it. -/
theorem bracketContent : Complete true bracketContent (Spaced Content) Closes := by
  intro cursor ks later result hskips h hcloses hahead
  cases h with
  | intro h hb =>
    rename_i ks b
    -- whatever begins with an integer, a colon or the closing bracket goes on in the same way
    have hgoes {kind : Token.Kind} {kinds : List Token.Kind}
        (hhead : seen true (ks ++ b ++ later) = kind :: kinds)
        (hkind : bracketContentAt kind = positionOrSlice)
        (hreaches : Reaches Grammar.positionOrSlice cursor result (seen true later)) :
        Reaches Grammar.bracketContent cursor result (seen true later) := by
      rw [hhead] at hahead
      refine Reaches.kind_bind hahead.kind_eq ?_
      rw [List.head?_cons, Option.getD_some, hkind]
      exact hreaches
    cases h with
    | name name =>
      rw [List.append_assoc, List.cons_append, List.nil_append, seen_cons_of_ne (by simp)] at hahead
      refine Reaches.kind_bind hahead.kind_eq ?_
      refine Reaches.bind (Reaches.advance hahead hskips) fun after _ hafter => ?_
      rw [seen_blank_append hb] at hafter
      exact Reaches.pure _ hafter
    | position value =>
      refine hgoes (seen_cons_of_ne (by simp) _) rfl ?_
      exact positionOrWhole hskips (.intro (.present value) hb) rfl hcloses hahead
    | whole =>
      rw [List.nil_append] at hahead hgoes
      obtain ⟨kinds, hkinds⟩ : ∃ kinds, seen true (b ++ later) = .bracketClose :: kinds := by
        rw [seen_blank_append hb]
        exact List.head?_eq_some_iff.1 hcloses
      exact hgoes hkinds rfl
        (positionOrWhole hskips (.intro .absent hb) rfl hcloses hahead)
    | slice hfirst hb' hlast =>
      rename_i ks' b' ls
      have hassoc : ks' ++ [.colon] ++ b' ++ ls ++ b ++ later =
          ks' ++ .colon :: (b' ++ ((ls ++ b) ++ later)) := by
        simp only [List.append_assoc, List.cons_append, List.nil_append]
      rw [hassoc] at hahead hgoes
      have hreaches := slice hskips hfirst hb' (.intro hlast hb) hcloses hahead
      -- the token at hand is the first bound or, where there is none, the colon
      cases hfirst with
      | intro hfirst hblank =>
        cases hfirst with
        | absent =>
          have hcolon := seen_blank_append hblank (.colon :: (b' ++ (ls ++ b ++ later)))
          rw [seen_cons_of_ne (by simp)] at hcolon
          exact hgoes hcolon rfl hreaches
        | present value => exact hgoes (seen_cons_of_ne (by simp) _) rfl hreaches

/-- A bracket. -/
theorem bracket : Complete false bracket Bracket fun _ => True := by
  intro cursor ks later result hskips h _ hahead
  cases h with
  | intro hb hcontent =>
    rename_i b ks
    have hassoc : [.bracketOpen] ++ b ++ ks ++ [.bracketClose] ++ later =
        .bracketOpen :: (b ++ (ks ++ (.bracketClose :: later))) := by
      simp only [List.append_assoc, List.cons_append, List.nil_append]
    rw [hassoc] at hahead
    have hclose : seen true (.bracketClose :: later) = .bracketClose :: later :=
      seen_cons_of_ne (by simp) _
    -- the closing bracket is at hand when the flag of the bracket is dropped
    have hinside : Reaches bracketInside { cursor with lexer := cursor.lexer.push true } result
        (.bracketClose :: later) := by
      have hpushed : (cursor.lexer.push true).skips = true := rfl
      refine Reaches.bind (Reaches.advance hahead hpushed) fun opened hopened hahead => ?_
      rw [seen_blank_append hb] at hahead
      have hskips := skips_of_policies_eq hopened hpushed
      have hcontent := bracketContent hskips hcontent (by rw [Closes, hclose]; rfl) hahead
      rw [hclose] at hcontent
      refine Reaches.bind hcontent fun mid _ hahead => ?_
      exact Reaches.kind_bind hahead.kind_eq (Reaches.pure _ hahead)
    refine Reaches.bind (Reaches.withPolicy hinside) fun mid hmid hahead => ?_
    have hskips := skips_of_policies_eq hmid hskips
    exact Reaches.bind (Reaches.advance hahead hskips) fun _ _ hahead => Reaches.pure _ hahead

/-! ## Steps -/

/-- A token that begins no step, or the end, stands in front. -/
def EndsChain (later : List Token.Kind) : Prop := ∀ kind ∈ later.head?, ¬BeginsStep kind

/-- A step that begins at the token at hand. -/
theorem step {cursor : Cursor} {ks later : List Token.Kind} {segments : List Segment}
    (hskips : cursor.lexer.skips = false) (h : Step ks segments)
    (hahead : cursor.Ahead (ks ++ later)) : Reaches step cursor (some segments) later := by
  -- the tokens of a step are at hand one after the other, as no white space is skipped among them
  cases h with
  | field name =>
    refine Reaches.kind_bind hahead.kind_eq ?_
    refine Reaches.bind (Reaches.advance hahead hskips) fun mid hmid hahead => ?_
    refine Reaches.kind_bind hahead.kind_eq ?_
    have hskips := skips_of_policies_eq hmid hskips
    exact Reaches.bind (Reaches.advance hahead hskips) fun _ _ hahead => Reaches.pure _ hahead
  | bracket h =>
    obtain ⟨ls, rfl⟩ := h.exists_cons
    refine Reaches.kind_bind hahead.kind_eq ?_
    exact Reaches.bind (bracket hskips h trivial hahead) fun _ _ hahead => Reaches.pure _ hahead
  | descentField name =>
    refine Reaches.kind_bind hahead.kind_eq ?_
    refine Reaches.bind (Reaches.advance hahead hskips) fun mid hmid hahead => ?_
    refine Reaches.kind_bind hahead.kind_eq ?_
    have hskips := skips_of_policies_eq hmid hskips
    exact Reaches.bind (Reaches.advance hahead hskips) fun _ _ hahead => Reaches.pure _ hahead
  | descentBracket h =>
    refine Reaches.kind_bind hahead.kind_eq ?_
    refine Reaches.bind (Reaches.advance hahead hskips) fun mid hmid hahead => ?_
    have hskips := skips_of_policies_eq hmid hskips
    obtain ⟨ls, rfl⟩ := h.exists_cons
    refine Reaches.kind_bind hahead.kind_eq ?_
    exact Reaches.bind (bracket hskips h trivial hahead) fun _ _ hahead => Reaches.pure _ hahead

/-- Where no step begins, none is found. -/
theorem step_none {cursor : Cursor} {later : List Token.Kind} (hends : EndsChain later)
    (hahead : cursor.Ahead later) : Reaches Grammar.step cursor none later := by
  refine Reaches.kind_bind hahead.kind_eq ?_
  have hnot : ¬BeginsStep (later.head?.getD .endOfInput) := by
    cases later with
    | nil => exact id
    | cons kind later => exact hends kind rfl
  -- each of the three tokens that begin a step is excluded
  unfold stepAt
  split
  · rename_i heq
    rw [heq] at hnot
    exact (hnot trivial).elim
  · rename_i heq
    rw [heq] at hnot
    exact (hnot trivial).elim
  · rename_i heq
    rw [heq] at hnot
    exact (hnot trivial).elim
  · exact Reaches.pure none hahead

/-- All steps up to a token that begins none, one result for each. -/
theorem manySteps {ks later : List Token.Kind} {segments : List Segment} (h : Chain ks segments)
    (hends : EndsChain later) :
    ∃ results, results.flatten = segments ∧ ∀ cursor : Cursor, cursor.lexer.skips = false →
      cursor.Ahead (ks ++ later) →
      Reaches (many Grammar.step consuming_step) cursor results later := by
  -- the cursor moves from step to step, so it is bound behind the results
  induction h with
  | nil =>
    exact ⟨[], rfl, fun cursor _ hahead => Reaches.many_nil (step_none hends hahead)⟩
  | @cons segments others ks ls hhead htail ih =>
    obtain ⟨results, rfl, hresults⟩ := ih
    refine ⟨segments :: results, rfl, fun cursor hskips hahead => ?_⟩
    rw [List.append_assoc] at hahead
    exact Reaches.many_cons (step hskips hhead hahead) fun after hafter hahead =>
      hresults after (skips_of_policies_eq hafter hskips) hahead

/-- Steps up to a token that begins none, put together. -/
theorem steps : Complete false steps Chain EndsChain := by
  intro cursor ks later result hskips h hends hahead
  obtain ⟨results, rfl, hresults⟩ := manySteps h hends
  exact Reaches.bind (hresults cursor hskips hahead) fun _ _ hahead => Reaches.pure _ hahead

/-! ## Selectors -/

/-- A constant that is at hand. -/
theorem constant {cursor : Cursor} {kind : Token.Kind} {later : List Token.Kind} (value : Json)
    (hskips : cursor.lexer.skips = false) (hahead : cursor.Ahead (kind :: later)) :
    Reaches (constant value) cursor (.single (.constant value)) later :=
  Reaches.bind (Reaches.advance hahead hskips) fun _ _ hahead => Reaches.pure _ hahead

/-- A name at hand that is no literal is a field. -/
theorem named {cursor : Cursor} {name : String} {ks later : List Token.Kind}
    {segments : List Segment} (hskips : cursor.lexer.skips = false)
    (hname : name ≠ "true" ∧ name ≠ "false" ∧ name ≠ "null") (h : Chain ks segments)
    (hends : EndsChain later) (hahead : cursor.Ahead (.identifier name :: (ks ++ later))) :
    Reaches (named name) cursor ⟨.field name :: segments⟩ later := by
  have hliteral : literal? name = none := by
    rw [literal?, if_neg hname.1, if_neg hname.2.1, if_neg hname.2.2]
  rw [Grammar.named, hliteral]
  refine Reaches.bind (Reaches.advance hahead hskips) fun mid hmid hahead => ?_
  have hskips := skips_of_policies_eq hmid hskips
  exact Reaches.bind (steps hskips h hends hahead) fun _ _ hahead => Reaches.pure _ hahead

/-- A selector, without the white space after it. -/
theorem bareSelector : Complete false bareSelector Path EndsChain := by
  intro cursor ks later result hskips h hends hahead
  have hchain {cursor : Cursor} {ks : List Token.Kind} {segments : List Segment}
      (hskips : cursor.lexer.skips = false) (h : Chain ks segments)
      (hahead : cursor.Ahead (ks ++ later)) :
      Reaches (do return (⟨← Grammar.steps⟩ : Selector)) cursor ⟨segments⟩ later :=
    Reaches.bind (steps hskips h hends hahead) fun _ _ hahead => Reaches.pure _ hahead
  cases h with
  | root h =>
    refine Reaches.kind_bind hahead.kind_eq ?_
    refine Reaches.bind (Reaches.advance hahead hskips) fun mid hmid hahead => ?_
    exact hchain (skips_of_policies_eq hmid hskips) h hahead
  | named hname h =>
    exact Reaches.kind_bind hahead.kind_eq (named hskips hname h hends hahead)
  | steps hhead htail =>
    have hreaches := hchain hskips (.cons hhead htail) hahead
    obtain ⟨kind, ls, rfl, hbegins⟩ := hhead.exists_cons
    refine Reaches.kind_bind hahead.kind_eq ?_
    -- each of the three tokens that begin a step leads to the same parse
    unfold BeginsStep at hbegins
    split at hbegins
    · exact hreaches
    · exact hreaches
    · exact hreaches
    · exact hbegins.elim
  | literal h =>
    cases h <;> exact Reaches.kind_bind hahead.kind_eq (constant _ hskips hahead)

/-- White space at hand is passed. -/
theorem skipSeparator {cursor : Cursor} {later : List Token.Kind}
    (hskips : cursor.lexer.skips = true) (hahead : cursor.Ahead later) :
    Reaches skipSeparator cursor () (seen true later) := by
  refine Reaches.kind_bind hahead.kind_eq ?_
  cases later with
  | nil => exact Reaches.pure () hahead
  | cons kind later =>
    rw [List.head?_cons, Option.getD_some]
    by_cases hkind : kind = .separator
    · subst hkind
      have hpassed := Reaches.advance hahead hskips
      exact hpassed
    · rw [seen_cons_of_ne hkind]
      split
      · contradiction
      · exact Reaches.pure () hahead

/-- A selector and the white space after it. -/
theorem selector : Complete true selector (Spaced Path) EndsChain := by
  intro cursor ks later result hskips h hends hahead
  cases h with
  | @intro _ ks b h hb =>
    have hbegins : seen true (ks ++ b ++ later) = ks ++ (b ++ later) := by
      obtain ⟨kind, ls, rfl, hkind⟩ := h.exists_cons
      rw [List.append_assoc, List.cons_append, seen_cons_of_ne hkind]
    rw [hbegins] at hahead
    -- white space ends a chain as well as what follows it does
    have hends' : EndsChain (b ++ later) := by
      cases b with
      | nil => exact hends
      | cons kind b =>
        obtain rfl := hb kind (by simp)
        intro kind hkind
        cases hkind
        exact id
    have hpushed : (cursor.lexer.push false).skips = false := rfl
    -- the white space is read under the flag outside, after the selector
    have hbare :
        Reaches Grammar.bareSelector { cursor with lexer := cursor.lexer.push false } result
          (b ++ later) := bareSelector hpushed h hends' hahead
    refine Reaches.bind (Reaches.withPolicy hbare) fun mid hmid hahead => ?_
    have hskip : Reaches Grammar.skipSeparator mid () (seen true (b ++ later)) :=
      skipSeparator (skips_of_policies_eq hmid hskips) hahead
    rw [seen_blank_append hb] at hskip
    exact Reaches.bind hskip fun _ _ hahead => Reaches.pure _ hahead

/-! ## Queries -/

/-- An identifier, or the end, stands in front. -/
def EndsList (later : List Token.Kind) : Prop :=
  ∀ kind ∈ later.head?, ∃ name, kind = .identifier name

/-- What ends a list ends a chain. -/
theorem EndsList.endsChain {later : List Token.Kind} (h : EndsList later) : EndsChain later := by
  intro kind hkind
  obtain ⟨name, rfl⟩ := h kind hkind
  exact id

/-- What ends a list is no white space. -/
theorem EndsList.seen_eq {later : List Token.Kind} (h : EndsList later) :
    seen true later = later := by
  cases later with
  | nil => rfl
  | cons kind later =>
    obtain ⟨name, rfl⟩ := h kind rfl
    exact seen_cons_of_ne (by simp) _

/-- Where no comma stands, no further selector is found. -/
theorem commaSelector_none {cursor : Cursor} {later : List Token.Kind} (hends : EndsList later)
    (hahead : cursor.Ahead later) : Reaches commaSelector cursor none later := by
  refine Reaches.kind_bind hahead.kind_eq ?_
  unfold commaSelectorAt
  split
  · rename_i hcomma
    cases later with
    | nil => cases hcomma
    | cons kind later =>
      obtain ⟨name, rfl⟩ := hends kind rfl
      cases hcomma
  · exact Reaches.pure none hahead

/-- A comma and the selector after it. -/
theorem commaSelector {cursor : Cursor} {b ks later : List Token.Kind} {result : Selector}
    (hskips : cursor.lexer.skips = true) (hb : Blank b) (h : Spaced Path ks result)
    (hends : EndsChain later) (hahead : cursor.Ahead (.comma :: (b ++ (ks ++ later)))) :
    Reaches commaSelector cursor (some result) (seen true later) := by
  refine Reaches.kind_bind hahead.kind_eq ?_
  refine Reaches.bind (Reaches.advance hahead hskips) fun mid hmid hahead => ?_
  rw [seen_blank_append hb] at hahead
  have hskips := skips_of_policies_eq hmid hskips
  exact Reaches.bind (selector hskips h hends hahead) fun _ _ hahead => Reaches.pure _ hahead

/-- In a list, the first selector is parsed by itself and the others each with the comma before
them. -/
theorem manySelectors {ks later : List Token.Kind} {selectors : List Selector}
    (h : PathList ks selectors) (hends : EndsList later) :
    ∃ first others ks₁ ks₂, selectors = first :: others ∧ ks = ks₁ ++ ks₂ ∧ Spaced Path ks₁ first ∧
      EndsChain (ks₂ ++ later) ∧ ∀ cursor : Cursor, cursor.lexer.skips = true →
        cursor.Ahead (seen true (ks₂ ++ later)) →
        Reaches (many Grammar.commaSelector consuming_commaSelector) cursor others later := by
  induction h with
  | @single first ks h =>
    refine ⟨first, [], ks, [], rfl, (List.append_nil ks).symm, h, hends.endsChain, ?_⟩
    intro cursor _ hahead
    rw [List.nil_append, hends.seen_eq] at hahead
    exact Reaches.many_nil (commaSelector_none hends hahead)
  | @cons first _ ks b _ hhead hb _ ih =>
    obtain ⟨second, others, ls₁, ls₂, rfl, rfl, hsecond, hends', hothers⟩ := ih
    refine ⟨first, second :: others, ks, .comma :: (b ++ (ls₁ ++ ls₂)), rfl, ?_, hhead, ?_, ?_⟩
    · simp only [List.append_assoc, List.cons_append, List.nil_append]
    · -- the comma ends the chain of the first selector
      intro kind hkind
      cases hkind
      exact id
    · intro cursor hskips hahead
      rw [List.cons_append, seen_cons_of_ne (by simp), List.append_assoc,
        List.append_assoc] at hahead
      exact Reaches.many_cons (commaSelector hskips hb hsecond hends' hahead)
        fun after hafter hahead => hothers after (skips_of_policies_eq hafter hskips) hahead

/-- Selectors separated by commas. -/
theorem selectors : Complete true selectors PathList EndsList := by
  intro cursor ks later result hskips h hends hahead
  obtain ⟨first, others, ks₁, ks₂, rfl, rfl, hfirst, hends', hothers⟩ := manySelectors h hends
  rw [List.append_assoc] at hahead
  refine Reaches.bind (selector hskips hfirst hends' hahead) fun mid hmid hahead => ?_
  have hmany := hothers mid (skips_of_policies_eq hmid hskips) hahead
  rw [hends.seen_eq]
  exact Reaches.bind hmany fun _ _ hahead => Reaches.pure _ hahead

/-- The operator of a token between two selectors is found. -/
theorem operator?_eq_some {kind : Token.Kind} {op : Operator} (h : Infix kind op) :
    operator? kind = some op := by
  cases h with
  | symbol => rfl
  | within hword => rw [operator?, Operator.ofWord?, if_pos hword]
  | @like word hword =>
    -- no word is both of the two in some case
    have hne : ¬isKeyword "in" word = true := fun hin =>
      absurd (eq_of_isKeyword hin hword) (by decide)
    rw [operator?, Operator.ofWord?, if_neg hne, if_pos hword]

/-- Neither white space nor the start of a step stands between two selectors. -/
theorem endsChain_of_operator {kind : Token.Kind} {op : Operator} (h : Infix kind op)
    (kinds : List Token.Kind) : EndsChain (kind :: kinds) := by
  intro found hfound
  cases hfound
  cases h <;> exact id

/-- A filter, which nothing follows. -/
theorem filter : Complete true filter Predicate (· = []) := by
  intro cursor ks later result hskips h hend hahead
  subst hend
  have hnil : EndsChain [] := by
    intro kind hkind
    cases hkind
  -- a selector alone is a filter, whichever of the two it is
  have halone {lhs : Selector} (h : Spaced Path ks lhs) :
      Reaches Grammar.filter cursor (if lhs.isIdentity then .always else .exists lhs)
        (seen true []) := by
    refine Reaches.bind (selector hskips h hnil hahead) fun mid _ hahead => ?_
    exact Reaches.kind_bind hahead.kind_eq (Reaches.pure _ hahead)
  cases h with
  | always h hid =>
    subst hid
    exact halone h
  | @«exists» lhs _ h hid =>
    have hidentity : lhs.isIdentity = false := by
      obtain ⟨segments⟩ := lhs
      cases segments with
      | nil => exact (hid rfl).elim
      | cons => rfl
    have hreaches := halone h
    rw [hidentity] at hreaches
    exact hreaches
  | @compare lhs rhs op ks b ls kind hlhs hop hb hrhs =>
    have hassoc : ks ++ [kind] ++ b ++ ls ++ [] = ks ++ kind :: (b ++ (ls ++ [])) := by
      simp only [List.append_assoc, List.cons_append, List.nil_append]
    rw [hassoc] at hahead
    have hkind : kind ≠ .separator := by
      rintro rfl
      cases hop
    -- no operator goes on with the chain of the left side, so it is at hand behind it
    refine Reaches.bind (selector hskips hlhs (endsChain_of_operator hop _) hahead)
      fun mid hmid hahead => ?_
    rw [seen_cons_of_ne hkind] at hahead
    refine Reaches.kind_bind hahead.kind_eq ?_
    rw [List.head?_cons, Option.getD_some, operator?_eq_some hop]
    have hskips := skips_of_policies_eq hmid hskips
    refine Reaches.bind (Reaches.advance hahead hskips) fun after hafter hahead => ?_
    rw [seen_blank_append hb] at hahead
    have hskips := skips_of_policies_eq hafter hskips
    exact Reaches.bind (selector hskips hrhs hnil hahead) fun _ _ hahead => Reaches.pure _ hahead

/-- A clause with its keyword, which may be absent if something else follows. -/
theorem clause {α : Type} {keyword : String} {content : Parse α} {default : α}
    {derivation : List Token.Kind → α → Prop} {follows : List Token.Kind → Prop}
    (hcontent : Complete true content derivation follows)
    (hother : ∀ later, follows later →
      ((seen true later).head?.getD .endOfInput).isKeyword keyword = false) :
    Complete true (clause keyword content default) (Clause keyword derivation default) follows := by
  intro cursor ks later result hskips h hfollows hahead
  cases h with
  | absent =>
    rw [List.nil_append] at hahead
    refine Reaches.kind_bind hahead.kind_eq ?_
    rw [if_neg (by rw [hother later hfollows]; simp)]
    exact Reaches.pure _ hahead
  | @present word _ b ks hword hb h =>
    have hassoc : [.identifier word] ++ b ++ ks ++ later =
        .identifier word :: (b ++ (ks ++ later)) := by
      simp only [List.append_assoc, List.cons_append, List.nil_append]
    rw [hassoc, seen_cons_of_ne (by simp)] at hahead
    refine Reaches.kind_bind hahead.kind_eq ?_
    rw [List.head?_cons, Option.getD_some, Token.Kind.isKeyword, if_pos hword]
    refine Reaches.bind (Reaches.advance hahead hskips) fun mid hmid hahead => ?_
    rw [seen_blank_append hb] at hahead
    exact hcontent (skips_of_policies_eq hmid hskips) h hfollows hahead

/-- The keyword of the last clause, or the end, stands in front. -/
def EndsSource (later : List Token.Kind) : Prop :=
  ∀ kind ∈ later.head?, ∃ word, kind = .identifier word ∧ isKeyword "where" word = true

/-- What ends a source ends a chain. -/
theorem EndsSource.endsChain {later : List Token.Kind} (h : EndsSource later) :
    EndsChain later := by
  intro kind hkind
  obtain ⟨word, rfl, -⟩ := h kind hkind
  exact id

/-- What ends a source is not the keyword of a source. -/
theorem EndsSource.isKeyword_eq {later : List Token.Kind} (h : EndsSource later) :
    ((seen true later).head?.getD .endOfInput).isKeyword "from" = false := by
  cases later with
  | nil => rfl
  | cons kind later =>
    obtain ⟨word, rfl, hword⟩ := h kind rfl
    rw [seen_cons_of_ne (by simp), List.head?_cons, Option.getD_some, Token.Kind.isKeyword,
      Bool.eq_false_iff]
    intro hfrom
    exact absurd (eq_of_isKeyword hfrom hword) (by decide)

/-- The last clause ends what stands before it. -/
theorem endsSource_of_clause {ks : List Token.Kind} {filter default : Filter}
    (h : Clause "where" Predicate default ks filter) : EndsSource (ks ++ []) := by
  intro kind hkind
  cases h with
  | absent => cases hkind
  | @present word _ b ks hword =>
    cases hkind
    exact ⟨word, rfl, hword⟩

/-- The clauses after the selectors end the list of them. -/
theorem endsList_of_clause {ks later : List Token.Kind} {source default : Selector}
    (h : Clause "from" (Spaced Path) default ks source) (hlater : EndsSource later) :
    EndsList (ks ++ later) := by
  intro kind hkind
  cases h with
  | absent =>
    obtain ⟨word, rfl, -⟩ := hlater kind hkind
    exact ⟨word, rfl⟩
  | @present word =>
    cases hkind
    exact ⟨word, rfl⟩

/-- What follows the first keyword of a query. -/
theorem clauses : Complete true clauses Clauses (· = []) := by
  intro cursor ks later result hskips h hend hahead
  subst hend
  cases h with
  | @intro select source filter' ks ls ms hselect hsource hfilter =>
    have hassoc : ks ++ ls ++ ms ++ [] = ks ++ (ls ++ (ms ++ [])) := by
      simp only [List.append_assoc]
    rw [hassoc] at hahead
    -- each clause ends what stands before it
    have hms := endsSource_of_clause hfilter
    have hls := endsList_of_clause hsource hms
    refine Reaches.bind (selectors hskips hselect hls hahead) fun mid hmid hahead => ?_
    have hskips := skips_of_policies_eq hmid hskips
    have hfrom : Complete true (Grammar.clause "from" Grammar.selector .identity)
        (Clause "from" (Spaced Path) .identity) EndsSource := by
      refine clause ?_ fun later hlater => hlater.isKeyword_eq
      intro cursor ks later result hskips h hlater hahead
      exact selector hskips h hlater.endsChain hahead
    refine Reaches.bind (hfrom hskips hsource hms hahead) fun after hafter hahead => ?_
    have hskips := skips_of_policies_eq hafter hskips
    have hwhere : Complete true (Grammar.clause "where" Grammar.filter .always)
        (Clause "where" Predicate .always) (· = []) :=
      clause filter fun later hlater => by rw [hlater]; rfl
    exact Reaches.bind (hwhere hskips hfilter rfl hahead) fun _ _ hahead => Reaches.pure _ hahead

/-- A query, which nothing follows. -/
theorem query : Complete true query Statement (· = []) :=
  clause clauses fun later hlater => by rw [hlater]; rfl

end Complete

/-! ## Whole texts -/

/-- A whole text that is white space and a derivation is parsed. -/
theorem parseAll_of_written {α : Type} {content : Parse α}
    {derivation : List Token.Kind → α → Prop} {follows : List Token.Kind → Prop}
    (hcomplete : Complete true content derivation follows) (hend : follows []) {text : String}
    {result : α} (h : Written derivation text result) : parseAll content text = .ok result := by
  obtain ⟨b, ks, hb, hks, hspells⟩ := h
  -- the first token is read while white space is skipped
  have hstart : Spells (text.toList.dropWhile isBlank) (seen true (ks ++ [])) [] := by
    have := hspells.dropBlanks
    rw [List.append_nil, ← seen_blank_append hb]
    exact this
  obtain ⟨cursor, hcursor⟩ := Cursor.exists_ofString hstart
  obtain ⟨hpolicies, hahead⟩ := Cursor.ofString_eq_ok hcursor
  have hskips : cursor.lexer.skips = true := by rw [Lexer.skips, hpolicies]; rfl
  obtain ⟨after, hparse, -, hnothing⟩ := hcomplete hskips hks hend ((hahead _).2 hstart)
  exact parseAll_eq_ok_iff.2 ⟨cursor, after, hcursor, hparse, hnothing⟩

end Grammar

end DocQuery
