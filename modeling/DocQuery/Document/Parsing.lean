import DocQuery.Document.Selection
import DocQuery.Grammar.Query

/-!
# Constants that are parsed

The constants of a text are names, numbers and strings, in which no key can be repeated. What is
parsed holds no other constants, as there is one place in the grammar where a constant is made.

* `Parse.yields_bind`, `Parse.yields_many`: what is known of the results of parses that are put
  together.
* `Query.constantsDistinct_of_parse`, `DocumentQuery.parse`: queries that are parsed.
-/

namespace DocQuery

namespace Parse

variable {α β : Type} {P : α → Prop} {Q : β → Prop}

/-- A parse whose results satisfy a predicate. -/
def Yields (P : α → Prop) (parse : Parse α) : Prop :=
  ∀ cursor result, (parse cursor).1 = .ok result → P result

/-- A result that satisfies the predicate. -/
theorem yields_pure {result : α} (h : P result) : Yields P (pure result) := by
  rintro cursor _ ⟨⟩
  exact h

/-- A failure has no result. -/
theorem yields_fail (fault : GrammarFault) : Yields P (fail fault) := by
  rintro cursor _ ⟨⟩

/-- Telling what is expected is a failure. -/
theorem yields_expected (what : Expectation) : Yields P (expected what) := by
  rintro cursor _ ⟨⟩

/-- What is known of the first result may be used for the second one. -/
theorem yields_bind {first : Parse α} {next : α → Parse β} (hfirst : Yields P first)
    (hnext : ∀ result, P result → Yields Q (next result)) : Yields Q (first >>= next) := by
  intro cursor result h
  simp only [bind] at h
  split at h
  · rename_i between after hbetween
    exact hnext between (hfirst cursor between (by rw [hbetween])) after result h
  · cases h

/-- Nothing need be known of the first result. -/
theorem yields_of_next {first : Parse α} {next : α → Parse β}
    (hnext : ∀ result, Yields Q (next result)) : Yields Q (first >>= next) :=
  yields_bind (P := fun _ => True) (fun _ _ _ => trivial) fun result _ => hnext result

/-- A flag for white space does not matter for what is known of the results. -/
theorem yields_withPolicy {inner : Parse α} (skip : Bool) (h : Yields P inner) :
    Yields P (withPolicy skip inner) :=
  fun _ result hresult => h _ result hresult

/-- What is known of what a parse finds is known of all that a repetition finds. -/
theorem yields_many {parse : Parse (Option α)} (hconsuming : Consuming parse)
    (h : Yields (fun found => ∀ result ∈ found, P result) parse) :
    Yields (fun results => ∀ result ∈ results, P result) (many parse hconsuming) := by
  intro cursor results hresults
  fun_induction many parse hconsuming cursor generalizing results with
  | case1 => cases hresults
  | case2 =>
    cases hresults
    exact List.forall_mem_nil _
  | case3 cursor result after hresult _ others last hothers ih =>
    cases hresults
    have hfirst := h cursor (some result) (by rw [hresult]) result rfl
    exact List.forall_mem_cons.2 ⟨hfirst, ih others (by rw [hothers])⟩
  | case4 => cases hresults

end Parse

namespace Grammar

open Parse

/-! ## Steps -/

/-- A position or a slice is no constant. -/
theorem yields_positionOrSlice : Yields Segment.ConstantDistinct positionOrSlice := by
  refine yields_of_next fun first => yields_of_next fun next => ?_
  split
  · exact yields_of_next fun _ => yields_of_next fun _ => yields_pure trivial
  · split <;> exact yields_pure trivial

/-- What stands in a bracket is no constant. -/
theorem yields_bracketContent : Yields Segment.ConstantDistinct bracketContent := by
  refine yields_of_next fun first => ?_
  cases first with
  | string name => exact yields_of_next fun _ => yields_pure trivial
  | integer _ => exact yields_positionOrSlice
  | colon => exact yields_positionOrSlice
  | bracketClose => exact yields_positionOrSlice
  | _ => exact yields_expected _

/-- A bracket is no constant. -/
theorem yields_bracket : Yields Segment.ConstantDistinct bracket := by
  have hinside : Yields Segment.ConstantDistinct bracketInside := by
    refine yields_of_next fun _ => yields_bind yields_bracketContent fun segment hsegment =>
      yields_of_next fun last => ?_
    split
    · exact yields_pure hsegment
    · exact yields_expected _
  exact yields_bind (yields_withPolicy true hinside) fun segment hsegment =>
    yields_of_next fun _ => yields_pure hsegment

/-- A step has no constants. -/
theorem yields_step : Yields (fun found : Option (List Segment) =>
    ∀ segments ∈ found, ∀ segment ∈ segments, segment.ConstantDistinct) step := by
  have hfound {segments : List Segment} (h : ∀ segment ∈ segments, segment.ConstantDistinct) :
      ∀ found ∈ some segments, ∀ segment ∈ found, segment.ConstantDistinct := by
    rintro _ ⟨⟩
    exact h
  have hbracket (before : List Segment) (h : ∀ segment ∈ before, segment.ConstantDistinct) :
      Yields (fun found : Option (List Segment) =>
        ∀ segments ∈ found, ∀ segment ∈ segments, segment.ConstantDistinct)
        (do return some (before ++ [← bracket])) :=
    yields_bind yields_bracket fun segment hsegment =>
      yields_pure (hfound (List.forall_mem_append.2 ⟨h, List.forall_mem_singleton.2 hsegment⟩))
  refine yields_of_next fun first => ?_
  unfold stepAt
  split
  · refine yields_of_next fun _ => yields_of_next fun name => ?_
    split
    · exact yields_of_next fun _ => yields_pure (hfound (by simp [Segment.ConstantDistinct]))
    · exact yields_expected _
  · refine yields_of_next fun _ => yields_of_next fun name => ?_
    split
    · exact yields_of_next fun _ => yields_pure (hfound (by simp [Segment.ConstantDistinct]))
    · exact hbracket [.descent] (List.forall_mem_singleton.2 trivial)
    · exact yields_expected _
  · exact hbracket [] (List.forall_mem_nil _)
  · exact yields_pure (by rintro _ ⟨⟩)

/-- Steps have no constants. -/
theorem yields_steps :
    Yields (fun segments => ∀ segment ∈ segments, segment.ConstantDistinct) steps := by
  refine yields_bind (yields_many consuming_step yields_step) fun found hfound => yields_pure ?_
  intro segment hsegment
  obtain ⟨segments, hsegments, hmem⟩ := List.mem_flatten.1 hsegment
  exact hfound segments hsegments segment hmem

/-! ## Selectors -/

/-- A selector that is a value which repeats no key. -/
theorem yields_constant {value : Json} (h : value.KeysDistinct) :
    Yields Selector.ConstantsDistinct (constant value) :=
  yields_of_next fun _ => yields_pure (List.forall_mem_singleton.2 h)

/-- A name is a literal without keys, or it is a field in front of steps. -/
theorem yields_named (name : String) : Yields Selector.ConstantsDistinct (named name) := by
  have hliteral {value : Json} (h : literal? name = some value) : value.KeysDistinct := by
    refine Json.keysDistinct_of_not_isContainer ?_
    unfold literal? at h
    split at h
    · cases h
      rfl
    · split at h
      · cases h
        rfl
      · split at h <;> cases h
        rfl
  unfold named
  split
  · rename_i hvalue
    exact yields_constant (hliteral hvalue)
  · exact yields_of_next fun _ => yields_bind yields_steps fun segments hsegments =>
      yields_pure (List.forall_mem_cons.2 ⟨trivial, hsegments⟩)

/-- The constants of a selector repeat no key. -/
theorem yields_selector : Yields Selector.ConstantsDistinct selector := by
  have hchain : Yields Selector.ConstantsDistinct (do return (⟨← steps⟩ : Selector)) :=
    yields_bind yields_steps fun segments hsegments => yields_pure hsegments
  have hscalar {value : Json} (h : value.isContainer = false) :
      Yields Selector.ConstantsDistinct (constant value) :=
    yields_constant (Json.keysDistinct_of_not_isContainer h)
  have hbare : Yields Selector.ConstantsDistinct bareSelector := by
    refine yields_of_next fun first => ?_
    -- a text or a number has no keys
    cases first with
    | root => exact yields_of_next fun _ => hchain
    | dot => exact hchain
    | dotDot => exact hchain
    | bracketOpen => exact hchain
    | identifier name => exact yields_named name
    | string value => exact hscalar rfl
    | integer value => exact hscalar rfl
    | unsigned value => exact hscalar rfl
    | float value =>
      cases value with
      | none => exact yields_fail _
      | some value => exact hscalar rfl
    | _ => exact yields_expected _
  exact yields_bind (yields_withPolicy false hbare) fun found hfound =>
    yields_of_next fun _ => yields_pure hfound

/-! ## Queries -/

/-- The constants of selectors repeat no key. -/
theorem yields_selectors :
    Yields (fun found => ∀ selector ∈ found, selector.ConstantsDistinct) selectors := by
  have hcomma : Yields (fun found => ∀ selector ∈ found, selector.ConstantsDistinct)
      commaSelector := by
    refine yields_of_next fun first => ?_
    unfold commaSelectorAt
    split
    · refine yields_of_next fun _ => yields_bind yields_selector fun found hfound => yields_pure ?_
      rintro _ ⟨⟩
      exact hfound
    · exact yields_pure (by rintro _ ⟨⟩)
  exact yields_bind yields_selector fun first hfirst =>
    yields_bind (yields_many consuming_commaSelector hcomma) fun others hothers =>
      yields_pure (List.forall_mem_cons.2 ⟨hfirst, hothers⟩)

/-- The constants of a filter repeat no key. -/
theorem yields_filter :
    Yields (fun found => ∀ selector ∈ found.selectors, selector.ConstantsDistinct) filter := by
  refine yields_bind yields_selector fun lhs hlhs => yields_of_next fun next => ?_
  split
  · refine yields_of_next fun _ => yields_bind yields_selector fun rhs hrhs => yields_pure ?_
    exact List.forall_mem_cons.2 ⟨hlhs, List.forall_mem_singleton.2 hrhs⟩
  · refine yields_pure ?_
    split
    · exact List.forall_mem_nil _
    · exact List.forall_mem_singleton.2 hlhs

/-- A clause, or the default for it. -/
theorem yields_clause {α : Type} {P : α → Prop} (keyword : String) {content : Parse α} {absent : α}
    (hcontent : Yields P content) (habsent : P absent) :
    Yields P (clause keyword content absent) := by
  refine yields_of_next fun first => ?_
  split
  · exact yields_of_next fun _ => hcontent
  · exact yields_pure habsent

/-- The constants of a query repeat no key. -/
theorem yields_query :
    Yields (fun found => ∀ selector ∈ found.selectors, selector.ConstantsDistinct) query := by
  have hidentity : Selector.identity.ConstantsDistinct := List.forall_mem_nil _
  have hclauses : Yields (fun found : Query =>
      ∀ selector ∈ found.selectors, selector.ConstantsDistinct) clauses := by
    refine yields_bind yields_selectors fun select hselect =>
      yields_bind (yields_clause "from" yields_selector hidentity) fun source hsource =>
        yields_bind (yields_clause "where" yields_filter (List.forall_mem_nil _))
          fun filter hfilter => yields_pure ?_
    exact List.forall_mem_append.2 ⟨hselect, List.forall_mem_cons.2 ⟨hsource, hfilter⟩⟩
  refine yields_clause "select" hclauses ?_
  exact List.forall_mem_cons.2 ⟨hidentity, List.forall_mem_singleton.2 hidentity⟩

/-- What is known of the results of a parse is known of the result of a whole text. -/
theorem of_parseAll {α : Type} {P : α → Prop} {content : Parse α} (hcontent : Yields P content)
    {text : String} {result : α} (h : parseAll content text = .ok result) : P result := by
  rw [parseAll] at h
  split at h
  · cases h
  · exact yields_bind hcontent (fun _ hfound => yields_of_next fun _ => yields_pure hfound) _ _ h

end Grammar

/-- No constant of a query that is parsed repeats a key. -/
theorem Query.constantsDistinct_of_parse {text : String} {query : Query}
    (h : Query.parse text = .ok query) : ∀ selector ∈ query.selectors, selector.ConstantsDistinct :=
  Grammar.of_parseAll Grammar.yields_query h

/-- The query of a text. -/
def DocumentQuery.parse (text : String) : Except SyntaxError DocumentQuery :=
  bundle DocumentQuery.mk (Query.parse text) fun _ h => Query.constantsDistinct_of_parse h

/-- All queries that are parsed can be asked of documents. -/
theorem DocumentQuery.map_toQuery_parse (text : String) :
    (DocumentQuery.parse text).map DocumentQuery.toQuery = Query.parse text :=
  map_bundle (fun _ _ => rfl) _

end DocQuery
