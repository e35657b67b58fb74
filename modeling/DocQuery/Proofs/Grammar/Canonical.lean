import DocQuery.Proofs.Grammar.Parsed

/-!
# Canonical selectors, filters and queries

Not every selector, filter and query can be the result of a parse. A literal stands alone and has no
minus sign, a position counts from the front, and a descent leads on to a field, a position or a
slice. What satisfies these conditions is called canonical, and a parse yields nothing else.

* `Selector.canonical_of_parse`, `Filter.canonical_of_parse`, `Query.canonical_of_parse`: what is
  parsed is canonical.
-/

namespace DocQuery

/-- The constants that have a text of their own: `null`, truth values, strings, and numbers without
a minus sign. -/
def Json.IsLiteral : Json → Prop
  | .null | .bool _ | .string _ => True
  | .number (.int value _) => 0 ≤ value
  | .number (.float value) => value.negative = false
  | _ => False

/-- The segments that a descent may lead on to, with positions that count from the front. -/
def Segment.IsStep : Segment → Prop
  | .field _ => True
  | .index position => 0 ≤ position.toInt
  | .slice first last => (∀ bound ∈ first, 0 ≤ bound.toInt) ∧ ∀ bound ∈ last, 0 ≤ bound.toInt
  | _ => False

/-- Segments among which every descent is followed by a step. -/
inductive Segment.IsChain : List Segment → Prop
  | nil : IsChain []
  | step {segment : Segment} {rest : List Segment} (h : segment.IsStep) (hrest : IsChain rest) :
      IsChain (segment :: rest)
  | descent {segment : Segment} {rest : List Segment} (h : segment.IsStep)
      (hrest : IsChain rest) : IsChain (.descent :: segment :: rest)

/-- A chain of steps and descents, which may be empty, or a single literal. -/
inductive Selector.Canonical : Selector → Prop
  | chain {segments : List Segment} (h : Segment.IsChain segments) : Canonical ⟨segments⟩
  | literal {value : Json} (h : value.IsLiteral) : Canonical (.single (.constant value))

/-- A filter of canonical selectors, which does not ask for the identity to match something. -/
inductive Filter.Canonical : Filter → Prop
  | always : Canonical .always
  | exists {selector : Selector} (h : selector.Canonical) (hid : selector ≠ .identity) :
      Canonical (.exists selector)
  | compare {lhs rhs : Selector} (op : Operator) (hlhs : lhs.Canonical) (hrhs : rhs.Canonical) :
      Canonical (.compare lhs op rhs)

/-- A query that selects something, by canonical selectors and a canonical filter. -/
structure Query.Canonical (query : Query) : Prop where
  /-- At least one selector is selected. -/
  ne_nil : query.select ≠ []
  /-- What is selected is canonical. -/
  select : ∀ selector ∈ query.select, selector.Canonical
  /-- The source is canonical. -/
  source : query.source.Canonical
  /-- The filter is canonical. -/
  filter : query.filter.Canonical

/-- No step is a descent. -/
theorem Segment.IsStep.isDescent_eq_false {segment : Segment} (h : segment.IsStep) :
    segment.isDescent = false := by
  cases segment with
  | descent => exact h.elim
  | _ => rfl

/-! ## Numbers that are recognised -/

namespace Binary64

/-- A number that is read with a sign has that sign. -/
theorem negative_of_ofDecimal? {negative : Bool} {d : Decimal} {x : Binary64}
    (h : ofDecimal? negative d = some x) : x.negative = negative := by
  -- the number is zero, too large, too small or rounded, always with the same sign
  rw [ofDecimal?] at h
  split at h
  · cases h
    rfl
  split at h
  · cases h
  split at h
  · cases h
    rfl
  · rw [ofRatio?, ofRank?] at h
    split at h <;> cases h
    rfl

end Binary64

namespace Lexeme.IsRecognised

/-- An integer that is recognised is not negative. -/
theorem toInt_nonneg {value : Int64} (h : IsRecognised (.integer value)) : 0 ≤ value.toInt := by
  obtain ⟨n, hlt, rfl⟩ : IsNumeral (.integer value) := by simpa [IsMark] using h.cases
  rw [Int64.toInt_ofNat_of_lt (by simpa using hlt)]
  exact Int.natCast_nonneg n

/-- A fraction that is recognised is not negative. -/
theorem negative_eq_false {value : Binary64} (h : IsRecognised (.float (some value))) :
    value.negative = false := by
  obtain ⟨d, hd⟩ : IsNumeral (.float (some value)) := by simpa [IsMark] using h.cases
  exact Binary64.negative_of_ofDecimal? hd.symm

end Lexeme.IsRecognised

/-! ## Derivations have canonical results -/

namespace Grammar.Derivation

/-- A bound of a slice counts from the front. -/
theorem Bound.toInt_nonneg {ks : List Token.Kind} {bound : Option Int64} (h : Bound ks bound)
    (hks : Recognised ks) : ∀ value ∈ bound, 0 ≤ value.toInt := by
  cases h with
  | absent => rintro _ ⟨⟩
  | present value =>
    rintro _ ⟨⟩
    exact (hks _ (by simp)).toInt_nonneg

/-- A bracket is a step. -/
theorem Bracket.isStep {ks : List Token.Kind} {segment : Segment} (h : Bracket ks segment)
    (hks : Recognised ks) : segment.IsStep := by
  obtain ⟨-, ⟨hcontent, -⟩⟩ := h
  simp only [recognised_append] at hks
  have hinside := hks.1.2.1
  cases hcontent with
  | name name => trivial
  | position value => exact (hinside _ (by simp)).toInt_nonneg
  | slice hfirst _ hlast =>
    obtain ⟨hfirst, -⟩ := hfirst
    simp only [recognised_append] at hinside
    exact ⟨hfirst.toInt_nonneg hinside.1.1.1.1, hlast.toInt_nonneg hinside.2⟩
  | whole => exact ⟨by simp, by simp⟩

/-- The segments of a step before a chain are a chain. -/
theorem Step.isChain_append {ks : List Token.Kind} {segments others : List Segment}
    (h : Step ks segments) (hks : Recognised ks) (hothers : Segment.IsChain others) :
    Segment.IsChain (segments ++ others) := by
  cases h with
  | field name => exact .step trivial hothers
  | bracket h => exact .step (h.isStep hks) hothers
  | descentField name => exact .descent trivial hothers
  | descentBracket h =>
    have hbracket := (List.forall_mem_cons.1 hks).2
    exact .descent (h.isStep hbracket) hothers

/-- The segments of a chain are a chain. -/
theorem Chain.isChain {ks : List Token.Kind} {segments : List Segment} (h : Chain ks segments)
    (hks : Recognised ks) : Segment.IsChain segments := by
  induction h with
  | nil => exact .nil
  | cons hhead _ ih =>
    obtain ⟨hfirst, hothers⟩ := recognised_append.1 hks
    exact hhead.isChain_append hfirst (ih hothers)

/-- A literal is one of the constants that have a text of their own. -/
theorem Literal.isLiteral {ks : List Token.Kind} {value : Json} (h : Literal ks value)
    (hks : Recognised ks) : value.IsLiteral := by
  cases h with
  | integer value => exact (hks _ (by simp)).toInt_nonneg
  | unsigned value => exact Int.natCast_nonneg _
  | float value => exact (hks _ (by simp)).negative_eq_false
  | _ => trivial

/-- A path is canonical. -/
theorem Path.canonical {ks : List Token.Kind} {selector : Selector} (h : Path ks selector)
    (hks : Recognised ks) : selector.Canonical := by
  cases h with
  | root h => exact .chain (h.isChain (List.forall_mem_cons.1 hks).2)
  | named _ h => exact .chain (.step trivial (h.isChain (List.forall_mem_cons.1 hks).2))
  | steps hhead htail =>
    obtain ⟨hfirst, hothers⟩ := recognised_append.1 hks
    exact .chain (hhead.isChain_append hfirst (htail.isChain hothers))
  | literal h => exact .literal (h.isLiteral hks)

/-- A filter that is derived is canonical. -/
theorem Predicate.canonical {ks : List Token.Kind} {filter : Filter} (h : Predicate ks filter)
    (hks : Recognised ks) : filter.Canonical := by
  have hselectors := h.forall_of_path Path.canonical hks
  cases h with
  | always => exact .always
  | «exists» _ hid => exact .exists (hselectors _ (by simp [Filter.selectors])) hid
  | compare =>
    exact .compare _ (hselectors _ (by simp [Filter.selectors]))
      (hselectors _ (by simp [Filter.selectors]))

/-- A list of selectors that is derived is not empty. -/
theorem PathList.ne_nil {ks : List Token.Kind} {selectors : List Selector}
    (h : PathList ks selectors) : selectors ≠ [] := by
  cases h <;> simp

/-- A query that is derived is canonical. -/
theorem Statement.canonical {ks : List Token.Kind} {query : Query} (h : Statement ks query)
    (hks : Recognised ks) : query.Canonical := by
  have hselectors := Statement.forall_of_path Path.canonical (.chain .nil) h hks
  -- the source is one of the selectors, which leaves the list and the filter
  rw [Query.selectors, List.forall_mem_append, List.forall_mem_cons] at hselectors
  obtain ⟨hselect, hsource, -⟩ := hselectors
  cases h with
  | absent => exact ⟨List.cons_ne_nil _ _, hselect, hsource, .always⟩
  | present _ _ h =>
    obtain ⟨hlist, -, hfilter⟩ := h
    refine ⟨hlist.ne_nil, hselect, hsource, ?_⟩
    cases hfilter with
    | absent => exact .always
    | present _ _ h =>
      simp only [recognised_append] at hks
      exact h.canonical hks.2.2.2

end Grammar.Derivation

open Grammar.Derivation

/-- What the text of a selector is parsed to is canonical. -/
theorem Selector.canonical_of_parse {text : String} {selector : Selector}
    (h : Selector.parse text = .ok selector) : selector.Canonical := by
  obtain ⟨ks, ⟨hpath, -⟩, hks⟩ := ((Selector.parse_eq_ok_iff ..).1 h).exists_recognised
  exact hpath.canonical (recognised_append.1 hks).1

/-- What the text of a filter is parsed to is canonical. -/
theorem Filter.canonical_of_parse {text : String} {filter : Filter}
    (h : Filter.parse text = .ok filter) : filter.Canonical := by
  obtain ⟨ks, hfilter, hks⟩ := ((Filter.parse_eq_ok_iff ..).1 h).exists_recognised
  exact hfilter.canonical hks

/-- What the text of a query is parsed to is canonical. -/
theorem Query.canonical_of_parse {text : String} {query : Query}
    (h : Query.parse text = .ok query) : query.Canonical := by
  obtain ⟨ks, hquery, hks⟩ := ((Query.parse_eq_ok_iff ..).1 h).exists_recognised
  exact hquery.canonical hks

/-- A selector that is parsed is canonical, alone or inside what is parsed. -/
theorem Selector.Parsed.canonical {selector : Selector} (h : Selector.Parsed selector) :
    selector.Canonical :=
  h.of_path Path.canonical (.chain .nil)

end DocQuery
