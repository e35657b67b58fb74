import DocQuery.Proofs.Grammar.Acceptance

/-!
# Selectors that are parsed

Selectors come out of a text alone, in a list, or inside a filter or a query. A property of every
path of the grammar, and of the identity, is a property of each of them. The tokens of a path may be
taken to be such as the lexer recognises, so that no number in it carries a sign.

* `Selector.Parsed.of_path`: how to show something about every selector that is parsed.
-/

namespace DocQuery

/-- The selectors that the entry points of the language return, alone or inside what they return. -/
inductive Selector.Parsed : Selector → Prop
  | selector {text : String} {selector : Selector} (h : Selector.parse text = .ok selector) :
      Parsed selector
  | list {text : String} {selectors : List Selector} {selector : Selector}
      (h : Selector.parseList text = .ok selectors) (hmem : selector ∈ selectors) : Parsed selector
  | filter {text : String} {filter : Filter} {selector : Selector}
      (h : Filter.parse text = .ok filter) (hmem : selector ∈ filter.selectors) : Parsed selector
  | query {text : String} {query : Query} {selector : Selector}
      (h : Query.parse text = .ok query) (hmem : selector ∈ query.selectors) : Parsed selector

namespace Grammar.Derivation

/-- The kinds are such as the lexer recognises. -/
def Recognised (kinds : List Token.Kind) : Prop := ∀ kind ∈ kinds, Lexeme.IsRecognised kind

/-- The parts of a sequence are recognised if the whole is. -/
theorem recognised_append {ks ls : List Token.Kind} :
    Recognised (ks ++ ls) ↔ Recognised ks ∧ Recognised ls :=
  List.forall_mem_append

/-- The result of a text is derived from recognised kinds. -/
theorem Written.exists_recognised {α : Type} {content : List Token.Kind → α → Prop} {text : String}
    {result : α} (h : Written content text result) : ∃ ks, content ks result ∧ Recognised ks := by
  obtain ⟨b, ks, -, hcontent, hspells⟩ := h
  exact ⟨ks, hcontent, (recognised_append.1 hspells.forall_isRecognised).2⟩

section Selectors

variable {P : Selector → Prop} (hpath : ∀ {ks s}, Path ks s → Recognised ks → P s)
include hpath

/-- A selector with white space after it satisfies a predicate that every path satisfies. -/
theorem Spaced.of_path {ks : List Token.Kind} {selector : Selector} (h : Spaced Path ks selector)
    (hks : Recognised ks) : P selector := by
  obtain ⟨hs, -⟩ := h
  exact hpath hs (recognised_append.1 hks).1

/-- Every selector of a list satisfies a predicate that every path satisfies. -/
theorem PathList.forall_of_path {ks : List Token.Kind} {selectors : List Selector}
    (h : PathList ks selectors) (hks : Recognised ks) : ∀ selector ∈ selectors, P selector := by
  induction h with
  | single h => exact List.forall_mem_singleton.2 (h.of_path hpath hks)
  | cons hhead _ _ ih =>
    simp only [recognised_append] at hks
    exact List.forall_mem_cons.2 ⟨hhead.of_path hpath hks.1.1.1, ih hks.2⟩

/-- Every selector of a filter satisfies a predicate that every path satisfies. -/
theorem Predicate.forall_of_path {ks : List Token.Kind} {filter : Filter} (h : Predicate ks filter)
    (hks : Recognised ks) : ∀ selector ∈ filter.selectors, P selector := by
  cases h with
  | always => exact List.forall_mem_nil _
  | «exists» h => exact List.forall_mem_singleton.2 (h.of_path hpath hks)
  | compare hlhs _ _ hrhs =>
    simp only [recognised_append] at hks
    exact List.forall_mem_cons.2
      ⟨hlhs.of_path hpath hks.1.1.1, List.forall_mem_singleton.2 (hrhs.of_path hpath hks.2)⟩

/-- Every selector of a query satisfies a predicate that every path and the identity satisfy. -/
theorem Statement.forall_of_path (hid : P .identity) {ks : List Token.Kind} {query : Query}
    (h : Statement ks query) (hks : Recognised ks) : ∀ selector ∈ query.selectors, P selector := by
  -- a clause that is absent stands for the identity, or for a filter without selectors
  cases h with
  | absent => simpa [Query.selectors, Query.root, Filter.selectors] using hid
  | present _ _ h =>
    obtain ⟨hselect, hsource, hfilter⟩ := h
    simp only [recognised_append] at hks
    refine List.forall_mem_append.2
      ⟨hselect.forall_of_path hpath hks.2.1.1, List.forall_mem_cons.2 ⟨?_, ?_⟩⟩
    · cases hsource with
      | absent => exact hid
      | present _ _ h =>
        simp only [recognised_append] at hks
        exact h.of_path hpath hks.2.1.2.2
    · cases hfilter with
      | absent => exact List.forall_mem_nil _
      | present _ _ h =>
        simp only [recognised_append] at hks
        exact h.forall_of_path hpath hks.2.2.2

end Selectors

end Grammar.Derivation

open Grammar.Derivation

/-- A selector that is parsed satisfies a predicate that every path and the identity satisfy. -/
theorem Selector.Parsed.of_path {P : Selector → Prop}
    (hpath : ∀ {ks s}, Path ks s → Recognised ks → P s) (hid : P .identity) {selector : Selector}
    (h : Selector.Parsed selector) : P selector := by
  cases h with
  | selector h =>
    obtain ⟨_, hs, hks⟩ := ((Selector.parse_eq_ok_iff ..).1 h).exists_recognised
    exact hs.of_path hpath hks
  | list h hmem =>
    obtain ⟨_, hs, hks⟩ := ((Selector.parseList_eq_ok_iff ..).1 h).exists_recognised
    exact hs.forall_of_path hpath hks _ hmem
  | filter h hmem =>
    obtain ⟨_, hs, hks⟩ := ((Filter.parse_eq_ok_iff ..).1 h).exists_recognised
    exact hs.forall_of_path hpath hks _ hmem
  | query h hmem =>
    obtain ⟨_, hs, hks⟩ := ((Query.parse_eq_ok_iff ..).1 h).exists_recognised
    exact Statement.forall_of_path hpath hid hs hks _ hmem

end DocQuery
