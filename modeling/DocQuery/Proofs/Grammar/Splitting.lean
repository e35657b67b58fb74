import DocQuery.Proofs.Grammar.Derivation
import Mathlib.Data.List.Chain

/-!
# Derivations are split at a word

An identifier behind white space is never a part of a selector that began before it, because inside
a selector an identifier stands behind a dot. So it is the keyword of a clause, the operator of a
filter, or the name that a selector begins with. In the last case the derivation may end right
behind it: what comes before the word and the word itself are a derivation already.

* `Grammar.Derivation.Spaced.eq_nil_of_open`: a selector with such an identifier begins with it.
* `Grammar.Derivation.Clauses.split_from`, `Grammar.Derivation.Clauses.split_where`: the keywords
  of a query, or names at which it may end.
-/

namespace DocQuery

namespace Grammar

namespace Derivation

/-! ## Splitting lists -/

/-- An element of two lists put together lies in one of them. -/
theorem append_cons_eq_append {α : Type} {xs ys as bs : List α} {x : α}
    (h : xs ++ x :: ys = as ++ bs) :
    (∃ zs, as = xs ++ x :: zs ∧ ys = zs ++ bs) ∨ ∃ zs, xs = as ++ zs ∧ bs = zs ++ x :: ys := by
  rcases List.append_eq_append_iff.1 h with ⟨zs, has, hys⟩ | ⟨zs, hxs, hbs⟩
  · cases zs with
    | nil => exact .inr ⟨[], by simpa using has.symm, by simpa using hys.symm⟩
    | cons z zs =>
      obtain ⟨rfl, rfl⟩ := List.cons.inj hys
      exact .inl ⟨zs, has, rfl⟩
  · exact .inr ⟨zs, hxs, hbs⟩

/-- An element that is not in the first of two lists put together lies in the second. -/
theorem append_cons_eq_append_of_notMem {α : Type} {xs ys as bs : List α} {x : α} (hx : x ∉ as)
    (h : xs ++ x :: ys = as ++ bs) : ∃ zs, xs = as ++ zs ∧ bs = zs ++ x :: ys := by
  rcases append_cons_eq_append h with ⟨zs, rfl, -⟩ | hbs
  · exact absurd (by simp) hx
  · exact hbs

/-- An identifier is no white space. -/
theorem Blank.identifier_notMem {b : List Token.Kind} (hb : Blank b) (name : String) :
    .identifier name ∉ b := by
  intro hmem
  cases hb _ hmem

/-! ## Where identifiers stand in a selector -/

/-- An identifier stands right behind a dot or two. -/
def Joined (left right : Token.Kind) : Prop :=
  ∀ name, right = .identifier name → left = .dot ∨ left = .dotDot

/-- There is no identifier in a bracket. -/
theorem Bracket.identifier_notMem {ks : List Token.Kind} {segment : Segment}
    (h : Bracket ks segment) (name : String) : .identifier name ∉ ks := by
  have hbound {ks : List Token.Kind} {value : Option Int64} (h : Bound ks value) :
      .identifier name ∉ ks := by
    cases h <;> simp
  obtain ⟨hb, ⟨hcontent, hd⟩⟩ := h
  have hb := hb.identifier_notMem name
  have hd := hd.identifier_notMem name
  cases hcontent with
  | slice hfirst hmid hlast =>
    -- bounds and white space make up a slice, besides the colon
    obtain ⟨hfirst, hblank⟩ := hfirst
    have hfirst := hbound hfirst
    have hblank := hblank.identifier_notMem name
    have hmid := hmid.identifier_notMem name
    have hlast := hbound hlast
    simp_all
  | _ => simp_all

/-- Neighbours are joined where the second one is no identifier. -/
theorem isChain_joined_of_notMem {ks : List Token.Kind} (h : ∀ name, .identifier name ∉ ks) :
    ks.IsChain Joined := by
  induction ks with
  | nil => exact .nil
  | cons kind ks ih =>
    have hks : ∀ name, .identifier name ∉ ks :=
      fun name hmem => h name (List.mem_cons_of_mem _ hmem)
    refine List.isChain_cons.2 ⟨?_, ih hks⟩
    rintro right hright name rfl
    exact absurd (List.mem_of_mem_head? hright) (hks name)

/-- In a step, identifiers stand behind dots. -/
theorem Step.isChain_joined {ks : List Token.Kind} {segments : List Segment}
    (h : Step ks segments) : ks.IsChain Joined := by
  cases h with
  | field name => simp [Joined]
  | bracket h => exact isChain_joined_of_notMem h.identifier_notMem
  | descentField name => simp [Joined]
  | descentBracket h =>
    exact isChain_joined_of_notMem fun name => by simpa using h.identifier_notMem name

/-- In a chain, identifiers stand behind dots, and the first token is none. -/
theorem Chain.isChain_joined {ks : List Token.Kind} {segments : List Segment}
    (h : Chain ks segments) : ks.IsChain Joined ∧ ∀ kind ∈ ks.head?, BeginsStep kind := by
  induction h with
  | nil => exact ⟨.nil, by simp⟩
  | cons hhead _ ih =>
    obtain ⟨kind, ls, rfl, hkind⟩ := hhead.exists_cons
    refine ⟨List.isChain_append.2 ⟨hhead.isChain_joined, ih.1, ?_⟩, by simpa using hkind⟩
    -- where two steps meet, the second one does not begin with an identifier
    rintro left - right hright name rfl
    exact (ih.2 _ hright).elim

/-- In a selector, identifiers other than the first token stand behind dots. -/
theorem Path.isChain_joined {ks : List Token.Kind} {selector : Selector} (h : Path ks selector) :
    ks.IsChain Joined := by
  have hcons {kind : Token.Kind} {ks : List Token.Kind} {segments : List Segment}
      (h : Chain ks segments) : (kind :: ks).IsChain Joined := by
    refine List.isChain_cons.2 ⟨?_, h.isChain_joined.1⟩
    rintro right hright name rfl
    exact (h.isChain_joined.2 _ hright).elim
  cases h with
  | root h => exact hcons h
  | named _ h => exact hcons h
  | steps hhead htail => exact (Chain.cons hhead htail).isChain_joined.1
  | literal h => cases h <;> exact List.isChain_singleton _

/-- The same with the white space after the selector. -/
theorem Spaced.isChain_joined {ks : List Token.Kind} {selector : Selector}
    (h : Spaced Path ks selector) : ks.IsChain Joined := by
  obtain ⟨h, hb⟩ := h
  have hblank := isChain_joined_of_notMem hb.identifier_notMem
  refine List.isChain_append.2 ⟨h.isChain_joined, hblank, ?_⟩
  rintro left - right hright name rfl
  exact absurd (List.mem_of_mem_head? hright) (hb.identifier_notMem name)

/-! ## How selectors end -/

/-- Neither white space nor a dot stands at the end. -/
def Settled (kinds : List Token.Kind) : Prop :=
  ∀ kind ∈ kinds.getLast?, kind ≠ .separator ∧ kind ≠ .dot ∧ kind ≠ .dotDot

/-- The kinds that a selector other than a literal ends with: a root, a name or a closing bracket.
-/
def FinishesPath : Token.Kind → Prop
  | .root | .identifier _ | .bracketClose => True
  | _ => False

/-- Nothing but a root, a name or a closing bracket stands at the end. -/
def Closed (kinds : List Token.Kind) : Prop := ∀ kind ∈ kinds.getLast?, FinishesPath kind

/-- None of these is white space or a dot. -/
theorem Closed.settled {ks : List Token.Kind} (h : Closed ks) : Settled ks := by
  intro kind hkind
  have hends := h kind hkind
  refine ⟨?_, ?_, ?_⟩
  all_goals
    rintro rfl
    exact hends

/-- What stands at the end of either of two lists may stand at the end of both. -/
theorem Closed.append {ks ls : List Token.Kind} (hks : Closed ks) (hls : Closed ls) :
    Closed (ks ++ ls) := by
  intro kind hkind
  rw [List.getLast?_append, Option.mem_def, Option.or_eq_some_iff] at hkind
  rcases hkind with hkind | ⟨-, hkind⟩
  · exact hls kind hkind
  · exact hks kind hkind

/-- A token at the end decides. -/
theorem Closed.concat (ks : List Token.Kind) {kind : Token.Kind} (h : FinishesPath kind) :
    Closed (ks ++ [kind]) := by
  rw [Closed, List.getLast?_concat]
  rintro _ ⟨⟩
  exact h

/-- A step ends with a name or with a bracket. -/
theorem Step.closed {ks : List Token.Kind} {segments : List Segment} (h : Step ks segments) :
    Closed ks := by
  cases h with
  | field name => exact .concat [.dot] trivial
  | bracket h =>
    obtain ⟨-, -⟩ := h
    exact .concat _ trivial
  | descentField name => exact .concat [.dotDot] trivial
  | descentBracket h =>
    obtain ⟨-, -⟩ := h
    exact .concat (.dotDot :: _) trivial

/-- A chain ends as its last step does. -/
theorem Chain.closed {ks : List Token.Kind} {segments : List Segment} (h : Chain ks segments) :
    Closed ks := by
  induction h with
  | nil => simp [Closed]
  | cons hhead _ ih => exact hhead.closed.append ih

/-- A selector ends with a root, a name or a closing bracket, or it is a literal. -/
theorem Path.closed_or_literal {ks : List Token.Kind} {selector : Selector}
    (h : Path ks selector) :
    Closed ks ∨ ∃ value, Literal ks value ∧ selector = .single (.constant value) := by
  have hcons {kind : Token.Kind} {ks : List Token.Kind} {segments : List Segment}
      (hkind : FinishesPath kind) (h : Chain ks segments) : Closed (kind :: ks) := by
    have halone : Closed [kind] := .concat [] hkind
    exact halone.append h.closed
  cases h with
  | root h => exact .inl (hcons trivial h)
  | named _ h => exact .inl (hcons trivial h)
  | steps hhead htail => exact .inl (Chain.cons hhead htail).closed
  | literal h => exact .inr ⟨_, h, rfl⟩

/-- A selector does not end with white space or a dot. -/
theorem Path.settled {ks : List Token.Kind} {selector : Selector} (h : Path ks selector) :
    Settled ks := by
  rcases h.closed_or_literal with hclosed | ⟨_, hliteral, -⟩
  · exact hclosed.settled
  · cases hliteral <;> simp [Settled]

/-! ## Words -/

/-- A word may follow: nothing stands before it, or white space does. -/
def Open (kinds : List Token.Kind) : Prop := ∀ kind ∈ kinds.getLast?, kind = .separator

/-- Where a word may follow two lists put together, it may follow the second alone. -/
theorem Open.of_append {xs ys : List Token.Kind} (h : Open (xs ++ ys)) : Open ys := by
  intro kind hkind
  refine h kind ?_
  rw [List.getLast?_append, Option.mem_def.1 hkind]
  rfl

section Word

variable {name : String} {xs ys : List Token.Kind}

/-- An identifier behind white space is the beginning of a selector. -/
theorem Spaced.eq_nil_of_open {selector : Selector}
    (h : Spaced Path (xs ++ .identifier name :: ys) selector) (hopen : Open xs) : xs = [] := by
  have hjoined := (List.isChain_append.1 h.isChain_joined).2.2
  rcases List.eq_nil_or_concat xs with hnil | ⟨zs, kind, rfl⟩
  · exact hnil
  · -- the token before the identifier would be white space and a dot
    obtain rfl := hopen kind (by simp)
    rcases hjoined .separator (by simp) _ rfl name rfl with himpossible | himpossible
    · cases himpossible
    · cases himpossible

variable (hname : name ≠ "true" ∧ name ≠ "false" ∧ name ≠ "null")
include hname

/-- A name alone is a selector. -/
theorem spaced_path_name : Spaced Path [.identifier name] ⟨[.field name]⟩ := by
  have hspaced := Spaced.intro (Path.named hname .nil) blank_nil
  exact hspaced

/-- A list of selectors may end with a name in it. -/
theorem PathList.exists_of_open {selectors : List Selector}
    (h : PathList (xs ++ .identifier name :: ys) selectors) (hopen : Open xs) :
    ∃ others, PathList (xs ++ [.identifier name]) others := by
  generalize hkinds : xs ++ .identifier name :: ys = kinds at h
  -- from the first selector on; the part before the name grows shorter with each selector passed
  induction h generalizing xs with
  | single h =>
    subst hkinds
    rw [h.eq_nil_of_open hopen]
    exact ⟨_, .single (spaced_path_name hname)⟩
  | @cons selector others ks b ls hhead hb htail ih =>
    rw [List.append_assoc, List.append_assoc] at hkinds
    rcases append_cons_eq_append hkinds with ⟨zs, rfl, -⟩ | ⟨zs, rfl, hzs⟩
    · -- the name is in the first selector, so it begins this selector and the list
      rw [hhead.eq_nil_of_open hopen]
      exact ⟨_, .single (spaced_path_name hname)⟩
    · -- neither the comma nor the white space after it is an identifier
      obtain ⟨us, rfl, hus⟩ := append_cons_eq_append_of_notMem (by simp) hzs.symm
      obtain ⟨vs, rfl, hvs⟩ := append_cons_eq_append_of_notMem (hb.identifier_notMem name) hus.symm
      obtain ⟨others, hothers⟩ := ih hopen.of_append.of_append.of_append hvs.symm
      have hlist := PathList.cons hhead hb hothers
      exact ⟨_, by simpa only [List.append_assoc] using hlist⟩

/-- A filter may end with a name in it that is no operator. -/
theorem Predicate.exists_of_open {filter : Filter} (hop : ∀ op, ¬Infix (.identifier name) op)
    (h : Predicate (xs ++ .identifier name :: ys) filter) (hopen : Open xs) :
    ∃ other, Predicate (xs ++ [.identifier name]) other := by
  have halone : ∃ other, Predicate [.identifier name] other :=
    ⟨_, .exists (spaced_path_name hname) (by simp [Selector.identity])⟩
  generalize hkinds : xs ++ .identifier name :: ys = kinds at h
  cases h with
  | always h =>
    subst hkinds
    rw [h.eq_nil_of_open hopen]
    exact halone
  | «exists» h =>
    subst hkinds
    rw [h.eq_nil_of_open hopen]
    exact halone
  | @compare lhs rhs op ks b ls kind hlhs hinfix hb hrhs =>
    rw [List.append_assoc, List.append_assoc] at hkinds
    rcases append_cons_eq_append hkinds with ⟨zs, rfl, -⟩ | ⟨zs, rfl, hzs⟩
    · rw [hlhs.eq_nil_of_open hopen]
      exact halone
    · -- the name is behind the operator, so it is the beginning of the right side
      have hkind : .identifier name ∉ [kind] := by
        rw [List.mem_singleton]
        rintro rfl
        exact hop op hinfix
      obtain ⟨us, rfl, hus⟩ := append_cons_eq_append_of_notMem hkind hzs.symm
      obtain ⟨vs, rfl, rfl⟩ := append_cons_eq_append_of_notMem (hb.identifier_notMem name) hus.symm
      obtain rfl := hrhs.eq_nil_of_open hopen.of_append.of_append.of_append
      have hfilter := Predicate.compare hlhs hinfix hb (spaced_path_name hname)
      exact ⟨_, by simpa only [List.append_assoc, List.append_nil] using hfilter⟩

omit hname in
/-- A name in a clause is its keyword, or the clause may end with it if its content may. -/
theorem Clause.exists_of_open {α : Type} {keyword : String} {default result : α}
    {content : List Token.Kind → α → Prop}
    (hcontent : ∀ {xs}, Open xs → content (xs ++ .identifier name :: ys) result →
      ∃ other, content (xs ++ [.identifier name]) other)
    (h : Clause keyword content default (xs ++ .identifier name :: ys) result) (hopen : Open xs) :
    (xs = [] ∧ ∃ b ks, ys = b ++ ks ∧ isKeyword keyword name = true ∧ Blank b ∧
        content ks result) ∨
      ∃ other, Clause keyword content default (xs ++ [.identifier name]) other := by
  generalize hkinds : xs ++ .identifier name :: ys = kinds at h
  cases h with
  | absent => simp at hkinds
  | @present first _ b ks hfirst hb h =>
    rw [List.append_assoc] at hkinds
    -- the clause begins with its keyword, so only a name that stands first can be the keyword
    cases xs with
    | nil =>
      obtain ⟨hword, rfl⟩ := List.cons.inj hkinds
      obtain rfl := Token.Kind.identifier.inj hword
      exact .inl ⟨rfl, b, ks, rfl, hfirst, hb, h⟩
    | cons kind xs =>
      obtain ⟨rfl, hrest⟩ := List.cons.inj hkinds
      obtain ⟨zs, rfl, rfl⟩ :=
        append_cons_eq_append_of_notMem (hb.identifier_notMem name) hrest
      have hopen : Open ((.identifier first :: b) ++ zs) := hopen
      obtain ⟨other, hother⟩ := hcontent hopen.of_append h
      have hclause : Clause keyword content default _ other := .present hfirst hb hother
      exact .inr ⟨other, by simpa using hclause⟩

end Word

/-! ## Queries -/

section Queries

variable {xs ys ks b ls ms : List Token.Kind}

/-- The words between the clauses of a query are names too. -/
theorem keyword_ne_literal :
    ("FROM" ≠ "true" ∧ "FROM" ≠ "false" ∧ "FROM" ≠ "null") ∧
      "WHERE" ≠ "true" ∧ "WHERE" ≠ "false" ∧ "WHERE" ≠ "null" := by
  decide

/-- The words between the clauses of a query are no operators. -/
theorem not_infix_keyword {word : String} (h : word = "FROM" ∨ word = "WHERE") (op : Operator) :
    ¬Infix (.identifier word) op := by
  intro hop
  rcases h with rfl | rfl
  · cases hop with
    | within h => exact absurd h (by decide)
    | like h => exact absurd h (by decide)
  · cases hop with
    | within h => exact absurd h (by decide)
    | like h => exact absurd h (by decide)

/-- The word `FROM` in a query is the keyword of its source, or the query may end with it. -/
theorem Clauses.split_from {query : Query} (h : Clauses (xs ++ .identifier "FROM" :: ys) query)
    (hopen : Open xs) :
    (PathList xs query.select ∧ ∃ b ls ms, ys = b ++ (ls ++ ms) ∧ Blank b ∧
        Spaced Path ls query.source ∧ Clause "where" Predicate .always ms query.filter) ∨
      ∃ other, Clauses (xs ++ [.identifier "FROM"]) other := by
  have hname := keyword_ne_literal.1
  generalize hkinds : xs ++ .identifier "FROM" :: ys = kinds at h
  cases h with
  | @intro select source filter ks ls ms hselect hsource hfilter =>
    rw [List.append_assoc] at hkinds
    rcases append_cons_eq_append hkinds with ⟨zs, rfl, -⟩ | ⟨zs, rfl, hzs⟩
    · -- the word is among the selectors, and the query may end with it
      obtain ⟨others, hothers⟩ := hselect.exists_of_open hname hopen
      have hclauses := Clauses.intro hothers .absent .absent
      exact .inr ⟨_, by simpa only [List.append_nil] using hclauses⟩
    · have hopen := hopen.of_append
      rcases append_cons_eq_append hzs.symm with ⟨us, rfl, rfl⟩ | ⟨us, rfl, rfl⟩
      · -- the word is the keyword of the source, or a name that the source begins with
        have hcontent {xs : List Token.Kind} (hopen : Open xs)
            (h : Spaced Path (xs ++ .identifier "FROM" :: us) source) :
            ∃ other, Spaced Path (xs ++ [.identifier "FROM"]) other := by
          obtain rfl := h.eq_nil_of_open hopen
          exact ⟨_, spaced_path_name hname⟩
        rcases hsource.exists_of_open hcontent hopen with
          ⟨rfl, b, ps, rfl, -, hb, hps⟩ | ⟨other, hother⟩
        · rw [List.append_nil]
          exact .inl ⟨hselect, b, ps, ms, List.append_assoc .., hb, hps, hfilter⟩
        · have hclauses := Clauses.intro hselect hother .absent
          exact .inr ⟨_, by simpa only [List.append_assoc, List.append_nil] using hclauses⟩
      · -- the word is behind the source, and it is not the keyword there
        rcases hfilter.exists_of_open
            (fun hopen h => h.exists_of_open hname (not_infix_keyword (.inl rfl)) hopen)
            hopen.of_append with ⟨-, _, _, -, hword, -⟩ | ⟨other, hother⟩
        · exact absurd hword (by decide)
        · have hclauses := Clauses.intro hselect hsource hother
          exact .inr ⟨_, by simpa only [List.append_assoc] using hclauses⟩

/-- The word `WHERE` behind the keyword of the source is the keyword of the filter, or the query may
end with it. -/
theorem Clauses.split_where {select : List Selector} {source : Selector} {filter : Filter}
    (hselect : PathList ks select) (hb : Blank b) (hsource : Spaced Path ls source)
    (hfilter : Clause "where" Predicate .always ms filter)
    (hkinds : xs ++ .identifier "WHERE" :: ys = b ++ (ls ++ ms)) (hopen : Open xs) :
    (xs = b ++ ls ∧ ∃ d vs, ys = d ++ vs ∧ Blank d ∧ Predicate vs filter) ∨
      ∃ other, Clauses (ks ++ .identifier "FROM" :: (xs ++ [.identifier "WHERE"])) other := by
  have hname := keyword_ne_literal.2
  have hfrom : isKeyword "from" "FROM" = true := by decide
  obtain ⟨zs, rfl, hzs⟩ := append_cons_eq_append_of_notMem (hb.identifier_notMem _) hkinds
  have hopen := hopen.of_append
  rcases append_cons_eq_append hzs.symm with ⟨us, rfl, -⟩ | ⟨us, rfl, rfl⟩
  · -- the word is a name that the source begins with, and the source may end with it
    obtain rfl := hsource.eq_nil_of_open hopen
    have hclauses := Clauses.intro hselect (.present hfrom hb (spaced_path_name hname)) .absent
    exact .inr ⟨_, by simpa using hclauses⟩
  · -- the word is behind the source: the keyword of the filter, or a name in the filter
    rcases hfilter.exists_of_open
        (fun hopen h => h.exists_of_open hname (not_infix_keyword (.inr rfl)) hopen)
        hopen.of_append with ⟨rfl, d, vs, rfl, -, hd, hvs⟩ | ⟨other, hother⟩
    · rw [List.append_nil]
      exact .inl ⟨rfl, d, vs, rfl, hd, hvs⟩
    · have hclauses := Clauses.intro hselect (.present hfrom hb hsource) hother
      exact .inr ⟨_, by simpa using hclauses⟩

end Queries

end Derivation

end Grammar

end DocQuery
