import DocQuery.Proofs.Clauses.Assembly

/-!
# Writing and parsing are inverse on canonical values

A canonical selector, filter or query is parsed back from its text. Nothing else is: what is parsed
is canonical, and a value equal to it can differ from it only in the sign of a zero, but a minus
sign does not begin a token.

* `parse_text_iff_canonical`: the statement for selectors, filters and queries.
-/

namespace DocQuery

open Grammar.Derivation

/-! ## Canonical values are parsed back -/

/-- The text of a canonical selector is parsed to it. -/
theorem Selector.Canonical.parse_text {selector : Selector} (h : selector.Canonical) :
    Selector.parse selector.text = .ok selector := by
  obtain ⟨ks, hks, htext⟩ := h.exists_path stops_nil
  refine (Selector.parse_eq_ok_iff ..).2 ⟨[], ks ++ [], blank_nil, .intro hks blank_nil, ?_⟩
  simpa [text] using htext

/-- The text of a canonical filter is parsed to it. -/
theorem Filter.Canonical.parse_text {filter : Filter} (h : filter.Canonical) :
    Filter.parse filter.text = .ok filter := by
  obtain ⟨ks, hks, htext⟩ := h.exists_predicate
  refine (Filter.parse_eq_ok_iff ..).2 ⟨[], ks, blank_nil, hks, ?_⟩
  simpa [text] using htext

/-- The text of a canonical query is parsed to it. -/
theorem Query.Canonical.parse_text {query : Query} (h : query.Canonical) :
    Query.parse query.text = .ok query := by
  -- the selectors are parsed on their own, and so are the source and the filter
  obtain ⟨ks, hks, htext⟩ := exists_pathList h.ne_nil h.select stops_nil
  have hselect : Selector.parseList (.ofList (listChars query.select)) = .ok query.select :=
    (Selector.parseList_eq_ok_iff ..).2 ⟨[], ks, blank_nil, hks, by simpa using htext⟩
  exact parse_assemble hselect h.source.parse_text h.filter.parse_text

/-! ## Equality with canonical values -/

/-- A literal is the same as itself. -/
theorem Json.IsLiteral.same_self {value : Json} (h : value.IsLiteral) :
    value.same value = true := by
  cases value with
  | number value =>
    cases value <;> simp [same, equalBy, Number.same, Binary64.same]
  | array items => exact h.elim
  | object members => exact h.elim
  | _ => simp [same, equalBy]

/-- Two zeros apart, only a literal is the same as a literal. -/
theorem Json.IsLiteral.of_same {value other : Json} (h : value.IsLiteral)
    (hsame : value.same other = true) :
    other.IsLiteral ∨ ∃ x : Binary64, x.negative = true ∧ other = .number (.float x) := by
  cases value with
  | number value =>
    cases other with
    | number other =>
      cases other with
      | float x =>
        -- only the sign of zero is lost in a comparison, and a literal carries no sign
        cases hx : x.negative with
        | false => exact .inl hx
        | true => exact .inr ⟨x, hx, rfl⟩
      | int n hrange =>
        cases value with
        | int m _ =>
          have heq : m = n := by simpa [same, equalBy, Number.same] using hsame
          exact .inl (heq ▸ h)
        | float x => cases hsame
    | _ => cases hsame
  | _ => cases other <;> first | exact .inl trivial | exact h.elim | cases hsame

namespace Segment

/-- Segments other than constants are the same only if they are equal. -/
theorem same_iff_eq {segment other : Segment} (h : ∀ value, segment ≠ .constant value) :
    segment.same other = true ↔ other = segment := by
  constructor
  · intro hsame
    cases segment <;> cases other <;> simp_all [same]
  · rintro rfl
    cases other <;> simp_all [same]

/-- Segments without constants are the same only if they are equal. -/
theorem segmentsSame_iff_eq {segments others : List Segment}
    (h : ∀ segment ∈ segments, ∀ value, segment ≠ .constant value) :
    Selector.segmentsSame segments others = true ↔ others = segments := by
  induction segments generalizing others with
  | nil => cases others <;> simp [Selector.segmentsSame]
  | cons segment segments ih =>
    obtain ⟨hsegment, hsegments⟩ := List.forall_mem_cons.1 h
    cases others with
    | nil => simp [Selector.segmentsSame]
    | cons other others => simp [Selector.segmentsSame, same_iff_eq hsegment, ih hsegments]

/-- Only a single constant is the same as a single constant. -/
theorem exists_of_segmentsSame_constant {value : Json} {segments : List Segment}
    (h : Selector.segmentsSame [.constant value] segments = true) :
    ∃ found, segments = [.constant found] ∧ value.same found = true := by
  cases segments with
  | nil => cases h
  | cons segment rest =>
    obtain ⟨hsegment, hrest⟩ := Bool.and_eq_true_iff.1 h
    cases rest with
    | cons => cases hrest
    | nil =>
      cases segment with
      | constant found => exact ⟨found, rfl, hsegment⟩
      | _ => cases hsegment

/-- A chain has no constants. -/
theorem IsChain.ne_constant {segments : List Segment} (h : IsChain segments) :
    ∀ segment ∈ segments, ∀ value, segment ≠ .constant value := by
  have hstep {segment : Segment} (h : segment.IsStep) (value : Json) :
      segment ≠ .constant value := by
    rintro rfl
    exact h
  induction h with
  | nil => exact List.forall_mem_nil _
  | step h _ ih => exact List.forall_mem_cons.2 ⟨hstep h, ih⟩
  | descent h _ ih =>
    refine List.forall_mem_cons.2 ⟨?_, List.forall_mem_cons.2 ⟨hstep h, ih⟩⟩
    rintro value ⟨⟩

end Segment

namespace Selector

/-- A selector that is canonical but for the minus sign that its only number may have. -/
def NearlyCanonical (selector : Selector) : Prop :=
  selector.Canonical ∨
    ∃ x : Binary64, x.negative = true ∧ selector = .single (.constant (.number (.float x)))

/-- A canonical selector is the same as itself. -/
theorem Canonical.same_self {selector : Selector} (h : selector.Canonical) :
    selector.same selector = true := by
  cases h with
  | chain h => exact (Segment.segmentsSame_iff_eq h.ne_constant).2 rfl
  | literal h => simp [same, segmentsSame, single, Segment.same, h.same_self]

/-- A selector that is the same as a canonical one is canonical but for a minus sign. -/
theorem Canonical.nearlyCanonical_of_same {selector other : Selector} (h : selector.Canonical)
    (hsame : selector.same other = true) : other.NearlyCanonical := by
  obtain ⟨segments⟩ := other
  cases h with
  | @chain first h =>
    obtain rfl : segments = first := (Segment.segmentsSame_iff_eq h.ne_constant).1 hsame
    exact .inl (.chain h)
  | @literal value h =>
    obtain ⟨found, rfl, hvalue⟩ := Segment.exists_of_segmentsSame_constant hsame
    rcases h.of_same hvalue with hfound | ⟨x, hx, rfl⟩
    · exact .inl (.literal hfound)
    · exact .inr ⟨x, hx, rfl⟩

end Selector

/-- A canonical filter is the same as itself. -/
theorem Filter.Canonical.same_self {filter : Filter} (h : filter.Canonical) :
    filter.same filter = true := by
  cases h with
  | always => rfl
  | «exists» h _ => exact h.same_self
  | compare op hlhs hrhs => simp [same, hlhs.same_self, hrhs.same_self]

/-- A canonical query is the same as itself. -/
theorem Query.Canonical.same_self {query : Query} (h : query.Canonical) :
    query.same query = true := by
  have hlist : ∀ selectors : List Selector, (∀ selector ∈ selectors, selector.Canonical) →
      Selector.listSame selectors selectors = true := by
    intro selectors hselectors
    induction selectors with
    | nil => rfl
    | cons selector selectors ih =>
      obtain ⟨hhead, htail⟩ := List.forall_mem_cons.1 hselectors
      simp [Selector.listSame, hhead.same_self, ih htail]
  simp [same, hlist _ h.select, h.source.same_self, h.filter.same_self]

/-! ## A minus sign does not begin a token -/

/-- The text is a sequence of tokens. -/
def Lexes (text : List Char) : Prop := ∃ kinds, Spells text kinds []

namespace Lexes

/-- What follows some tokens of a sequence is a sequence. -/
theorem of_spells {text rest : List Char} {kinds : List Token.Kind} (h : Lexes text)
    (hspells : Spells text kinds rest) : Lexes rest := by
  obtain ⟨all, hall⟩ := h
  obtain ⟨others, -, hothers⟩ := hspells.exists_append_of_spells hall
  exact ⟨others, hothers⟩

/-- What follows a space, if it does not begin with a blank. -/
theorem of_space {text : List Char} (h : Lexes (' ' :: text))
    (hblank : text.dropWhile isBlank = text) : Lexes text :=
  h.of_spells (.separator hblank)

/-- What follows a keyword and a space, if it does not begin with a blank. -/
theorem of_keyword {word : String} {text : List Char} (hword : isIdentifier word = true)
    (h : Lexes (word.toList ++ ' ' :: text)) (hblank : text.dropWhile isBlank = text) :
    Lexes text :=
  (h.of_spells (.name hword (ends_cons (by decide) text))).of_space hblank

/-- No token begins with a minus sign. -/
theorem not_minus (text : List Char) : ¬Lexes ('-' :: text) := by
  rintro ⟨kinds, hkinds⟩
  obtain ⟨lexeme, -, hscan, -⟩ := hkinds.exists_of_cons
  have herror : Lexeme.scan '-' text = .error (.invalidCharacter '-') := rfl
  rw [herror] at hscan
  cases hscan

end Lexes

namespace Selector

/-- The text of a negative number begins with a minus sign. -/
theorem exists_chars_eq_cons {x : Binary64} (h : x.negative = true) (rest : List Char) :
    ∃ more, (single (.constant (.number (.float x)))).chars ++ rest = '-' :: more := by
  refine ⟨(x.shortest .even).text floatLayout ++ rest, ?_⟩
  simp [chars, single, isIdentity, segmentsText, segmentTextAfter, segmentText, constantText,
    Json.floatText, h]

/-- A selector whose text is a sequence of tokens is canonical if it is so but for a minus sign. -/
theorem NearlyCanonical.of_lexes {selector : Selector} (h : selector.NearlyCanonical)
    {rest : List Char} (hrest : Stops rest) (hlexes : Lexes (selector.chars ++ rest)) :
    selector.Canonical ∧ Lexes rest := by
  rcases h with h | ⟨x, hx, rfl⟩
  · obtain ⟨ks, -, htext⟩ := h.exists_path hrest
    exact ⟨h, hlexes.of_spells htext⟩
  · -- the minus sign in front is no token
    obtain ⟨more, hmore⟩ := exists_chars_eq_cons hx rest
    rw [hmore] at hlexes
    exact (Lexes.not_minus more hlexes).elim

/-- The text of a selector does not begin with a blank. -/
theorem NearlyCanonical.dropWhile_isBlank {selector : Selector} (h : selector.NearlyCanonical)
    {rest : List Char} (hrest : Stops rest) :
    (selector.chars ++ rest).dropWhile isBlank = selector.chars ++ rest := by
  rcases h with h | ⟨x, hx, rfl⟩
  · obtain ⟨ks, hks, htext⟩ := h.exists_path hrest
    obtain ⟨kind, later, rfl, hkind⟩ := hks.exists_cons
    exact htext.dropWhile_isBlank hkind
  · obtain ⟨more, hmore⟩ := exists_chars_eq_cons hx rest
    rw [hmore, List.dropWhile_cons_of_neg (by decide)]

/-- Only the identity is the same as the identity. -/
theorem eq_identity_of_same {selector : Selector} (h : selector.same .identity = true) :
    selector = .identity := by
  obtain ⟨segments⟩ := selector
  cases segments with
  | nil => rfl
  | cons segment rest => cases h

end Selector

/-- A filter that is the same as a canonical one is canonical if its text is a sequence of
tokens. -/
theorem Filter.Canonical.of_same {filter other : Filter} (h : filter.Canonical)
    (hsame : filter.same other = true) (hlexes : Lexes other.chars) : other.Canonical := by
  cases h with
  | always =>
    cases other with
    | always => exact .always
    | _ => cases hsame
  | «exists» h hid =>
    cases other with
    | «exists» selector =>
      have hselector := h.nearlyCanonical_of_same hsame
      rw [chars, ← List.append_nil selector.chars] at hlexes
      refine .exists (hselector.of_lexes stops_nil hlexes).1 ?_
      rintro rfl
      exact hid (Selector.eq_identity_of_same hsame)
    | _ => cases hsame
  | compare op hlhs hrhs =>
    cases other with
    | compare lhs other rhs =>
      simp only [same, Bool.and_eq_true] at hsame
      have hleft := hlhs.nearlyCanonical_of_same hsame.1.1
      have hright := hrhs.nearlyCanonical_of_same hsame.2
      obtain ⟨kind, -, hkind, hsymbol⟩ := Spells.symbol other rhs.chars
      -- the left side, the operator and the right side are tokens, one after the other
      obtain ⟨hlhs, hafter⟩ := hleft.of_lexes (stops_space _) hlexes
      have hmiddle := hafter.of_space (hsymbol.dropWhile_isBlank hkind)
      have hrhsblank := hright.dropWhile_isBlank stops_nil
      have hlast := hmiddle.of_spells hsymbol
      rw [← List.append_nil rhs.chars] at hlast
      exact .compare other hlhs (hright.of_lexes stops_nil (hlast.of_space hrhsblank)).1
    | _ => cases hsame

/-- The text of a filter that is the same as a canonical one does not begin with a blank. -/
theorem Filter.Canonical.dropWhile_isBlank_of_same {filter other : Filter} (h : filter.Canonical)
    (hsame : filter.same other = true) : other.chars.dropWhile isBlank = other.chars := by
  cases h with
  | always =>
    cases other with
    | always => exact List.dropWhile_cons_of_neg (by decide)
    | _ => cases hsame
  | «exists» h _ =>
    cases other with
    | «exists» selector =>
      have hblank := (h.nearlyCanonical_of_same hsame).dropWhile_isBlank stops_nil
      rwa [List.append_nil] at hblank
    | _ => cases hsame
  | compare op hlhs _ =>
    cases other with
    | compare lhs other rhs =>
      simp only [same, Bool.and_eq_true] at hsame
      exact (hlhs.nearlyCanonical_of_same hsame.1.1).dropWhile_isBlank (stops_space _)
    | _ => cases hsame

namespace Query

/-- The text of selectors does not begin with a blank. -/
theorem dropWhile_listChars {first : Selector} (h : first.NearlyCanonical) (others : List Selector)
    (rest : List Char) :
    (listChars (first :: others) ++ ' ' :: rest).dropWhile isBlank =
      listChars (first :: others) ++ ' ' :: rest := by
  cases others with
  | nil =>
    rw [listChars_singleton]
    exact h.dropWhile_isBlank (stops_space rest)
  | cons second others =>
    rw [listChars_cons_cons, List.append_assoc]
    exact h.dropWhile_isBlank (stops_comma _)

/-- Selectors that are the same as canonical ones are canonical but for a minus sign. -/
theorem nearlyCanonical_of_listSame {selectors others : List Selector}
    (h : ∀ selector ∈ selectors, selector.Canonical)
    (hsame : Selector.listSame selectors others = true) :
    ∀ other ∈ others, other.NearlyCanonical := by
  induction selectors generalizing others with
  | nil =>
    cases others with
    | nil => exact List.forall_mem_nil _
    | cons => cases hsame
  | cons selector selectors ih =>
    cases others with
    | nil => exact List.forall_mem_nil _
    | cons other others =>
      obtain ⟨hhead, htail⟩ := List.forall_mem_cons.1 h
      obtain ⟨hsameHead, hsameTail⟩ := Bool.and_eq_true_iff.1 hsame
      exact List.forall_mem_cons.2 ⟨hhead.nearlyCanonical_of_same hsameHead, ih htail hsameTail⟩

/-- Selectors whose text in front of a space is a sequence of tokens are canonical if they are so
but for minus signs. -/
theorem canonical_of_lexes {first : Selector} {others : List Selector}
    (h : ∀ selector ∈ first :: others, selector.NearlyCanonical) {rest : List Char}
    (hlexes : Lexes (listChars (first :: others) ++ ' ' :: rest)) :
    (∀ selector ∈ first :: others, selector.Canonical) ∧ Lexes (' ' :: rest) := by
  induction others generalizing first with
  | nil =>
    rw [listChars_singleton] at hlexes
    obtain ⟨hfirst, hrest⟩ := (h first List.mem_cons_self).of_lexes (stops_space rest) hlexes
    exact ⟨List.forall_mem_singleton.2 hfirst, hrest⟩
  | cons second others ih =>
    obtain ⟨hhead, htail⟩ := List.forall_mem_cons.1 h
    -- every text that is taken off the front is made of tokens, and so is what is left
    rw [listChars_cons_cons, List.append_assoc] at hlexes
    obtain ⟨hfirst, hcomma⟩ := hhead.of_lexes (stops_comma _) hlexes
    -- after the comma and the space stand the others
    have hspace := hcomma.of_spells (Spells.comma (.nil _))
    have hblank := dropWhile_listChars (htail second List.mem_cons_self) others rest
    obtain ⟨hothers, hrest⟩ := ih htail (hspace.of_space hblank)
    exact ⟨List.forall_mem_cons.2 ⟨hfirst, hothers⟩, hrest⟩

/-- A query that is the same as a canonical one is canonical if its text is a sequence of
tokens. -/
theorem Canonical.of_same {query other : Query} (h : query.Canonical)
    (hsame : query.same other = true) (hlexes : Lexes other.text.toList) : other.Canonical := by
  obtain ⟨select, source, filter⟩ := other
  obtain ⟨hne, hselect, hsource, hfilter⟩ := h
  simp only [same, Bool.and_eq_true] at hsame
  obtain ⟨⟨hsameSelect, hsameSource⟩, hsameFilter⟩ := hsame
  -- what is the same as a canonical part can only have a minus sign too much
  have hnear := nearlyCanonical_of_listSame hselect hsameSelect
  have hsourceNear := hsource.nearlyCanonical_of_same hsameSource
  cases select with
  | nil =>
    cases hlist : query.select with
    | nil => exact absurd hlist hne
    | cons => rw [hlist] at hsameSelect; cases hsameSelect
  | cons first others =>
    have hident : isIdentifier "SELECT" = true ∧ isIdentifier "FROM" = true ∧
      isIdentifier "WHERE" = true := by decide
    rw [toList_text] at hlexes
    -- the clauses from the first one to the last
    have hlist := hlexes.of_keyword hident.1
      (dropWhile_listChars (hnear first List.mem_cons_self) others _)
    obtain ⟨hcanonical, hfrom⟩ := canonical_of_lexes hnear hlist
    have hfrom := hfrom.of_space (List.dropWhile_cons_of_neg (by decide))
    have hfrom := hfrom.of_keyword hident.2.1 (hsourceNear.dropWhile_isBlank (stops_space _))
    obtain ⟨hcanonicalSource, hwhere⟩ := hsourceNear.of_lexes (stops_space _) hfrom
    have hwhere := hwhere.of_space (List.dropWhile_cons_of_neg (by decide))
    have hwhere := hwhere.of_keyword hident.2.2 (hfilter.dropWhile_isBlank_of_same hsameFilter)
    exact ⟨List.cons_ne_nil _ _, hcanonical, hcanonicalSource, hfilter.of_same hsameFilter hwhere⟩

end Query

/-! ## Nothing but canonical values is parsed back -/

/-- The text of what is parsed is a sequence of tokens. -/
theorem Lexes.of_written {α : Type} {content : List Token.Kind → α → Prop} {text : String}
    {result : α} (h : Written content text result) : Lexes text.toList := by
  obtain ⟨b, ks, -, -, hspells⟩ := h
  exact ⟨_, hspells⟩

/-- A text of a selector, a filter or a query is parsed to an equal value exactly when the value is
canonical, and a parse never yields anything but a canonical value. -/
theorem parse_text_iff_canonical :
    (∀ x : Selector, (∃ y, Selector.parse x.text = .ok y ∧ y.same x = true) ↔ x.Canonical) ∧
      (∀ x : Filter, (∃ y, Filter.parse x.text = .ok y ∧ y.same x = true) ↔ x.Canonical) ∧
      (∀ x : Query, (∃ y, Query.parse x.text = .ok y ∧ y.same x = true) ↔ x.Canonical) ∧
      ∀ text : String, (∀ x, Selector.parse text = .ok x → x.Canonical) ∧
        (∀ x, Filter.parse text = .ok x → x.Canonical) ∧
        ∀ x, Query.parse text = .ok x → x.Canonical := by
  refine ⟨fun x => ⟨?_, ?_⟩, fun x => ⟨?_, ?_⟩, fun x => ⟨?_, ?_⟩, fun text => ⟨?_, ?_, ?_⟩⟩
  -- what is parsed is canonical, so an equal value is nearly so, and its text is made of tokens
  · rintro ⟨y, hparse, hsame⟩
    have hnear := (Selector.canonical_of_parse hparse).nearlyCanonical_of_same hsame
    have hlexes := Lexes.of_written ((Selector.parse_eq_ok_iff ..).1 hparse)
    rw [Selector.text, String.toList_ofList, ← List.append_nil x.chars] at hlexes
    exact (hnear.of_lexes stops_nil hlexes).1
  · exact fun h => ⟨x, h.parse_text, h.same_self⟩
  · rintro ⟨y, hparse, hsame⟩
    have hlexes := Lexes.of_written ((Filter.parse_eq_ok_iff ..).1 hparse)
    rw [Filter.text, String.toList_ofList] at hlexes
    exact (Filter.canonical_of_parse hparse).of_same hsame hlexes
  · exact fun h => ⟨x, h.parse_text, h.same_self⟩
  · rintro ⟨y, hparse, hsame⟩
    have hlexes := Lexes.of_written ((Query.parse_eq_ok_iff ..).1 hparse)
    exact (Query.canonical_of_parse hparse).of_same hsame hlexes
  · exact fun h => ⟨x, h.parse_text, h.same_self⟩
  · exact fun _ => Selector.canonical_of_parse
  · exact fun _ => Filter.canonical_of_parse
  · exact fun _ => Query.canonical_of_parse

end DocQuery
