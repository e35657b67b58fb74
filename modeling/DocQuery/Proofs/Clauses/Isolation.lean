import DocQuery.Proofs.Clauses.Assembly
import DocQuery.Proofs.Grammar.Splitting

/-!
# Clauses that stay apart

A query that is assembled from three clauses may be accepted although the clauses are not accepted
one by one: a quote that is left open in one clause is closed in the next one, and a keyword behind
a clause that is not complete is read as the name that it lacks. There is no other way. The second
one shows in the assembled text already, because the query may then end at that keyword.

* `Grammar.Derivation.exists_framed`: a clause between two spaces is parsed as it is alone.
* `Grammar.Derivation.Clauses.exists_of_select`: where a list of selectors ends is certain.
* `Arguments.isolated_iff`: when the clauses of an accepted query are accepted one by one.
-/

namespace DocQuery

open Grammar.Derivation

/-! ## White space around a clause -/

namespace Grammar.Derivation

/-- A derivation and the white space before it. -/
inductive Indented {α : Type} (content : List Token.Kind → α → Prop) : List Token.Kind → α → Prop
  | intro {result : α} {b ks : List Token.Kind} (hb : Blank b) (h : content ks result) :
      Indented content (b ++ ks) result

/-- No derivation begins with white space, and the white space after it may come and go. -/
structure Trimmed {α : Type} (content : List Token.Kind → α → Prop) : Prop where
  /-- There is a token other than white space in front. -/
  exists_cons : ∀ {ks result}, content ks result → ∃ kind ls, ks = kind :: ls ∧ kind ≠ .separator
  /-- White space at the end makes no difference. -/
  append_separator_iff :
    ∀ {ks result}, content (ks ++ [.separator]) result ↔ content ks result

/-- White space is at the end of a selector after the selector. -/
theorem Spaced.of_append_separator {ks : List Token.Kind} {selector : Selector}
    (h : Spaced Path (ks ++ [.separator]) selector) : Spaced Path ks selector := by
  generalize hkinds : ks ++ [.separator] = kinds at h
  obtain ⟨hpath, hb⟩ := h
  rename_i ls b
  rcases List.eq_nil_or_concat' b with rfl | ⟨d, kind, rfl⟩
  · -- a selector does not end with white space itself
    rw [List.append_nil] at hkinds
    subst hkinds
    exact absurd rfl (hpath.settled .separator (by simp)).1
  · rw [← List.append_assoc] at hkinds
    obtain ⟨rfl, -⟩ := List.append_inj' hkinds rfl
    exact .intro hpath (List.forall_mem_append.1 hb).1

/-- White space is at the end of a list after its last selector. -/
theorem PathList.of_append_separator {ks : List Token.Kind} {selectors : List Selector}
    (h : PathList (ks ++ [.separator]) selectors) : PathList ks selectors := by
  generalize hkinds : ks ++ [.separator] = kinds at h
  induction h generalizing ks with
  | single h =>
    subst hkinds
    exact .single h.of_append_separator
  | @cons selector others ks' b ls hhead hb htail ih =>
    obtain ⟨kind, us, rfl, -⟩ := htail.exists_cons
    obtain ⟨vs, last, hlast⟩ := (List.eq_nil_or_concat' (kind :: us)).resolve_left (by simp)
    rw [hlast, ← List.append_assoc] at hkinds
    obtain ⟨rfl, hsep⟩ := List.append_inj' hkinds rfl
    refine .cons hhead hb (ih ?_)
    rw [hlast, hsep]

/-- A selector with white space after it. -/
theorem trimmed_path : Trimmed (Spaced Path) where
  exists_cons h := h.exists_cons fun _ => Path.exists_cons
  append_separator_iff := ⟨Spaced.of_append_separator, fun h => h.append_blank blank_separator⟩

/-- A list of selectors. -/
theorem trimmed_pathList : Trimmed PathList where
  exists_cons := PathList.exists_cons
  append_separator_iff := ⟨PathList.of_append_separator, fun h => h.append_blank blank_separator⟩

/-- Where white space ends is certain. -/
theorem eq_of_blank_append {b d ks ls : List Token.Kind} {first second : Token.Kind}
    (hb : Blank b) (hd : Blank d) (hfirst : first ≠ .separator) (hsecond : second ≠ .separator)
    (h : b ++ first :: ks = d ++ second :: ls) : first :: ks = second :: ls := by
  have hseen := congrArg (seen true) h
  rwa [seen_blank_append hb, seen_blank_append hd, seen_cons_of_ne hfirst,
    seen_cons_of_ne hsecond] at hseen

/-- What stands behind white space is the derivation. -/
theorem Indented.of_blank_append {α : Type} {content : List Token.Kind → α → Prop}
    {b ks : List Token.Kind} {first : Token.Kind} {result : α}
    (hcontent : ∀ {ks}, content ks result → ∃ kind ls, ks = kind :: ls ∧ kind ≠ .separator)
    (hb : Blank b) (hfirst : first ≠ .separator) (h : Indented content (b ++ first :: ks) result) :
    content (first :: ks) result := by
  generalize hkinds : b ++ first :: ks = kinds at h
  obtain ⟨hd, hls⟩ := h
  obtain ⟨second, ls, rfl, hsecond⟩ := hcontent hls
  rw [eq_of_blank_append hb hd hfirst hsecond hkinds]
  exact hls

/-- White space at the end makes no difference behind white space either. -/
theorem Trimmed.indented_iff {α : Type} {content : List Token.Kind → α → Prop}
    (h : Trimmed content) {ks : List Token.Kind} {result : α} :
    Indented content (ks ++ [.separator]) result ↔ Indented content ks result := by
  constructor
  · intro hindented
    generalize hkinds : ks ++ [.separator] = kinds at hindented
    obtain ⟨hb, hls⟩ := hindented
    rename_i b ls
    obtain ⟨us, last, rfl⟩ : ∃ us last, ls = us ++ [last] := by
      obtain ⟨kind, us, rfl, -⟩ := h.exists_cons hls
      exact (List.eq_nil_or_concat' _).resolve_left (by simp)
    rw [← List.append_assoc] at hkinds
    obtain ⟨rfl, hlast⟩ := List.append_inj' hkinds rfl
    rw [← hlast] at hls
    exact .intro hb (h.append_separator_iff.1 hls)
  · rintro ⟨hb, hls⟩
    rw [List.append_assoc]
    exact .intro hb (h.append_separator_iff.2 hls)

/-- A text is parsed alone as it is behind a space. -/
theorem written_iff_indented {α : Type} {content : List Token.Kind → α → Prop} {text : String}
    {kinds : List Token.Kind} {result : α}
    (hcontent : ∀ {ks}, content ks result → ∃ kind ls, ks = kind :: ls ∧ kind ≠ .separator)
    (h : Spells (' ' :: text.toList) kinds []) :
    Written content text result ↔ Indented content kinds result := by
  have hspace : isBlank ' ' = true := by decide
  have hscan := Lexeme.scan_of_isBlank text.toList hspace
  constructor
  · intro hwritten
    obtain ⟨ks, hks, -, hspells⟩ := hwritten.exists_spells hcontent
    rw [h.kinds_eq (.cons_of_eq hscan hspells)]
    exact .intro blank_separator hks
  · intro hindented
    obtain ⟨hb, hks⟩ := hindented
    rename_i b ks
    obtain ⟨lexeme, later, hfound, hkinds, hspells⟩ := h.exists_of_cons
    obtain rfl := Except.ok.inj (hscan.symm.trans hfound)
    -- the space is the first token, and it is not a part of the derivation
    obtain ⟨kind, ls, rfl, hkind⟩ := hcontent hks
    cases b with
    | nil => exact absurd (List.cons.inj hkinds).1 hkind
    | cons _ b =>
      obtain ⟨-, rfl⟩ := List.cons.inj hkinds
      have hb : Blank b := (List.forall_mem_cons.1 hb).2
      obtain ⟨d, hd, hblank⟩ := exists_blank text.toList
      refine ⟨d ++ b, _, blank_append hd hb, hks, ?_⟩
      rw [List.append_assoc]
      exact hblank.append hspells

/-- Between a space and a word behind another one, the text with the two spaces has these tokens. -/
def Framed (text : String) (kinds : List Token.Kind) : Prop :=
  ∀ ⦃word after later last⦄, Spells after (.identifier word :: later) last →
    Spells (' ' :: (text.toList ++ ' ' :: after)) (kinds ++ .identifier word :: later) last

/-- A text of tokens is parsed alone as it is between two spaces. -/
theorem exists_framed {text : String} {kinds : List Token.Kind} (h : Spells text.toList kinds []) :
    ∃ us, Framed text us ∧ Open us ∧
      ∀ {α : Type} {content : List Token.Kind → α → Prop} {result : α}, Trimmed content →
        (Written content text result ↔ Indented content us result) := by
  have hspace : isBlank ' ' = true := by decide
  have hbehind := Spells.cons_of_eq (Lexeme.scan_of_isBlank text.toList hspace) h.dropBlanks
  obtain ⟨us, hus, hspells⟩ := hbehind.append_separator
  refine ⟨us ++ [.separator], fun word after later last hafter => ?_, fun kind hkind => ?_,
    fun hcontent => ?_⟩
  · exact (hspells after (hafter.dropWhile_isBlank (by simp))).append hafter
  · rw [List.getLast?_concat] at hkind
    exact (Option.some.inj hkind).symm
  · rw [written_iff_indented hcontent.exists_cons hbehind]
    rcases hus with hus | hus
    · rw [hus, hcontent.indented_iff]
    · rw [hus]

end Grammar.Derivation

/-! ## Where the clauses of a query end -/

/-- What is ahead of a cursor is certain. -/
theorem Cursor.Ahead.kinds_eq {cursor : Cursor} {ks ls : List Token.Kind} (hks : cursor.Ahead ks)
    (hls : cursor.Ahead ls) : ks = ls := by
  cases ks with
  | nil =>
    cases ls with
    | nil => rfl
    | cons kind ls => exact absurd (hls.1.symm.trans hks) hls.2.1
  | cons kind ks =>
    cases ls with
    | nil => exact absurd (hks.1.symm.trans hls) hks.2.1
    | cons kind' ls =>
      obtain rfl := hks.1.symm.trans hls.1
      rw [hks.2.2.kinds_eq hls.2.2]

/-- A query that begins with a list of selectors and a word behind it selects with this list,
because the parser does not read on behind a list. -/
theorem Grammar.Derivation.Clauses.exists_of_select {text : List Char}
    {b ks later : List Token.Kind} {select : List Selector} {query : Query}
    (hspells : Spells text (b ++ (ks ++ later)) []) (hb : Blank b) (hselect : PathList ks select)
    (hends : Grammar.Complete.EndsList later) (h : Clauses (ks ++ later) query) :
    ∃ ls ms, later = ls ++ ms ∧ Clause "from" (Spaced Path) .identity ls query.source ∧
      Clause "where" Predicate .always ms query.filter := by
  have hwritten : Written Clauses (String.ofList text) query :=
    ⟨b, _, hb, h, by rwa [String.toList_ofList]⟩
  obtain ⟨cursor, after, hcursor, hclauses, hend⟩ :=
    Parse.parseAll_eq_ok_iff.1 (Grammar.parseAll_of_written Grammar.Complete.clauses rfl hwritten)
  obtain ⟨hpolicies, hahead⟩ := Cursor.ofString_eq_ok hcursor
  have hskips : cursor.lexer.skips = true := by rw [Lexer.skips, hpolicies]; rfl
  have hstart : cursor.Ahead (seen true (ks ++ later)) := by
    rw [hahead, String.toList_ofList, ← seen_blank_append hb]
    exact hspells.dropBlanks
  -- the list is read up to the word, and the rest of the parse begins there
  obtain ⟨mid, hlist, hmid, hlater⟩ := Grammar.Complete.selectors hskips hselect hends hstart
  rw [Grammar.clauses] at hclauses
  obtain ⟨select', _, hlist', hclauses⟩ := Parse.bind_eq_ok hclauses
  obtain ⟨-, rfl⟩ := Prod.mk.inj (hlist.symm.trans hlist')
  obtain ⟨source, last, hsource, hclauses⟩ := Parse.bind_eq_ok hclauses
  obtain ⟨filter, final, hfilter, hpure⟩ := Parse.bind_eq_ok hclauses
  obtain ⟨rfl, rfl⟩ := Parse.pure_eq_ok hpure
  have hskips := Grammar.skips_of_policies_eq hmid hskips
  obtain ⟨ls, hls, hmoves⟩ := Grammar.Sound.clause Grammar.Sound.selector hskips hsource
  obtain ⟨ms, hms, hmoves'⟩ :=
    Grammar.Sound.clause Grammar.Sound.filter (hmoves.skips_eq.trans hskips) hfilter
  have hpassed := (hmoves.trans hmoves').ahead [] hend
  rw [hends.seen_eq] at hlater
  rw [List.append_nil] at hpassed
  exact ⟨ls, ms, hlater.kinds_eq hpassed, hls, hms⟩

namespace Grammar.Derivation

/-! ## Keywords that are names -/

section Words

open Complete (EndsList)

variable {text : List Char} {b ks d ls ms later : List Token.Kind} {select : List Selector}
  {source : Selector} {filter : Filter} {query : Query}

/-- A word ends a list of selectors. -/
theorem endsList_identifier (name : String) (later : List Token.Kind) :
    EndsList (.identifier name :: later) := by
  rintro _ ⟨⟩
  exact ⟨name, rfl⟩

/-- The clause that begins with the keyword of the source is the clause of the source. -/
theorem exists_source_of_append (h : .identifier "FROM" :: later = ls ++ ms)
    (hls : Clause "from" (Spaced Path) .identity ls source)
    (hms : Clause "where" Predicate .always ms filter) :
    ∃ b ps, later = b ++ (ps ++ ms) ∧ Blank b ∧ Spaced Path ps source := by
  cases hls with
  | absent =>
    cases hms with
    | absent => cases h
    | present hword =>
      obtain ⟨hfirst, -⟩ := List.cons.inj h
      obtain rfl := Token.Kind.identifier.inj hfirst
      exact absurd hword (by decide)
  | present _ hb hps =>
    obtain ⟨-, rfl⟩ := List.cons.inj h
    exact ⟨_, _, List.append_assoc .., hb, hps⟩

/-- A query does not end at the keyword of its source. -/
theorem Clauses.not_append_from (hspells : Spells text (b ++ (ks ++ [.identifier "FROM"])) [])
    (hb : Blank b) (hselect : PathList ks select) :
    ¬Clauses (ks ++ [.identifier "FROM"]) query := by
  intro h
  obtain ⟨ls, ms, hlater, hls, hms⟩ :=
    h.exists_of_select hspells hb hselect (endsList_identifier "FROM" [])
  obtain ⟨e, ps, hnil, -, hps⟩ := exists_source_of_append hlater hls hms
  obtain ⟨kind, _, rfl, -⟩ := trimmed_path.exists_cons hps
  simp at hnil

/-- A word behind a selector does not go on with it. -/
theorem Spaced.not_append_identifier {name : String} {first second : Selector}
    (h : Spaced Path ks first) : ¬Spaced Path (ks ++ .identifier name :: later) second := by
  intro hwhole
  have hjoined := (List.isChain_append.1 hwhole.isChain_joined).2.2
  have hend : ∀ kind ∈ ks.getLast?, kind ≠ .dot ∧ kind ≠ .dotDot := by
    obtain ⟨hpath, hb⟩ := h
    intro kind hkind
    rw [List.getLast?_append, Option.mem_def, Option.or_eq_some_iff] at hkind
    rcases hkind with hkind | ⟨-, hkind⟩
    · rw [hb kind (List.mem_of_getLast? hkind)]
      simp
    · exact (hpath.settled kind hkind).2
  obtain ⟨kind, us, rfl, -⟩ := trimmed_path.exists_cons h
  have hlast := List.getLast?_eq_some_getLast (List.cons_ne_nil kind us)
  rcases hjoined _ hlast _ rfl name rfl with hdot | hdot
  · exact (hend _ hlast).1 hdot
  · exact (hend _ hlast).2 hdot

/-- A query does not end at the keyword of its filter. -/
theorem Clauses.not_append_where
    (hspells :
      Spells text (b ++ (ks ++ .identifier "FROM" :: (d ++ (ls ++ [.identifier "WHERE"])))) [])
    (hb : Blank b) (hselect : PathList ks select) (hd : Blank d) (hsource : Spaced Path ls source)
    (hopen : Open ls) :
    ¬Clauses (ks ++ .identifier "FROM" :: (d ++ (ls ++ [.identifier "WHERE"]))) query := by
  intro h
  obtain ⟨ls', ms, hlater, hls, hms⟩ :=
    h.exists_of_select hspells hb hselect (endsList_identifier "FROM" _)
  obtain ⟨e, ps, hrest, he, hps⟩ := exists_source_of_append hlater hls hms
  -- the two sources begin at the same token
  obtain ⟨first, us, rfl, hfirst⟩ := trimmed_path.exists_cons hsource
  obtain ⟨second, vs, rfl, hsecond⟩ := trimmed_path.exists_cons hps
  have hsame : first :: us ++ [.identifier "WHERE"] = second :: vs ++ ms :=
    eq_of_blank_append hd he hfirst hsecond hrest
  generalize query.filter = filter at hms
  cases hms with
  | absent =>
    rw [List.append_nil] at hsame
    rw [← hsame] at hps
    exact absurd (hps.eq_nil_of_open hopen) (by simp)
  | @present word _ c qs _ _ hqs =>
    obtain ⟨last, us, rfl, -⟩ := Predicate.exists_cons hqs
    rw [List.append_assoc, List.singleton_append] at hsame
    rcases append_cons_eq_append hsame.symm with ⟨zs, hzs, -⟩ | ⟨zs, -, hzs⟩
    · rw [hzs] at hsource
      exact hps.not_append_identifier hsource
    · have hlength := congrArg List.length hzs
      simp at hlength
      omega

end Words

/-! ## Clauses of an accepted query -/

section Clauses

variable {us vs ms : List Token.Kind} {query : Query}

/-- The three clauses are derivations, provided that neither keyword is a name at which the query
may end. -/
theorem Indented.isolated (hus : Open us) (hvs : Open vs)
    (h : Indented Clauses
      (us ++ .identifier "FROM" :: (vs ++ .identifier "WHERE" :: ms)) query)
    (hfrom : ∀ other, ¬Indented Clauses (us ++ [.identifier "FROM"]) other)
    (hwhere : ∀ other, ¬Indented Clauses
      (us ++ .identifier "FROM" :: (vs ++ [.identifier "WHERE"])) other) :
    Indented PathList us query.select ∧ Indented (Spaced Path) vs query.source ∧
      Indented Predicate ms query.filter := by
  generalize hkinds : us ++ .identifier "FROM" :: (vs ++ .identifier "WHERE" :: ms) = kinds at h
  obtain ⟨hb, hclauses⟩ := h
  obtain ⟨zs, rfl, rfl⟩ := append_cons_eq_append_of_notMem (hb.identifier_notMem _) hkinds
  rcases hclauses.split_from hus.of_append with
    ⟨hselect, d, ls, ks, hlater, hd, hsource, hfilter⟩ | ⟨other, hother⟩
  · rcases Clauses.split_where hselect hd hsource hfilter hlater hvs with
      ⟨rfl, e, qs, rfl, he, hqs⟩ | ⟨other, hother⟩
    · exact ⟨.intro hb hselect, .intro hd hsource, .intro he hqs⟩
    · refine absurd ?_ (hwhere other)
      rw [List.append_assoc]
      exact .intro hb hother
  · refine absurd ?_ (hfrom other)
    rw [List.append_assoc]
    exact .intro hb hother

/-- What follows the first keyword of a query begins with a token other than white space. -/
theorem Clauses.exists_cons {ks : List Token.Kind} (h : Clauses ks query) :
    ∃ kind ls, ks = kind :: ls ∧ kind ≠ .separator := by
  obtain ⟨hselect, -, -⟩ := h
  obtain ⟨kind, us, rfl, hkind⟩ := hselect.exists_cons
  exact ⟨kind, _, by rw [List.append_assoc, List.cons_append], hkind⟩

variable {text : List Char} {select : List Selector} {source : Selector}

/-- Behind selectors, the query does not end at the keyword of its source. -/
theorem Indented.not_append_from (hspells : Spells text (us ++ [.identifier "FROM"]) [])
    (hselect : Indented PathList us select) :
    ¬Indented Clauses (us ++ [.identifier "FROM"]) query := by
  intro h
  obtain ⟨hb, hks⟩ := hselect
  obtain ⟨first, ks, rfl, hfirst⟩ := hks.exists_cons
  rw [List.append_assoc] at hspells h
  exact Clauses.not_append_from hspells hb hks (h.of_blank_append Clauses.exists_cons hb hfirst)

/-- Behind selectors and a source, the query does not end at the keyword of its filter. -/
theorem Indented.not_append_where (hvs : Open vs)
    (hspells : Spells text (us ++ .identifier "FROM" :: (vs ++ [.identifier "WHERE"])) [])
    (hselect : Indented PathList us select) (hsource : Indented (Spaced Path) vs source) :
    ¬Indented Clauses (us ++ .identifier "FROM" :: (vs ++ [.identifier "WHERE"])) query := by
  intro h
  obtain ⟨hb, hks⟩ := hselect
  obtain ⟨hd, hls⟩ := hsource
  obtain ⟨first, ks, rfl, hfirst⟩ := hks.exists_cons
  rw [List.append_assoc, List.append_assoc] at hspells h
  exact Clauses.not_append_where hspells hb hks hd hls hvs.of_append
    (h.of_blank_append Clauses.exists_cons hb hfirst)

end Clauses

end Grammar.Derivation

/-! ## Texts -/

/-- The text is a sequence of complete tokens. No quote is left open in it. -/
def Tokenized (text : String) : Prop := ∃ kinds, Spells text.toList kinds []

/-- What is written alone is a sequence of tokens. -/
theorem Grammar.Derivation.Written.tokenized {α : Type} {content : List Token.Kind → α → Prop}
    {text : String} {result : α} (h : Written content text result) : Tokenized text := by
  obtain ⟨b, ks, -, -, hspells⟩ := h
  exact ⟨_, hspells⟩

/-- A query behind its first keyword. -/
theorem Query.parse_iff_indented {text : String} {rest : List Char} {kinds : List Token.Kind}
    {query : Query} (htext : text.toList = "SELECT".toList ++ ' ' :: rest)
    (h : Spells (' ' :: rest) kinds []) :
    Query.parse text = .ok query ↔ Indented Clauses kinds query := by
  have hident : isIdentifier "SELECT" = true := by decide
  have hkeyword : isKeyword "select" "SELECT" = true := by decide
  have hall : Spells text.toList (.identifier "SELECT" :: kinds) [] := by
    rw [htext]
    exact (Spells.name hident (ends_cons (by decide) rest)).append h
  rw [Query.parse_eq_ok_iff]
  constructor
  · rintro ⟨b, ks, hb, hstatement, hspells⟩
    have hkinds : [] ++ .identifier "SELECT" :: kinds = b ++ ks := (hspells.kinds_eq hall).symm
    -- the keyword is no white space, so it is the first token of the query
    obtain ⟨us, hus, hks⟩ :=
      append_cons_eq_append_of_notMem (hb.identifier_notMem "SELECT") hkinds
    obtain ⟨rfl, rfl⟩ := List.append_eq_nil_iff.1 hus.symm
    cases hstatement with
    | absent => cases hks
    | present _ hd hclauses =>
      obtain ⟨-, rfl⟩ := List.cons.inj hks
      exact .intro hd hclauses
  · rintro ⟨hb, hks⟩
    exact ⟨[], _, blank_nil, .present hkeyword hb hks, by simpa using hall⟩

/-- The clauses of an accepted query are accepted one by one exactly if neither keyword between them
is a name at which the query may end, provided that no quote is left open in the first two. -/
theorem Query.isolated_iff_of_spells {s f w : String} {query : Query} {ks ls : List Token.Kind}
    (hs : Spells s.toList ks []) (hf : Spells f.toList ls [])
    (h : Query.parse (assemble s f w) = .ok query) :
    (Selector.parseList s = .ok query.select ∧ Selector.parse f = .ok query.source ∧
        Filter.parse w = .ok query.filter) ↔
      (∀ other, Query.parse ("SELECT " ++ s ++ " FROM") ≠ .ok other) ∧
        ∀ other, Query.parse ("SELECT " ++ s ++ " FROM " ++ f ++ " WHERE") ≠ .ok other := by
  have hselect : isIdentifier "SELECT" = true := by decide
  have hfrom : isIdentifier "FROM" = true := by decide
  have hwhere : isIdentifier "WHERE" = true := by decide
  have hword {word : String} {rest last : List Char} {kinds : List Token.Kind}
      (hword : isIdentifier word = true) (hrest : Spells (' ' :: rest) kinds last) :
      Spells (word.toList ++ ' ' :: rest) (.identifier word :: kinds) last :=
    (Spells.name hword (ends_cons (by decide) rest)).append hrest
  have hend {word : String} (hword : isIdentifier word = true) :
      Spells word.toList [.identifier word] [] := by
    have hrest : Ends continuesIdentifier [] := by simp [Ends]
    simpa using Spells.name hword hrest
  obtain ⟨us, hus, hopenus, hselectiff⟩ := exists_framed hs
  obtain ⟨vs, hvs, hopenvs, hsourceiff⟩ := exists_framed hf
  -- the tokens of the text up to the second keyword, of the text up to the third, and of it all
  have hfirst := hus (hend hfrom)
  have hsecond := hus (hword hfrom (hvs (hend hwhere)))
  obtain ⟨ms, hms⟩ : ∃ ms, Spells (' ' :: w.toList) ms [] := by
    obtain ⟨kinds, hall⟩ := ((Query.parse_eq_ok_iff ..).1 h).tokenized
    rw [toList_assemble] at hall
    have hfront := hword hselect (hus (hword hfrom (hvs (hword hwhere (.nil (' ' :: w.toList))))))
    obtain ⟨ms, -, hms⟩ := hfront.exists_append_of_spells hall
    exact ⟨ms, hms⟩
  have hall := hus (hword hfrom (hvs (hword hwhere hms)))
  have hquery := (Query.parse_iff_indented (toList_assemble s f w) hall).1 h
  have hfirstiff (other : Query) :
      Query.parse ("SELECT " ++ s ++ " FROM") = .ok other ↔ _ :=
    Query.parse_iff_indented (by simp) hfirst
  have hsecondiff (other : Query) :
      Query.parse ("SELECT " ++ s ++ " FROM " ++ f ++ " WHERE") = .ok other ↔ _ :=
    Query.parse_iff_indented (by simp) hsecond
  rw [Selector.parseList_eq_ok_iff, Selector.parse_eq_ok_iff, Filter.parse_eq_ok_iff,
    hselectiff trimmed_pathList, hsourceiff trimmed_path,
    written_iff_indented Predicate.exists_cons hms]
  simp only [ne_eq, hfirstiff, hsecondiff]
  constructor
  · rintro ⟨hus', hvs', -⟩
    exact ⟨fun _ => hus'.not_append_from hfirst,
      fun _ => hus'.not_append_where hopenvs hsecond hvs'⟩
  · rintro ⟨hnotfirst, hnotsecond⟩
    exact hquery.isolated hopenus hopenvs hnotfirst hnotsecond

namespace Arguments

/-- Without a full query, the three clauses of an accepted query are parsed one by one to what is
in it exactly if each of the first two is a sequence of complete tokens, and neither the text up to
the keyword of the source nor the text up to the keyword of the filter is accepted. -/
theorem isolated_iff {arguments : Arguments} {query : Query}
    (hquery : List.lookup .query arguments.settings = none)
    (h : Query.parse arguments.queryText = .ok query) :
    (Selector.parseList (arguments.clause .select) = .ok query.select ∧
        Selector.parse (arguments.clause .source) = .ok query.source ∧
          Filter.parse (arguments.clause .filter) = .ok query.filter) ↔
      Tokenized (arguments.clause .select) ∧ Tokenized (arguments.clause .source) ∧
        (∀ other, Query.parse ("SELECT " ++ arguments.clause .select ++ " FROM") ≠ .ok other) ∧
          ∀ other, Query.parse ("SELECT " ++ arguments.clause .select ++ " FROM " ++
            arguments.clause .source ++ " WHERE") ≠ .ok other := by
  rw [queryText, hquery] at h
  constructor
  · rintro ⟨hselect, hsource, hfilter⟩
    obtain ⟨ks, hs⟩ := ((Selector.parseList_eq_ok_iff ..).1 hselect).tokenized
    obtain ⟨ls, hf⟩ := ((Selector.parse_eq_ok_iff ..).1 hsource).tokenized
    exact ⟨⟨ks, hs⟩, ⟨ls, hf⟩, (Query.isolated_iff_of_spells hs hf h).1 ⟨hselect, hsource, hfilter⟩⟩
  · rintro ⟨⟨ks, hs⟩, ⟨ls, hf⟩, hapart⟩
    exact (Query.isolated_iff_of_spells hs hf h).2 hapart

/-- A quote that is left open in the selectors is closed in the source, and then the selectors and
the source are not parsed one by one. -/
theorem isolated_iff_quote :
    Query.parse (queryText ⟨"-", [(.select, "'a"), (.source, "b' FROM $")], false⟩) =
        .ok ⟨[.single (.constant (.string "a FROM b"))], .identity, .always⟩ ∧
      ¬(Selector.parseList "'a" = .ok [.single (.constant (.string "a FROM b"))] ∧
        Selector.parse "b' FROM $" = .ok .identity ∧ Filter.parse "$" = .ok .always) := by
  have hkeyword : isKeyword "select" "SELECT" = true ∧ isKeyword "from" "FROM" = true ∧
    isKeyword "where" "WHERE" = true := by decide
  have hquote : Spaced Path [.string "a FROM b", .separator]
      (.single (.constant (.string "a FROM b"))) :=
    .intro (Path.literal (.string _)) blank_separator
  have hroot : Spaced Path [.root, .separator] .identity := .intro (Path.root .nil) blank_separator
  have hclauses := Clauses.intro (.single hquote)
    (.present hkeyword.2.1 blank_separator hroot)
    (.present hkeyword.2.2 blank_separator (.always (.intro (Path.root .nil) blank_nil) rfl))
  have hstatement : Statement _ ⟨[.single (.constant (.string "a FROM b"))], .identity, .always⟩ :=
    Clause.present hkeyword.1 blank_separator hclauses
  have hparse : Query.parse (queryText ⟨"-", [(.select, "'a"), (.source, "b' FROM $")], false⟩) =
      .ok ⟨[.single (.constant (.string "a FROM b"))], .identity, .always⟩ := by
    refine (Query.parse_eq_ok_iff ..).2 ⟨[], _, blank_nil, hstatement, ?_⟩
    have hrest : Spells " FROM $ WHERE $".toList _ [] :=
      .cons_of_eq rfl (.cons_of_eq rfl (.cons_of_eq rfl (.cons_of_eq rfl (.cons_of_eq rfl
        (.cons_of_eq rfl (.cons_of_eq rfl (.cons_of_eq rfl (.nil []))))))))
    exact .cons_of_eq rfl (.cons_of_eq rfl ((Spells.quoted "a FROM b" _).append hrest))
  refine ⟨hparse, fun h => ?_⟩
  obtain ⟨⟨kinds, hspells⟩, -⟩ := (isolated_iff rfl hparse).1 h
  obtain ⟨lexeme, -, hscan, -⟩ := hspells.exists_of_cons
  cases hscan

/-- Behind an empty source, the next keyword is taken for it. -/
theorem parse_queryText_empty_source :
    Query.parse (queryText ⟨"-", [(.source, ""), (.filter, "")], false⟩) =
        .ok ⟨[.identity], .single (.field "WHERE"), .always⟩ ∧
      ∀ selector, Selector.parse "" ≠ .ok selector := by
  have hkeyword : isKeyword "select" "SELECT" = true ∧ isKeyword "from" "FROM" = true := by decide
  have hwhere : Path [.identifier "WHERE"] (.single (.field "WHERE")) := .named (by decide) .nil
  have hclauses := Clauses.intro (.single (.intro (Path.root .nil) blank_separator))
    (.present hkeyword.2 blank_separator (.intro hwhere blank_separator)) .absent
  have hstatement : Statement _ ⟨[.identity], .single (.field "WHERE"), .always⟩ :=
    Clause.present hkeyword.1 blank_separator hclauses
  constructor
  · refine (Query.parse_eq_ok_iff ..).2 ⟨[], _, blank_nil, hstatement, ?_⟩
    exact .cons_of_eq rfl (.cons_of_eq rfl (.cons_of_eq rfl (.cons_of_eq rfl (.cons_of_eq rfl
      (.cons_of_eq rfl (.cons_of_eq rfl (.cons_of_eq rfl (.nil []))))))))
  · intro selector h
    obtain ⟨b, ks, -, hks, hspells⟩ := (Selector.parse_eq_ok_iff ..).1 h
    obtain ⟨kind, ls, rfl, -⟩ := trimmed_path.exists_cons hks
    exact absurd hspells.eq_nil_of_nil (by simp)

end Arguments

end DocQuery
