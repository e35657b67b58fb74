import DocQuery.CommandLine.Arguments
import DocQuery.Proofs.Clauses.Extension

/-!
# Clauses are assembled into a query

The three clauses of the command line are put between keywords as they stand. Each of them is a text
that is parsed on its own, and the query that they make up is parsed to the three results. Nothing
in a clause is taken for a keyword of the query, whatever its names are, because a derivation does
not end before the text of its clause does.

* `Query.parse_assemble`: the query that three texts are assembled into.
* `Arguments.parse_queryText`: the query of the arguments, without a full query among them.
-/

namespace DocQuery

open Grammar.Derivation

namespace Grammar.Derivation

/-! ## White space around a derivation -/

/-- White space after white space is white space. -/
theorem blank_append {b d : List Token.Kind} (hb : Blank b) (hd : Blank d) : Blank (b ++ d) :=
  List.forall_mem_append.2 ⟨hb, hd⟩

/-- The white space after a derivation may go on. -/
theorem Spaced.append_blank {α : Type} {content : List Token.Kind → α → Prop}
    {ks b : List Token.Kind} {result : α} (h : Spaced content ks result) (hb : Blank b) :
    Spaced content (ks ++ b) result := by
  cases h with
  | intro h hd =>
    rw [List.append_assoc]
    exact .intro h (blank_append hd hb)

/-- The white space after a list of selectors may go on. -/
theorem PathList.append_blank {ks b : List Token.Kind} {selectors : List Selector}
    (h : PathList ks selectors) (hb : Blank b) : PathList (ks ++ b) selectors := by
  induction h with
  | single h => exact .single (h.append_blank hb)
  | cons hhead hd _ ih =>
    rw [List.append_assoc]
    exact .cons hhead hd ih

/-- A text without the white space in front is the derivation alone. -/
theorem Written.exists_spells {α : Type} {content : List Token.Kind → α → Prop} {text : String}
    {result : α}
    (hcontent : ∀ {ks}, content ks result → ∃ kind ls, ks = kind :: ls ∧ kind ≠ .separator)
    (h : Written content text result) :
    ∃ ks, content ks result ∧ ks ≠ [] ∧ Spells (text.toList.dropWhile isBlank) ks [] := by
  obtain ⟨b, ks, hb, hks, hspells⟩ := h
  obtain ⟨kind, ls, rfl, hkind⟩ := hcontent hks
  -- only the white space in front is left out, because the derivation does not begin with any
  have hseen : (b ++ kind :: ls).dropWhile (· == .separator) = kind :: ls :=
    (seen_blank_append hb _).trans (seen_cons_of_ne hkind ls)
  have hdrop := hspells.dropBlanks
  rw [hseen] at hdrop
  exact ⟨_, hks, List.cons_ne_nil _ _, hdrop⟩

end Grammar.Derivation

namespace Spells

/-! ## Clauses behind their keywords -/

/-- A keyword and a text behind it, with the space and the white space of the text as one. -/
theorem keyword_append {word : String} {text last : List Char} {kinds : List Token.Kind}
    (hword : isIdentifier word = true) (h : Spells (text.dropWhile isBlank) kinds last) :
    Spells (word.toList ++ ' ' :: text) ([.identifier word] ++ [.separator] ++ kinds) last := by
  have hspace : isBlank ' ' = true := by decide
  rw [List.append_assoc]
  exact (name hword (ends_cons (by decide) text)).append
    (cons_of_eq (Lexeme.scan_of_isBlank text hspace) h)

/-- A keyword and a text behind it, in front of a space. -/
theorem clause {word : String} {text rest : List Char} {kinds : List Token.Kind}
    (hword : isIdentifier word = true) (h : Spells (text.dropWhile isBlank) kinds [])
    (hne : kinds ≠ []) (hrest : rest.dropWhile isBlank = rest) :
    ∃ b, Blank b ∧ Spells (word.toList ++ ' ' :: (text ++ ' ' :: rest))
      ([.identifier word] ++ [.separator] ++ (kinds ++ b)) rest := by
  -- a text with tokens other than white space ends the white space in front of it
  have hdrop : text.dropWhile isBlank ≠ [] := by
    intro hnil
    rw [hnil] at h
    exact hne h.eq_nil_of_nil
  obtain ⟨b, hb, hspells⟩ := h.append_space hrest
  rw [← dropWhile_append_of_dropWhile_ne_nil hdrop] at hspells
  exact ⟨b, hb, keyword_append hword hspells⟩

end Spells

/-! ## The assembled query -/

/-- Three texts that are parsed on their own are assembled into a query that is parsed to the three
results. -/
theorem Query.parse_assemble {s f w : String} {select : List Selector} {source : Selector}
    {filter : Filter} (hselect : Selector.parseList s = .ok select)
    (hsource : Selector.parse f = .ok source) (hfilter : Filter.parse w = .ok filter) :
    Query.parse (assemble s f w) = .ok ⟨select, source, filter⟩ := by
  have hident : isIdentifier "SELECT" = true ∧ isIdentifier "FROM" = true ∧
    isIdentifier "WHERE" = true := by decide
  have hkeyword : isKeyword "select" "SELECT" = true ∧ isKeyword "from" "FROM" = true ∧
    isKeyword "where" "WHERE" = true := by decide
  obtain ⟨ks, hks, hksne, hkstext⟩ :=
    ((Selector.parseList_eq_ok_iff ..).1 hselect).exists_spells PathList.exists_cons
  obtain ⟨ls, hls, hlsne, hlstext⟩ := ((Selector.parse_eq_ok_iff ..).1 hsource).exists_spells
    (Spaced.exists_cons fun _ => Path.exists_cons)
  obtain ⟨ms, hms, -, hmstext⟩ :=
    ((Filter.parse_eq_ok_iff ..).1 hfilter).exists_spells Predicate.exists_cons
  -- the clauses from the last one to the first, each in front of the ones after it
  have hwhere := Spells.keyword_append hident.2.2 hmstext
  obtain ⟨d, hd, hfrom⟩ :=
    Spells.clause hident.2.1 hlstext hlsne (hwhere.dropWhile_isBlank (by simp))
  have hrest := hfrom.append hwhere
  obtain ⟨b, hb, hall⟩ := Spells.clause hident.1 hkstext hksne (hrest.dropWhile_isBlank (by simp))
  have hspells := hall.append hrest
  rw [← toList_assemble] at hspells
  have hclauses := Clauses.intro (hks.append_blank hb)
    (.present hkeyword.2.1 blank_separator (hls.append_blank hd))
    (.present hkeyword.2.2 blank_separator hms)
  have hstatement : Statement _ ⟨select, source, filter⟩ :=
    Clause.present hkeyword.1 blank_separator hclauses
  refine (Query.parse_eq_ok_iff ..).2 ⟨[], _, blank_nil, hstatement, ?_⟩
  simpa using hspells

namespace Arguments

/-- Without a full query, the query of the arguments is parsed to the results of the three clauses,
provided that each of them is parsed on its own. -/
theorem parse_queryText {arguments : Arguments} {select : List Selector} {source : Selector}
    {filter : Filter} (hquery : List.lookup .query arguments.settings = none)
    (hselect : Selector.parseList (arguments.clause .select) = .ok select)
    (hsource : Selector.parse (arguments.clause .source) = .ok source)
    (hfilter : Filter.parse (arguments.clause .filter) = .ok filter) :
    Query.parse arguments.queryText = .ok ⟨select, source, filter⟩ := by
  rw [queryText, hquery]
  exact Query.parse_assemble hselect hsource hfilter

/-- Clauses with white space around them, with keywords in quotes and with fields that are called
like keywords. -/
theorem parse_queryText_keywords :
    Query.parse (queryText ⟨"-", [(.select, "$,'FROM .a'"), (.source, " FROM\t"),
      (.filter, "in in WHERE")], false⟩) =
      .ok ⟨[.identity, .single (.constant (.string "FROM .a"))], .single (.field "FROM"),
        .compare (.single (.field "in")) .within (.single (.field "WHERE"))⟩ := by
  have hfrom : Path [.identifier "FROM"] (.single (.field "FROM")) := .named (by decide) .nil
  have hin : Path [.identifier "in"] (.single (.field "in")) := .named (by decide) .nil
  have hwhere : Path [.identifier "WHERE"] (.single (.field "WHERE")) := .named (by decide) .nil
  have hop : Infix (.identifier "in") .within := .within (by decide)
  refine parse_queryText rfl ?_ ?_ ?_
  · have hquoted := PathList.single (.intro (.literal (.string "FROM .a")) blank_nil)
    have hlist := PathList.cons (.intro (.root .nil) blank_nil) blank_nil hquoted
    refine (Selector.parseList_eq_ok_iff ..).2 ⟨[], _, blank_nil, hlist, ?_⟩
    exact .cons_of_eq rfl (.comma (.quoted "FROM .a" []))
  · -- the blanks on both sides of the name are a separator each
    have hsource := Spaced.intro hfrom blank_separator
    refine (Selector.parse_eq_ok_iff ..).2 ⟨[.separator], _, blank_separator, hsource, ?_⟩
    exact .cons_of_eq rfl (.cons_of_eq rfl (.cons_of_eq rfl (.nil [])))
  · -- the same word is a name first and an operator then
    have hcompare := Predicate.compare (.intro hin blank_separator) hop blank_separator
      (.intro hwhere blank_nil)
    refine (Filter.parse_eq_ok_iff ..).2 ⟨[], _, blank_nil, hcompare, ?_⟩
    exact .cons_of_eq rfl (.cons_of_eq rfl (.cons_of_eq rfl (.cons_of_eq rfl
      (.cons_of_eq rfl (.nil [])))))

end Arguments

end DocQuery
