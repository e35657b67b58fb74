import DocQuery.Proofs.Grammar.Canonical
import DocQuery.Proofs.RoundTrip.Fraction
import DocQuery.Proofs.RoundTrip.Shortest

/-!
# Canonical texts are derived by the grammar

The text of a canonical selector is a sequence of tokens that the grammar derives, wherever it
stands in front of a space, a comma or the end of a text. The texts of filters and of lists of
selectors put such texts together.

* `Selector.Canonical.exists_path`, `Filter.Canonical.exists_predicate`, `Query.exists_pathList`:
  the tokens of what is written.
-/

namespace DocQuery

open Grammar.Derivation

/-- What may stand after a selector: nothing, a space or a comma. -/
def Stops (rest : List Char) : Prop := ∀ c ∈ rest.head?, c = ' ' ∨ c = ','

/-- What stands after a selector has no character of a class without spaces and commas in front. -/
theorem Stops.ends {rest : List Char} (h : Stops rest) {class? : Char → Bool}
    (hspace : class? ' ' = false) (hcomma : class? ',' = false) : Ends class? rest := by
  intro c hc
  rcases h c hc with rfl | rfl
  · exact hspace
  · exact hcomma

/-- The end of a text may stand after a selector. -/
theorem stops_nil : Stops [] := by
  rintro _ ⟨⟩

/-- A space may stand after a selector. -/
theorem stops_space (rest : List Char) : Stops (' ' :: rest) := by
  rintro _ ⟨⟩
  exact .inl rfl

/-- A comma may stand after a selector. -/
theorem stops_comma (rest : List Char) : Stops (',' :: rest) := by
  rintro _ ⟨⟩
  exact .inr rfl

/-- A text that begins with a character outside a class. -/
theorem ends_cons {class? : Char → Bool} {c : Char} (h : class? c = false) (rest : List Char) :
    Ends class? (c :: rest) := by
  rintro _ ⟨⟩
  exact h

namespace Spells

/-! ## Single tokens -/

/-- An identifier is a single token. -/
theorem name {name : String} {rest : List Char} (h : isIdentifier name = true)
    (hrest : Ends continuesIdentifier rest) :
    Spells (name.toList ++ rest) [.identifier name] rest := by
  cases hname : name.toList with
  | nil => simp [isIdentifier, hname] at h
  | cons c cs => exact cons_of_eq (Lexeme.scan_name hname h hrest) (.nil _)

/-- A quoted text is a single token. -/
theorem quoted (text : String) (rest : List Char) :
    Spells (Selector.quoted text ++ rest) [.string text] rest := by
  rw [Selector.quoted, List.cons_append, List.append_assoc]
  exact cons_of_eq (Lexeme.scan_quoted text rest) (.nil _)

/-- What is recognised as a number is a single token. -/
theorem number {text source rest : List Char} {kind : Token.Kind}
    (hfirst : ∃ c cs, text = c :: cs ∧ c.isDigit = true)
    (h : Lexeme.scanNumber (text ++ rest) = .ok ⟨kind, source, rest⟩) :
    Spells (text ++ rest) [kind] rest := by
  obtain ⟨c, cs, rfl, hc⟩ := hfirst
  rw [List.cons_append, ← Lexeme.scan_of_isDigit _ hc] at h
  exact cons_of_eq h (.nil _)

/-- The digits of an integer are a single token. -/
theorem digits {n : Nat} {kind : Token.Kind} {rest : List Char}
    (hkind : Lexeme.integerKind (Nat.toDigits 10 n) = .ok kind)
    (hrest : Ends Lexeme.continuesNumber rest) :
    Spells (Nat.toDigits 10 n ++ rest) [kind] rest := by
  have hpoint : ∀ after, rest ≠ '.' :: after := by
    rintro after rfl
    exact absurd (hrest '.' rfl) (by decide)
  exact number (Lexeme.exists_toDigits_eq_cons n)
    (Lexeme.scanNumber_toDigits hkind (Lexeme.ends_isDigit hrest) hpoint)

/-- A word that is not negative is a single token. -/
theorem word {value : Int64} {rest : List Char} (h : 0 ≤ value.toInt)
    (hrest : Ends Lexeme.continuesNumber rest) :
    Spells (Json.intText value.toInt ++ rest) [.integer value] rest := by
  -- the digits are those of the word as a natural number
  have hlt : value.toInt.natAbs < 2 ^ 63 := by
    have := value.toInt_lt
    omega
  have hvalue : Int64.ofNat value.toInt.natAbs = value := by
    apply Int64.toInt.inj
    rw [Int64.toInt_ofNat_of_lt hlt]
    omega
  have hkind := Lexeme.integerKind_of_lt hlt
  rw [hvalue] at hkind
  rw [Json.intText, if_neg (Int.not_lt.2 h)]
  exact digits hkind hrest

/-- A decimal number with a point is a single token. -/
theorem fraction {value : Binary64} {rest : List Char} (h : value.negative = false)
    (hrest : Ends Lexeme.continuesNumber rest) :
    Spells (Json.floatText Selector.floatLayout value ++ rest) [.float (some value)] rest := by
  have htext := Decimal.fractionText_text (value.shortest .even)
  have hvalue := Binary64.ofDecimal?_shortest .even value
  rw [h] at hvalue
  rw [Json.floatText, h, ← hvalue]
  exact number htext.exists_cons (Lexeme.scanNumber_append htext hrest)

/-! ## Steps and literals -/

/-- Two dots are a single token. -/
theorem dots {text last : List Char} {kinds : List Token.Kind} (h : Spells text kinds last) :
    Spells ('.' :: '.' :: text) (.dotDot :: kinds) last :=
  cons_of_eq rfl h

/-- A dot and an identifier are two tokens. -/
theorem dotName {name : String} {rest : List Char} (h : isIdentifier name = true)
    (hrest : Ends continuesIdentifier rest) :
    Spells ('.' :: (name.toList ++ rest)) [.dot, .identifier name] rest := by
  refine cons_of_eq (Lexeme.scan_dot ?_) (Spells.name h hrest)
  -- a second dot would belong to the first one, but no name begins with one
  intro after hafter
  cases hname : name.toList with
  | nil => simp [isIdentifier, hname] at h
  | cons c cs =>
    rw [hname] at hafter
    cases hafter
    simp only [isIdentifier, hname, Bool.and_eq_true] at h
    exact absurd h.1 (by decide)

/-- What stands in a bracket is put between two more tokens. -/
theorem bracket {inside : List Char} {kinds : List Token.Kind} (rest : List Char)
    (h : Spells (inside ++ ']' :: rest) kinds (']' :: rest)) :
    Spells ('[' :: (inside ++ [']']) ++ rest)
      ([.bracketOpen] ++ [] ++ kinds ++ [.bracketClose]) rest := by
  rw [List.cons_append, List.append_assoc]
  exact cons_of_eq rfl (h.append (cons_of_eq rfl (.nil _)))

end Spells

/-! ## Steps and literals -/

namespace Selector

/-- The tokens of a bound of a slice. -/
theorem exists_bound {bound : Option Int64} {rest : List Char}
    (h : ∀ value ∈ bound, 0 ≤ value.toInt) (hrest : Ends Lexeme.continuesNumber rest) :
    ∃ ks, Bound ks bound ∧ Spells (boundText bound ++ rest) ks rest := by
  cases bound with
  | none => exact ⟨_, .absent, .nil _⟩
  | some value => exact ⟨_, .present value, Spells.word (h value rfl) hrest⟩

/-- The tokens between the brackets of a slice. -/
theorem exists_slice {first last : Option Int64} (hfirst : ∀ bound ∈ first, 0 ≤ bound.toInt)
    (hlast : ∀ bound ∈ last, 0 ≤ bound.toInt) (rest : List Char) :
    ∃ ks, Content ks (.slice first last) ∧
      Spells (boundText first ++ ':' :: boundText last ++ ']' :: rest) ks (']' :: rest) := by
  have hcolon : Ends Lexeme.continuesNumber (':' :: (boundText last ++ ']' :: rest)) :=
    ends_cons (by decide) _
  obtain ⟨ks, hks, hkstext⟩ := exists_bound hfirst hcolon
  obtain ⟨ls, hls, hlstext⟩ := exists_bound hlast (ends_cons (c := ']') (by decide) rest)
  refine ⟨_, .slice (.intro hks blank_nil) blank_nil hls, ?_⟩
  rw [List.append_assoc, List.append_nil, List.append_nil, List.append_assoc]
  exact hkstext.append (.cons_of_eq rfl hlstext)

/-- The tokens of a segment that is written in brackets. -/
theorem exists_bracket {segment : Segment} (h : segment.IsStep)
    (hname : ∀ name, segment = .field name → isIdentifier name = false) (rest : List Char) :
    ∃ ks, Bracket ks segment ∧ Spells (segmentText segment ++ rest) ks rest := by
  -- the brackets are put around any content in the same way
  have hwrap (inside : List Char) {ks : List Token.Kind} (hcontent : Content ks segment)
      (hinside : Spells (inside ++ ']' :: rest) ks (']' :: rest)) :
      ∃ ks, Bracket ks segment ∧ Spells ('[' :: (inside ++ [']']) ++ rest) ks rest := by
    refine ⟨_, .intro blank_nil (.intro hcontent blank_nil), ?_⟩
    rw [List.append_nil ks]
    exact hinside.bracket
  cases segment with
  | field name =>
    rw [segmentText, if_neg (Bool.eq_false_iff.1 (hname name rfl))]
    exact hwrap _ (.name name) (.quoted name _)
  | index position => exact hwrap _ (.position position) (.word h (ends_cons (by decide) rest))
  | slice first last =>
    obtain ⟨ks, hks, htext⟩ := exists_slice h.1 h.2 rest
    have hbounds := hwrap _ hks htext
    -- a slice without bounds is written without the colon between them
    cases first with
    | some first => simpa [segmentText] using hbounds
    | none =>
      cases last with
      | some last => simpa [segmentText] using hbounds
      | none => exact hwrap [] .whole (.nil _)
  | _ => exact h.elim

/-- The tokens of a step after something other than a descent. -/
theorem exists_step {segment : Segment} (h : segment.IsStep) {rest : List Char}
    (hrest : Ends continuesIdentifier rest) :
    ∃ ks, Step ks [segment] ∧ Spells (segmentTextAfter false segment ++ rest) ks rest := by
  -- only a name that is an identifier is written without brackets
  by_cases hname : ∃ name, segment = .field name ∧ isIdentifier name = true
  · obtain ⟨name, rfl, hname⟩ := hname
    refine ⟨_, .field name, ?_⟩
    rw [segmentTextAfter, Bool.false_and, if_neg (by decide), segmentText, if_pos hname]
    exact .dotName hname hrest
  · obtain ⟨ks, hks, htext⟩ := exists_bracket h (by simpa using hname) rest
    refine ⟨ks, .bracket hks, ?_⟩
    cases segment <;> exact htext

/-- The tokens of a descent and a step. -/
theorem exists_descent {segment : Segment} (h : segment.IsStep) {rest : List Char}
    (hrest : Ends continuesIdentifier rest) :
    ∃ ks, Step ks [.descent, segment] ∧
      Spells (segmentText .descent ++ segmentTextAfter true segment ++ rest) ks rest := by
  by_cases hname : ∃ name, segment = .field name ∧ isIdentifier name = true
  · obtain ⟨name, rfl, hname⟩ := hname
    refine ⟨_, .descentField name, ?_⟩
    -- the two dots of the descent take the place of the dot before the name
    rw [segmentTextAfter, Bool.true_and, if_pos hname]
    exact .dots (.name hname hrest)
  · obtain ⟨ks, hks, htext⟩ := exists_bracket h (by simpa using hname) rest
    refine ⟨_, .descentBracket hks, .dots ?_⟩
    have hafter : segmentTextAfter true segment = segmentText segment := by
      cases segment with
      | field name =>
        have hno : isIdentifier name = false := by simpa using hname
        rw [segmentTextAfter, hno]
        rfl
      | _ => rfl
    rw [hafter]
    exact htext

/-- A step begins with a dot or a bracket. -/
theorem ends_segmentTextAfter {segment : Segment} (h : segment.IsStep) (rest : List Char) :
    Ends continuesIdentifier (segmentTextAfter false segment ++ rest) := by
  have hdot (after : List Char) : Ends continuesIdentifier ('.' :: after) :=
    ends_cons (by decide) after
  have hbracket (after : List Char) : Ends continuesIdentifier ('[' :: after) :=
    ends_cons (by decide) after
  cases segment with
  | field name =>
    rw [segmentTextAfter, Bool.false_and, if_neg (by decide), segmentText]
    split
    · exact hdot _
    · exact hbracket _
  | index position => exact hbracket _
  | slice first last =>
    cases first <;> cases last <;> exact hbracket _
  | _ => exact h.elim

/-- What follows a name in a chain does not go on as a name. -/
theorem ends_segmentsText {segments : List Segment} (h : Segment.IsChain segments)
    {rest : List Char} (hrest : Stops rest) :
    Ends continuesIdentifier (segmentsText false segments ++ rest) := by
  cases h with
  | nil => exact hrest.ends (by decide) (by decide)
  | step h _ =>
    rw [segmentsText, List.append_assoc]
    exact ends_segmentTextAfter h _
  | descent _ _ => exact ends_cons (by decide) _

/-- The tokens of a chain. -/
theorem exists_chain {segments : List Segment} (h : Segment.IsChain segments) {rest : List Char}
    (hrest : Stops rest) :
    ∃ ks, Chain ks segments ∧ Spells (segmentsText false segments ++ rest) ks rest := by
  induction h with
  | nil => exact ⟨[], .nil, .nil _⟩
  | step h hothers ih =>
    obtain ⟨ls, hls, hlstext⟩ := ih
    obtain ⟨ks, hks, hkstext⟩ := exists_step h (ends_segmentsText hothers hrest)
    refine ⟨_, .cons hks hls, ?_⟩
    rw [segmentsText, h.isDescent_eq_false, List.append_assoc]
    exact hkstext.append hlstext
  | descent h hothers ih =>
    obtain ⟨ls, hls, hlstext⟩ := ih
    obtain ⟨ks, hks, hkstext⟩ := exists_descent h (ends_segmentsText hothers hrest)
    refine ⟨_, .cons hks hls, ?_⟩
    -- the descent and its step are one step of the grammar, but two segments of the text
    have htext := hkstext.append hlstext
    rw [← h.isDescent_eq_false] at htext
    simpa [segmentsText, segmentTextAfter, Segment.isDescent] using htext

/-- The tokens of an integer, which depend on its size. -/
theorem exists_integer {value : Int} (hrange : -2 ^ 63 ≤ value ∧ value < 2 ^ 64) (h : 0 ≤ value)
    {rest : List Char} (hrest : Ends Lexeme.continuesNumber rest) :
    ∃ ks, Literal ks (.number (.int value hrange)) ∧
      Spells (Json.intText value ++ rest) ks rest := by
  obtain ⟨n, rfl⟩ := Int.eq_ofNat_of_zero_le h
  have hdigits : Json.intText n = Nat.toDigits 10 n := by
    rw [Json.intText, if_neg (by omega), Int.natAbs_natCast]
  rw [hdigits]
  -- below `2 ^ 63` the token is a signed word, from there on an unsigned one
  by_cases hlt : n < 2 ^ 63
  · have hvalue : Number.ofInt64 (.ofNat n) = .int n hrange := by
      simp only [Number.ofInt64, Int64.toInt_ofNat_of_lt hlt]
    have hliteral := Literal.integer (.ofNat n)
    rw [hvalue] at hliteral
    exact ⟨_, hliteral, .digits (Lexeme.integerKind_of_lt hlt) hrest⟩
  · have hle : n < 2 ^ 64 := by omega
    have hvalue : Number.ofUInt64 (.ofNat n) = .int n hrange := by
      simp only [Number.ofUInt64, UInt64.toNat_ofNat_of_lt' hle]
    have hliteral := Literal.unsigned (.ofNat n)
    rw [hvalue] at hliteral
    exact ⟨_, hliteral, .digits (Lexeme.integerKind_of_le (Nat.not_lt.1 hlt) hle) hrest⟩

/-- The tokens of a literal. -/
theorem exists_literal {value : Json} (h : value.IsLiteral) {rest : List Char}
    (hrest : Stops rest) :
    ∃ ks, Literal ks value ∧ Spells (constantText value ++ rest) ks rest := by
  have hname : Ends continuesIdentifier rest := hrest.ends (by decide) (by decide)
  have hnumber : Ends Lexeme.continuesNumber rest := hrest.ends (by decide) (by decide)
  cases value with
  | null =>
    have hword : isIdentifier "null" = true := by decide
    exact ⟨_, .null, .name hword hname⟩
  | bool value =>
    cases value with
    | true =>
      have hword : isIdentifier "true" = true := by decide
      exact ⟨_, .true, .name hword hname⟩
    | false =>
      have hword : isIdentifier "false" = true := by decide
      exact ⟨_, .false, .name hword hname⟩
  | string value => exact ⟨_, .string value, .quoted value rest⟩
  | number value =>
    cases value with
    | float value => exact ⟨_, .float value, .fraction h hnumber⟩
    | int value hrange => exact exists_integer hrange h hnumber
  | _ => exact h.elim

/-- A chain that is not empty is a path. -/
theorem path_of_chain {ks : List Token.Kind} {segments : List Segment} (h : Chain ks segments)
    (hne : segments ≠ []) : Path ks ⟨segments⟩ := by
  cases h with
  | nil => exact absurd rfl hne
  | cons hhead htail => exact .steps hhead htail

/-- The tokens of a canonical selector. -/
theorem Canonical.exists_path {selector : Selector} (h : selector.Canonical) {rest : List Char}
    (hrest : Stops rest) : ∃ ks, Path ks selector ∧ Spells (selector.chars ++ rest) ks rest := by
  cases h with
  | @chain segments h =>
    -- a chain without segments is written as the root alone
    cases segments with
    | nil => exact ⟨_, .root .nil, .cons_of_eq rfl (.nil rest)⟩
    | cons segment others =>
      obtain ⟨ks, hks, htext⟩ := exists_chain h hrest
      exact ⟨ks, path_of_chain hks (List.cons_ne_nil _ _), htext⟩
  | literal h =>
    obtain ⟨ks, hks, htext⟩ := exists_literal h hrest
    refine ⟨ks, .literal hks, ?_⟩
    rw [chars, single, isIdentity, if_neg (by simp)]
    simpa [segmentsText, segmentTextAfter, segmentText] using htext

end Selector

/-! ## Filters and queries -/

namespace Spells

/-- A token other than white space does not begin with a blank. -/
theorem dropWhile_isBlank {text last : List Char} {kind : Token.Kind} {kinds : List Token.Kind}
    (h : Spells text (kind :: kinds) last) (hkind : kind ≠ .separator) :
    text.dropWhile isBlank = text := by
  cases h with
  | @cons c rest _ lexeme _ hhead _ =>
    refine List.dropWhile_cons_of_neg ?_
    intro hblank
    obtain rfl := Except.ok.inj ((Lexeme.scan_of_isBlank rest hblank).symm.trans hhead)
    exact hkind rfl

/-- A space in front of a text that does not begin with a blank is a separator. -/
theorem separator {text : List Char} (h : text.dropWhile isBlank = text) :
    Spells (' ' :: text) [.separator] text := by
  have hscan := Lexeme.scan_of_isBlank text (show isBlank ' ' = true by decide)
  rw [h] at hscan
  exact cons_of_eq hscan (.nil _)

/-- A space in front of tokens other than white space is a separator. -/
theorem space {text last : List Char} {kind : Token.Kind} {kinds : List Token.Kind}
    (h : Spells text (kind :: kinds) last) (hkind : kind ≠ .separator) :
    Spells (' ' :: text) (.separator :: kind :: kinds) last :=
  (separator (h.dropWhile_isBlank hkind)).append h

/-- A comma is a single token. -/
theorem comma {text last : List Char} {kinds : List Token.Kind} (h : Spells text kinds last) :
    Spells (',' :: text) (.comma :: kinds) last :=
  cons_of_eq rfl h

/-- The symbol of an operator in front of a space is a single token. -/
theorem symbol (op : Operator) (rest : List Char) :
    ∃ kind, Infix kind op ∧ kind ≠ .separator ∧
      Spells (op.symbol.toList ++ ' ' :: rest) [kind] (' ' :: rest) := by
  have hspace : Ends continuesIdentifier (' ' :: rest) := ends_cons (by decide) rest
  cases op with
  | within =>
    have hword : Infix (.identifier "in") .within := .within (by decide)
    exact ⟨_, hword, by simp, .name (by decide) hspace⟩
  | like =>
    have hword : Infix (.identifier "like") .like := .like (by decide)
    exact ⟨_, hword, by simp, .name (by decide) hspace⟩
  | _ => exact ⟨_, .symbol _, by simp, .cons_of_eq rfl (.nil _)⟩

end Spells

/-- A separator is white space. -/
theorem blank_separator : Blank [.separator] := blank_cons blank_nil

/-- The tokens of a canonical filter. -/
theorem Filter.Canonical.exists_predicate {filter : Filter} (h : filter.Canonical) :
    ∃ ks, Predicate ks filter ∧ Spells filter.chars ks [] := by
  cases h with
  | always => exact ⟨_, .always (.intro (.root .nil) blank_nil) rfl, .cons_of_eq rfl (.nil _)⟩
  | «exists» h hid =>
    obtain ⟨ks, hks, htext⟩ := h.exists_path stops_nil
    refine ⟨_, .exists (.intro hks blank_nil) hid, ?_⟩
    simpa [chars] using htext
  | @compare lhs rhs op hlhs hrhs =>
    obtain ⟨ls, hls, hlstext⟩ := hrhs.exists_path stops_nil
    obtain ⟨kind, hop, hkind, hoptext⟩ := Spells.symbol op rhs.chars
    obtain ⟨ks, hks, hkstext⟩ :=
      hlhs.exists_path (stops_space (op.symbol.toList ++ ' ' :: rhs.chars))
    obtain ⟨first, others, rfl, hfirst⟩ := hls.exists_cons
    rw [List.append_nil] at hlstext
    -- each of the two spaces is a separator before the token that follows it
    have hright := hoptext.append (hlstext.space hfirst)
    have hboth := hkstext.append (hright.space hkind)
    have hderived := Predicate.compare (.intro hks blank_separator) hop blank_separator
      (.intro hls blank_nil)
    refine ⟨_, hderived, ?_⟩
    simpa [chars] using hboth

namespace Query

/-- The text of a single selector. -/
theorem listChars_singleton (selector : Selector) : listChars [selector] = selector.chars := by
  simp [listChars]

/-- The text of several selectors. -/
theorem listChars_cons_cons (first second : Selector) (others : List Selector) :
    listChars (first :: second :: others) =
      first.chars ++ ',' :: ' ' :: listChars (second :: others) := by
  simp [listChars, List.intercalate]

/-- The tokens of canonical selectors. -/
theorem exists_pathList {selectors : List Selector} (hne : selectors ≠ [])
    (h : ∀ selector ∈ selectors, selector.Canonical) {rest : List Char} (hrest : Stops rest) :
    ∃ ks, PathList ks selectors ∧ Spells (listChars selectors ++ rest) ks rest := by
  induction selectors with
  | nil => exact absurd rfl hne
  | cons first others ih =>
    have ⟨hfirst, hothers⟩ := List.forall_mem_cons.1 h
    cases others with
    | nil =>
      obtain ⟨ks, hks, htext⟩ := hfirst.exists_path hrest
      rw [listChars_singleton]
      exact ⟨_, .single (.intro hks blank_nil), by simpa using htext⟩
    | cons second others =>
      -- the space after the comma is a separator, because no selector begins with a blank
      obtain ⟨ls, hls, hlstext⟩ := ih (List.cons_ne_nil _ _) hothers
      obtain ⟨kind, later, rfl, hkind⟩ := hls.exists_cons
      obtain ⟨ks, hks, hkstext⟩ :=
        hfirst.exists_path (stops_comma (' ' :: (listChars (second :: others) ++ rest)))
      have hcomma := Spells.comma (hlstext.space hkind)
      refine ⟨_, .cons (.intro hks blank_nil) blank_separator hls, ?_⟩
      have htext := hkstext.append hcomma
      rw [listChars_cons_cons]
      simpa using htext

/-- The characters of a query that is assembled from its clauses. -/
theorem toList_assemble (select source filter : String) :
    (assemble select source filter).toList = "SELECT".toList ++ ' ' :: (select.toList ++
      ' ' :: ("FROM".toList ++ ' ' :: (source.toList ++
        ' ' :: ("WHERE".toList ++ ' ' :: filter.toList)))) := by
  simp [assemble]

/-- The text of a query is made of words and of the texts of its parts. -/
theorem toList_text (query : Query) :
    query.text.toList = "SELECT".toList ++ ' ' :: (listChars query.select ++
      ' ' :: ("FROM".toList ++ ' ' :: (query.source.chars ++
        ' ' :: ("WHERE".toList ++ ' ' :: query.filter.chars)))) := by
  simp only [text, toList_assemble, Selector.text, Filter.text, String.toList_ofList]

end Query

end DocQuery
