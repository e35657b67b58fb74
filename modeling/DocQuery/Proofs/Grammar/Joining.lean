import DocQuery.Proofs.Grammar.Acceptance
import DocQuery.Proofs.Grammar.Lookahead
import DocQuery.Proofs.Grammar.Splitting
import Mathlib.Data.List.TakeWhile

/-!
# Selectors are joined as texts

A selector is appended to another one by writing its text right behind the text of the other one.
The first text must not end with white space, the second one has to begin with a dot or with a
bracket, and the first selector must not be a constant. Then the first text ends with a root, a name
or a closing bracket, and neither a dot nor a bracket goes on with any of them, so that the tokens
of the two texts are the tokens of both. In the grammar, a selector that is no constant may be
followed by steps, and the second text consists of steps because of how it begins.

* `Spells.append_of_closed`: the tokens of two texts.
* `Grammar.Derivation.Path.append_chain`: a selector and steps.
* `Selector.parse_append`: the text of two selectors.
-/

namespace DocQuery

open Grammar.Derivation

/-! ## Two texts -/

namespace Lexeme

/-- A dot and an opening bracket do not go on with a root, a name or a closing bracket. -/
theorem continuesKind_of_finishesPath {kind : Token.Kind} (h : FinishesPath kind) {c : Char}
    (hc : c = '.' ∨ c = '[') : continuesKind kind c = false := by
  cases kind with
  | root => rfl
  | bracketClose => rfl
  | identifier name =>
    -- neither of the two is a character of a name
    rcases hc with rfl | rfl
    · exact (by decide : continuesIdentifier '.' = false)
    · exact (by decide : continuesIdentifier '[' = false)
  | _ => exact h.elim

/-- With a dot or an opening bracket a step begins. -/
theorem beginsStep_of_scan {c : Char} {rest : List Char} {lexeme : Lexeme}
    (h : scan c rest = .ok lexeme) (hc : c = '.' ∨ c = '[') : BeginsStep lexeme.kind := by
  rcases hc with rfl | rfl
  · by_cases hrest : ∃ text, rest = '.' :: text
    · obtain ⟨text, rfl⟩ := hrest
      cases h
      trivial
    · rw [scan_dot (by simpa using hrest)] at h
      cases h
      trivial
  · cases h
    trivial

end Lexeme

namespace Spells

/-- Without tokens there is nothing in front of the last text. -/
theorem eq_of_kinds_nil {text last : List Char} (h : Spells text [] last) : text = last := by
  cases h
  rfl

/-- A text that ends with a separator ends with white space. -/
theorem isBlank_getLast? {text : List Char} {kinds : List Token.Kind} (h : Spells text kinds [])
    (hlast : .separator ∈ kinds.getLast?) : ∃ c ∈ text.getLast?, isBlank c = true := by
  generalize hend : ([] : List Char) = last at h
  induction h with
  | nil => cases hlast
  | @cons c rest last lexeme later hhead htail ih =>
    subst hend
    have htext := Lexeme.source_append_rest_of_scan hhead
    cases later with
    | nil =>
      -- the separator is the last token, and nothing is behind it
      have hsep : lexeme.kind = .separator := by simpa using hlast
      obtain ⟨hc, hrest⟩ := Lexeme.eq_of_scan_separator hhead hsep
      rw [htail.eq_of_kinds_nil] at hrest
      have hall : ∀ d ∈ c :: rest, isBlank d = true :=
        List.forall_mem_cons.2 ⟨hc, List.dropWhile_eq_nil_iff.1 hrest.symm⟩
      exact ⟨_, List.getLast_mem_getLast? (List.cons_ne_nil c rest), hall _ (List.getLast_mem _)⟩
    | cons kind others =>
      obtain ⟨d, hd, hblank⟩ := ih (by rwa [List.getLast?_cons_cons] at hlast) rfl
      -- what follows the first token is the end of the text
      refine ⟨d, ?_, hblank⟩
      rw [← htext, List.getLast?_append, Option.mem_def.1 hd]
      rfl

/-- The tokens of a text that ends with a root, a name or a closing bracket, in front of a text that
begins with a dot or a bracket. -/
theorem append_of_closed {text after : List Char} {kinds : List Token.Kind}
    (h : Spells text kinds []) (hclosed : Closed kinds)
    (hafter : ∀ c ∈ after.head?, c = '.' ∨ c = '[') : Spells (text ++ after) kinds after := by
  obtain ⟨read, hread, -, hspells⟩ := h.replace fun kind hkind c hc =>
    .inr (Lexeme.continuesKind_of_finishesPath (hclosed kind hkind) (hafter c hc))
  rw [hread, List.append_nil]
  exact hspells

end Spells

/-! ## A selector and steps -/

namespace Grammar.Derivation

/-- Steps behind steps. -/
theorem Chain.append {ks ls : List Token.Kind} {segments others : List Segment}
    (h : Chain ks segments) (hothers : Chain ls others) :
    Chain (ks ++ ls) (segments ++ others) := by
  induction h with
  | nil => exact hothers
  | cons hhead _ ih =>
    rw [List.append_assoc, List.append_assoc]
    exact .cons hhead ih

/-- A selector that is no constant ends with a root, a name or a closing bracket. -/
theorem Path.closed {ks : List Token.Kind} {selector : Selector} (h : Path ks selector)
    (hconst : ∀ value, .constant value ∉ selector.segments) : Closed ks := by
  rcases h.closed_or_literal with hclosed | ⟨value, -, rfl⟩
  · exact hclosed
  · exact absurd (List.mem_singleton.2 rfl) (hconst value)

/-- Steps behind a selector that is no constant. -/
theorem Path.append_chain {ks ls : List Token.Kind} {selector : Selector} {others : List Segment}
    (h : Path ks selector) (hconst : ∀ value, .constant value ∉ selector.segments)
    (hothers : Chain ls others) : Path (ks ++ ls) ⟨selector.segments ++ others⟩ := by
  cases h with
  | root h => exact .root (h.append hothers)
  | named hname h => exact .named hname (h.append hothers)
  | steps hhead htail =>
    have hpath := Path.steps hhead (htail.append hothers)
    simpa only [← List.append_assoc] using hpath
  | @literal value _ h => exact absurd (List.mem_singleton.2 rfl) (hconst value)

/-- A selector that begins as a step does consists of steps. -/
theorem Path.chain {kind : Token.Kind} {ks : List Token.Kind} {selector : Selector}
    (h : Path (kind :: ks) selector) (hkind : BeginsStep kind) :
    Chain (kind :: ks) selector.segments := by
  generalize hall : kind :: ks = all at h
  -- no root, no name and no literal begins a step
  cases h with
  | root =>
    cases hall
    exact hkind.elim
  | named =>
    cases hall
    exact hkind.elim
  | steps hhead htail => exact .cons hhead htail
  | literal h =>
    cases h
    all_goals
      cases hall
      exact hkind.elim

end Grammar.Derivation

/-! ## The text of two selectors -/

namespace Selector

/-- A text without white space at its end is a selector behind white space. -/
theorem exists_spells_path {text : String} {selector : Selector}
    (h : Selector.parse text = .ok selector)
    (hend : ∀ c ∈ text.toList.getLast?, isBlank c = false) :
    ∃ b ks, Blank b ∧ Path ks selector ∧ Spells text.toList (b ++ ks) [] := by
  obtain ⟨b, _, hb, ⟨hks, hd⟩, hspells⟩ := (Selector.parse_eq_ok_iff ..).1 h
  rename_i ks d
  rcases List.eq_nil_or_concat' d with rfl | ⟨others, kind, rfl⟩
  · rw [List.append_nil] at hspells
    exact ⟨b, ks, hb, hks, hspells⟩
  · -- white space after the selector would be at the end of the text
    obtain rfl := hd kind (by simp)
    obtain ⟨c, hc, hblank⟩ := hspells.isBlank_getLast? (by simp [← List.append_assoc])
    exact absurd hblank (by simp [hend c hc])

/-- A text that begins with a dot or a bracket consists of steps, and of white space after them. -/
theorem exists_spells_chain {text : String} {selector : Selector}
    (h : Selector.parse text = .ok selector) {c : Char} {rest : List Char}
    (htext : text.toList = c :: rest) (hc : c = '.' ∨ c = '[') :
    ∃ ks d, Chain ks selector.segments ∧ Blank d ∧ Spells text.toList (ks ++ d) [] := by
  obtain ⟨b, _, hb, ⟨hks, hd⟩, hspells⟩ := (Selector.parse_eq_ok_iff ..).1 h
  rw [htext] at hspells
  -- the first token of the text begins a step, so there is no white space before the selector
  obtain ⟨lexeme, later, hscan, hkinds, -⟩ := hspells.exists_of_cons
  have hbegins := Lexeme.beginsStep_of_scan hscan hc
  obtain ⟨kind, ls, rfl, -⟩ := hks.exists_cons
  cases b with
  | nil =>
    obtain ⟨rfl, -⟩ := List.cons.inj hkinds
    rw [htext]
    exact ⟨_, _, hks.chain hbegins, hd, hspells⟩
  | cons first b =>
    obtain ⟨rfl, -⟩ := List.cons.inj hkinds
    rw [hb lexeme.kind List.mem_cons_self] at hbegins
    exact hbegins.elim

/-- The text of a selector that is no constant and the text of a selector that begins with a dot or
a bracket, one right behind the other, are the text of the first selector followed by the second. -/
theorem parse_append {s t : String} {first second : Selector}
    (hs : Selector.parse s = .ok first) (ht : Selector.parse t = .ok second)
    (hconst : ∀ value, .constant value ∉ first.segments)
    (hend : ∀ c ∈ s.toList.getLast?, isBlank c = false)
    (hstart : t.toList.head? = some '.' ∨ t.toList.head? = some '[') :
    Selector.parse (s ++ t) = .ok (first ++ second) := by
  obtain ⟨c, rest, htext, hc⟩ : ∃ c rest, t.toList = c :: rest ∧ (c = '.' ∨ c = '[') := by
    simp only [List.head?_eq_some_iff] at hstart
    rcases hstart with ⟨rest, htext⟩ | ⟨rest, htext⟩
    · exact ⟨_, rest, htext, .inl rfl⟩
    · exact ⟨_, rest, htext, .inr rfl⟩
  obtain ⟨b, ks, hb, hks, hspells⟩ := exists_spells_path hs hend
  obtain ⟨ls, d, hls, hd, hspells'⟩ := exists_spells_chain ht htext hc
  -- the last token of the first text is the last one of the selector
  obtain ⟨kind, later, hkinds, -⟩ := hks.exists_cons
  have hclosed : Closed (b ++ ks) := by
    rw [Closed, List.getLast?_append_of_ne_nil b (by simp [hkinds])]
    exact hks.closed hconst
  have hafter : ∀ d ∈ t.toList.head?, d = '.' ∨ d = '[' := by
    rw [htext]
    rintro _ ⟨⟩
    exact hc
  -- the tokens of both texts are those of the first selector and the steps of the second
  have hboth := (hspells.append_of_closed hclosed hafter).append hspells'
  rw [← String.toList_append, List.append_assoc, ← List.append_assoc ks] at hboth
  exact (Selector.parse_eq_ok_iff ..).2
    ⟨b, _, hb, .intro (hks.append_chain hconst hls) hd, hboth⟩

/-- White space stands in front of the first text, behind the second one and inside a bracket, and
the two dots of a descent stand right behind that bracket. -/
theorem parse_append_descent :
    Selector.parse "\ta[ ]" = .ok ⟨[.field "a", .slice none none]⟩ ∧
      Selector.parse "..b " = .ok ⟨[.descent, .field "b"]⟩ ∧
      Selector.parse ("\ta[ ]" ++ "..b ") =
        .ok ⟨[.field "a", .slice none none, .descent, .field "b"]⟩ := by
  have hspace : Blank [.separator] := blank_cons blank_nil
  have hs : Selector.parse "\ta[ ]" = .ok ⟨[.field "a", .slice none none]⟩ := by
    have hbracket := Bracket.intro hspace (.intro .whole blank_nil)
    have hpath : Grammar.Derivation.Path _ ⟨[.field "a", .slice none none]⟩ :=
      .named (by decide) (.cons (.bracket hbracket) .nil)
    refine (Selector.parse_eq_ok_iff ..).2 ⟨_, _, hspace, .intro hpath blank_nil, ?_⟩
    exact .cons_of_eq rfl (.cons_of_eq rfl (.cons_of_eq rfl (.cons_of_eq rfl (.cons_of_eq rfl
      (.nil [])))))
  have ht : Selector.parse "..b " = .ok ⟨[.descent, .field "b"]⟩ := by
    have hpath : Grammar.Derivation.Path _ ⟨[.descent, .field "b"]⟩ :=
      .steps (.descentField "b") .nil
    refine (Selector.parse_eq_ok_iff ..).2 ⟨[], _, blank_nil, .intro hpath hspace, ?_⟩
    exact .cons_of_eq rfl (.cons_of_eq rfl (.cons_of_eq rfl (.nil [])))
  have hconst (value : Json) : .constant value ∉ [Segment.field "a", .slice none none] := by
    simp
  have hend : ∀ c ∈ "\ta[ ]".toList.getLast?, isBlank c = false := by
    rintro _ ⟨⟩
    rfl
  exact ⟨hs, ht, parse_append hs ht hconst hend (.inl rfl)⟩

end Selector

end DocQuery
