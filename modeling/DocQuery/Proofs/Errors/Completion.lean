import DocQuery.Proofs.Grammar.Ahead
import DocQuery.Proofs.Grammar.Lookahead
import DocQuery.Proofs.RoundTrip.Writing

/-!
# Tokens that complete a text

Where a parse fails, it has passed some tokens. They can be completed if they are the beginning of a
derivation, and if a text of what is missing can be put behind them. The second part is not a matter
of course: the characters of a token may go on with the token before it. Brackets and the root do
not go on with any token, and a name does not go on with a dot.

* `Grammar.Completes`: tokens that can be put behind others.
* `Grammar.Halts`: the tokens that a parse has passed where it fails.
* `Grammar.Completable`: a parse fails behind the beginning of a derivation.
-/

namespace DocQuery

namespace Grammar

open Parse Grammar.Derivation

/-! ## Texts behind tokens -/

/-- Tokens of the first kinds, whatever stands before and behind them, remain such when what is
behind them is replaced by a text of tokens of the second kinds. -/
def Completes (ks ms : List Token.Kind) : Prop :=
  ∀ ⦃text earlier last⦄, Spells text (earlier ++ ks) last →
    ∃ read suffix, text = read ++ last ∧ Spells (read ++ suffix) (earlier ++ ks ++ ms) []

namespace Completes

/-- A text that does not go on with the last token completes the tokens. -/
theorem of_spells {ks ms : List Token.Kind} {suffix : List Char} (hsuffix : Spells suffix ms [])
    (hends : ∀ earlier, ∀ kind ∈ (earlier ++ ks).getLast?,
      Ends (Lexeme.continuesKind kind) suffix) : Completes ks ms := by
  intro text earlier last h
  obtain ⟨read, hread, -, hspells⟩ := h.replace fun kind hkind c hc =>
    .inr (hends earlier kind hkind c hc)
  exact ⟨read, suffix, hread, hspells.append hsuffix⟩

/-- A text that goes on with no token completes any tokens. -/
theorem of_apart {ms : List Token.Kind} {c : Char} {rest : List Char}
    (hsuffix : Spells (c :: rest) ms []) (htoken : Lexeme.continuesToken c = false)
    (hblank : isBlank c = false) (ks : List Token.Kind) : Completes ks ms := by
  refine of_spells hsuffix fun earlier kind _ => ends_cons ?_ rest
  -- white space goes on with blanks only, any other token with a character of some class
  by_cases hkind : kind = .separator
  · rw [hkind]
    exact hblank
  · rw [Bool.eq_false_iff]
    intro hgoes
    exact absurd (Lexeme.continuesToken_of_continuesKind hkind hgoes) (by simp [htoken])

/-- Nothing may be missing. -/
theorem nil (ks : List Token.Kind) : Completes ks [] := by
  refine of_spells (.nil []) fun earlier kind _ => ?_
  rintro c ⟨⟩

/-- The root may be put behind any tokens. -/
theorem root (ks : List Token.Kind) : Completes ks [.root] := by
  have hroot : Spells ['$'] [.root] [] := .cons_of_eq rfl (.nil [])
  exact of_apart hroot (by decide) (by decide) ks

/-- A closing bracket may be put behind any tokens. -/
theorem close (ks : List Token.Kind) : Completes ks [.bracketClose] := by
  have hclose : Spells [']'] [.bracketClose] [] := .cons_of_eq rfl (.nil [])
  exact of_apart hclose (by decide) (by decide) ks

/-- A pair of brackets may be put behind any tokens. -/
theorem brackets (ks : List Token.Kind) : Completes ks [.bracketOpen, .bracketClose] := by
  have hpair : Spells ['[', ']'] [.bracketOpen, .bracketClose] [] :=
    .cons_of_eq rfl (.cons_of_eq rfl (.nil []))
  exact of_apart hpair (by decide) (by decide) ks

/-- A name may be put behind a dot. -/
theorem name : Completes [.dot] [.identifier "x"] := by
  have hname : Spells ['x'] [.identifier "x"] [] := .cons_of_eq rfl (.nil [])
  refine of_spells hname fun earlier kind hkind => ?_
  rw [List.getLast?_concat] at hkind
  obtain rfl := Option.some.inj hkind
  exact ends_cons rfl []

/-- What stands before the tokens does not matter. -/
theorem append_left {ks ms : List Token.Kind} (h : Completes ks ms) (js : List Token.Kind) :
    Completes (js ++ ks) ms := by
  intro text earlier last hspells
  rw [← List.append_assoc] at hspells ⊢
  exact h hspells

end Completes

/-! ## Where a parse fails -/

/-- Tokens of the given kinds lie between the token at hand and the offset of an error. -/
def Halts (cursor : Cursor) (kinds : List Token.Kind) (error : SyntaxError) : Prop :=
  ∀ ⦃text earlier⦄, cursor.Behind text earlier →
    Cursor.Reached text (earlier ++ kinds) error.position

namespace Halts

variable {α : Type} {cursor mid after : Cursor} {ks ls : List Token.Kind} {error : SyntaxError}

/-- A parse that fails at the token at hand has passed nothing. -/
theorem fail {fault : GrammarFault}
    (h : (Parse.fail fault : Parse α) cursor = (.error error, after)) :
    Halts cursor [] error := by
  cases h
  intro text earlier hbehind
  rw [List.append_nil]
  exact hbehind.reached

/-- An error behind a move. -/
theorem of_moves (hmoves : Moves cursor ks mid) (h : Halts mid ls error) :
    Halts cursor (ks ++ ls) error := by
  intro text earlier hbehind
  rw [← List.append_assoc]
  exact h (hmoves.behind _ _ hbehind)

/-- Where no token begins behind the one at hand, that one has been passed, and so has the white
space that is skipped. -/
theorem exists_advance {kind : Token.Kind} (hkind : cursor.token.kind = kind)
    (hne : kind ≠ .endOfInput) (h : advance cursor = (.error error, after)) :
    ∃ b, Blank b ∧ (cursor.lexer.skips = false → b = []) ∧ Halts cursor ([kind] ++ b) error := by
  -- the error is where the lexer stands, behind the token at hand and the white space
  obtain ⟨b, hb, hnone, hspells, hoffset⟩ := Cursor.exists_skipBlanks cursor.lexer
  refine ⟨b, hb, hnone, fun text earlier hbehind => ⟨cursor.lexer.skipBlanks.rest, ?_, ?_⟩⟩
  · rw [← List.append_assoc]
    exact (hbehind.spells kind hkind hne).append hspells
  · rw [← hbehind.offset, ← hoffset, Cursor.position_of_advance h]

/-- An error under a flag of its own. -/
theorem withPolicy {skip : Bool} {inner : Parse α}
    (h : Parse.withPolicy skip inner cursor = (.error error, after)) :
    ∃ mid, inner { cursor with lexer := cursor.lexer.push skip } = (.error error, mid) ∧
      ∀ kinds, Halts { cursor with lexer := cursor.lexer.push skip } kinds error →
        Halts cursor kinds error := by
  rw [Parse.withPolicy] at h
  dsimp only at h
  obtain ⟨herror, -⟩ := Prod.mk.inj h
  refine ⟨_, Prod.ext herror rfl, fun kinds hhalts text earlier hbehind => ?_⟩
  exact hhalts ⟨hbehind.reached, hbehind.spells, hbehind.offset⟩

end Halts

/-! ## What has been passed -/

variable {α β : Type} {content : List Token.Kind → α → Prop} {other : List Token.Kind → β → Prop}
  {cursor mid : Cursor} {error : SyntaxError} {ks ms : List Token.Kind}

/-- A parse fails behind a derivation. -/
def StopsBehind (content : List Token.Kind → α → Prop) (cursor : Cursor) (error : SyntaxError) :
    Prop :=
  ∃ ks result, content ks result ∧ Halts cursor ks error

/-- A parse fails behind the beginning of a derivation, the rest of which can be put there. -/
def Completable (content : List Token.Kind → α → Prop) (cursor : Cursor) (error : SyntaxError) :
    Prop :=
  ∃ ks ms result, content (ks ++ ms) result ∧ Completes ks ms ∧ Halts cursor ks error

/-- Behind a derivation nothing is missing. -/
theorem StopsBehind.completable (h : StopsBehind content cursor error) :
    Completable content cursor error := by
  obtain ⟨ks, result, hcontent, hhalts⟩ := h
  exact ⟨ks, [], result, by rwa [List.append_nil], .nil ks, hhalts⟩

/-- What is completed to a derivation is completed to a part of another one behind a move. -/
theorem Completable.of_moves (h : Completable content mid error) (hmoves : Moves cursor ks mid)
    (hother : ∀ {ls result}, content ls result → ∃ result', other (ks ++ ls) result') :
    Completable other cursor error := by
  obtain ⟨ls, ms, result, hcontent, hcompletes, hhalts⟩ := h
  obtain ⟨result', hresult⟩ := hother hcontent
  refine ⟨ks ++ ls, ms, result', ?_, hcompletes.append_left ks, hhalts.of_moves hmoves⟩
  rwa [List.append_assoc]

/-- What is completed to a derivation is completed to another one. -/
theorem Completable.imp (h : Completable content cursor error)
    (hother : ∀ {ls result}, content ls result → ∃ result', other ls result') :
    Completable other cursor error :=
  h.of_moves (.refl cursor) hother

end Grammar

end DocQuery
