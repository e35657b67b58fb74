import DocQuery.Proofs.Grammar.Lookahead
import DocQuery.Proofs.RoundTrip.Writing

/-!
# Tokens of a text that goes on

A text that is a sequence of tokens is one still when it goes on, provided that what follows cannot
be taken for a part of its last token. A space cannot, unless that token is white space itself, and
then the two are one.

* `Lexeme.scan_append_of_ok`: a token does not depend on what follows it.
* `Spells.append_separator`, `Spells.append_space`: the tokens of a text in front of a space.
-/

namespace DocQuery

open Grammar.Derivation

/-! ## Runs of characters -/

/-- What stands after a run of characters that ends within a text goes on as the whole text does. -/
theorem dropWhile_append_of_dropWhile_ne_nil {class? : Char → Bool} {text : List Char}
    (h : text.dropWhile class? ≠ []) (after : List Char) :
    (text ++ after).dropWhile class? = text.dropWhile class? ++ after := by
  rw [List.dropWhile_append, if_neg (by simpa using h)]

namespace Lexeme

/-- The same token in a text that goes on. -/
def followedBy (lexeme : Lexeme) (after : List Char) : Lexeme :=
  { lexeme with rest := lexeme.rest ++ after }

/-- A token does not depend on what follows it. White space is the exception: at the end of a text
it goes on with the white space that follows. -/
theorem scan_append_of_ok {c : Char} {rest after : List Char} {lexeme : Lexeme}
    (hafter : Ends continuesToken after) (h : scan c rest = .ok lexeme)
    (hblank : lexeme.kind = .separator → lexeme.rest ≠ []) :
    scan c (rest ++ after) = .ok (lexeme.followedBy after) := by
  have hreplaces : Replaces (continuesKind lexeme.kind) lexeme.rest (lexeme.rest ++ after) := by
    cases hrest : lexeme.rest with
    | cons d last => exact fun e he => .inl he
    | nil =>
      have hall : Replaces continuesToken [] ([] ++ after) := fun d hd => .inr (hafter d hd)
      exact hall.of_imp fun d =>
        continuesToken_of_continuesKind fun hsep => hblank hsep hrest
  obtain ⟨cs, hsource, hscan⟩ := scan_replace h hreplaces
  have htext := source_append_rest_of_scan h
  rw [hsource] at htext
  have hrest : cs ++ lexeme.rest = rest := (List.cons.inj htext).2
  rw [← hrest, List.append_assoc]
  exact hscan

end Lexeme

/-! ## Texts -/

/-- A space does not go on a token other than white space. -/
theorem Lexeme.ends_space (after : List Char) : Ends continuesToken (' ' :: after) :=
  ends_cons (by decide) after

/-- White space at the end of a text takes up a space that follows the text. -/
theorem Lexeme.scan_append_space {c : Char} {rest after : List Char} {lexeme : Lexeme}
    (h : scan c rest = .ok lexeme) (hkind : lexeme.kind = .separator) (hend : lexeme.rest = [])
    (hafter : after.dropWhile isBlank = after) :
    ∃ source, scan c (rest ++ ' ' :: after) = .ok ⟨.separator, source, after⟩ := by
  obtain ⟨hc, hrest⟩ := eq_of_scan_separator h hkind
  rw [hend] at hrest
  have hspace : isBlank ' ' = true := by decide
  -- all of the text is blank, and so is the space
  have hall : (rest ++ ' ' :: after).dropWhile isBlank = after := by
    rw [List.dropWhile_append, ← hrest, if_pos List.isEmpty_nil, List.dropWhile_cons_of_pos hspace,
      hafter]
  have hscan := scan_of_isBlank (rest ++ ' ' :: after) hc
  rw [hall] at hscan
  exact ⟨_, hscan⟩

/-- The tokens of a text in front of a space, whatever stands behind the space. Where the text ends
with white space, the space belongs to it. -/
theorem Spells.append_separator {text : List Char} {kinds : List Token.Kind}
    (h : Spells text kinds []) :
    ∃ us, (kinds = us ∨ kinds = us ++ [.separator]) ∧
      ∀ after, after.dropWhile isBlank = after →
        Spells (text ++ ' ' :: after) (us ++ [.separator]) after := by
  generalize hlast : ([] : List Char) = last at h
  induction h with
  | nil text =>
    subst hlast
    exact ⟨[], .inl rfl, fun after hafter => .separator hafter⟩
  | @cons c rest last lexeme kinds hhead htail ih =>
    subst hlast
    by_cases hend : lexeme.kind = .separator ∧ lexeme.rest = []
    · obtain ⟨hkind, hrest⟩ := hend
      rw [hrest] at htail
      obtain rfl := htail.eq_nil_of_nil
      refine ⟨[], .inr (congrArg (fun kind => [kind]) hkind), fun after hafter => ?_⟩
      obtain ⟨source, hscan⟩ := Lexeme.scan_append_space hhead hkind hrest hafter
      exact .cons_of_eq hscan (.nil after)
    · obtain ⟨us, hkinds, hspells⟩ := ih rfl
      refine ⟨lexeme.kind :: us, ?_, fun after hafter => ?_⟩
      · exact hkinds.imp (congrArg _) (congrArg _)
      · have hscan := Lexeme.scan_append_of_ok (Lexeme.ends_space after) hhead (by simpa using hend)
        exact .cons_of_eq hscan (hspells after hafter)

/-- A text in front of a space has its own tokens and white space. -/
theorem Spells.append_space {text after : List Char} {kinds : List Token.Kind}
    (h : Spells text kinds []) (hafter : after.dropWhile isBlank = after) :
    ∃ b, Blank b ∧ Spells (text ++ ' ' :: after) (kinds ++ b) after := by
  obtain ⟨us, hkinds, hspells⟩ := h.append_separator
  rcases hkinds with rfl | rfl
  · exact ⟨[.separator], blank_separator, hspells after hafter⟩
  · exact ⟨[], blank_nil, by simpa using hspells after hafter⟩

end DocQuery
