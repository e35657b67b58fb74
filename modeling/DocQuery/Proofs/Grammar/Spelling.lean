import DocQuery.Token.Lexer

/-!
# Texts as sequences of tokens

`Spells text kinds rest` says that `text` begins with tokens of the given kinds, one right after
the other, and that `rest` follows them. White space is significant here, so each run of it is a
token of its own. A text is a sequence of tokens in at most one way, because the recogniser is a
function: this is what makes the grammar of tokens a grammar of texts.

* `Lexeme.kind_cases_of_scan`: everything that the recogniser can return.
* `Spells.append`, `Spells.exists_append_of_spells`: sequences of tokens are put together and taken
  apart.
* `Spells.dropBlanks`: leaving out the white space in front leaves out the separators in front.
-/

namespace DocQuery

namespace Lexeme

/-! ## What the recogniser returns -/

/-- The kind of a number: an integer of one of the two sizes, or a decimal that was rounded. -/
def IsNumeral : Token.Kind → Prop
  | .integer value => ∃ n : Nat, n < 2 ^ 63 ∧ value = .ofNat n
  | .unsigned value => ∃ n : Nat, n < 2 ^ 64 ∧ value = .ofNat n
  | .float value => ∃ d, value = Binary64.ofDecimal? false d
  | _ => False

/-- An operator is recognised as one. -/
theorem exists_operator_of_scanOperator {c : Char} {rest : List Char} {lexeme : Lexeme}
    (h : scanOperator c rest = .ok lexeme) : ∃ op, lexeme.kind = .operator op := by
  unfold scanOperator at h
  split at h <;> cases h <;> exact ⟨_, rfl⟩

/-- A quoted text is recognised as a string. -/
theorem exists_string_of_scanString {quote : Char} {rest : List Char} {lexeme : Lexeme}
    (h : scanString quote rest = .ok lexeme) : ∃ value, lexeme.kind = .string value := by
  unfold scanString at h
  split at h <;> cases h
  exact ⟨_, rfl⟩

/-- A number is recognised as a numeral. -/
theorem isNumeral_of_scanNumber {cs : List Char} {lexeme : Lexeme}
    (h : scanNumber cs = .ok lexeme) : IsNumeral lexeme.kind := by
  cases scannedNumber_of_scanNumber h with
  | fraction _ _ _ => exact ⟨_, rfl⟩
  | integer _ hkind =>
    -- the size of the value decides between the two kinds of integers
    unfold integerKind at hkind
    dsimp only at hkind
    split at hkind
    · rename_i hlt
      cases hkind
      exact ⟨_, hlt, rfl⟩
    · split at hkind
      · rename_i hlt
        cases hkind
        exact ⟨_, hlt, rfl⟩
      · cases hkind

/-- Everything that the recogniser can return: a punctuation mark, an operator, a separator, a
string, a number or an identifier. -/
theorem kind_cases_of_scan {c : Char} {rest : List Char} {lexeme : Lexeme}
    (h : scan c rest = .ok lexeme) :
    IsMark lexeme.kind ∨ (∃ op, lexeme.kind = .operator op) ∨
      (isBlank c = true ∧
        lexeme = ⟨.separator, c :: rest.takeWhile isBlank, rest.dropWhile isBlank⟩) ∨
      (∃ value, lexeme.kind = .string value) ∨ IsNumeral lexeme.kind ∨
      (∃ name, lexeme.kind = .identifier name) := by
  cases scanned_of_scan h with
  | mark hmark => exact .inl hmark
  | dotDot _ => exact .inl trivial
  | operator h => exact .inr (.inl (exists_operator_of_scanOperator h))
  | blank hblank => exact .inr (.inr (.inl ⟨hblank, rfl⟩))
  | string h => exact .inr (.inr (.inr (.inl (exists_string_of_scanString h))))
  | number _ h => exact .inr (.inr (.inr (.inr (.inl (isNumeral_of_scanNumber h)))))
  | name _ => exact .inr (.inr (.inr (.inr (.inr ⟨_, rfl⟩))))

/-- A kind that is recognised in front of some text. -/
def IsRecognised (kind : Token.Kind) : Prop :=
  ∃ c rest lexeme, scan c rest = .ok lexeme ∧ lexeme.kind = kind

/-- The kinds that are recognised. -/
theorem IsRecognised.cases {kind : Token.Kind} (h : IsRecognised kind) :
    IsMark kind ∨ (∃ op, kind = .operator op) ∨ kind = .separator ∨
      (∃ value, kind = .string value) ∨ IsNumeral kind ∨ (∃ name, kind = .identifier name) := by
  obtain ⟨c, rest, lexeme, hscan, rfl⟩ := h
  refine (kind_cases_of_scan hscan).imp_right (.imp_right (.imp_left ?_))
  rintro ⟨-, hlexeme⟩
  rw [hlexeme]

/-- The end of input is not recognised in front of a character. -/
theorem kind_ne_endOfInput_of_scan {c : Char} {rest : List Char} {lexeme : Lexeme}
    (h : scan c rest = .ok lexeme) : lexeme.kind ≠ .endOfInput := by
  intro hend
  have hcases := IsRecognised.cases ⟨c, rest, lexeme, h, hend⟩
  simp [IsMark, IsNumeral] at hcases

/-- A separator begins with white space and goes on to the end of it. -/
theorem eq_of_scan_separator {c : Char} {rest : List Char} {lexeme : Lexeme}
    (h : scan c rest = .ok lexeme) (hsep : lexeme.kind = .separator) :
    isBlank c = true ∧ lexeme.rest = rest.dropWhile isBlank := by
  rcases kind_cases_of_scan h with hk | ⟨_, hk⟩ | ⟨hblank, hk⟩ | ⟨_, hk⟩ | hk | ⟨_, hk⟩
  · rw [hsep] at hk; exact hk.elim
  · rw [hsep] at hk; cases hk
  · exact ⟨hblank, by rw [hk]⟩
  · rw [hsep] at hk; cases hk
  · rw [hsep] at hk; exact hk.elim
  · rw [hsep] at hk; cases hk

/-- The characters that are tokens of their own or begin an operator. -/
def marks : List Char := ['$', '*', '[', ']', ',', ':', '.', '<', '>', '=', '!']

/-- A character of a class is none of the characters outside it. -/
theorem not_mem_of_class {class? : Char → Bool} {others : List Char}
    (hothers : others.any class? = false) {c : Char} (h : class? c = true) : c ∉ others := by
  intro hmem
  exact List.any_eq_false.1 hothers c hmem h

/-- A character that is no mark decides by its class what is recognised. -/
theorem scan_of_not_mem_marks {c : Char} (rest : List Char) (h : c ∉ marks) :
    scan c rest =
      if isBlank c then
        .ok ⟨.separator, c :: rest.takeWhile isBlank, rest.dropWhile isBlank⟩
      else if c = '\x27' ∨ c = '\x22' then scanString c rest
      else if c.isDigit then scanNumber (c :: rest)
      else if beginsIdentifier c then
        .ok ⟨.identifier (.ofList (c :: rest.takeWhile continuesIdentifier)),
          c :: rest.takeWhile continuesIdentifier, rest.dropWhile continuesIdentifier⟩
      else .error (.invalidCharacter c) := by
  have hop : ¬(c = '<' ∨ c = '>' ∨ c = '=' ∨ c = '!') := by
    rintro (rfl | rfl | rfl | rfl) <;> exact h (by decide)
  -- the seven punctuation marks are excluded one by one
  unfold scan
  split
  iterate 7 exact absurd (by decide) h
  rw [if_neg hop]

/-- White space is recognised as a separator. -/
theorem scan_of_isBlank {c : Char} (rest : List Char) (h : isBlank c = true) :
    scan c rest = .ok ⟨.separator, c :: rest.takeWhile isBlank, rest.dropWhile isBlank⟩ := by
  have hmark : c ∉ marks := not_mem_of_class (by decide) h
  rw [scan_of_not_mem_marks rest hmark, if_pos h]

end Lexeme

/-! ## Sequences of tokens -/

/-- The text begins with tokens of the given kinds, and the last text follows them. -/
inductive Spells : List Char → List Token.Kind → List Char → Prop
  | nil (text : List Char) : Spells text [] text
  | cons {c : Char} {rest last : List Char} {lexeme : Lexeme} {kinds : List Token.Kind}
      (hhead : Lexeme.scan c rest = .ok lexeme) (htail : Spells lexeme.rest kinds last) :
      Spells (c :: rest) (lexeme.kind :: kinds) last

namespace Spells

/-- A single token in front of a sequence. -/
theorem cons_of_eq {c : Char} {rest after last : List Char} {kind : Token.Kind}
    {source : List Char} {kinds : List Token.Kind}
    (hhead : Lexeme.scan c rest = .ok ⟨kind, source, after⟩) (htail : Spells after kinds last) :
    Spells (c :: rest) (kind :: kinds) last := by
  have h := Spells.cons hhead htail
  exact h

/-- The kinds of a sequence are recognised. -/
theorem forall_isRecognised {text last : List Char} {kinds : List Token.Kind}
    (h : Spells text kinds last) : ∀ kind ∈ kinds, Lexeme.IsRecognised kind := by
  induction h with
  | nil => exact List.forall_mem_nil _
  | cons hhead _ ih => exact List.forall_mem_cons.2 ⟨⟨_, _, _, hhead, rfl⟩, ih⟩

/-- Two sequences one after the other are a sequence. -/
theorem append {text mid last : List Char} {first second : List Token.Kind}
    (h₁ : Spells text first mid) (h₂ : Spells mid second last) :
    Spells text (first ++ second) last := by
  induction h₁ with
  | nil => exact h₂
  | cons hhead _ ih => exact cons hhead (ih h₂)

/-- The tokens at the front of a text are the first ones of all its tokens. -/
theorem exists_append_of_spells {text mid : List Char} {first all : List Token.Kind}
    (h₁ : Spells text first mid) (h₂ : Spells text all []) :
    ∃ others, all = first ++ others ∧ Spells mid others [] := by
  induction h₁ generalizing all with
  | nil => exact ⟨all, rfl, h₂⟩
  | cons hhead _ ih =>
    cases h₂ with
    | cons hhead' htail' =>
      -- the recogniser is a function, so both begin with the same lexeme
      obtain rfl := Except.ok.inj (hhead.symm.trans hhead')
      obtain ⟨others, rfl, hothers⟩ := ih htail'
      exact ⟨others, rfl, hothers⟩

/-- A text without characters has no tokens. -/
theorem eq_nil_of_nil {kinds : List Token.Kind} {last : List Char} (h : Spells [] kinds last) :
    kinds = [] := by
  cases h
  rfl

/-- A text is a sequence of tokens in one way only. -/
theorem kinds_eq {text : List Char} {first second : List Token.Kind} (h₁ : Spells text first [])
    (h₂ : Spells text second []) : first = second := by
  obtain ⟨others, rfl, hothers⟩ := h₁.exists_append_of_spells h₂
  rw [hothers.eq_nil_of_nil, List.append_nil]

/-- The tokens of a text that is not empty. -/
theorem exists_of_cons {c : Char} {rest : List Char} {kinds : List Token.Kind}
    (h : Spells (c :: rest) kinds []) :
    ∃ lexeme later, Lexeme.scan c rest = .ok lexeme ∧ kinds = lexeme.kind :: later ∧
      Spells lexeme.rest later [] := by
  cases h with
  | cons hhead htail => exact ⟨_, _, hhead, rfl, htail⟩

/-- What follows white space does not begin with a separator. -/
theorem dropWhile_separator_eq {text : List Char} {kinds : List Token.Kind}
    (hfirst : ∀ c ∈ text.head?, isBlank c = false) (h : Spells text kinds []) :
    kinds.dropWhile (· == .separator) = kinds := by
  cases h with
  | nil => rfl
  | cons hhead htail =>
    rename_i lexeme later
    have hkind : lexeme.kind ≠ .separator := by
      intro hsep
      have := (Lexeme.eq_of_scan_separator hhead hsep).1
      rw [hfirst _ rfl] at this
      cases this
    rw [List.dropWhile_cons_of_neg (by simpa using hkind)]

/-- The first character after white space is not white space. -/
theorem isBlank_of_head?_dropWhile {text : List Char} {c : Char}
    (h : c ∈ (text.dropWhile isBlank).head?) : isBlank c = false := by
  have := List.head?_dropWhile_not isBlank text
  rw [Option.mem_def.1 h] at this
  simpa using this

/-- Leaving out the white space in front leaves out the separators in front. -/
theorem dropBlanks {text : List Char} {kinds : List Token.Kind} (h : Spells text kinds []) :
    Spells (text.dropWhile isBlank) (kinds.dropWhile (· == .separator)) [] := by
  cases text with
  | nil =>
    rw [h.eq_nil_of_nil]
    exact .nil _
  | cons c rest =>
    by_cases hblank : isBlank c = true
    · -- the white space in front is the first token, and nothing more of it follows
      obtain ⟨lexeme, later, hscan, rfl, htail⟩ := h.exists_of_cons
      obtain rfl := Except.ok.inj ((Lexeme.scan_of_isBlank rest hblank).symm.trans hscan)
      rw [List.dropWhile_cons_of_pos hblank, List.dropWhile_cons_of_pos (by simp),
        dropWhile_separator_eq (fun _ => isBlank_of_head?_dropWhile) htail]
      exact htail
    · -- nothing is left out, neither of the characters nor of the tokens
      rw [List.dropWhile_cons_of_neg hblank,
        dropWhile_separator_eq (by simpa using hblank) h]
      exact h

end Spells

end DocQuery
