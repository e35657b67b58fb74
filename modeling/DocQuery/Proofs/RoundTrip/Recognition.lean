import DocQuery.Proofs.Grammar.Spelling
import DocQuery.Selector.Printer

/-!
# Recognising what is written

Names, quoted texts and integers that are written in front of a text are recognised again, provided
that the text does not go on with a character that would be taken for a part of them.

* `Lexeme.scan_name`, `Lexeme.scan_quoted`, `Lexeme.scanNumber_toDigits`: the token of each.
-/

namespace DocQuery

/-! ## Characters -/

namespace CodeRanges

/-- Tables whose ranges lie apart have no code point in common. -/
theorem contains_eq_false_of_apart {first second : CodeRanges}
    (happart : ∀ r ∈ first, ∀ s ∈ second, r.2 < s.1 ∨ s.2 < r.1) {code : Nat}
    (h : first.contains code = true) : second.contains code = false := by
  rw [Bool.eq_false_iff]
  intro hsecond
  obtain ⟨r, hr, hrlow, hrhigh⟩ := exists_of_contains h
  obtain ⟨s, hs, hslow, hshigh⟩ := exists_of_contains hsecond
  rcases happart r hr s hs with hlt | hlt <;> omega

end CodeRanges

/-- The code points of a digit. -/
theorem contains_of_isDigit {c : Char} (h : c.isDigit = true) :
    CodeRanges.contains [(48, 57)] c.toNat = true := by
  have hbounds : 48 ≤ c.toNat ∧ c.toNat ≤ 57 := by
    simpa [Char.isDigit, UInt32.le_iff_toNat_le] using h
  simp [CodeRanges.contains, hbounds]

/-- White space does not begin an identifier. -/
theorem beginsIdentifier_of_isBlank {c : Char} (h : isBlank c = true) :
    beginsIdentifier c = false := by
  have halpha : isAlphabetic c = false :=
    CodeRanges.contains_eq_false_of_apart (by decide +kernel) h
  have hne : c ≠ '_' := by
    rintro rfl
    exact absurd h (by decide)
  simp [beginsIdentifier, halpha, hne]

/-- A digit does not begin an identifier. -/
theorem beginsIdentifier_of_isDigit {c : Char} (h : c.isDigit = true) :
    beginsIdentifier c = false := by
  have halpha : isAlphabetic c = false :=
    CodeRanges.contains_eq_false_of_apart (by decide +kernel) (contains_of_isDigit h)
  have hne : c ≠ '_' := by
    rintro rfl
    exact absurd h (by decide)
  simp [beginsIdentifier, halpha, hne]

/-- A digit is not white space. -/
theorem isBlank_of_isDigit {c : Char} (h : c.isDigit = true) : isBlank c = false :=
  CodeRanges.contains_eq_false_of_apart (by decide +kernel) (contains_of_isDigit h)

/-! ## Runs of characters -/

/-- The text does not go on with a character of a class. -/
def Ends (class? : Char → Bool) (rest : List Char) : Prop := ∀ c ∈ rest.head?, class? c = false

/-- A text that does not go on with a character of a class does not with one of a smaller class. -/
theorem Ends.of_imp {class? wider? : Char → Bool} {rest : List Char} (h : Ends wider? rest)
    (himp : ∀ c, class? c = true → wider? c = true) : Ends class? rest := by
  intro c hc
  rw [Bool.eq_false_iff]
  intro hclass
  exact absurd (himp c hclass) (by simp [h c hc])

/-- A text that does not go on with a character of a class has none in front. -/
theorem Ends.takeWhile_eq_nil {class? : Char → Bool} {rest : List Char} (h : Ends class? rest) :
    rest.takeWhile class? = [] := by
  cases rest with
  | nil => rfl
  | cons c rest => rw [List.takeWhile_cons_of_neg (by simpa using h c rfl)]

/-- A run of characters is taken up to the text that ends it. -/
theorem Ends.takeWhile_append {class? : Char → Bool} {run rest : List Char} (h : Ends class? rest)
    (hrun : ∀ c ∈ run, class? c = true) : (run ++ rest).takeWhile class? = run := by
  rw [List.takeWhile_append_of_pos hrun, h.takeWhile_eq_nil, List.append_nil]

/-- After a run of characters stands the text that ends it. -/
theorem Ends.dropWhile_append {class? : Char → Bool} {run rest : List Char} (h : Ends class? rest)
    (hrun : ∀ c ∈ run, class? c = true) : (run ++ rest).dropWhile class? = rest := by
  rw [List.dropWhile_append_of_pos hrun]
  cases rest with
  | nil => rfl
  | cons c rest => rw [List.dropWhile_cons_of_neg (by simpa using h c rfl)]

namespace Lexeme

/-! ## Names -/

/-- A dot in front of a text that does not begin with one. -/
theorem scan_dot {rest : List Char} (h : ∀ after, rest ≠ '.' :: after) :
    scan '.' rest = .ok ⟨.dot, ['.'], rest⟩ := by
  unfold scan
  split <;> simp_all

/-- A character of a class without marks, quotes and white space begins a number or a name. -/
theorem scan_of_class {class? : Char → Bool}
    (hothers : (marks ++ ['\x27', '\x22']).any class? = false) {c : Char} (rest : List Char)
    (h : class? c = true) (hblank : isBlank c = false) :
    scan c rest =
      if c.isDigit then scanNumber (c :: rest)
      else if beginsIdentifier c then
        .ok ⟨.identifier (.ofList (c :: rest.takeWhile continuesIdentifier)),
          c :: rest.takeWhile continuesIdentifier, rest.dropWhile continuesIdentifier⟩
      else .error (.invalidCharacter c) := by
  have hnone := not_mem_of_class hothers h
  rw [List.mem_append, not_or] at hnone
  have hquote : ¬(c = '\x27' ∨ c = '\x22') := by simpa using hnone.2
  rw [scan_of_not_mem_marks rest hnone.1, if_neg (by simp [hblank]), if_neg hquote]

/-- A character that begins an identifier is recognised as the beginning of one. -/
theorem scan_of_beginsIdentifier {c : Char} (rest : List Char) (h : beginsIdentifier c = true) :
    scan c rest = .ok ⟨.identifier (.ofList (c :: rest.takeWhile continuesIdentifier)),
      c :: rest.takeWhile continuesIdentifier, rest.dropWhile continuesIdentifier⟩ := by
  -- neither a blank nor a digit begins an identifier
  have hblank : ¬isBlank c = true := fun hc => by simp [beginsIdentifier_of_isBlank hc] at h
  have hdigit : ¬c.isDigit = true := fun hc => by simp [beginsIdentifier_of_isDigit hc] at h
  rw [scan_of_class (by decide) rest h (Bool.eq_false_iff.2 hblank), if_neg hdigit, if_pos h]

/-- An identifier in front of a text that does not go on as one. -/
theorem scan_name {name : String} {c : Char} {cs rest : List Char} (hname : name.toList = c :: cs)
    (h : isIdentifier name = true) (hrest : Ends continuesIdentifier rest) :
    scan c (cs ++ rest) = .ok ⟨.identifier name, c :: cs, rest⟩ := by
  simp only [isIdentifier, hname, Bool.and_eq_true, List.all_eq_true] at h
  rw [scan_of_beginsIdentifier _ h.1, hrest.takeWhile_append h.2, hrest.dropWhile_append h.2,
    ← hname, String.ofList_toList]

/-! ## Quoted texts -/

/-- A character is written with a backslash that is undone, or as it is. -/
theorem escape_cases (c : Char) :
    (∃ e, Selector.escape c = ['\\', e] ∧ unescape e = c) ∨
      (Selector.escape c = [c] ∧ c ≠ '\x27' ∧ c ≠ '\\') := by
  rw [Selector.escape]
  split
  · rename_i hc
    rcases hc with rfl | rfl <;> exact .inl ⟨_, rfl, rfl⟩
  · rename_i hc
    -- the line break, the tab and the return have letters of their own
    split
    · exact .inl ⟨_, rfl, by rw [‹c = '\n'›]; rfl⟩
    split
    · exact .inl ⟨_, rfl, by rw [‹c = '\t'›]; rfl⟩
    split
    · exact .inl ⟨_, rfl, by rw [‹c = '\r'›]; rfl⟩
    · exact .inr ⟨rfl, not_or.1 hc⟩

/-- The inside of a quoted text is decoded up to its closing quote. -/
theorem quotedBody?_flatMap_escape (text rest : List Char) :
    quotedBody? '\x27' (text.flatMap Selector.escape ++ '\x27' :: rest) =
      some (text, text.flatMap Selector.escape ++ ['\x27'], rest) := by
  induction text with
  | nil =>
    rw [List.flatMap_nil, List.nil_append, quotedBody?.eq_def]
    rfl
  | cons c text ih =>
    rw [List.flatMap_cons, List.append_assoc, quotedBody?.eq_def]
    rcases escape_cases c with ⟨e, he, hc⟩ | ⟨he, hquote, hslash⟩
    · simp [he, ih, hc]
    · simp [he, ih, hquote, hslash]

/-- A quoted text in front of any text. -/
theorem scan_quoted (text : String) (rest : List Char) :
    scan '\x27' (text.toList.flatMap Selector.escape ++ '\x27' :: rest) =
      .ok ⟨.string text, Selector.quoted text, rest⟩ := by
  show scanString _ _ = _
  rw [scanString, quotedBody?_flatMap_escape]
  simp only [String.ofList_toList, Selector.quoted]

/-! ## Integers -/

/-- A digit is recognised as the beginning of a number. -/
theorem scan_of_isDigit {c : Char} (rest : List Char) (h : c.isDigit = true) :
    scan c rest = scanNumber (c :: rest) := by
  rw [scan_of_class (by decide) rest h (isBlank_of_isDigit h), if_pos h]

/-- The characters of a written number are digits. -/
theorem isDigit_of_mem_toDigits {n : Nat} {c : Char} (h : c ∈ Nat.toDigits 10 n) :
    c.isDigit = true :=
  Nat.isDigit_of_mem_toDigits (by decide) (by decide) h

/-- A written number begins with a digit. -/
theorem exists_toDigits_eq_cons (n : Nat) :
    ∃ c cs, Nat.toDigits 10 n = c :: cs ∧ c.isDigit = true := by
  obtain ⟨c, cs, hdigits⟩ := List.exists_cons_of_ne_nil (Nat.toDigits_ne_nil (n := n) (b := 10))
  exact ⟨c, cs, hdigits, isDigit_of_mem_toDigits (by rw [hdigits]; exact List.mem_cons_self)⟩

/-- Digits in front of a text that goes on neither with a digit nor with a point are an integer. -/
theorem scanNumber_digits {whole rest : List Char} (hdigits : ∀ c ∈ whole, c.isDigit = true)
    (hrest : Ends Char.isDigit rest) (hpoint : ∀ after, rest ≠ '.' :: after) :
    scanNumber (whole ++ rest) = (integerKind whole).map fun kind => ⟨kind, whole, rest⟩ := by
  rw [scanNumber, hrest.takeWhile_append hdigits, hrest.dropWhile_append hdigits]
  split
  · exact absurd rfl (hpoint _)
  · cases integerKind whole <;> rfl

/-- A written number in front of such a text. -/
theorem scanNumber_toDigits {n : Nat} {kind : Token.Kind} {rest : List Char}
    (hkind : integerKind (Nat.toDigits 10 n) = .ok kind) (hrest : Ends Char.isDigit rest)
    (hpoint : ∀ after, rest ≠ '.' :: after) :
    scanNumber (Nat.toDigits 10 n ++ rest) = .ok ⟨kind, Nat.toDigits 10 n, rest⟩ := by
  rw [scanNumber_digits (fun _ => isDigit_of_mem_toDigits) hrest hpoint, hkind]
  rfl

/-- The kind of an integer that fits a signed word. -/
theorem integerKind_of_lt {n : Nat} (h : n < 2 ^ 63) :
    integerKind (Nat.toDigits 10 n) = .ok (.integer (.ofNat n)) := by
  simp only [integerKind, Nat.ofDigitChars_ten_toDigits]
  rw [if_pos h]

/-- The kind of an integer that fits an unsigned word only. -/
theorem integerKind_of_le {n : Nat} (hle : 2 ^ 63 ≤ n) (hlt : n < 2 ^ 64) :
    integerKind (Nat.toDigits 10 n) = .ok (.unsigned (.ofNat n)) := by
  simp only [integerKind, Nat.ofDigitChars_ten_toDigits]
  rw [if_neg (Nat.not_lt.2 hle), if_pos hlt]

end Lexeme

end DocQuery
