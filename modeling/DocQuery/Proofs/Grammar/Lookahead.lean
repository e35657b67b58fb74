import DocQuery.Proofs.RoundTrip.Fraction
import Mathlib.Tactic.SplitIfs

/-!
# Tokens depend on one character behind them

The recogniser looks at one character behind a token, to see whether the token ends there. So the
text behind a token may be replaced by any other text that begins with the same character, by one
that begins with a character that does not go on with the token, or by nothing.

* `Lexeme.scan_replace`: the same token in front of another text.
* `Spells.replace`: the same tokens in front of another text.
-/

namespace DocQuery

namespace Lexeme

/-- Whether a character could be taken for a part of a token other than white space that it
follows. -/
def continuesToken (c : Char) : Bool := continuesIdentifier c || continuesNumber c || c == '='

/-- Whether a character could be taken for a part of a token of the given kind that it follows. -/
def continuesKind : Token.Kind → Char → Bool
  | .separator, c => isBlank c
  | .dot, c => c == '.'
  | .operator _, c => c == '='
  | .identifier _, c => continuesIdentifier c
  | .integer _, c => continuesNumber c
  | .unsigned _, c => continuesNumber c
  | .float _, c => continuesNumber c
  | _, _ => false

/-- What goes on with a token other than white space is among the characters that go on with any of
them. -/
theorem continuesToken_of_continuesKind {kind : Token.Kind} (hkind : kind ≠ .separator) {c : Char}
    (h : continuesKind kind c = true) : continuesToken c = true := by
  unfold continuesKind at h
  split at h
  · exact absurd rfl hkind
  · obtain rfl : c = '.' := by simpa using h
    decide
  all_goals simp_all [continuesToken]

/-- A number goes on with the characters of a number. -/
theorem continuesKind_of_isNumeral {kind : Token.Kind} (h : IsNumeral kind) :
    continuesKind kind = continuesNumber := by
  cases kind with
  | integer => rfl
  | unsigned => rfl
  | float => rfl
  | _ => exact h.elim

/-- The second text begins as the first one does, or with a character that is not in the class, or
it is empty. -/
def Replaces (class? : Char → Bool) (last other : List Char) : Prop :=
  ∀ c ∈ other.head?, c ∈ last.head? ∨ class? c = false

section Replacement

variable {class? wider? : Char → Bool} {last other : List Char}

/-- A text may be replaced with a smaller class in mind. -/
theorem Replaces.of_imp (h : Replaces wider? last other)
    (himp : ∀ c, class? c = true → wider? c = true) : Replaces class? last other := by
  intro c hc
  refine (h c hc).imp_right fun hwider => ?_
  rw [Bool.eq_false_iff]
  intro hclass
  exact absurd (himp c hclass) (by simp [hwider])

/-- A text that ends a run of characters is replaced by one that ends it. -/
theorem Replaces.ends (h : Replaces class? last other) (hlast : Ends class? last) :
    Ends class? other :=
  fun c hc => (h c hc).elim (hlast c) id

/-- The same behind another text, which may be empty. -/
theorem Replaces.ends_append (h : Replaces class? last other) {cs : List Char}
    (hlast : Ends class? (cs ++ last)) : Ends class? (cs ++ other) := by
  cases cs with
  | nil => exact h.ends hlast
  | cons c cs => exact hlast

/-- A text is replaced by one that begins with a character of the class only if it began so
before. -/
theorem Replaces.ne_cons (h : Replaces class? last other) {c : Char} (hc : class? c = true)
    (hlast : ∀ text, last ≠ c :: text) (text : List Char) : other ≠ c :: text := by
  rintro rfl
  rcases h c rfl with hhead | hclass
  · obtain ⟨rest, rfl⟩ := List.head?_eq_some_iff.1 hhead
    exact hlast rest rfl
  · simp [hc] at hclass

end Replacement

/-! ## Runs of characters, strings and signs -/

/-- What follows a run of characters does not go on with it. -/
theorem ends_dropWhile (class? : Char → Bool) (cs : List Char) :
    Ends class? (cs.dropWhile class?) := by
  intro c hc
  have hnot := List.head?_dropWhile_not class? cs
  rw [Option.mem_def.1 hc] at hnot
  simpa using hnot

/-- The characters of a run are in its class. -/
theorem of_mem_takeWhile {class? : Char → Bool} {cs : List Char} :
    ∀ c ∈ cs.takeWhile class?, class? c = true :=
  List.all_eq_true.1 List.all_takeWhile

/-- The inside of a string does not depend on what follows its closing quote. -/
theorem quotedBody?_replace {quote : Char} {cs value source last : List Char}
    (h : quotedBody? quote cs = some (value, source, last)) (other : List Char) :
    quotedBody? quote (source ++ other) = some (value, source, other) := by
  fun_induction quotedBody? quote cs generalizing value source last with
  | case1 => cases h
  | case2 =>
    obtain ⟨rfl, rfl, rfl⟩ := h
    rw [List.cons_append, quotedBody?.eq_def]
    simp
  | case3 => cases h
  | case4 _ _ _ ih =>
    obtain ⟨⟨value, source, last⟩, hinner, rfl, rfl, rfl⟩ := Option.map_eq_some_iff.1 h
    rw [List.cons_append, quotedBody?.eq_def]
    simp [*, ih hinner]
  | case5 _ _ _ _ ih =>
    obtain ⟨⟨value, source, last⟩, hinner, rfl, rfl, rfl⟩ := Option.map_eq_some_iff.1 h
    rw [List.cons_append, quotedBody?.eq_def]
    simp [*, ih hinner]

/-- The sign in front of digits does not depend on what follows them. -/
theorem signOf_append {sign digits : List Char} {cs : List Char} (hsign : signOf cs = sign)
    (hdigits : ∀ c ∈ digits, c.isDigit = true) (hne : digits ≠ []) (other : List Char) :
    signOf (sign ++ (digits ++ other)) = sign := by
  obtain ⟨d, digits, rfl⟩ := List.exists_cons_of_ne_nil hne
  have hd := hdigits d List.mem_cons_self
  unfold signOf at hsign
  split at hsign
  · rw [← hsign]; rfl
  · rw [← hsign]; rfl
  · subst hsign
    unfold signOf
    split
    · rename_i heq
      obtain rfl := (List.cons.inj heq).1
      simp at hd
    · rename_i heq
      obtain rfl := (List.cons.inj heq).1
      simp at hd
    · rfl

/-! ## Tokens -/

/-- A digit goes on with a number. -/
theorem continuesNumber_of_isDigit {c : Char} (h : c.isDigit = true) :
    continuesNumber c = true := by
  simp [continuesNumber, h]

section Tokens

variable {last other : List Char}

/-- Without a letter in front there is no power of ten. -/
theorem scanPower_absent {cs : List Char} (h : ∀ c ∈ cs.head?, ¬(c = 'e' ∨ c = 'E')) :
    scanPower cs = .ok (0, [], cs) := by
  cases cs with
  | nil => rfl
  | cons c cs => rw [scanPower, if_neg (h c rfl)]

/-- A power of ten in front of another text. -/
theorem scanPower_replace {cs source : List Char} {power : Int}
    (h : scanPower cs = .ok (power, source, last)) (hother : Replaces continuesNumber last other) :
    scanPower (source ++ other) = .ok (power, source, other) := by
  -- where there was no power of ten, there is none now
  have habsent (hlast : ∀ c ∈ last.head?, ¬(c = 'e' ∨ c = 'E')) :
      scanPower other = .ok (0, [], other) := by
    refine scanPower_absent fun c hc => (hother c hc).elim (hlast c) fun hclass => ?_
    rintro (rfl | rfl) <;> exact absurd hclass (by decide)
  cases scannedPower_of_scanPower h with
  | absent hlast => exact habsent hlast
  | @present letter after digits last hletter htaken hleft hne =>
    -- the sign and the digits are found again, as the digits end at the same place
    have hdigits : ∀ c ∈ digits, c.isDigit = true := htaken ▸ of_mem_takeWhile
    have hends := (hother.of_imp fun c => continuesNumber_of_isDigit).ends
      (hleft ▸ ends_dropWhile _ _)
    rw [List.cons_append, List.append_assoc]
    simp only [scanPower, if_pos hletter, signOf_append rfl hdigits hne other, List.drop_left,
      hends.takeWhile_append hdigits, hends.dropWhile_append hdigits, List.isEmpty_iff, if_neg hne]

/-- A number in front of another text. -/
theorem scanNumber_replace {cs : List Char} {lexeme : Lexeme} (h : scanNumber cs = .ok lexeme)
    (hother : Replaces continuesNumber lexeme.rest other) :
    scanNumber (lexeme.source ++ other) = .ok { lexeme with rest := other } := by
  cases scannedNumber_of_scanNumber h with
  | @fraction after source rest power _ hfraction hpower =>
    have hpoint : Ends Char.isDigit
        ('.' :: (after.takeWhile Char.isDigit ++ (source ++ other))) := by
      rintro c ⟨⟩
      rfl
    -- the fraction ends with its last digit, or with its power of ten
    have hsource : Ends Char.isDigit (source ++ other) := by
      refine Replaces.ends_append (hother.of_imp fun c => continuesNumber_of_isDigit) ?_
      rw [source_append_of_scanPower hpower]
      exact ends_dropWhile _ _
    rw [List.append_assoc, List.cons_append, List.append_assoc, scanNumber]
    simp only [hpoint.takeWhile_append of_mem_takeWhile, hpoint.dropWhile_append of_mem_takeWhile,
      hsource.takeWhile_append of_mem_takeWhile, hsource.dropWhile_append of_mem_takeWhile,
      List.isEmpty_iff, if_neg hfraction, scanPower_replace hpower hother]
  | integer hrest hkind =>
    -- what follows an integer does not begin with a point
    have hends := (hother.of_imp fun c => continuesNumber_of_isDigit).ends (ends_dropWhile _ _)
    rw [scanNumber, hends.takeWhile_append of_mem_takeWhile,
      hends.dropWhile_append of_mem_takeWhile]
    split
    · exact absurd rfl (hother.ne_cons (by decide) hrest _)
    · simp only [hkind]

/-- An operator in front of another text. -/
theorem scanOperator_replace {c : Char} {rest : List Char} {lexeme : Lexeme}
    (h : scanOperator c rest = .ok lexeme)
    (hother : Replaces (continuesKind lexeme.kind) lexeme.rest other) :
    ∃ cs, lexeme.source = c :: cs ∧
      scanOperator c (cs ++ other) = .ok { lexeme with rest := other } := by
  unfold scanOperator at h
  split at h
  iterate 4
    obtain rfl := Except.ok.inj h
    exact ⟨['='], rfl, rfl⟩
  -- an operator of one character would have another one if an equals sign came behind it
  iterate 2
    obtain rfl := Except.ok.inj h
    have hne := hother.ne_cons rfl ‹_›
    refine ⟨[], rfl, ?_⟩
    unfold scanOperator
    split <;> simp_all
  · cases h

/-- A dot or two in front of another text. -/
theorem scan_dot_replace {rest : List Char} {lexeme : Lexeme} (h : scan '.' rest = .ok lexeme)
    (hother : Replaces (continuesKind lexeme.kind) lexeme.rest other) :
    ∃ cs, lexeme.source = '.' :: cs ∧
      scan '.' (cs ++ other) = .ok { lexeme with rest := other } := by
  by_cases hrest : ∃ text, rest = '.' :: text
  · obtain ⟨text, rfl⟩ := hrest
    cases h
    exact ⟨['.'], rfl, rfl⟩
  · have hne : ∀ text, rest ≠ '.' :: text := by simpa using hrest
    rw [scan_dot hne] at h
    cases h
    exact ⟨[], rfl, scan_dot (hother.ne_cons rfl hne)⟩

/-- A mark or an operator in front of another text. -/
theorem scan_replace_of_mem_marks {c : Char} {rest : List Char} {lexeme : Lexeme}
    (h : scan c rest = .ok lexeme) (hc : c ∈ marks)
    (hother : Replaces (continuesKind lexeme.kind) lexeme.rest other) :
    ∃ cs, lexeme.source = c :: cs ∧ scan c (cs ++ other) = .ok { lexeme with rest := other } := by
  simp only [marks, List.mem_cons, List.not_mem_nil, or_false] at hc
  rcases hc with rfl | rfl | rfl | rfl | rfl | rfl | rfl | rfl | rfl | rfl | rfl
  -- six marks are tokens of their own, whatever follows, and the last four begin an operator
  iterate 6 cases h; exact ⟨[], rfl, rfl⟩
  · exact scan_dot_replace h hother
  iterate 4 exact scanOperator_replace h hother

/-- A token in front of another text. -/
theorem scan_replace {c : Char} {rest : List Char} {lexeme : Lexeme}
    (h : scan c rest = .ok lexeme)
    (hother : Replaces (continuesKind lexeme.kind) lexeme.rest other) :
    ∃ cs, lexeme.source = c :: cs ∧ scan c (cs ++ other) = .ok { lexeme with rest := other } := by
  by_cases hmark : c ∈ marks
  · exact scan_replace_of_mem_marks h hmark hother
  -- the class of the character decides in the same way as before
  rw [scan_of_not_mem_marks _ hmark] at h
  simp only [scan_of_not_mem_marks _ hmark]
  split_ifs at h ⊢ with hblank hquote hdigit hname
  · obtain rfl := Except.ok.inj h
    have hends : Ends isBlank other := hother.ends (ends_dropWhile isBlank rest)
    refine ⟨_, rfl, ?_⟩
    rw [hends.takeWhile_append of_mem_takeWhile, hends.dropWhile_append of_mem_takeWhile]
  · unfold scanString at h
    split at h
    · cases h
    · rename_i hbody
      obtain rfl := Except.ok.inj h
      refine ⟨_, rfl, ?_⟩
      rw [scanString, quotedBody?_replace hbody]
  · rw [continuesKind_of_isNumeral (isNumeral_of_scanNumber h)] at hother
    obtain ⟨hsource, hne⟩ := covers_of_scanNumber hdigit h
    have hnumber := scanNumber_replace h hother
    obtain ⟨d, cs, hcs⟩ := List.exists_cons_of_ne_nil hne
    rw [hcs] at hsource hnumber
    obtain ⟨rfl, -⟩ := List.cons.inj hsource
    refine ⟨cs, hcs, ?_⟩
    rw [hcs]
    exact hnumber
  · obtain rfl := Except.ok.inj h
    have hends : Ends continuesIdentifier other := hother.ends (ends_dropWhile _ _)
    refine ⟨_, rfl, ?_⟩
    rw [hends.takeWhile_append of_mem_takeWhile, hends.dropWhile_append of_mem_takeWhile]

end Tokens

end Lexeme

/-! ## Texts -/

/-- The tokens of a text in front of another text, which goes on with the last token no more than
the text that it replaces. -/
theorem Spells.replace {text last other : List Char} {kinds : List Token.Kind}
    (h : Spells text kinds last)
    (hother : ∀ kind ∈ kinds.getLast?, Lexeme.Replaces (Lexeme.continuesKind kind) last other) :
    ∃ read, text = read ++ last ∧ (read = [] → kinds = []) ∧
      Spells (read ++ other) kinds other := by
  induction h with
  | nil text => exact ⟨[], rfl, fun _ => rfl, .nil other⟩
  | @cons c rest last lexeme kinds hhead htail ih =>
    obtain ⟨read, hread, hnil, hspells⟩ := ih fun kind hkind => hother kind (by
      rw [List.getLast?_cons, Option.mem_def.1 hkind]
      rfl)
    -- behind the token stands the next one, or the text that is replaced
    have hreplaces :
        Lexeme.Replaces (Lexeme.continuesKind lexeme.kind) lexeme.rest (read ++ other) := by
      rw [hread]
      cases read with
      | nil => exact hother lexeme.kind (by rw [hnil rfl]; rfl)
      | cons d read => exact fun e he => .inl he
    obtain ⟨cs, hsource, hscan⟩ := Lexeme.scan_replace hhead hreplaces
    have htext := Lexeme.source_append_rest_of_scan hhead
    rw [hsource, hread, ← List.append_assoc] at htext
    refine ⟨c :: (cs ++ read), by rw [← htext]; rfl, by simp, ?_⟩
    rw [List.cons_append, List.append_assoc]
    exact .cons_of_eq hscan hspells

end DocQuery
