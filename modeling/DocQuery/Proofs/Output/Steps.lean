import DocQuery.Proofs.Numbers.Rereading
import DocQuery.Proofs.Output.Sequences

/-!
# Steps of the reader of documents

What a reader takes from the front of a text, without the proof that the rest is shorter: one
equation for each way a string, a member or a value can go on. With them a text is decoded from its
parts. A string that is written is read again as it was, whatever characters it holds.

* `Json.readString?_stringText`: strings that are written.
* `Json.readValue?_array`, `Json.readValue?_object`: values with other values inside.
* `Json.read?_of_isText`: a text that is a number.
-/

namespace DocQuery

namespace Json

/-! ## White space -/

/-- White space in front of a character that is none. -/
theorem skipSpace_append {before : List Char} (hbefore : ∀ c ∈ before, isSpace c = true) {c : Char}
    (hc : isSpace c = false) (rest : List Char) : skipSpace (before ++ c :: rest) = c :: rest :=
  Ends.dropWhile_append (by rintro _ ⟨⟩; exact hc) hbefore

/-- No white space is passed where there is none. -/
theorem skipSpace_cons {c : Char} (hc : isSpace c = false) (rest : List Char) :
    skipSpace (c :: rest) = c :: rest :=
  skipSpace_append (List.forall_mem_nil _) hc rest

/-- The break before an item is white space. -/
theorem isSpace_of_mem_lineBreak (style : Rendering) (level : Nat) :
    ∀ c ∈ lineBreak style level, isSpace c = true := by
  cases style with
  | compact => exact List.forall_mem_nil _
  | pretty =>
    refine List.forall_mem_cons.2 ⟨rfl, ?_⟩
    intro c hc
    rw [List.eq_of_mem_replicate hc]
    rfl

/-! ## Strings -/

/-- The four hexadecimal digits of a control character. -/
theorem hexUnit?_of_lt {n : Nat} (h : n < 0x20) :
    hexUnit? '0' '0' (Nat.digitChar (n / 16)) (Nat.digitChar (n % 16)) = some n := by
  have hall : ∀ n < 0x20,
      hexUnit? '0' '0' (Nat.digitChar (n / 16)) (Nat.digitChar (n % 16)) = some n := by decide
  exact hall n h

/-- A letter after a backslash. -/
theorem stringBody?_backslash {letter plain : Char} (hletter : escaped? letter = some plain)
    (rest : List Char) : stringBody? ('\\' :: letter :: rest) =
      (stringBody? rest).map fun found => (plain :: found.1, found.2) := by
  rw [stringBody?, hletter]
  · cases stringBody? rest <;> rfl
  · rintro _ _ _ _ _ rfl
    cases hletter

/-- A character that is written inside a string is read again. -/
theorem stringBody?_escape (c : Char) (rest : List Char) :
    stringBody? (escape c ++ rest) =
      (stringBody? rest).map fun found => (c :: found.1, found.2) := by
  rw [escape]
  -- the quote and the backslash stand for themselves behind a backslash, five letters for others
  split
  · rename_i hc
    exact stringBody?_backslash (by rw [escaped?, if_pos (by tauto)]) rest
  split
  · subst c
    exact stringBody?_backslash rfl rest
  split
  · subst c
    exact stringBody?_backslash rfl rest
  split
  · subst c
    exact stringBody?_backslash rfl rest
  split
  · subst c
    exact stringBody?_backslash rfl rest
  split
  · subst c
    exact stringBody?_backslash rfl rest
  split
  · -- any other control character is written by its code, which is no surrogate
    rename_i hlt
    have hlow : ¬(0xdc00 ≤ c.toNat ∧ c.toNat < 0xe000) := by omega
    have hhigh : ¬(0xd800 ≤ c.toNat ∧ c.toNat < 0xdc00) := by omega
    simp only [List.cons_append, List.nil_append]
    rw [stringBody?, hexUnit?_of_lt hlt]
    dsimp only
    rw [if_neg hlow, if_neg hhigh, Char.ofNat_toNat]
    cases stringBody? rest <;> rfl
  · -- what is not escaped is neither the quote nor the backslash
    rename_i hspecial _ _ _ _ _ hlt
    obtain ⟨hquote, hslash⟩ := not_or.1 hspecial
    rw [List.singleton_append, stringBody?, if_neg hquote, if_neg (not_or.2 ⟨hslash, hlt⟩)]
    · cases stringBody? rest <;> rfl
    · rintro _ _ _ _ _ rfl
      exact absurd rfl hslash
    · rintro _ _ rfl
      exact absurd rfl hslash

/-- The inside of a string that is written, in front of its closing quote. -/
theorem stringBody?_flatMap_escape (cs rest : List Char) :
    stringBody? (cs.flatMap escape ++ '\x22' :: rest) = some (cs, rest) := by
  induction cs with
  | nil => rfl
  | cons c cs ih =>
    rw [List.flatMap_cons, List.append_assoc, stringBody?_escape, ih]
    rfl

/-- A string that is written is read again. -/
theorem readString?_stringText (s : String) (rest : List Char) :
    (readString? (stringText s ++ rest)).map Reading.both = some (s, rest) := by
  have hbody := stringBody?_flatMap_escape s.toList rest
  rw [stringText, List.cons_append, List.append_assoc, List.singleton_append, readString?]
  split
  · rename_i hnone
    rw [hnone] at hbody
    cases hbody
  · rename_i hsome
    rw [hsome] at hbody
    cases hbody
    simp [Reading.both]

/-! ## Members -/

/-- A member is a key, a colon and a value. -/
theorem readMember?_colon {value : (cs : List Char) → Option (Reading Json cs)}
    {cs rest after : List Char} {key : String}
    (hkey : (readString? (skipSpace cs)).map Reading.both = some (key, rest))
    (hcolon : skipSpace rest = ':' :: after) :
    (readMember? value cs).map Reading.both =
      ((value after).map Reading.both).map (Prod.map (key, ·) id) := by
  obtain ⟨reading, hreading, hboth⟩ := Option.map_eq_some_iff.1 hkey
  cases hboth
  rw [readMember?, hreading]
  dsimp only
  split
  · rename_i found hfound
    rw [hfound] at hcolon
    cases hcolon
    cases value after <;> rfl
  · simp_all

/-! ## Values -/

/-- No array or object is read as another value. -/
theorem readScalar?_eq_none {c : Char} (hc : c = '[' ∨ c = '\x7b') (rest : List Char) :
    readScalar? (c :: rest) = none := by
  have hscan : Numeral.scan? (c :: rest) = none := by rcases hc with rfl | rfl <;> rfl
  rw [readScalar?]
  · split <;> simp_all
  all_goals
    rintro _ heq
    cases heq
    rcases hc with hc | hc <;> cases hc

/-- What begins like a number is read as one. -/
theorem readScalar?_of_scan? {n : Numeral} {c : Char} {cs rest : List Char}
    (hc : Numeral.beginsNumber c = true) (hscan : Numeral.scan? (c :: cs) = some (n, rest)) :
    (readScalar? (c :: cs)).map Reading.both =
      n.toNumber?.map fun value => (.number value, rest) := by
  have hother : c ∉ ['n', 't', 'f', '\x22'] := Lexeme.not_mem_of_class (by decide) hc
  simp only [List.mem_cons, not_or] at hother
  rw [readScalar?]
  · split
    · simp_all
    · rename_i hfound
      rw [hscan] at hfound
      cases hfound
      split <;> simp_all [Reading.both]
  all_goals
    rintro _ heq
    obtain rfl := (List.cons.inj heq).1
    simp at hother

section Values

variable {depth : Nat} {cs inside : List Char}

/-- A value other than an array or an object takes no depth. -/
theorem readValue?_scalar {c : Char} {rest : List Char} (hspace : skipSpace cs = c :: rest)
    (hc : c ≠ '[' ∧ c ≠ '\x7b') : (readValue? depth cs).map Reading.both =
      (readScalar? (c :: rest)).map Reading.both := by
  rw [← hspace]
  cases depth with
  | zero =>
    rw [readValue?, Option.map_map]
    rfl
  | succ depth =>
    rw [readValue?]
    split
    · rename_i hfound
      exact absurd (List.cons.inj (hspace.symm.trans hfound)).1 hc.1
    · rename_i hfound
      exact absurd (List.cons.inj (hspace.symm.trans hfound)).1 hc.2
    · rw [Option.map_map]
      rfl

/-- What begins like a number behind white space is read as one. -/
theorem readValue?_of_scan? {n : Numeral} {c : Char} {before rest after : List Char}
    (hbefore : ∀ c ∈ before, isSpace c = true) (hc : Numeral.beginsNumber c = true)
    (hscan : Numeral.scan? (c :: rest) = some (n, after)) :
    (readValue? depth (before ++ c :: rest)).map Reading.both =
      n.toNumber?.map fun value => (.number value, after) := by
  have hother : c ∉ [' ', '\t', '\n', '\r', '[', '\x7b'] :=
    Lexeme.not_mem_of_class (by decide) hc
  have hspace : isSpace c = false := by simp_all [isSpace]
  rw [readValue?_scalar (skipSpace_append hbefore hspace _) (by simp_all),
    readScalar?_of_scan? hc hscan]

/-- A number text behind white space and in front of a text that does not go on as one. -/
theorem readValue?_of_isText {n : Numeral} {source before rest : List Char} (h : n.IsText source)
    (hbefore : ∀ c ∈ before, isSpace c = true) (hrest : Ends Lexeme.continuesNumber rest) :
    (readValue? depth (before ++ (source ++ rest))).map Reading.both =
      n.toNumber?.map fun value => (.number value, rest) := by
  have hscan := Numeral.scan?_append h hrest
  obtain ⟨c, cs, rfl, hc⟩ := h.exists_cons
  exact readValue?_of_scan? hbefore hc hscan

/-- No array or object is read without depth. -/
theorem readValue?_zero {c : Char} {rest : List Char} (hspace : skipSpace cs = c :: rest)
    (hc : c = '[' ∨ c = '\x7b') : (readValue? 0 cs).map Reading.both = none := by
  rw [readValue?, Option.map_eq_none_iff, Option.map_eq_none_iff, hspace, readScalar?_eq_none hc]

/-- An array is a sequence of values between brackets. -/
theorem readValue?_array (hspace : skipSpace cs = '[' :: inside) :
    (readValue? (depth + 1) cs).map Reading.both =
      ((readEnclosed? (readValue? depth) ']' inside).map Reading.both).map (Prod.map array id) := by
  rw [readValue?]
  split <;> rename_i hmark
  · cases hspace.symm.trans hmark
    rw [Option.map_map, Option.map_map]
    rfl
  · cases hspace.symm.trans hmark
  · simp_all

/-- An object is a sequence of members between braces, settled. -/
theorem readValue?_object (hspace : skipSpace cs = '\x7b' :: inside) :
    (readValue? (depth + 1) cs).map Reading.both =
      ((readEnclosed? (readMember? (readValue? depth)) '\x7d' inside).map Reading.both).map
        (Prod.map (object ∘ settle) id) := by
  rw [readValue?]
  split <;> rename_i hmark
  · cases hspace.symm.trans hmark
  · cases hspace.symm.trans hmark
    rw [Option.map_map, Option.map_map]
    rfl
  · simp_all

end Values

/-- A text is decoded as the value at its front if nothing but white space follows. -/
theorem read?_of_readValue? {text : String} {value : Json} {rest : List Char}
    (h : (readValue? maxDepth text.toList).map Reading.both = some (value, rest))
    (hrest : skipSpace rest = []) : read? text = some value := by
  obtain ⟨reading, hreading, hboth⟩ := Option.map_eq_some_iff.1 h
  cases hboth
  rw [read?, hreading]
  dsimp only
  rw [hrest]
  rfl

/-- A text is not decoded if no value is at its front. -/
theorem read?_eq_none {text : String}
    (h : (readValue? maxDepth text.toList).map Reading.both = none) : read? text = none := by
  rw [Option.map_eq_none_iff] at h
  rw [read?, h]

/-- A text is not decoded if something other than white space follows the value at its front. -/
theorem read?_eq_none_of_rest {text : String} {value : Json} {rest : List Char}
    (h : (readValue? maxDepth text.toList).map Reading.both = some (value, rest))
    (hrest : skipSpace rest ≠ []) : read? text = none := by
  obtain ⟨reading, hreading, hboth⟩ := Option.map_eq_some_iff.1 h
  cases hboth
  rw [read?, hreading]
  exact if_neg (by simpa using hrest)

/-- A number text is decoded as its number. -/
theorem read?_of_isText {n : Numeral} {text : String} (h : n.IsText text.toList) :
    read? text = n.toNumber?.map .number := by
  have hread : (readValue? maxDepth ([] ++ (text.toList ++ []))).map Reading.both = _ :=
    readValue?_of_isText h (List.forall_mem_nil _) (by rintro _ ⟨⟩)
  rw [List.append_nil, List.nil_append] at hread
  cases hnumber : n.toNumber? with
  | none =>
    rw [hnumber] at hread
    exact read?_eq_none hread
  | some value =>
    rw [hnumber] at hread
    exact read?_of_readValue? hread rfl

end Json

end DocQuery
