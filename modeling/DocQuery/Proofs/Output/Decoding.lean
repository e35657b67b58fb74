import DocQuery.Json.Keys
import DocQuery.Proofs.Output.Steps

/-!
# Values that are written and decoded again

The text of a value is decoded in either style, provided that no more arrays and objects lie inside
one another than may be open at a time. What comes out is the value itself, but for its binary64
numbers, which are decoded by another algorithm than the one that chose their digits.

* `Json.decodes`: the statement, for any text behind the value that does not go on as a number.
* `Json.read?_render`: the statement for a whole text.
-/

namespace DocQuery

namespace Json

/-! ## Depth -/

mutual

/-- How many arrays and objects lie inside one another. -/
def depth : Json → Nat
  | .array items => depthOfItems items + 1
  | .object members => depthOfMembers members + 1
  | _ => 0

/-- The greatest depth of an item. -/
def depthOfItems : List Json → Nat
  | [] => 0
  | item :: items => max (depth item) (depthOfItems items)

/-- The greatest depth of the value of a member. -/
def depthOfMembers : Members → Nat
  | [] => 0
  | (_, value) :: members => max (depth value) (depthOfMembers members)

end

/-- Items are no deeper than allowed if none of them is deeper. -/
theorem depthOfItems_le_iff {items : List Json} {allowed : Nat} :
    depthOfItems items ≤ allowed ↔ ∀ item ∈ items, item.depth ≤ allowed := by
  induction items with
  | nil => simp [depthOfItems]
  | cons item items ih => rw [depthOfItems, Nat.max_le, ih, List.forall_mem_cons]

/-- Members are no deeper than allowed if none of their values is deeper. -/
theorem depthOfMembers_le_iff {members : Members} {allowed : Nat} :
    depthOfMembers members ≤ allowed ↔ ∀ member ∈ members, member.2.depth ≤ allowed := by
  induction members with
  | nil => simp [depthOfMembers]
  | cons member members ih => rw [depthOfMembers, Nat.max_le, ih, List.forall_mem_cons]

/-! ## What is read again -/

mutual

/-- A value as it is written and read again. -/
def reread : Json → Json
  | .number value => .number value.reread
  | .array items => .array (rereadItems items)
  | .object members => .object (rereadMembers members)
  | value => value

/-- Items as they are written and read again. -/
def rereadItems : List Json → List Json
  | [] => []
  | item :: items => reread item :: rereadItems items

/-- Members as they are written and read again. -/
def rereadMembers : Members → Members
  | [] => []
  | (key, value) :: members => (key, reread value) :: rereadMembers members

end

/-- Each item is read again. -/
theorem rereadItems_eq (items : List Json) : rereadItems items = items.map reread := by
  induction items with
  | nil => rfl
  | cons item items ih => rw [rereadItems, ih, List.map_cons]

/-- The value of each member is read again. -/
theorem rereadMembers_eq (members : Members) :
    rereadMembers members = members.map fun member => (member.1, member.2.reread) := by
  induction members with
  | nil => rfl
  | cons member members ih => rw [rereadMembers, ih, List.map_cons]

/-- Members with different keys are put one behind the other. -/
theorem foldl_put_of_nodup {members settled : Members}
    (h : ((settled ++ members).map (·.1)).Nodup) :
    members.foldl (fun settled (member : String × Json) => settled.put member.1 member.2) settled =
      settled ++ members := by
  induction members generalizing settled with
  | nil => rw [List.foldl_nil, List.append_nil]
  | cons member members ih =>
    have hnew := Members.not_mem_of_nodup_append h
    rw [List.append_cons] at h ⊢
    rw [List.foldl_cons, Members.put_of_not_mem hnew, ih h]

/-- Members with different keys keep their order and their values. -/
theorem settle_of_nodup {members : Members} (h : (members.map (·.1)).Nodup) :
    settle members = members :=
  foldl_put_of_nodup (show ((([] : Members) ++ members).map (·.1)).Nodup from h)

/-! ## Texts of values -/

/-- What begins the text of a value is neither white space nor a closing mark. -/
theorem exists_text_eq_cons (style : Rendering) (level : Nat) (value : Json) :
    ∃ c cs, text style level value = c :: cs ∧ isSpace c = false ∧ c ≠ ']' ∧ c ≠ '\x7d' := by
  match value with
  | .number value =>
    obtain ⟨n, htext, -⟩ := Numeral.exists_isText_numberText value
    obtain ⟨c, cs, hcons, hc⟩ := htext.exists_cons
    have hother : c ∉ [' ', '\t', '\n', '\r', ']', '\x7d'] :=
      Lexeme.not_mem_of_class (by decide) hc
    exact ⟨c, cs, hcons, by simp_all [isSpace]⟩
  | .null => exact ⟨_, _, rfl, by decide⟩
  | .bool true => exact ⟨_, _, rfl, by decide⟩
  | .bool false => exact ⟨_, _, rfl, by decide⟩
  | .string value => exact ⟨_, _, rfl, by decide⟩
  | .array [] => exact ⟨_, _, rfl, by decide⟩
  | .array (item :: items) => exact ⟨_, _, rfl, by decide⟩
  | .object [] => exact ⟨_, _, rfl, by decide⟩
  | .object ((key, value) :: members) => exact ⟨_, _, rfl, by decide⟩

/-- The break before a mark does not go on as a number. -/
theorem ends_lineBreak_append (style : Rendering) (level : Nat) {c : Char}
    (hc : Lexeme.continuesNumber c = false) (rest : List Char) :
    Ends Lexeme.continuesNumber (lineBreak style level ++ c :: rest) := by
  cases style <;> rintro _ ⟨⟩
  · rfl
  · exact hc

/-- Whether the text of a value is decoded as the value, but for its binary64 numbers, exactly when
the value is no deeper than allowed. The text may stand behind white space and in front of anything
that does not go on as a number. -/
def Decodes (allowed : Nat) (value : Json) : Prop :=
  ∀ (style : Rendering) (level : Nat) (before rest : List Char),
    (∀ c ∈ before, isSpace c = true) → Ends Lexeme.continuesNumber rest →
      (readValue? allowed (before ++ (text style level value ++ rest))).map Reading.both =
        if value.depth ≤ allowed then some (value.reread, rest) else none

/-- A value whose text is read as a scalar is decoded, whatever the depth. -/
theorem decodes_of_readScalar? {value : Json} (hdepth : value.depth = 0)
    (hhead : ∀ style level, ∃ c cs, text style level value = c :: cs ∧ isSpace c = false ∧
      c ≠ '[' ∧ c ≠ '\x7b')
    (hread : ∀ style level rest, Ends Lexeme.continuesNumber rest →
      (readScalar? (text style level value ++ rest)).map Reading.both = some (value.reread, rest))
    (allowed : Nat) : Decodes allowed value := by
  intro style level before rest hbefore hrest
  obtain ⟨c, cs, hcons, hspace, hmarks⟩ := hhead style level
  have hscalar := hread style level rest hrest
  rw [hcons, List.cons_append] at hscalar ⊢
  rw [readValue?_scalar (skipSpace_append hbefore hspace _) hmarks, hscalar,
    if_pos (hdepth ▸ Nat.zero_le _)]

/-- The null value is decoded. -/
theorem decodes_null (allowed : Nat) : Decodes allowed .null :=
  decodes_of_readScalar? rfl (fun _ _ => ⟨'n', _, rfl, by decide⟩) (fun _ _ _ _ => rfl) allowed

/-- Truth values are decoded. -/
theorem decodes_bool (value : Bool) (allowed : Nat) : Decodes allowed (.bool value) := by
  cases value with
  | true =>
    exact decodes_of_readScalar? rfl (fun _ _ => ⟨'t', _, rfl, by decide⟩) (fun _ _ _ _ => rfl)
      allowed
  | false =>
    exact decodes_of_readScalar? rfl (fun _ _ => ⟨'f', _, rfl, by decide⟩) (fun _ _ _ _ => rfl)
      allowed

/-- Numbers are decoded. -/
theorem decodes_number (value : Number) (allowed : Nat) : Decodes allowed (.number value) := by
  intro style level before rest hbefore hrest
  obtain ⟨n, htext, hvalue⟩ := Numeral.exists_isText_numberText value
  rw [text, readValue?_of_isText htext hbefore hrest, hvalue]
  exact (if_pos (Nat.zero_le allowed)).symm

/-- Texts are decoded. -/
theorem decodes_string (value : String) (allowed : Nat) : Decodes allowed (.string value) := by
  refine decodes_of_readScalar? rfl (fun _ _ => ⟨_, _, rfl, by decide⟩) ?_ allowed
  intro style level rest _
  have hread := readString?_stringText value rest
  rw [text]
  rw [stringText, List.cons_append] at hread ⊢
  rw [readScalar?, Option.map_map]
  show (readString? _).map (Prod.map string id ∘ Reading.both) = _
  rw [← Option.map_map, hread]
  rfl

/-! ## Texts of arrays and objects -/

/-- The items after the first one are written with a comma and a break before each. -/
theorem itemsText_eq (style : Rendering) (level : Nat) (items : List Json) :
    itemsText style level items =
      items.flatMap fun item => ',' :: (lineBreak style level ++ text style level item) := by
  induction items with
  | nil => rfl
  | cons item items ih =>
    rw [itemsText, ih, List.flatMap_cons]
    rfl

/-- The text of a member, which is its key, a colon and its value. -/
def memberText (style : Rendering) (level : Nat) (member : String × Json) : List Char :=
  stringText member.1 ++ (colonText style ++ text style level member.2)

/-- The members after the first one are written with a comma and a break before each. -/
theorem membersText_eq (style : Rendering) (level : Nat) (members : Members) :
    membersText style level members =
      members.flatMap fun member =>
        ',' :: (lineBreak style level ++ memberText style level member) := by
  induction members with
  | nil => rfl
  | cons member members ih =>
    rw [membersText, ih, List.flatMap_cons, memberText]
    simp only [List.cons_append, List.append_assoc]

section Sequence

variable {α β : Type} {element : (cs : List Char) → Option (Reading α cs)} {write : β → List Char}
  {result : β → α} {fits : β → Prop} [DecidablePred fits]

/-- The text behind an opening mark at a given level of indentation, up to and with the closing one:
elements with commas between them, each behind a break, and a break before the closing mark, if
there are any elements. -/
def enclosedText (style : Rendering) (level : Nat) (close : Char) (write : β → List Char) :
    List β → List Char
  | [] => [close]
  | first :: others =>
    lineBreak style (level + 1) ++ (write first ++
      (others.flatMap (fun x => ',' :: (lineBreak style (level + 1) ++ write x)) ++
        (lineBreak style level ++ [close])))

/-- The text of an array. -/
theorem text_array (style : Rendering) (level : Nat) (items : List Json) :
    text style level (array items) =
      '[' :: enclosedText style level ']' (text style (level + 1)) items := by
  cases items with
  | nil => rfl
  | cons item items =>
    rw [text, enclosedText, itemsText_eq]
    simp only [List.append_assoc]

/-- The text of an object. -/
theorem text_object (style : Rendering) (level : Nat) (members : Members) :
    text style level (object members) =
      '\x7b' :: enclosedText style level '\x7d' (memberText style (level + 1)) members := by
  cases members with
  | nil => rfl
  | cons member members =>
    rw [text, enclosedText, membersText_eq, memberText]
    simp only [List.append_assoc]

/-- The texts of elements with commas between them, and the closing mark behind them. If the text of
each element is decoded exactly when the element fits, all of them are decoded exactly when all of
them fit. -/
theorem readSequence?_text (style : Rendering) (level outer : Nat) {close : Char}
    (hclose : close ≠ ',' ∧ isSpace close = false ∧ Lexeme.continuesNumber close = false)
    {first : β} {others : List β}
    (helement : ∀ x ∈ first :: others, ∀ before rest : List Char, (∀ c ∈ before, isSpace c = true) →
      Ends Lexeme.continuesNumber rest →
        (element (before ++ (write x ++ rest))).map Reading.both =
          if fits x then some (result x, rest) else none)
    {before : List Char} (hbefore : ∀ c ∈ before, isSpace c = true) (rest : List Char) :
    (readSequence? element close (before ++ (write first ++
      (others.flatMap (fun x => ',' :: (lineBreak style level ++ write x)) ++
        (lineBreak style outer ++ close :: rest))))).map Reading.both =
          if ∀ x ∈ first :: others, fits x then some ((first :: others).map result, rest)
          else none := by
  obtain ⟨hcomma, hspace, hnumber⟩ := hclose
  -- behind a comma and the break after it, the next element is the first one of the others
  induction others generalizing first before with
  | nil =>
    have hread := helement first List.mem_cons_self before _ hbefore
      (ends_lineBreak_append style outer hnumber rest)
    rw [List.flatMap_nil, List.nil_append]
    by_cases hfits : fits first
    · rw [if_pos hfits] at hread
      rw [if_pos (List.forall_mem_singleton.2 hfits), readSequence?_close hread
        (skipSpace_append (isSpace_of_mem_lineBreak _ _) hspace rest)]
      rfl
    · rw [if_neg hfits] at hread
      rw [if_neg (fun hall => hfits (List.forall_mem_singleton.1 hall)), readSequence?_none hread]
  | cons next others ih =>
    obtain ⟨hfirst, hothers⟩ := List.forall_mem_cons.1 helement
    rw [List.flatMap_cons, List.cons_append, List.cons_append, List.append_assoc, List.append_assoc]
    have hread := hfirst before (',' :: (lineBreak style level ++ (write next ++
      (others.flatMap (fun x => ',' :: (lineBreak style level ++ write x)) ++
        (lineBreak style outer ++ close :: rest))))) hbefore (by rintro _ ⟨⟩; rfl)
    have hmore := ih hothers (isSpace_of_mem_lineBreak style level)
    by_cases hfits : fits first
    · -- the first element is read, and so the others decide
      rw [if_pos hfits] at hread
      rw [readSequence?_comma hread (skipSpace_cons rfl _) hcomma.symm, hmore]
      by_cases hall : ∀ x ∈ next :: others, fits x
      · rw [if_pos hall, if_pos (List.forall_mem_cons.2 ⟨hfits, hall⟩)]
        rfl
      · rw [if_neg hall, if_neg (fun h => hall (List.forall_mem_cons.1 h).2)]
        rfl
    · rw [if_neg hfits] at hread
      rw [readSequence?_none hread, if_neg (fun h => hfits (List.forall_mem_cons.1 h).1)]

/-- The text behind an opening mark. If the text of each element is decoded exactly when the element
fits, the whole is decoded exactly when all of them fit. -/
theorem readEnclosed?_text (style : Rendering) (level : Nat) {close : Char}
    (hclose : close ≠ ',' ∧ isSpace close = false ∧ Lexeme.continuesNumber close = false)
    {elements : List β}
    (hwrite : ∀ x ∈ elements, ∃ c cs, write x = c :: cs ∧ isSpace c = false ∧ c ≠ close)
    (helement : ∀ x ∈ elements, ∀ before rest : List Char, (∀ c ∈ before, isSpace c = true) →
      Ends Lexeme.continuesNumber rest →
        (element (before ++ (write x ++ rest))).map Reading.both =
          if fits x then some (result x, rest) else none)
    (rest : List Char) :
    (readEnclosed? element close (enclosedText style level close write elements ++ rest)).map
      Reading.both =
        if ∀ x ∈ elements, fits x then some (elements.map result, rest) else none := by
  cases elements with
  | nil => exact readEnclosed?_close (skipSpace_cons hclose.2.1 rest)
  | cons first others =>
    have hblank := isSpace_of_mem_lineBreak style (level + 1)
    obtain ⟨c, cs, hcons, hspace, hne⟩ := hwrite first List.mem_cons_self
    have hread := readSequence?_text style (level + 1) level hclose helement hblank rest
    have htext : enclosedText style level close write (first :: others) ++ rest =
        lineBreak style (level + 1) ++ (write first ++
          (others.flatMap (fun x => ',' :: (lineBreak style (level + 1) ++ write x)) ++
            (lineBreak style level ++ close :: rest))) := by
      simp only [enclosedText, List.append_assoc, List.singleton_append]
    rw [htext]
    -- the first element begins with something other than the closing mark
    rw [hcons, List.cons_append] at hread ⊢
    rw [readEnclosed?_of_ne (skipSpace_append hblank hspace _) hne, hread]

end Sequence

/-- What stands between a key and its value is a colon and white space. -/
theorem exists_colonText_eq_cons (style : Rendering) :
    ∃ blanks, colonText style = ':' :: blanks ∧ ∀ c ∈ blanks, isSpace c = true := by
  cases style with
  | compact => exact ⟨[], rfl, List.forall_mem_nil _⟩
  | pretty => exact ⟨[' '], rfl, List.forall_mem_singleton.2 rfl⟩

/-- The text of a member. -/
theorem readMember?_text (style : Rendering) (level : Nat) {member : String × Json} {allowed : Nat}
    (hvalue : Decodes allowed member.2) {before rest : List Char}
    (hbefore : ∀ c ∈ before, isSpace c = true) (hrest : Ends Lexeme.continuesNumber rest) :
    (readMember? (readValue? allowed)
      (before ++ (memberText style level member ++ rest))).map Reading.both =
        if member.2.depth ≤ allowed then some ((member.1, member.2.reread), rest) else none := by
  obtain ⟨key, value⟩ := member
  obtain ⟨blanks, hcolon, hblanks⟩ := exists_colonText_eq_cons style
  have hkey := readString?_stringText key (colonText style ++ (text style level value ++ rest))
  have hskip : skipSpace (before ++ (memberText style level (key, value) ++ rest)) =
      stringText key ++ (colonText style ++ (text style level value ++ rest)) := by
    rw [memberText, List.append_assoc, List.append_assoc]
    exact skipSpace_append hbefore rfl _
  rw [← hskip] at hkey
  have hafter : skipSpace (colonText style ++ (text style level value ++ rest)) =
      ':' :: (blanks ++ (text style level value ++ rest)) := by
    rw [hcolon]
    exact skipSpace_cons rfl _
  rw [readMember?_colon hkey hafter, hvalue style level _ _ hblanks hrest]
  split <;> rfl

/-! ## Values -/

/-- An array or an object is deeper than nothing. -/
theorem decodes_zero {value : Json} (hdepth : value.depth ≠ 0)
    (hhead : ∀ style level, ∃ c cs, text style level value = c :: cs ∧ (c = '[' ∨ c = '\x7b')) :
    Decodes 0 value := by
  intro style level before rest hbefore _
  obtain ⟨c, cs, hcons, hc⟩ := hhead style level
  have hspace : isSpace c = false := by rcases hc with rfl | rfl <;> rfl
  rw [hcons, List.cons_append, readValue?_zero (skipSpace_append hbefore hspace _) hc,
    if_neg (by omega)]

/-- Arrays are decoded if their items are. -/
theorem decodes_array {items : List Json} {allowed : Nat}
    (hitems : ∀ item ∈ items, Decodes allowed item) : Decodes (allowed + 1) (.array items) := by
  intro style level before rest hbefore _
  have hwrite : ∀ item ∈ items, ∃ c cs,
      text style (level + 1) item = c :: cs ∧ isSpace c = false ∧ c ≠ ']' := by
    intro item _
    obtain ⟨c, cs, hcons, hspace, hne, -⟩ := exists_text_eq_cons style (level + 1) item
    exact ⟨c, cs, hcons, hspace, hne⟩
  have hread := readEnclosed?_text style level (by decide) hwrite
    (fun item hitem => hitems item hitem style (level + 1)) rest
  rw [text_array, List.cons_append, readValue?_array (skipSpace_append hbefore rfl _), hread, depth,
    reread]
  simp only [Nat.add_le_add_iff_right, depthOfItems_le_iff, rereadItems_eq]
  split <;> rfl

/-- Objects with different keys are decoded if the values of their members are. -/
theorem decodes_object {members : Members} {allowed : Nat} (hkeys : (members.map (·.1)).Nodup)
    (hmembers : ∀ member ∈ members, Decodes allowed member.2) :
    Decodes (allowed + 1) (.object members) := by
  intro style level before rest hbefore _
  have hwrite : ∀ member ∈ members, ∃ c cs,
      memberText style (level + 1) member = c :: cs ∧ isSpace c = false ∧ c ≠ '\x7d' :=
    fun member _ => ⟨'\x22', _, rfl, by decide⟩
  have hread := readEnclosed?_text style level (by decide) hwrite
    (fun member hmember _ _ => readMember?_text style (level + 1) (hmembers member hmember)) rest
  -- the keys are written and read as they are, so members that are read do not replace each other
  have hsettle : settle (rereadMembers members) = rereadMembers members := by
    refine settle_of_nodup ?_
    rw [rereadMembers_eq, List.map_map]
    exact hkeys
  rw [text_object, List.cons_append, readValue?_object (skipSpace_append hbefore rfl _), hread,
    depth, reread]
  simp only [Nat.add_le_add_iff_right, depthOfMembers_le_iff]
  split
  · rw [Option.map_some, Prod.map_apply, Function.comp_apply, ← rereadMembers_eq, hsettle]
    rfl
  · rfl

/-- A value that repeats no key is decoded from its text. -/
theorem decodes {value : Json} (h : value.KeysDistinct) (allowed : Nat) :
    Decodes allowed value := by
  -- arrays and objects take one level each, so what they hold is decoded with one level less
  induction h generalizing allowed with
  | @intro value hkeys _ ih =>
    match value, allowed with
    | .null, allowed => exact decodes_null allowed
    | .bool value, allowed => exact decodes_bool value allowed
    | .number value, allowed => exact decodes_number value allowed
    | .string value, allowed => exact decodes_string value allowed
    | .array items, 0 =>
      refine decodes_zero (Nat.succ_ne_zero _) ?_
      rintro style level
      cases items <;> exact ⟨_, _, rfl, .inl rfl⟩
    | .array items, allowed + 1 => exact decodes_array fun item hitem => ih item hitem allowed
    | .object members, 0 =>
      refine decodes_zero (Nat.succ_ne_zero _) ?_
      rintro style level
      cases members <;> exact ⟨_, _, rfl, .inr rfl⟩
    | .object members, allowed + 1 =>
      refine decodes_object (hkeys members rfl) fun member hmember => ?_
      exact ih _ (List.mem_map_of_mem (f := (·.2)) hmember) allowed

/-- The text of a value, with white space behind it, is decoded if the value is not too deep. -/
theorem read?_render {value : Json} (h : value.KeysDistinct) (style : Rendering) :
    read? (value.render style ++ "\n") =
      if value.depth ≤ maxDepth then some value.reread else none := by
  have hread := decodes h maxDepth style 0 [] ['\n'] (List.forall_mem_nil _) (by rintro _ ⟨⟩; rfl)
  have htext : [] ++ (text style 0 value ++ ['\n']) = (value.render style ++ "\n").toList := by
    rw [render, String.toList_append, String.toList_ofList, List.nil_append]
    rfl
  rw [htext] at hread
  split
  · rename_i hdepth
    rw [if_pos hdepth] at hread
    exact read?_of_readValue? hread rfl
  · rename_i hdepth
    rw [if_neg hdepth] at hread
    exact read?_eq_none hread

end Json

end DocQuery
