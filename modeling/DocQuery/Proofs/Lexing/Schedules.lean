import DocQuery.Proofs.Lexing.Runs
import Mathlib.Data.List.Basic

/-!
# White space and the flags

The flags decide whether white space is shown, and nothing else. Two lexers that read the same text
under different flags are not at the same place after the same tokens: one of them has white space
before it that the other one has reported already. What they share is the place behind that white
space. So each lexer is compared with the one that has no flags and stands there. A separator does
not move that one, and every other token is the one that it reads next.

* `Lexer.next_passBlanks`: a token read under any flags, against the lexer without flags.
* `Lexer.filter_outcomes`: all that is read under changing flags, without the separators.
* `Lexer.outcomes_of_schedules`: the flags may be changed in any two ways.
-/

namespace DocQuery

namespace Lexer

/-! ## Reading while flags change -/

/-- A change of the flags between two tokens. -/
inductive Change where
  /-- A flag is put on the stack. -/
  | push (skip : Bool)
  /-- The top flag is taken from the stack. -/
  | pop
  deriving DecidableEq, Repr

/-- The call that makes a change. -/
def Change.call : Change → Call
  | .push skip => .push skip
  | .pop => .pop

/-- The lexer after changes, the first one first. -/
def change (lexer : Lexer) (changes : List Change) : Lexer := lexer.run (changes.map Change.call)

/-- Changes leave the lexer at its place. -/
theorem exists_change_eq (lexer : Lexer) (changes : List Change) :
    ∃ policies, lexer.change changes = { lexer with policies } := by
  induction changes generalizing lexer with
  | nil => exact ⟨lexer.policies, rfl⟩
  | cons first changes ih =>
    cases first with
    | push skip => exact ih (lexer.push skip)
    | pop => exact ih lexer.pop

/-- Changes leave the rest of the text as it is. -/
theorem rest_change (lexer : Lexer) (changes : List Change) :
    (lexer.change changes).rest = lexer.rest := by
  obtain ⟨policies, h⟩ := lexer.exists_change_eq changes
  rw [h]

/-- What is read of the rest of the text if the flags are changed on the way: the tokens up to the
end of the text or up to the first fault, and then this end or this fault. The schedule tells the
changes that are made before a token by the number of tokens that have been read. -/
def outcomes (schedule : Nat → List Change) (lexer : Lexer) : List (Except LexError Token) :=
  let ready := lexer.change (schedule 0)
  match _hfound : ready.next.1 with
  | .error error => [.error error]
  | .ok token =>
    if token.kind = .endOfInput then [.ok token]
    else .ok token :: outcomes (fun n => schedule (n + 1)) ready.next.2
termination_by lexer.rest.length
decreasing_by
  rcases length_rest_next_lt _hfound with ⟨hend, -⟩ | hlt
  · contradiction
  · rw [← lexer.rest_change (schedule 0)]
    exact hlt

/-- Whether the outcome is anything but a separator. -/
def isShown : Except LexError Token → Bool
  | .ok token => token.kind != .separator
  | .error _ => true

/-! ## The place behind white space -/

/-- The lexer without flags, behind the white space at hand. -/
def passBlanks (lexer : Lexer) : Lexer := { lexer with policies := [] }.skipBlanks

/-- The white space at hand has been passed. -/
theorem passBlanks_eq (lexer : Lexer) :
    lexer.passBlanks =
      ⟨lexer.rest.dropWhile isBlank,
        lexer.offset + utf8Length (lexer.rest.takeWhile isBlank), []⟩ :=
  rfl

/-- No white space begins behind the white space at hand. -/
theorem ends_rest_passBlanks (lexer : Lexer) : Ends isBlank lexer.passBlanks.rest :=
  Lexeme.ends_dropWhile isBlank lexer.rest

/-- Changes leave the place behind white space as it is. -/
theorem passBlanks_change (lexer : Lexer) (changes : List Change) :
    (lexer.change changes).passBlanks = lexer.passBlanks := by
  obtain ⟨policies, h⟩ := lexer.exists_change_eq changes
  rw [h]
  rfl

/-- Behind skipped white space none is skipped. -/
theorem skipBlanks_skipBlanks (lexer : Lexer) : lexer.skipBlanks.skipBlanks = lexer.skipBlanks := by
  by_cases hskips : lexer.skips = true
  · apply skipBlanks_of_ends
    rw [skipBlanks, if_pos hskips]
    exact Lexeme.ends_dropWhile isBlank lexer.rest
  · have hstay : lexer.skipBlanks = lexer := if_neg hskips
    rw [hstay, hstay]

/-- The same is read behind the white space that is skipped. -/
theorem next_skipBlanks (lexer : Lexer) : lexer.skipBlanks.next = lexer.next := by
  rw [next, next, skipBlanks_skipBlanks]

/-- Under other flags the same is read if the same white space is skipped. -/
theorem next_of_skipBlanks {lexer : Lexer} {policies : List Bool}
    (h : { lexer with policies }.skipBlanks = { lexer.skipBlanks with policies }) :
    { lexer with policies }.next = (lexer.next.1, { lexer.next.2 with policies }) := by
  rw [next, next, h]
  dsimp only
  split
  · rfl
  · split <;> rfl

/-- Where no white space begins, a token does not depend on the flags. -/
theorem next_of_ends {lexer : Lexer} (h : Ends isBlank lexer.rest) (policies : List Bool) :
    { lexer with policies }.next = (lexer.next.1, { lexer.next.2 with policies }) := by
  have hskip : { lexer with policies }.skipBlanks = { lexer with policies } := skipBlanks_of_ends h
  apply next_of_skipBlanks
  rw [hskip, skipBlanks_of_ends h]

/-- A token does not depend on the flags beneath the one that holds. -/
theorem next_of_skips {lexer : Lexer} {policies : List Bool}
    (h : { lexer with policies }.skips = lexer.skips) :
    { lexer with policies }.next = (lexer.next.1, { lexer.next.2 with policies }) := by
  apply next_of_skipBlanks
  rw [skipBlanks, skipBlanks, h]
  split
  · rfl
  · rfl

/-- What begins with a character that is not blank is no separator. -/
theorem isShown_next_of_ends {lexer : Lexer} (h : Ends isBlank lexer.rest) :
    isShown lexer.next.1 = true := by
  rcases lexer.next_cases with ⟨-, hnext⟩ | ⟨c, rest, hrest, ⟨_, -, hnext⟩ | ⟨lexeme, hscan, hnext⟩⟩
  all_goals rw [hnext]
  · rfl
  · rfl
  · rw [skipBlanks_of_ends h] at hrest
    have hblank : isBlank c = false := h c (by rw [hrest]; rfl)
    have hkind : lexeme.kind ≠ .separator := fun hsep => by
      rw [(Lexeme.eq_of_scan_separator hscan hsep).1] at hblank
      cases hblank
    simpa [isShown] using hkind

/-- Where white space begins that is not skipped, a separator is read, and behind it is the same
place as before. -/
theorem next_of_isBlank {lexer : Lexer} (hskips : ¬lexer.skips = true) {c : Char} {rest : List Char}
    (hrest : lexer.rest = c :: rest) (hblank : isBlank c = true) :
    lexer.next.1 = .ok ⟨.separator, lexer.offset⟩ ∧ lexer.next.2.passBlanks = lexer.passBlanks := by
  have hstay : lexer.skipBlanks = lexer := if_neg hskips
  have hnext : lexer.next = (.ok ⟨.separator, lexer.offset⟩,
      lexer.advance (c :: rest.takeWhile isBlank) (rest.dropWhile isBlank)) := by
    rw [next, hstay]
    simp only [hrest, Lexeme.scan_of_isBlank rest hblank]
  rw [hnext]
  refine ⟨rfl, ?_⟩
  -- the separator takes all of the white space, so none is left to be passed
  have hends : Ends isBlank (rest.dropWhile isBlank) := Lexeme.ends_dropWhile isBlank rest
  rw [passBlanks, skipBlanks_of_ends hends, passBlanks_eq, hrest, List.takeWhile_cons_of_pos hblank,
    List.dropWhile_cons_of_pos hblank]
  rfl

/-- Where no white space begins, or where it is skipped, the same is read as behind it. -/
theorem next_eq_passBlanks {lexer : Lexer} (h : lexer.skips = true ∨ Ends isBlank lexer.rest) :
    lexer.next =
      (lexer.passBlanks.next.1, { lexer.passBlanks.next.2 with policies := lexer.policies }) := by
  have hskip : lexer.skipBlanks = { lexer.passBlanks with policies := lexer.policies } := by
    rcases h with hskips | hends
    · rw [skipBlanks, if_pos hskips]
      rfl
    · have hpass : lexer.passBlanks = { lexer with policies := [] } := skipBlanks_of_ends hends
      rw [skipBlanks_of_ends hends, hpass]
  rw [← next_skipBlanks, hskip]
  exact next_of_ends lexer.ends_rest_passBlanks lexer.policies

/-- A token that is read under any flags, against the lexer without flags behind the white space. A
separator does not move that lexer, and anything else is what it reads itself. -/
theorem next_passBlanks (lexer : Lexer) :
    ((∃ position, lexer.next.1 = .ok ⟨.separator, position⟩) ∧
      lexer.next.2.passBlanks = lexer.passBlanks) ∨
    (isShown lexer.next.1 = true ∧ lexer.next.1 = lexer.passBlanks.next.1 ∧
      lexer.next.2.passBlanks = lexer.passBlanks.next.2.passBlanks) := by
  by_cases h : lexer.skips = true ∨ Ends isBlank lexer.rest
  · right
    have hnext := next_eq_passBlanks h
    rw [hnext]
    exact ⟨isShown_next_of_ends lexer.ends_rest_passBlanks, rfl, rfl⟩
  · left
    rw [not_or] at h
    obtain ⟨hskips, hends⟩ := h
    obtain ⟨c, hc, hblank⟩ : ∃ c ∈ lexer.rest.head?, isBlank c = true := by simpa [Ends] using hends
    obtain ⟨rest, hrest⟩ := List.head?_eq_some_iff.1 hc
    obtain ⟨hfirst, hplace⟩ := next_of_isBlank hskips hrest hblank
    exact ⟨⟨_, hfirst⟩, hplace⟩

/-! ## The whole text -/

/-- What remains of a text is what is read next, and then what remains behind it. -/
theorem map_fst_remaining (lexer : Lexer) :
    lexer.remaining.map Prod.fst =
      match lexer.next.1 with
      | .error error => [.error error]
      | .ok token =>
        if token.kind = .endOfInput then [.ok token]
        else .ok token :: lexer.next.2.remaining.map Prod.fst := by
  rw [remaining]
  split
  · rename_i h
    rw [h]
    rfl
  · rename_i token h
    rw [h]
    dsimp only
    split <;> rfl

/-- Without flags, the same remains of a text behind its white space. -/
theorem map_fst_remaining_passBlanks {lexer : Lexer} (h : lexer.policies = []) :
    lexer.passBlanks.remaining.map Prod.fst = lexer.remaining.map Prod.fst := by
  have hpass : lexer.passBlanks = lexer.skipBlanks := by
    rw [passBlanks, ← h]
  rw [map_fst_remaining lexer.passBlanks, map_fst_remaining lexer, hpass, next_skipBlanks]

/-- What is read under changing flags, without the separators, is what remains of the text without
flags. -/
theorem filter_outcomes (schedule : Nat → List Change) (lexer : Lexer) :
    (lexer.outcomes schedule).filter isShown = lexer.passBlanks.remaining.map Prod.fst := by
  -- by induction over what is read; the two lexers share the place behind the white space
  fun_induction outcomes schedule lexer with
  | case1 schedule lexer ready error h =>
    rcases ready.next_passBlanks with ⟨⟨_, hsep⟩, -⟩ | ⟨-, hfirst, -⟩
    · cases h.symm.trans hsep
    · rw [passBlanks_change, h] at hfirst
      rw [map_fst_remaining, ← hfirst]
      rfl
  | case2 schedule lexer ready token h hend =>
    rcases ready.next_passBlanks with ⟨⟨_, hsep⟩, -⟩ | ⟨hshown, hfirst, -⟩
    · cases h.symm.trans hsep
      cases hend
    · rw [passBlanks_change, h] at hfirst
      rw [map_fst_remaining, ← hfirst, List.filter_cons_of_pos (h ▸ hshown)]
      simp only [hend, if_true, List.filter_nil]
  | case3 schedule lexer ready token h hend ih =>
    rcases ready.next_passBlanks with ⟨⟨_, hsep⟩, hplace⟩ | ⟨hshown, hfirst, hplace⟩
    · -- only one of the two has read something, and it is not shown
      cases h.symm.trans hsep
      rw [List.filter_cons_of_neg (by simp [isShown]), ih, hplace, passBlanks_change]
    · rw [passBlanks_change] at hfirst hplace
      rw [h] at hfirst
      have hflags : lexer.passBlanks.next.2.policies = [] := policies_next _
      rw [List.filter_cons_of_pos (h ▸ hshown), ih, hplace, map_fst_remaining lexer.passBlanks,
        ← hfirst, map_fst_remaining_passBlanks hflags]
      simp only [hend, if_false]

/-- Nothing is read after the outcome: it is the end of the text or a fault. -/
def IsEnd : Except LexError Token → Prop
  | .ok token => token.kind = .endOfInput
  | .error _ => True

/-- What is read of a text are tokens and then an end. -/
theorem exists_outcomes_eq (schedule : Nat → List Change) (lexer : Lexer) :
    ∃ (tokens : List Token) (last : Except LexError Token),
      lexer.outcomes schedule = tokens.map .ok ++ [last] ∧ IsEnd last ∧
      ∀ token ∈ tokens, token.kind ≠ .endOfInput := by
  fun_induction outcomes schedule lexer with
  | case1 schedule lexer ready error h =>
    exact ⟨[], .error error, rfl, trivial, List.forall_mem_nil _⟩
  | case2 schedule lexer ready token h hend =>
    exact ⟨[], .ok token, rfl, hend, List.forall_mem_nil _⟩
  | case3 schedule lexer ready token h hend ih =>
    obtain ⟨tokens, last, heq, hlast, htokens⟩ := ih
    refine ⟨token :: tokens, last, ?_, hlast, List.forall_mem_cons.2 ⟨hend, htokens⟩⟩
    rw [heq]
    rfl

/-- The end is shown, and of the tokens in front of it those that are no separators. -/
theorem filter_map_append_end (tokens : List Token) {last : Except LexError Token}
    (h : IsEnd last) :
    (tokens.map Except.ok ++ [last]).filter isShown =
      (tokens.filter (·.kind != .separator)).map .ok ++ [last] := by
  have hlast : isShown last = true := by
    cases last with
    | error error => rfl
    | ok token =>
      have hend : token.kind = .endOfInput := h
      simp [isShown, hend]
  rw [List.filter_append, List.filter_map, List.filter_cons_of_pos hlast, List.filter_nil]
  rfl

/-- A text is read under flags that change in either of two ways. Both times there are tokens and
then the end of the text or a fault. The end is the same, and so are the tokens, their positions
included, if the separators among them are left out. -/
theorem outcomes_of_schedules (text : String) (first second : Nat → List Change) :
    ∃ (tokens others : List Token) (last : Except LexError Token),
      (ofString text).outcomes first = tokens.map .ok ++ [last] ∧
      (ofString text).outcomes second = others.map .ok ++ [last] ∧
      tokens.filter (·.kind != .separator) = others.filter (·.kind != .separator) ∧
      IsEnd last ∧ (∀ token ∈ tokens, token.kind ≠ .endOfInput) ∧
      ∀ token ∈ others, token.kind ≠ .endOfInput := by
  obtain ⟨tokens, last, hfirst, hlast, htokens⟩ := exists_outcomes_eq first (ofString text)
  obtain ⟨others, last', hsecond, hlast', hothers⟩ := exists_outcomes_eq second (ofString text)
  -- what is shown of either is what remains of the text without flags
  have hshown : ((ofString text).outcomes first).filter isShown =
      ((ofString text).outcomes second).filter isShown := by
    rw [filter_outcomes, filter_outcomes]
  rw [hfirst, hsecond, filter_map_append_end tokens hlast, filter_map_append_end others hlast']
    at hshown
  obtain ⟨hmap, hend⟩ := List.append_inj' hshown rfl
  obtain rfl : last = last' := List.singleton_inj.1 hend
  have hinjective : Function.Injective (Except.ok : Token → Except LexError Token) :=
    fun _ _ => Except.ok.inj
  have hsame := List.map_injective_iff.2 hinjective hmap
  exact ⟨tokens, others, last, hfirst, hsecond, hsame, hlast, htokens, hothers⟩

end Lexer

end DocQuery
