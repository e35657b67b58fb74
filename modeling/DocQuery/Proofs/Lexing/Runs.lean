import DocQuery.Proofs.Grammar.Lookahead
import Mathlib.Data.List.TakeWhile

/-!
# Runs of the lexer

The parser reads a token at a time and changes the flags for white space in between, also while the
next token is already read. So what holds of the lexer has to hold after any calls, whatever their
order. Two things carry over from one call to the next. The lexer only ever goes on in its text, by
as many bytes as its offset grows. And where it cannot go on, it stands before the end of the text
or before a character that is not blank, so that no flag makes a difference any more.

* `Lexer.goesOn_run`: the lexer goes on in its text.
* `Lexer.reads_of_next`: what is passed with a token.
* `Lexer.Stands.staysAt`: a lexer that cannot go on never does.
* `Lexer.reads_or_staysAt`: a token, the end of the text or a fault, after any calls.
-/

namespace DocQuery

namespace Lexer

/-! ## Calls -/

/-- A call of the lexer. -/
inductive Call where
  /-- A flag is put on the stack. -/
  | push (skip : Bool)
  /-- The top flag is taken from the stack. -/
  | pop
  /-- A token is read. -/
  | next
  deriving DecidableEq, Repr

/-- The lexer after a call. -/
def call (lexer : Lexer) : Call → Lexer
  | .push skip => lexer.push skip
  | .pop => lexer.pop
  | .next => lexer.next.2

/-- The lexer after calls, the first one first. -/
def run (lexer : Lexer) (calls : List Call) : Lexer := calls.foldl call lexer

/-! ## Going on in the text -/

/-- The second lexer is behind the first one in the same text, or at the same place, and its offset
has grown by the bytes that lie in between. -/
def GoesOn (lexer after : Lexer) : Prop :=
  ∃ read, lexer.rest = read ++ after.rest ∧ after.offset = lexer.offset + utf8Length read

/-- All of the characters are skipped. -/
def SkipsAll (lexer : Lexer) (cs : List Char) : Prop :=
  ∀ c ∈ cs, lexer.skips = true ∧ isBlank c = true

section GoesOn

variable {lexer mid after : Lexer}

/-- A lexer is at its own place. -/
theorem GoesOn.refl (lexer : Lexer) : lexer.GoesOn lexer := ⟨[], rfl, rfl⟩

/-- A lexer goes on from where it went. -/
theorem GoesOn.trans (h₁ : lexer.GoesOn mid) (h₂ : mid.GoesOn after) : lexer.GoesOn after := by
  obtain ⟨read, hrest, hoffset⟩ := h₁
  obtain ⟨more, hmore, hlast⟩ := h₂
  refine ⟨read ++ more, ?_, ?_⟩
  · rw [hrest, hmore, List.append_assoc]
  · rw [hlast, hoffset, utf8Length_append, Nat.add_assoc]

/-- The offset never decreases. -/
theorem GoesOn.offset_le (h : lexer.GoesOn after) : lexer.offset ≤ after.offset := by
  obtain ⟨read, -, hoffset⟩ := h
  omega

/-- What is passed before a token is skipped. -/
theorem exists_gap (lexer : Lexer) :
    ∃ gap, lexer.rest = gap ++ lexer.skipBlanks.rest ∧
      lexer.skipBlanks.offset = lexer.offset + utf8Length gap ∧ lexer.SkipsAll gap := by
  unfold skipBlanks
  split
  · rename_i hskips
    refine ⟨lexer.rest.takeWhile isBlank, ?_, rfl, fun c hc => ⟨hskips, ?_⟩⟩
    · exact List.takeWhile_append_dropWhile.symm
    · exact Lexeme.of_mem_takeWhile c hc
  · exact ⟨[], rfl, rfl, List.forall_mem_nil _⟩

/-- Reading a token goes on in the text, also where it fails. -/
theorem goesOn_next (lexer : Lexer) : lexer.GoesOn lexer.next.2 := by
  obtain ⟨gap, hrest, hoffset, -⟩ := lexer.exists_gap
  have hskip : lexer.GoesOn lexer.skipBlanks := ⟨gap, hrest, hoffset⟩
  rcases lexer.next_cases with ⟨-, h⟩ | ⟨c, rest, hshape, ⟨fault, -, h⟩ | ⟨lexeme, hscan, h⟩⟩
  all_goals rw [h]
  · exact hskip
  · exact hskip
  · -- behind the white space the token is passed with all of its characters
    refine hskip.trans ⟨lexeme.source, ?_, rfl⟩
    rw [hshape, ← Lexeme.source_append_rest_of_scan hscan]
    rfl

/-- A call goes on in the text. -/
theorem goesOn_call (lexer : Lexer) (call : Call) : lexer.GoesOn (lexer.call call) := by
  cases call with
  | push skip => exact .refl lexer
  | pop => exact .refl lexer
  | next => exact lexer.goesOn_next

/-- The lexer goes on in its text. -/
theorem goesOn_run (lexer : Lexer) (calls : List Call) : lexer.GoesOn (lexer.run calls) := by
  induction calls generalizing lexer with
  | nil => exact .refl lexer
  | cons call calls ih => exact (lexer.goesOn_call call).trans (ih _)

/-- The offset of a lexer is the size of what it has read of its text. -/
theorem exists_read_of_goesOn {text : String} (h : (ofString text).GoesOn lexer) :
    ∃ read : String, text = read ++ .ofList lexer.rest ∧ read.utf8ByteSize = lexer.offset := by
  obtain ⟨read, hrest, hoffset⟩ := h
  refine ⟨.ofList read, ?_, ?_⟩
  · rw [← String.ofList_append, ← hrest]
    exact String.ofList_toList.symm
  · rw [utf8ByteSize_ofList, hoffset]
    exact (Nat.zero_add _).symm

end GoesOn

/-! ## Tokens -/

/-- The lexer reads a token other than the end of the text, after which it is the second one. What
it passes are a gap, which it skips, and then the characters of the token. They are at least one,
and they make up this token also when they stand alone. -/
def Reads (lexer : Lexer) (token : Token) (after : Lexer) : Prop :=
  ∃ gap source, lexer.rest = gap ++ (source ++ after.rest) ∧
    lexer.SkipsAll gap ∧ token.position = lexer.offset + utf8Length gap ∧
    token.position < after.offset ∧ after.offset = token.position + utf8Length source ∧
    ((ofList source).push false).next = (.ok ⟨token.kind, 0⟩, ⟨[], utf8Length source, [false]⟩)

/-- The characters of a token make up the same token when they stand alone. -/
theorem next_source {c : Char} {rest : List Char} {lexeme : Lexeme}
    (h : Lexeme.scan c rest = .ok lexeme) :
    ((ofList lexeme.source).push false).next =
      (.ok ⟨lexeme.kind, 0⟩, ⟨[], utf8Length lexeme.source, [false]⟩) := by
  -- nothing goes on with a token at the end of a text
  have hend : Lexeme.Replaces (Lexeme.continuesKind lexeme.kind) lexeme.rest [] := by
    rintro d ⟨⟩
  obtain ⟨cs, hsource, hscan⟩ := Lexeme.scan_replace h hend
  rw [List.append_nil] at hscan
  have hstart : ((ofList lexeme.source).push false).skipBlanks = ⟨c :: cs, 0, [false]⟩ := by
    rw [hsource]
    rfl
  rw [next, hstart]
  simp only [hscan, advance, Nat.zero_add]

/-- What is read other than the end of the text is a token. -/
theorem reads_of_next {lexer : Lexer} {token : Token} (h : lexer.next.1 = .ok token)
    (hkind : token.kind ≠ .endOfInput) : lexer.Reads token lexer.next.2 := by
  obtain ⟨gap, hrest, hoffset, hgap⟩ := lexer.exists_gap
  have hnext : lexer.next = (.ok token, lexer.next.2) := Prod.ext h rfl
  rcases next_eq_ok hnext with ⟨-, rfl, -⟩ | ⟨c, rest, lexeme, hshape, hscan, rfl, hafter⟩
  · exact absurd rfl hkind
  · have hsource : utf8Length lexeme.source ≠ 0 :=
      mt eq_nil_of_utf8Length_eq_zero (Lexeme.source_ne_nil_of_scan hscan)
    rw [hafter]
    refine ⟨gap, lexeme.source, ?_, hgap, hoffset, ?_, rfl, next_source hscan⟩
    · rw [hrest, hshape, ← Lexeme.source_append_rest_of_scan hscan]
      rfl
    · show lexer.skipBlanks.offset < lexer.skipBlanks.offset + utf8Length lexeme.source
      omega

/-- Nothing is left behind the skipped white space if all that is left is skipped. -/
theorem rest_skipBlanks_eq_nil_iff (lexer : Lexer) :
    lexer.skipBlanks.rest = [] ↔ lexer.SkipsAll lexer.rest := by
  unfold skipBlanks
  split
  · rename_i hskips
    simp [SkipsAll, hskips, advance, List.dropWhile_eq_nil_iff]
  · -- no character is skipped here, so none may be left
    rename_i hskips
    simp [SkipsAll, hskips, List.eq_nil_iff_forall_not_mem]

/-- The end of the text is read if all that is left of it is skipped. -/
theorem next_eq_endOfInput_iff (lexer : Lexer) :
    (∃ position, lexer.next.1 = .ok ⟨.endOfInput, position⟩) ↔ lexer.SkipsAll lexer.rest := by
  rw [← rest_skipBlanks_eq_nil_iff]
  rcases lexer.next_cases with ⟨hrest, h⟩ | ⟨c, rest, hrest, ⟨_, -, h⟩ | ⟨lexeme, hscan, h⟩⟩
  · simp [hrest, h]
  · simp [hrest, h]
  · have := Lexeme.kind_ne_endOfInput_of_scan hscan
    simp [hrest, h, this]

/-! ## The end of a run -/

/-- Whatever the flags are, the lexer reads the same and does not move. -/
def Stands (lexer : Lexer) (result : Except LexError Token) : Prop :=
  ∀ policies, { lexer with policies }.next = (result, { lexer with policies })

/-- The lexer is at the place, and whatever is called, it stays there and reads the same. -/
def StaysAt (lexer : Lexer) (position : Nat) (result : Except LexError Token) : Prop :=
  ∀ later, (lexer.run later).offset = position ∧ (lexer.run later).next.1 = result

section Stands

variable {lexer : Lexer} {result : Except LexError Token}

/-- Where no white space begins, none is skipped. -/
theorem skipBlanks_of_ends (h : Ends isBlank lexer.rest) : lexer.skipBlanks = lexer := by
  unfold skipBlanks
  split
  · have hnone := h.takeWhile_eq_nil
    have hall := List.takeWhile_append_dropWhile (p := isBlank) (l := lexer.rest)
    rw [hnone, List.nil_append] at hall
    rw [hnone, hall]
    rfl
  · rfl

/-- A lexer stands at the end of the text. -/
theorem stands_of_eq_nil (h : lexer.rest = []) :
    lexer.Stands (.ok ⟨.endOfInput, lexer.offset⟩) := by
  intro policies
  have hskip : { lexer with policies }.skipBlanks = { lexer with policies } := by
    refine skipBlanks_of_ends ?_
    simp [Ends, h]
  rw [next, hskip]
  simp only [h]

/-- A lexer stands where no token begins. What begins there is no white space either, since that
would be a token where it is not skipped. -/
theorem stands_of_scan_eq_error {c : Char} {rest : List Char} {fault : LexFault}
    (h : lexer.rest = c :: rest) (hscan : Lexeme.scan c rest = .error fault) :
    lexer.Stands (.error ⟨lexer.offset, fault⟩) := by
  have hblank : isBlank c = false := by
    rw [Bool.eq_false_iff]
    intro hblank
    rw [Lexeme.scan_of_isBlank rest hblank] at hscan
    cases hscan
  intro policies
  have hskip : { lexer with policies }.skipBlanks = { lexer with policies } := by
    refine skipBlanks_of_ends ?_
    simp [Ends, h, hblank]
  rw [next, hskip]
  simp only [h, hscan]

/-- No call moves a lexer that stands. -/
theorem Stands.call (h : lexer.Stands result) (call : Call) :
    (lexer.call call).Stands result ∧ (lexer.call call).offset = lexer.offset := by
  cases call with
  | push skip => exact ⟨h, rfl⟩
  | pop => exact ⟨h, rfl⟩
  | next =>
    -- under the flags as they are the lexer reads the result and remains the same
    have hnext : lexer.call .next = lexer := congrArg Prod.snd (h lexer.policies)
    rw [hnext]
    exact ⟨h, rfl⟩

/-- A lexer that stands stays where it is. -/
theorem Stands.staysAt (h : lexer.Stands result) : lexer.StaysAt lexer.offset result := by
  intro later
  -- a call leaves a lexer that stands at the same place, so the rest of the calls starts from there
  induction later generalizing lexer with
  | nil => exact ⟨rfl, congrArg Prod.fst (h lexer.policies)⟩
  | cons call later ih =>
    obtain ⟨hcall, hoffset⟩ := h.call call
    rw [← hoffset]
    exact ih hcall

/-- A lexer stays at a fault. -/
theorem staysAt_of_error {error : LexError} (h : lexer.next.1 = .error error) :
    lexer.next.2.StaysAt error.position (.error error) := by
  have hnext : lexer.next = (.error error, lexer.next.2) := Prod.ext h rfl
  obtain ⟨position, fault⟩ := error
  obtain ⟨⟨c, rest, hrest, hscan⟩, hposition, hafter⟩ := next_eq_error hnext
  obtain rfl : position = lexer.skipBlanks.offset := hposition
  rw [hafter]
  exact (stands_of_scan_eq_error hrest hscan).staysAt

/-- A lexer stays at the end of the text. -/
theorem staysAt_of_endOfInput {position : Nat} (h : lexer.next.1 = .ok ⟨.endOfInput, position⟩) :
    lexer.next.2.StaysAt position (.ok ⟨.endOfInput, position⟩) := by
  have hnext : lexer.next = (.ok ⟨.endOfInput, position⟩, lexer.next.2) := Prod.ext h rfl
  rcases next_eq_ok hnext with ⟨hrest, htoken, hafter⟩ | ⟨_, _, lexeme, -, hscan, htoken, -⟩
  · rw [hafter]
    cases htoken
    exact (stands_of_eq_nil hrest).staysAt
  · -- no characters make up a token of this kind
    have hkind : lexeme.kind = .endOfInput := (congrArg Token.kind htoken).symm
    exact absurd hkind (Lexeme.kind_ne_endOfInput_of_scan hscan)

end Stands

/-- After any calls the offset is the size of a prefix of the text, and no further calls make it
smaller. Then a token is read with what is skipped before it, the end of the text is read just where
all the rest is skipped, and where the end or a fault is read the lexer stays. -/
theorem reads_or_staysAt (text : String) (calls : List Call) :
    let lexer := (ofString text).run calls
    (∃ read : String, text = read ++ .ofList lexer.rest ∧ read.utf8ByteSize = lexer.offset) ∧
      (∀ later, lexer.offset ≤ (lexer.run later).offset) ∧
      (∀ token, lexer.next.1 = .ok token → token.kind ≠ .endOfInput →
        lexer.Reads token lexer.next.2) ∧
      ((∃ position, lexer.next.1 = .ok ⟨.endOfInput, position⟩) ↔ lexer.SkipsAll lexer.rest) ∧
      (∀ error, lexer.next.1 = .error error →
        lexer.next.2.StaysAt error.position (.error error)) ∧
      ∀ position, lexer.next.1 = .ok ⟨.endOfInput, position⟩ →
        lexer.next.2.StaysAt position (.ok ⟨.endOfInput, position⟩) := by
  intro lexer
  refine ⟨?_, fun later => ?_, fun _ h hkind => ?_, lexer.next_eq_endOfInput_iff, fun _ h => ?_,
    fun _ h => ?_⟩
  · exact exists_read_of_goesOn ((ofString text).goesOn_run calls)
  · exact (lexer.goesOn_run later).offset_le
  · exact reads_of_next h hkind
  · exact staysAt_of_error h
  · exact staysAt_of_endOfInput h

/-- The flag against skipping white space is taken away in time. The string takes four bytes, and
the white space behind it is passed before the fault. -/
theorem reads_or_staysAt_string :
    let first := (ofString " 'é' !").run [.push false, .pop]
    let second := (ofString " 'é' !").run [.push false, .pop, .next]
    first.Reads ⟨.string "é", 1⟩ first.next.2 ∧
      second.next.2.StaysAt 6 (.error ⟨6, .invalidOperator '!'⟩) := by
  intro first second
  refine ⟨?_, ?_⟩
  · obtain ⟨-, -, hreads, -⟩ := reads_or_staysAt " 'é' !" [.push false, .pop]
    exact hreads _ (by decide +kernel) nofun
  · obtain ⟨-, -, -, -, hfault, -⟩ := reads_or_staysAt " 'é' !" [.push false, .pop, .next]
    exact hfault ⟨6, .invalidOperator '!'⟩ (by decide +kernel)

end Lexer

end DocQuery
