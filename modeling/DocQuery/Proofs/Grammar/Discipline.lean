import DocQuery.Proofs.Grammar.Ahead
import DocQuery.Proofs.Lexing.Schedules
import Mathlib.Data.List.Induction

/-!
# Flags are put and taken in pairs

A parse changes the flags for white space while it reads, and the token at hand has been read under
the flag that was on top before. What a parse does to its lexer is a list of calls. `Makes` follows
the calls that a parse makes at a cursor, one constructor for each way to build a parse, and also
where an error ends it early. The flags that a parse finds when it begins are not its own: at no
time has it taken more flags than it has put, so that they stay beneath its own flags, and when it
ends, whatever its outcome, its own flags are gone.

* `Lexer.exists_own`: the flags beneath those that calls have put.
* `Parse.Makes.nested`, `Parse.Makes.lexer_eq`: the calls of a parse.
* `Parse.Makes.withFlags`: a parse depends on no flag from before but the one that holds.
* `Parse.Makes.afterBlanks`: a separator at hand is all of the white space at its place.
* `Grammar.disciplined`: the parses of the grammar.
-/

namespace DocQuery

namespace Lexer

/-! ## Nested calls -/

/-- By how many flags a call makes the stack higher. -/
def Call.height : Call → Int
  | .push _ => 1
  | .pop => -1
  | .next => 0

/-- How many more flags the calls put than they take. -/
def level : List Call → Int
  | [] => 0
  | call :: calls => call.height + level calls

@[simp]
theorem level_nil : level [] = 0 := rfl

@[simp]
theorem level_cons (call : Call) (calls : List Call) :
    level (call :: calls) = call.height + level calls := rfl

@[simp]
theorem level_append (calls later : List Call) :
    level (calls ++ later) = level calls + level later := by
  induction calls with
  | nil => simp
  | cons call calls ih =>
    rw [List.cons_append, level_cons, level_cons, ih]
    omega

/-- Calls that take flags only after they have put them, and that take all of them. -/
structure Nested (calls : List Call) : Prop where
  /-- At no time more flags have been taken than put. -/
  own : ∀ first, first <+: calls → 0 ≤ level first
  /-- In the end as many flags have been taken as put. -/
  settled : level calls = 0

/-- No calls are nested. -/
theorem nested_nil : Nested [] := by
  refine ⟨fun first hfirst => ?_, rfl⟩
  rw [List.prefix_nil.1 hfirst]
  exact Int.le_refl 0

/-- Reading a token is nested. -/
theorem nested_next : Nested [.next] := by
  refine ⟨fun first hfirst => ?_, rfl⟩
  rcases List.prefix_cons_iff.1 hfirst with rfl | ⟨others, rfl, hothers⟩
  · exact Int.le_refl 0
  · rw [List.prefix_nil.1 hothers]
    exact Int.le_refl 0

/-- Nested calls after nested calls. -/
theorem Nested.append {calls later : List Call} (h : Nested calls) (hlater : Nested later) :
    Nested (calls ++ later) := by
  refine ⟨fun first hfirst => ?_, ?_⟩
  -- the calls so far end among the first ones, or all of these have been made
  · rcases List.prefix_or_prefix_of_prefix hfirst (List.prefix_append calls later) with
      hcalls | ⟨others, rfl⟩
    · exact h.own first hcalls
    · rw [level_append, h.settled, Int.zero_add]
      exact hlater.own others ((List.prefix_append_right_inj calls).1 hfirst)
  · rw [level_append, h.settled, hlater.settled]
    rfl

/-- Nested calls after a flag has been put and before it is taken. -/
theorem Nested.enclose {calls : List Call} (h : Nested calls) (skip : Bool) :
    Nested (.push skip :: calls ++ [.pop]) := by
  have hall : level (.push skip :: calls ++ [.pop]) = 0 := by
    simp [h.settled, Call.height]
  refine ⟨fun first hfirst => ?_, hall⟩
  rcases List.prefix_concat_iff.1 hfirst with rfl | hfirst
  · exact Int.le_of_eq hall.symm
  rcases List.prefix_cons_iff.1 hfirst with rfl | ⟨others, rfl, hothers⟩
  · exact Int.le_refl 0
  · -- the flag of the first call is still there
    have := h.own others hothers
    rw [level_cons, Call.height]
    omega

/-- The lexer after calls and further calls. -/
theorem run_append (lexer : Lexer) (calls later : List Call) :
    lexer.run (calls ++ later) = (lexer.run calls).run later := List.foldl_append

/-- The flags that were there before stay beneath those that the calls have put. -/
theorem exists_own (lexer : Lexer) {calls : List Call}
    (h : ∀ first, first <+: calls → 0 ≤ level first) :
    ∃ own, (lexer.run calls).policies = own ++ lexer.policies ∧ own.length = level calls := by
  -- from the last call on, because what matters of a call is how many flags there are before it
  induction calls using List.reverseRecOn with
  | nil => exact ⟨[], rfl, rfl⟩
  | append_singleton calls call ih =>
    obtain ⟨own, hown, hlength⟩ := ih fun first hfirst =>
      h first (hfirst.trans (List.prefix_append calls [call]))
    have hlevel := h (calls ++ [call]) (List.prefix_refl _)
    rw [run_append]
    rw [level_append, level_cons, level_nil] at hlevel ⊢
    cases call with
    | push skip =>
      rw [Call.height]
      refine ⟨skip :: own, congrArg (skip :: ·) hown, ?_⟩
      rw [List.length_cons]
      omega
    | pop =>
      rw [Call.height] at hlevel ⊢
      cases own with
      | nil =>
        -- more flags would be taken than put
        rw [List.length_nil] at hlength
        omega
      | cons flag own =>
        refine ⟨own, congrArg List.tail hown, ?_⟩
        rw [List.length_cons] at hlength
        omega
    | next =>
      rw [Call.height]
      exact ⟨own, (policies_next _).trans hown, by omega⟩

end Lexer

/-! ## Cursors -/

/-- Behind a separator no white space is left. -/
theorem Lexer.ends_of_next_separator {lexer after : Lexer} {token : Token}
    (h : lexer.next = (.ok token, after)) (hsep : token.kind = .separator) :
    Ends isBlank after.rest := by
  rcases next_eq_ok h with ⟨-, rfl, -⟩ | ⟨c, rest, lexeme, -, hscan, rfl, rfl⟩
  · cases hsep
  · rw [advance, (Lexeme.eq_of_scan_separator hscan hsep).2]
    exact Lexeme.ends_dropWhile isBlank rest

namespace Cursor

/-- If a separator is at hand, all of the white space at its place has been read with it. -/
def AfterBlanks (cursor : Cursor) : Prop :=
  cursor.token.kind = .separator → Ends isBlank cursor.lexer.rest

/-- This remains so when a token is passed, also where this fails and the token stays at hand. -/
theorem AfterBlanks.advance {cursor : Cursor} (h : cursor.AfterBlanks) :
    (Parse.advance cursor).2.AfterBlanks := by
  rcases hadvance : Parse.advance cursor with ⟨error | _, after⟩
  · obtain ⟨_, hnext, -, hsame⟩ := Parse.exists_next_of_advance hadvance
    intro hsep
    rw [hsame] at hsep
    -- behind the separator there was no white space to be passed before the fault
    obtain ⟨-, -, hplace⟩ := Lexer.next_eq_error hnext
    rw [hplace, Lexer.skipBlanks_of_ends (h hsep)]
    exact h hsep
  · exact Lexer.ends_of_next_separator (Parse.next_of_advance hadvance)

/-- The cursor with other flags. -/
def withFlags (cursor : Cursor) (policies : List Bool) : Cursor :=
  { cursor with lexer := { cursor.lexer with policies } }

end Cursor

namespace Parse

variable {α β : Type}

/-! ## The calls of a parse -/

/-- The parse, at the cursor, makes the calls of the lexer, the first one first. Behind an error no
more calls are made, except that flags are taken. -/
inductive Makes : {α : Type} → Parse α → Cursor → List Lexer.Call → Prop
  | pure {α : Type} (result : α) (cursor : Cursor) : Makes (Pure.pure result) cursor []
  | kind (cursor : Cursor) : Makes kind cursor []
  | fail {α : Type} (fault : GrammarFault) (cursor : Cursor) :
      Makes (fail fault : Parse α) cursor []
  | advance (cursor : Cursor) : Makes advance cursor [.next]
  | bind {α β : Type} {first : Parse α} {next : α → Parse β} {cursor mid : Cursor} {between : α}
      {calls later : List Lexer.Call} (hhead : Makes first cursor calls)
      (hfound : first cursor = (.ok between, mid)) (htail : Makes (next between) mid later) :
      Makes (first >>= next) cursor (calls ++ later)
  | bindError {α β : Type} {first : Parse α} {next : α → Parse β} {cursor mid : Cursor}
      {error : SyntaxError} {calls : List Lexer.Call} (hhead : Makes first cursor calls)
      (hfailed : first cursor = (.error error, mid)) : Makes (first >>= next) cursor calls
  | withPolicy {α : Type} {inner : Parse α} {cursor : Cursor} {skip : Bool}
      {calls : List Lexer.Call}
      (hinside : Makes inner { cursor with lexer := cursor.lexer.push skip } calls) :
      Makes (withPolicy skip inner) cursor (.push skip :: calls ++ [.pop])

/-- The lexer has read one token after a token is passed. -/
theorem lexer_advance (cursor : Cursor) : (advance cursor).2.lexer = cursor.lexer.next.2 := by
  rcases hadvance : advance cursor with ⟨error | _, after⟩
  · obtain ⟨_, hnext, -⟩ := exists_next_of_advance hadvance
    rw [hnext]
  · rw [next_of_advance hadvance]

/-- Passing a token does not depend on the flags beneath the one that holds. -/
theorem advance_withFlags {cursor : Cursor} {policies : List Bool}
    (h : (cursor.withFlags policies).lexer.skips = cursor.lexer.skips) :
    advance (cursor.withFlags policies) =
      ((advance cursor).1, (advance cursor).2.withFlags policies) := by
  have hnext : (cursor.withFlags policies).lexer.next =
      (cursor.lexer.next.1, { cursor.lexer.next.2 with policies }) := Lexer.next_of_skips h
  rw [advance, advance, hnext]
  rcases cursor.lexer.next with ⟨_ | token, lexer⟩
  · rfl
  · rfl

namespace Makes

variable {parse : Parse α} {cursor : Cursor} {calls : List Lexer.Call}

/-- A parse takes only flags that it has put, and it takes all of them. -/
theorem nested (h : Makes parse cursor calls) : Lexer.Nested calls := by
  -- an error leaves the calls of the parse that failed, and these are nested too
  induction h with
  | pure => exact Lexer.nested_nil
  | kind => exact Lexer.nested_nil
  | fail => exact Lexer.nested_nil
  | advance => exact Lexer.nested_next
  | bind _ _ _ ih ih' => exact ih.append ih'
  | bindError _ _ ih => exact ih
  | withPolicy _ ih => exact ih.enclose _

/-- A parse does nothing to its lexer but the calls. -/
theorem lexer_eq (h : Makes parse cursor calls) :
    (parse cursor).2.lexer = cursor.lexer.run calls := by
  induction h with
  | pure => rfl
  | kind => rfl
  | fail => rfl
  | advance cursor => exact lexer_advance cursor
  | bind _ hfound _ ih ih' =>
    rw [bind_of_ok hfound, ih', Lexer.run_append, ← ih, hfound]
  | bindError _ hfailed ih =>
    rw [bind_of_error hfailed, ← ih, hfailed]
  | withPolicy _ ih =>
    rw [Lexer.run_append]
    exact congrArg Lexer.pop ih

/-- A parse leaves the flags as they were, whatever its outcome. -/
theorem policies_eq (h : Makes parse cursor calls) :
    (parse cursor).2.lexer.policies = cursor.lexer.policies := by
  obtain ⟨own, hown, hlength⟩ := cursor.lexer.exists_own h.nested.own
  rw [h.nested.settled] at hlength
  -- as many flags have been taken as put, so none of its own is left
  obtain rfl : own = [] := List.length_eq_zero_iff.1 (by omega)
  rw [h.lexer_eq, hown]
  rfl

/-- A separator at hand is all of the white space at its place, and stays so. -/
theorem afterBlanks (h : Makes parse cursor calls) (hcursor : cursor.AfterBlanks) :
    (parse cursor).2.AfterBlanks := by
  -- only passing a token changes what is at hand; flags leave the text alone
  induction h with
  | pure => exact hcursor
  | kind => exact hcursor
  | fail => exact hcursor
  | advance cursor => exact hcursor.advance
  | bind _ hfound _ ih ih' =>
    rw [bind_of_ok hfound]
    have hmid := ih hcursor
    rw [hfound] at hmid
    exact ih' hmid
  | bindError _ hfailed ih =>
    rw [bind_of_error hfailed]
    have hmid := ih hcursor
    rw [hfailed] at hmid
    exact hmid
  | withPolicy _ ih => exact ih hcursor

/-- Only the flag that holds makes a difference to a parse. The others may be any flags, which it
leaves as they are. -/
theorem withFlags (h : Makes parse cursor calls) {policies : List Bool}
    (hskips : (cursor.withFlags policies).lexer.skips = cursor.lexer.skips) :
    parse (cursor.withFlags policies) =
      ((parse cursor).1, (parse cursor).2.withFlags policies) := by
  induction h generalizing policies with
  | pure => rfl
  | kind => rfl
  | fail => rfl
  | advance cursor => exact advance_withFlags hskips
  | bind hhead hfound _ ih ih' =>
    have hfirst := ih hskips
    have hmid := hhead.policies_eq
    rw [hfound] at hfirst hmid
    rw [bind_of_ok hfound, bind_of_ok hfirst]
    -- the flag that held before holds again
    refine ih' (hskips.trans ?_)
    rw [Lexer.skips, Lexer.skips, hmid]
  | bindError _ hfailed ih =>
    have hfirst := ih hskips
    rw [hfailed] at hfirst
    rw [bind_of_error hfailed, bind_of_error hfirst]
  | @withPolicy _ inner cursor skip _ _ ih =>
    -- inside, the flag that has been put holds, whatever is beneath it
    have hinside : inner ({ cursor with lexer := cursor.lexer.push skip }.withFlags
        (skip :: policies)) = _ := ih rfl
    exact congrArg (fun outcome => (outcome.1, { outcome.2 with lexer := outcome.2.lexer.pop }))
      hinside

/-- Two parses one after the other make the calls of both, or those of the first one if it fails. -/
theorem exists_bind {first : Parse α} {next : α → Parse β}
    (h : ∃ calls, Makes first cursor calls)
    (hnext : ∀ between mid, first cursor = (.ok between, mid) →
      ∃ calls, Makes (next between) mid calls) :
    ∃ calls, Makes (first >>= next) cursor calls := by
  obtain ⟨calls, hcalls⟩ := h
  rcases hfirst : first cursor with ⟨_ | between, mid⟩
  · exact ⟨_, hcalls.bindError hfirst⟩
  · obtain ⟨later, hlater⟩ := hnext between mid hfirst
    exact ⟨_, hcalls.bind hfirst hlater⟩

end Makes

/-- The parse makes calls of the lexer at every cursor, and does nothing else to it. -/
def Traced (parse : Parse α) : Prop := ∀ cursor, ∃ calls, Makes parse cursor calls

namespace Traced

/-- A result is found without a call. -/
theorem pure (result : α) : Traced (Pure.pure result) := fun cursor => ⟨_, .pure result cursor⟩

/-- The token at hand is looked at without a call. -/
theorem kind : Traced kind := fun cursor => ⟨_, .kind cursor⟩

/-- Passing a token is a call. -/
theorem advance : Traced advance := fun cursor => ⟨_, .advance cursor⟩

/-- A parse that fails at once makes no call. -/
theorem fail (fault : GrammarFault) : Traced (fail fault : Parse α) :=
  fun cursor => ⟨_, .fail fault cursor⟩

/-- Two parses one after the other. -/
theorem bind {first : Parse α} {next : α → Parse β} (h : Traced first)
    (hnext : ∀ between, Traced (next between)) : Traced (first >>= next) :=
  fun cursor => Makes.exists_bind (h cursor) fun between mid _ => hnext between mid

/-- A parse that tells what it expects looks at the token at hand only, which is no call. -/
theorem expected (what : Expectation) : Traced (expected what : Parse α) :=
  kind.bind fun _ => fail _

/-- A flag is put, the parse makes its calls, and the flag is taken. -/
theorem withPolicy {inner : Parse α} (h : Traced inner) (skip : Bool) :
    Traced (withPolicy skip inner) := by
  intro cursor
  obtain ⟨calls, hcalls⟩ := h { cursor with lexer := cursor.lexer.push skip }
  exact ⟨_, hcalls.withPolicy⟩

end Traced

/-- A repetition makes the calls of its parses one after the other. -/
theorem Traced.many {parse : Parse (Option α)} (h : Traced parse) (hconsuming : Consuming parse) :
    Traced (many parse hconsuming) := by
  intro cursor
  -- by induction on what is yet to be read, which each parse shortens
  induction hpending : cursor.pending using Nat.strong_induction_on generalizing cursor with
  | h pending ih =>
    subst hpending
    rw [many_eq_bind]
    refine Makes.exists_bind (h cursor) fun found after hfound => ?_
    cases found with
    | none => exact Traced.pure [] after
    | some result =>
      have hlt := hconsuming cursor result
      rw [hfound] at hlt
      refine Makes.exists_bind (ih _ (hlt rfl) after rfl) fun results last _ => ?_
      exact Traced.pure (result :: results) last

end Parse

namespace Grammar

open Parse

/-! ## The parses of the grammar -/

/-- A bound makes calls. -/
theorem traced_bound : Traced bound := by
  refine Traced.kind.bind fun found => ?_
  split
  · exact Traced.advance.bind fun _ => .pure _
  · exact .pure none

/-- A position or a slice makes calls. -/
theorem traced_positionOrSlice : Traced positionOrSlice := by
  refine traced_bound.bind fun first => Traced.kind.bind fun found => ?_
  split
  · exact Traced.advance.bind fun _ => traced_bound.bind fun _ => .pure _
  · split
    · exact .pure _
    · exact .pure _

/-- What stands in a bracket makes calls. -/
theorem traced_bracketContent : Traced bracketContent := by
  refine Traced.kind.bind fun first => ?_
  cases first with
  | string name => exact Traced.advance.bind fun _ => .pure _
  | integer _ => exact traced_positionOrSlice
  | colon => exact traced_positionOrSlice
  | bracketClose => exact traced_positionOrSlice
  | _ => exact .expected .bracketContent

/-- The inside of a bracket makes calls. -/
theorem traced_bracketInside : Traced bracketInside := by
  refine Traced.advance.bind fun _ => traced_bracketContent.bind fun segment =>
    Traced.kind.bind fun found => ?_
  split
  · exact .pure segment
  · exact .expected _

/-- A bracket makes calls, and the flag for its inside is put before them and taken after them. -/
theorem traced_bracket : Traced bracket :=
  (traced_bracketInside.withPolicy true).bind fun _ => Traced.advance.bind fun _ => .pure _

/-- The name after a dot makes calls. -/
theorem traced_stepName : Traced stepName := by
  refine Traced.kind.bind fun found => ?_
  split
  · exact Traced.advance.bind fun _ => .pure _
  · exact .expected _

/-- What follows two dots makes calls. -/
theorem traced_stepBelow : Traced stepBelow := by
  refine Traced.kind.bind fun found => ?_
  split
  · exact Traced.advance.bind fun _ => .pure _
  · exact traced_bracket.bind fun _ => .pure _
  · exact .expected _

/-- A step makes calls. -/
theorem traced_step : Traced step := by
  refine Traced.kind.bind fun first => ?_
  unfold stepAt
  split
  · exact Traced.advance.bind fun _ => traced_stepName
  · exact Traced.advance.bind fun _ => traced_stepBelow
  · exact traced_bracket.bind fun _ => .pure _
  · exact .pure none

/-- Steps make calls. -/
theorem traced_steps : Traced steps :=
  (traced_step.many consuming_step).bind fun _ => .pure _

/-- A constant makes a call. -/
theorem traced_constant (value : Json) : Traced (constant value) :=
  Traced.advance.bind fun _ => .pure _

/-- A selector that begins with a name makes calls. -/
theorem traced_named (name : String) : Traced (named name) := by
  unfold named
  split
  · exact traced_constant _
  · exact Traced.advance.bind fun _ => traced_steps.bind fun _ => .pure _

/-- A selector without the white space after it makes calls. -/
theorem traced_bareSelector : Traced bareSelector := by
  have hchain : Traced (do return (⟨← steps⟩ : Selector)) := traced_steps.bind fun _ => .pure _
  refine Traced.kind.bind fun first => ?_
  cases first with
  | root => exact Traced.advance.bind fun _ => hchain
  | dot => exact hchain
  | dotDot => exact hchain
  | bracketOpen => exact hchain
  | identifier name => exact traced_named name
  | string value => exact traced_constant _
  | integer value => exact traced_constant _
  | unsigned value => exact traced_constant _
  | float value =>
    cases value with
    | none => exact .fail .outOfRange
    | some value => exact traced_constant _
  | _ => exact .expected .selector

/-- Passing white space makes calls. -/
theorem traced_skipSeparator : Traced skipSeparator := by
  refine Traced.kind.bind fun found => ?_
  split
  · exact .advance
  · exact .pure ()

/-- A selector makes calls, and the flag for all but the white space after it is put before them and
taken after them. -/
theorem traced_selector : Traced selector :=
  (traced_bareSelector.withPolicy false).bind fun _ => traced_skipSeparator.bind fun _ => .pure _

/-- A comma and a selector make calls. -/
theorem traced_commaSelector : Traced commaSelector := by
  refine Traced.kind.bind fun first => ?_
  unfold commaSelectorAt
  split
  · exact Traced.advance.bind fun _ => traced_selector.bind fun _ => .pure _
  · exact .pure none

/-- Selectors make calls. -/
theorem traced_selectors : Traced selectors :=
  traced_selector.bind fun _ =>
    (traced_commaSelector.many consuming_commaSelector).bind fun _ => .pure _

/-- A filter makes calls. -/
theorem traced_filter : Traced filter := by
  refine traced_selector.bind fun lhs => Traced.kind.bind fun found => ?_
  split
  · exact Traced.advance.bind fun _ => traced_selector.bind fun _ => .pure _
  · exact .pure _

/-- A clause makes the calls of its content, if there is any. -/
theorem traced_clause {α : Type} (keyword : String) {content : Parse α} (h : Traced content)
    (absent : α) : Traced (clause keyword content absent) := by
  refine Traced.kind.bind fun found => ?_
  split
  · exact Traced.advance.bind fun _ => h
  · exact .pure absent

/-- A query makes calls. -/
theorem traced_query : Traced query := by
  have hclauses : Traced clauses :=
    traced_selectors.bind fun _ => (traced_clause "from" traced_selector _).bind fun _ =>
      (traced_clause "where" traced_filter _).bind fun _ => .pure _
  exact traced_clause "select" hclauses _

/-! ## The flags and the separators -/

/-- The parse handles flags in pairs: the calls that it makes of the lexer put flags and take them
again, the flags from before stay beneath them all the time, and they are what is left in the end,
whatever the outcome is. Which flags stand beneath the one that holds is of no matter to the
outcome. -/
structure Paired {α : Type} (parse : Parse α) (cursor : Cursor) : Prop where
  /-- The parse makes calls. -/
  exists_makes : ∃ calls, Makes parse cursor calls
  /-- It does nothing else to its lexer. -/
  lexer_eq : ∀ calls, Makes parse cursor calls →
    (parse cursor).2.lexer = cursor.lexer.run calls
  /-- It takes no flag but those that it has put, and all of these. -/
  nested : ∀ calls, Makes parse cursor calls → Lexer.Nested calls
  /-- At any time, the flags from before are beneath its own ones. -/
  beneath : ∀ calls, Makes parse cursor calls → ∀ first, first <+: calls →
    ∃ own, (cursor.lexer.run first).policies = own ++ cursor.lexer.policies
  /-- In the end, the flags from before are left. -/
  policies_eq : (parse cursor).2.lexer.policies = cursor.lexer.policies
  /-- The flags from before other than the one that holds make no difference. -/
  withFlags : ∀ policies, (cursor.withFlags policies).lexer.skips = cursor.lexer.skips →
    parse (cursor.withFlags policies) = ((parse cursor).1, (parse cursor).2.withFlags policies)

/-- A parse that makes calls handles flags in pairs. -/
theorem paired_of_traced {α : Type} {parse : Parse α} (h : Traced parse) (cursor : Cursor) :
    Paired parse cursor := by
  obtain ⟨calls, hcalls⟩ := h cursor
  -- all but the flags that are beneath holds of any calls that are made
  refine ⟨⟨calls, hcalls⟩, fun _ => Makes.lexer_eq, fun _ => Makes.nested, ?_, hcalls.policies_eq,
    fun _ => hcalls.withFlags⟩
  intro others hothers first hfirst
  obtain ⟨own, hown, -⟩ := cursor.lexer.exists_own fun earlier hearlier =>
    hothers.nested.own earlier (hearlier.trans hfirst)
  exact ⟨own, hown⟩

/-- No selector begins with a separator. -/
theorem kind_ne_separator_of_bareSelector {cursor : Cursor} {found : Selector}
    (h : (bareSelector cursor).1 = .ok found) : cursor.token.kind ≠ .separator := by
  intro hsep
  -- a separator is none of the tokens that are called for there
  have hat : bareSelector cursor = bareSelectorAt cursor.token.kind cursor := rfl
  rw [hat, hsep] at h
  cases h

/-- Behind all of the white space no separator is at hand. -/
theorem kind_ne_separator_of_skipSeparator {cursor after : Cursor} (hcursor : cursor.AfterBlanks)
    (h : skipSeparator cursor = (.ok (), after)) : after.token.kind ≠ .separator := by
  obtain ⟨first, hfirst, h⟩ := kind_bind_eq h
  split at h
  · -- the separator is passed, and no other one follows it
    have hshown := Lexer.isShown_next_of_ends (hcursor hfirst)
    rw [next_of_advance h] at hshown
    simpa [Lexer.isShown] using hshown
  · rename_i hne
    cases h
    rw [hfirst]
    exact hne

/-- Behind a selector no separator is at hand. -/
theorem kind_ne_separator_of_selector {cursor after : Cursor} {found : Selector}
    (h : selector cursor = (.ok found, after)) : after.token.kind ≠ .separator := by
  obtain ⟨bare, mid, hbare, h⟩ := bind_eq_ok h
  obtain ⟨_, last, hskip, h⟩ := bind_eq_ok h
  obtain ⟨-, rfl⟩ := pure_eq_ok h
  have hfound : (bareSelector { cursor with lexer := cursor.lexer.push false }).1 = .ok bare :=
    congrArg Prod.fst hbare
  have hne := kind_ne_separator_of_bareSelector hfound
  have hfirst : cursor.AfterBlanks := fun hsep => absurd hsep hne
  -- the first token is no separator, so only one that has been passed to may be one
  obtain ⟨calls, hcalls⟩ := traced_bareSelector.withPolicy false cursor
  have hmid := hcalls.afterBlanks hfirst
  rw [hbare] at hmid
  exact kind_ne_separator_of_skipSeparator hmid hskip

/-- From any cursor, the parses of the grammar that read under flags of their own, and those made of
them, handle the flags in pairs, whatever the outcome is, and behind a selector no separator is at
hand. -/
theorem disciplined (cursor : Cursor) :
    Paired selector cursor ∧ Paired selectors cursor ∧ Paired filter cursor ∧
      Paired query cursor ∧ Paired bracket cursor ∧
      ∀ found after, selector cursor = (.ok found, after) → after.token.kind ≠ .separator :=
  ⟨paired_of_traced traced_selector cursor, paired_of_traced traced_selectors cursor,
    paired_of_traced traced_filter cursor, paired_of_traced traced_query cursor,
    paired_of_traced traced_bracket cursor, fun _ _ => kind_ne_separator_of_selector⟩

end Grammar

end DocQuery
