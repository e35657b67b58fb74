import DocQuery.Grammar.Cursor
import DocQuery.Selector.Basic

/-!
# Parsing selectors

A selector is a root, a name, a step or a literal. A root, a name and a step may be followed by
further steps: a dot and a name, a bracket, or two dots and a name or a bracket. A bracket holds a
quoted name, a position or a slice, or nothing, which is the slice of everything.

White space inside brackets is skipped; elsewhere inside a selector it ends the selector.

* `Grammar.bounded_selector`: a selector does not lengthen what is yet to be read.
-/

namespace DocQuery

namespace Grammar

open Parse

/-! ## Brackets -/

/-- A bound of a slice, if one is at hand. -/
def bound : Parse (Option Int64) := do
  match (← kind) with
  | .integer value =>
    advance
    return some value
  | _ => return none

/-- A position or a slice. -/
def positionOrSlice : Parse Segment := do
  let first ← bound
  match (← kind) with
  | .colon =>
    advance
    return .slice first (← bound)
  | _ =>
    match first with
    | some position => return .index position
    | none => return .slice none none

/-- What stands in a bracket, up to but not including the closing bracket. It begins with the token
at hand, which is of the given kind. -/
def bracketContentAt : Token.Kind → Parse Segment
  | .string name => do
    advance
    return .field name
  | .integer _ => positionOrSlice
  | .colon => positionOrSlice
  | .bracketClose => positionOrSlice
  | _ => expected .bracketContent

/-- What stands in a bracket, up to but not including the closing bracket. -/
def bracketContent : Parse Segment := do bracketContentAt (← kind)

/-- The inside of a bracket, from the opening bracket at hand up to the closing one. -/
def bracketInside : Parse Segment := do
  advance
  let segment ← bracketContent
  match (← kind) with
  | .bracketClose => return segment
  | _ => expected .bracketClose

/-- A bracket. The token after it is read under the flag that holds outside. -/
def bracket : Parse Segment := do
  let segment ← withPolicy true bracketInside
  advance
  return segment

/-! ## Steps -/

/-- The name after a dot. -/
def stepName : Parse (Option (List Segment)) := do
  match (← kind) with
  | .identifier name =>
    advance
    return some [.field name]
  | _ => expected .identifier

/-- The name or the bracket after two dots. -/
def stepBelow : Parse (Option (List Segment)) := do
  match (← kind) with
  | .identifier name =>
    advance
    return some [.descent, .field name]
  | .bracketOpen => return some [.descent, ← bracket]
  | _ => expected .identifierOrBracket

/-- The step that begins with the token at hand, which is of the given kind. -/
def stepAt : Token.Kind → Parse (Option (List Segment))
  | .dot => do
    advance
    stepName
  | .dotDot => do
    advance
    stepBelow
  | .bracketOpen => return some [← bracket]
  | _ => return none

/-- A step, if one begins at the token at hand. -/
def step : Parse (Option (List Segment)) := do stepAt (← kind)

/-! ## Progress of steps -/

/-- A bound is bounded. -/
theorem bounded_bound : Bounded bound := by
  refine bounded_bind bounded_kind fun found => ?_
  split
  · exact bounded_bind bounded_advance fun _ => bounded_pure _
  · exact bounded_pure _

/-- A position or a slice is bounded. -/
theorem bounded_positionOrSlice : Bounded positionOrSlice := by
  refine bounded_bind bounded_bound fun first => bounded_bind bounded_kind fun found => ?_
  split
  · exact bounded_bind bounded_advance fun _ => bounded_bind bounded_bound fun _ => bounded_pure _
  · split <;> exact bounded_pure _

/-- What stands in a bracket is bounded. -/
theorem bounded_bracketContent : Bounded bracketContent := by
  refine bounded_bind bounded_kind fun first => ?_
  cases first with
  | string name => exact bounded_bind bounded_advance fun _ => bounded_pure _
  | integer _ => exact bounded_positionOrSlice
  | colon => exact bounded_positionOrSlice
  | bracketClose => exact bounded_positionOrSlice
  | _ => exact bounded_expected _

/-- The inside of a bracket is bounded. -/
theorem bounded_bracketInside : Bounded bracketInside := by
  refine bounded_bind bounded_advance fun _ => bounded_bind bounded_bracketContent fun segment =>
    bounded_bind bounded_kind fun found => ?_
  split
  · exact bounded_pure _
  · exact bounded_expected _

/-- A bracket is bounded. -/
theorem bounded_bracket : Bounded bracket :=
  bounded_bind (bounded_withPolicy true bounded_bracketInside) fun _ =>
    bounded_bind bounded_advance fun _ => bounded_pure _

/-- The name after a dot is bounded. -/
theorem bounded_stepName : Bounded stepName := by
  refine bounded_bind bounded_kind fun found => ?_
  split
  · exact bounded_bind bounded_advance fun _ => bounded_pure _
  · exact bounded_expected _

/-- What follows two dots is bounded. -/
theorem bounded_stepBelow : Bounded stepBelow := by
  refine bounded_bind bounded_kind fun found => ?_
  split
  · exact bounded_bind bounded_advance fun _ => bounded_pure _
  · exact bounded_bind bounded_bracket fun _ => bounded_pure _
  · exact bounded_expected _

/-- A step is bounded. -/
theorem bounded_step : Bounded step := by
  refine bounded_bind bounded_kind fun found => ?_
  unfold stepAt
  split
  · exact bounded_bind bounded_advance fun _ => bounded_stepName
  · exact bounded_bind bounded_advance fun _ => bounded_stepBelow
  · exact bounded_bind bounded_bracket fun _ => bounded_pure _
  · exact bounded_pure _

/-- A bracket shortens what is yet to be read. -/
theorem pending_bracket_lt {cursor : Cursor} (hmore : cursor.token.kind ≠ .endOfInput)
    {segment : Segment} (hfound : (bracket cursor).1 = .ok segment) :
    (bracket cursor).2.pending < cursor.pending := by
  -- the opening bracket is passed in any case
  have hinside (opened : Cursor) (hmore : opened.token.kind ≠ .endOfInput) {segment : Segment}
      (hclosed : (bracketInside opened).1 = .ok segment) :
      (bracketInside opened).2.pending < opened.pending := by
    refine pending_bind_lt (fun _ hpassed => pending_advance_lt hmore hpassed) (fun _ => ?_) hclosed
    refine bounded_bind bounded_bracketContent fun _ => bounded_bind bounded_kind fun _ => ?_
    split
    · exact bounded_pure _
    · exact bounded_expected _
  exact pending_bind_lt (fun _ hclosed => hinside _ hmore hclosed)
    (fun _ => bounded_bind bounded_advance fun _ => bounded_pure _) hfound

/-- A step that begins with the token at hand shortens what is yet to be read. -/
theorem pending_stepAt_lt {cursor : Cursor} {first : Token.Kind} {segments : List Segment}
    (hshape : cursor.token.kind = first)
    (hfound : (stepAt first cursor).1 = .ok (some segments)) :
    (stepAt first cursor).2.pending < cursor.pending := by
  have hpassing (hmore : first ≠ .endOfInput) (_ : Unit) (hpassed : (advance cursor).1 = .ok ()) :
      (advance cursor).2.pending < cursor.pending :=
    pending_advance_lt (hshape ▸ hmore) hpassed
  cases first with
  | dot => exact pending_bind_lt (hpassing (by simp)) (fun _ => bounded_stepName) hfound
  | dotDot => exact pending_bind_lt (hpassing (by simp)) (fun _ => bounded_stepBelow) hfound
  | bracketOpen =>
    exact pending_bind_lt (fun _ hclosed => pending_bracket_lt (by simp [hshape]) hclosed)
      (fun _ => bounded_pure _) hfound
  | _ => cases hfound

/-- A step shortens what is yet to be read. -/
theorem consuming_step : Consuming step :=
  fun _ _ hfound => pending_stepAt_lt rfl hfound

/-! ## Selectors -/

/-- Steps for as long as one follows. -/
def steps : Parse (List Segment) := do
  return (← many step consuming_step).flatten

/-- The values of the names that are literals at the start of a selector. -/
def literal? (name : String) : Option Json :=
  if name = "true" then some (.bool true)
  else if name = "false" then some (.bool false)
  else if name = "null" then some .null
  else none

/-- A selector that consists of a constant alone. -/
def constant (value : Json) : Parse Selector := do
  advance
  return .single (.constant value)

/-- A selector that begins with a name, which is at hand. -/
def named (name : String) : Parse Selector :=
  match literal? name with
  | some value => constant value
  | none => do
    advance
    return ⟨.field name :: (← steps)⟩

/-- A selector, without the white space after it, that begins with the token at hand, which is of
the given kind. -/
def bareSelectorAt : Token.Kind → Parse Selector
  | .root => do
    advance
    return ⟨← steps⟩
  | .dot => return ⟨← steps⟩
  | .dotDot => return ⟨← steps⟩
  | .bracketOpen => return ⟨← steps⟩
  | .identifier name => named name
  | .string value => constant (.string value)
  | .integer value => constant (.number (.ofInt64 value))
  | .unsigned value => constant (.number (.ofUInt64 value))
  | .float (some value) => constant (.number (.float value))
  | .float none => fail .outOfRange
  | _ => expected .selector

/-- A selector, without the white space after it. -/
def bareSelector : Parse Selector := do bareSelectorAt (← kind)

/-- Passes the white space at hand, if there is any. -/
def skipSeparator : Parse Unit := do
  match (← kind) with
  | .separator => advance
  | _ => return ()

/-- A selector and the white space after it. -/
def selector : Parse Selector := do
  let found ← withPolicy false bareSelector
  skipSeparator
  return found

/-- Steps are bounded. -/
theorem bounded_steps : Bounded steps :=
  bounded_bind (bounded_many consuming_step bounded_step) fun _ => bounded_pure _

/-- A constant is bounded. -/
theorem bounded_constant (value : Json) : Bounded (constant value) :=
  bounded_bind bounded_advance fun _ => bounded_pure _

/-- A selector that begins with a name is bounded. -/
theorem bounded_named (name : String) : Bounded (named name) := by
  unfold named
  split
  · exact bounded_constant _
  · exact bounded_bind bounded_advance fun _ => bounded_bind bounded_steps fun _ => bounded_pure _

/-- A selector without the white space after it is bounded. -/
theorem bounded_bareSelector : Bounded bareSelector := by
  have hchain : Bounded (do return (⟨← steps⟩ : Selector)) :=
    bounded_bind bounded_steps fun _ => bounded_pure _
  refine bounded_bind bounded_kind fun first => ?_
  -- whatever the first token is, steps, a constant or an error follow
  cases first with
  | root => exact bounded_bind bounded_advance fun _ => hchain
  | dot => exact hchain
  | dotDot => exact hchain
  | bracketOpen => exact hchain
  | identifier name => exact bounded_named name
  | string value => exact bounded_constant _
  | integer value => exact bounded_constant _
  | unsigned value => exact bounded_constant _
  | float value =>
    cases value with
    | none => exact bounded_fail _
    | some value => exact bounded_constant _
  | _ => exact bounded_expected _

/-- Passing white space is bounded. -/
theorem bounded_skipSeparator : Bounded skipSeparator := by
  refine bounded_bind bounded_kind fun found => ?_
  split
  · exact bounded_advance
  · exact bounded_pure _

/-- A selector does not lengthen what is yet to be read. -/
theorem bounded_selector : Bounded selector :=
  bounded_bind (bounded_withPolicy false bounded_bareSelector) fun _ =>
    bounded_bind bounded_skipSeparator fun _ => bounded_pure _

end Grammar

end DocQuery
