import DocQuery.Matches.Basic

/-!
# Walking through matches

A `Walk` yields the flattened values of matches one at a time, without building the list of them.
It keeps a stack of the entries that are still to be visited, the innermost level first.

* `Walk.toList_eq_pending`: a walk yields exactly the values of the entries on its stack, in order.
* `Matches.isEmpty_iff`: matches are empty exactly when they have no flattened value.
-/

-- the empty sum is the zero of the core library, also where other libraries are at hand
attribute [local instance (high)] Zero.ofOfNat0

namespace DocQuery

namespace Entry

mutual

/-- How many steps a walk takes for an entry. -/
def steps : Entry → Nat
  | .single _ => 1
  | .nested entries => stepsOfAll entries + 2

/-- How many steps a walk takes for entries. -/
def stepsOfAll : List Entry → Nat
  | [] => 0
  | entry :: entries => entry.steps + stepsOfAll entries

end

end Entry

/-- A walk through matches. -/
structure Walk where
  /-- The entries still to be visited on each level, the innermost level first. -/
  stack : List (List Entry)

namespace Walk

/-- The number of steps that are left. -/
def steps (walk : Walk) : Nat := (walk.stack.map fun level => Entry.stepsOfAll level + 1).sum

/-- The values that are left. -/
def pending (walk : Walk) : List Json := walk.stack.flatMap Entry.valuesOf

/-- The next value and the walk after it, if there is a value left. -/
def next? : Walk → Option (Json × Walk)
  | ⟨[]⟩ => none
  | ⟨[] :: levels⟩ => next? ⟨levels⟩
  | ⟨(.single value :: entries) :: levels⟩ => some (value, ⟨entries :: levels⟩)
  | ⟨(.nested inner :: entries) :: levels⟩ => next? ⟨inner :: entries :: levels⟩
termination_by walk => walk.steps
decreasing_by
  all_goals simp only [steps, List.map_cons, List.sum_cons, Entry.stepsOfAll, Entry.steps]; omega

/-- The walk after a value has fewer steps left. -/
theorem steps_lt_of_next? {walk after : Walk} {value : Json}
    (hfound : walk.next? = some (value, after)) : after.steps < walk.steps := by
  fun_induction next? walk with
  | case1 => cases hfound
  | case2 levels ih =>
    have := ih hfound
    simp only [steps, List.map_cons, List.sum_cons, Entry.stepsOfAll] at this ⊢
    omega
  | case3 value entries levels =>
    cases hfound
    simp only [steps, List.map_cons, List.sum_cons, Entry.stepsOfAll, Entry.steps]
    omega
  | case4 inner entries levels ih =>
    have := ih hfound
    simp only [steps, List.map_cons, List.sum_cons, Entry.stepsOfAll, Entry.steps] at this ⊢
    omega

/-- All values that the walk yields. -/
def toList (walk : Walk) : List Json :=
  match _hfound : walk.next? with
  | none => []
  | some (value, after) => value :: toList after
termination_by walk.steps
decreasing_by exact steps_lt_of_next? _hfound

/-- The values that are left are the next one and those left after it. -/
theorem pending_eq_of_next? (walk : Walk) :
    walk.pending = match walk.next? with
      | none => []
      | some (value, after) => value :: after.pending := by
  fun_induction next? walk with
  | case1 => rfl
  | case2 levels ih => simpa [pending, Entry.valuesOf] using ih
  | case3 value entries levels => simp [pending, Entry.valuesOf, Entry.values]
  | case4 inner entries levels ih =>
    rw [← ih]
    simp [pending, Entry.valuesOf, Entry.values]

/-- A walk yields exactly the values of the entries on its stack, in order. -/
theorem toList_eq_pending (walk : Walk) : walk.toList = walk.pending := by
  fun_induction toList walk with
  | case1 walk hnone => simp [pending_eq_of_next?, hnone]
  | case2 walk value after hfound ih => rw [pending_eq_of_next?, hfound, ih]

end Walk

namespace Matches

/-- The walk through matches from the start. -/
def walk (found : Matches) : Walk := ⟨[found.entries]⟩

/-- Whether a walk finds no value at all. -/
def isEmpty (found : Matches) : Bool := found.walk.next?.isNone

/-- The values that a walk yields, as a JSON array. -/
def toJson (found : Matches) : Json := .array found.walk.toList

/-- A walk yields the flattened values. -/
theorem toList_walk (found : Matches) : found.walk.toList = found.toList := by
  simp [Walk.toList_eq_pending, Walk.pending, walk, toList]

/-- Matches are empty exactly when they have no flattened value. -/
theorem isEmpty_iff (found : Matches) : found.isEmpty = true ↔ found.toList = [] := by
  have pending : found.walk.pending = found.toList := by simp [Walk.pending, walk, toList]
  rw [← pending, Walk.pending_eq_of_next?, isEmpty]
  cases found.walk.next? <;> simp

end Matches

end DocQuery
