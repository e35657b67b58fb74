import DocQuery.Json.Printer
import DocQuery.Outcome

/-!
# Merging values

Two arrays are merged by putting one after the other, two objects by merging them key by key. A
scalar that comes in under a key replaces what was there; an array or an object that comes in is
merged with what was there, or, if the key is new, into an empty container of its kind. All other
pairs cannot be merged.

A value may be absent, and merging it with nothing leaves it alone.

* `Json.mergeOptional_none`, `Json.none_mergeOptional`: nothing is neutral on either side.
* `Json.exists_of_merge_eq_ok`: which values can be merged at all.
-/

namespace DocQuery

/-- Why two values cannot be merged. -/
inductive MergeError where
  /-- One of them is an array or an object, and the other is not of the same kind. -/
  | differentKinds
  /-- Neither of them is an array or an object. -/
  | scalars (base incoming : Json)
  deriving Inhabited, Repr

/-- The message of an error. -/
def MergeError.message : MergeError → String
  | .differentKinds => "Merge error: Cannot merge objects of different types"
  | .scalars base incoming =>
    "Merge error: Cannot merge simple values " ++ base.render .compact ++ " and " ++
      incoming.render .compact

namespace Json

/-- The empty container of the kind of a container. -/
def emptyLike : Json → Json
  | .array _ => .array []
  | _ => .object []

mutual

/-- Merges an incoming value into a base. -/
def merge (base : Json) : Json → Except MergeError Json
  | .array more =>
    match base with
    | .array items => .ok (.array (items ++ more))
    | _ => .error .differentKinds
  | .object more =>
    match base with
    | .object members =>
      match mergeMembers members more with
      | .ok merged => .ok (.object merged)
      | .error error => .error error
    | _ => .error .differentKinds
  | incoming =>
    if base.isContainer then .error .differentKinds else .error (.scalars base incoming)

/-- Merges incoming members, one after the other, into the members of an object. -/
def mergeMembers (members : Members) : Members → Except MergeError Members
  | [] => .ok members
  | (key, value) :: more =>
    if value.isContainer then
      match merge ((Members.get? members key).getD value.emptyLike) value with
      | .ok merged => mergeMembers (Members.put members key merged) more
      | .error error => .error error
    else mergeMembers (Members.put members key value) more

end

/-- Merges two values, either of which may be absent. -/
def mergeOptional : Option Json → Option Json → Except MergeError (Option Json)
  | base, none => .ok base
  | none, incoming => .ok incoming
  | some base, some incoming => (base.merge incoming).map some

/-- Nothing comes in. -/
@[simp]
theorem mergeOptional_none (base : Option Json) : mergeOptional base none = .ok base := by
  cases base <;> rfl

/-- Nothing was there. -/
@[simp]
theorem none_mergeOptional (incoming : Option Json) :
    mergeOptional none incoming = .ok incoming := by
  cases incoming <;> rfl

/-- Two arrays are put one after the other. -/
theorem merge_array (items more : List Json) :
    (array items).merge (.array more) = .ok (.array (items ++ more)) := by
  rw [merge]

/-- Two objects are merged by merging their members. -/
theorem merge_object (members more : Members) :
    (object members).merge (.object more) = (mergeMembers members more).map .object := by
  rw [merge]
  cases mergeMembers members more <;> rfl

/-- Only arrays with arrays and objects with objects can be merged. -/
theorem exists_of_merge_eq_ok {base incoming merged : Json} (h : base.merge incoming = .ok merged) :
    (∃ items more, base = .array items ∧ incoming = .array more ∧
      merged = .array (items ++ more)) ∨
    ∃ members more result, base = .object members ∧ incoming = .object more ∧
      mergeMembers members more = .ok result ∧ merged = .object result := by
  unfold merge at h
  split at h
  · split at h <;> cases h
    exact .inl ⟨_, _, rfl, rfl, rfl⟩
  · split at h
    · split at h <;> cases h
      rename_i hresult
      exact .inr ⟨_, _, _, rfl, rfl, hresult, rfl⟩
    · cases h
  · split at h <;> cases h

/-- Two values that are there are merged, and a value is there afterwards. -/
theorem mergeOptional_some_some {base incoming : Json} {merged : Option Json} :
    mergeOptional (some base) (some incoming) = .ok merged ↔
      ∃ result, base.merge incoming = .ok result ∧ merged = some result := by
  rw [mergeOptional]
  cases base.merge incoming <;> simp [Except.map, eq_comm]

end Json

end DocQuery
