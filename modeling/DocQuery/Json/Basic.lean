import DocQuery.Json.Number

/-!
# JSON values

The values that documents hold and queries produce. The members of an object keep the order of
the document; a reader never repeats a key.

* `Members.get?_put`, `Members.keys_put`: what giving a key a value does to the values and to the
  order of the keys.
* `Members.put_of_not_mem`: a member with a new key comes last.
* `Json.sizeOf_lt_of_mem_children`: a child is smaller than the value that holds it.
* `Json.inductionOn`: what holds of arrays and objects because it holds of their children, and of
  all other values, holds of every value.
-/

namespace DocQuery

/-- A JSON value. -/
inductive Json where
  /-- The null value. -/
  | null
  /-- A truth value. -/
  | bool (value : Bool)
  /-- A number. -/
  | number (value : Number)
  /-- A text. -/
  | string (value : String)
  /-- A sequence of values. -/
  | array (items : List Json)
  /-- Named values in document order. -/
  | object (members : List (String × Json))
  deriving Inhabited, Repr

/-- The named values of an object. -/
abbrev Members := List (String × Json)

namespace Members

/-- The value of a key. -/
def get? (members : Members) (key : String) : Option Json :=
  List.lookup key members

/-- Gives a key a value: in its place if the key is present, and at the end if it is new. -/
def put : Members → String → Json → Members
  | [], key, value => [(key, value)]
  | (other, old) :: rest, key, value =>
    if other = key then (key, value) :: rest else (other, old) :: put rest key value

/-- A key that is put has its new value, and every other key the value it had. -/
theorem get?_put (members : Members) (key other : String) (value : Json) :
    (members.put key value).get? other =
      if other = key then some value else members.get? other := by
  induction members with
  | nil =>
    simp only [put, get?, List.lookup_cons, List.lookup_nil]
    split <;> simp_all
  | cons member rest ih =>
    obtain ⟨first, old⟩ := member
    simp only [put]
    by_cases hkey : first = key
    · simp only [hkey, if_true, get?, List.lookup_cons]
      split <;> simp_all
    · simp only [hkey, if_false, get?, List.lookup_cons] at ih ⊢
      rw [ih]
      split <;> simp_all

/-- A key that is put keeps its place, or comes last if it is new. -/
theorem keys_put (members : Members) (key : String) (value : Json) :
    (members.put key value).map (·.1) =
      if key ∈ members.map (·.1) then members.map (·.1) else members.map (·.1) ++ [key] := by
  induction members with
  | nil => simp [put]
  | cons member rest ih =>
    obtain ⟨first, old⟩ := member
    by_cases hkey : first = key
    · simp [put, hkey]
    · have hapart : ¬key = first := fun hsame => hkey hsame.symm
      simp only [put, hkey, if_false, List.map_cons, ih, List.mem_cons, hapart, false_or]
      split <;> simp

/-- A new key comes last. -/
theorem put_of_not_mem {members : Members} {key : String} (h : key ∉ members.map (·.1))
    (value : Json) : members.put key value = members ++ [(key, value)] := by
  induction members with
  | nil => rfl
  | cons member members ih =>
    rw [List.map_cons, List.mem_cons, not_or] at h
    rw [Members.put, if_neg (Ne.symm h.1), ih h.2, List.cons_append]

/-- A member after a key was given a value is that one or was there before. -/
theorem mem_put {members : Members} {key : String} {value : Json} {member : String × Json}
    (h : member ∈ members.put key value) : member = (key, value) ∨ member ∈ members := by
  induction members with
  | nil => exact .inl (List.mem_singleton.1 h)
  | cons first rest ih =>
    rw [put] at h
    split at h <;> grind

/-- A value that a key has is that of a member. -/
theorem mem_of_get?_eq_some {members : Members} {key : String} {value : Json}
    (h : members.get? key = some value) : (key, value) ∈ members := by
  obtain ⟨before, after, rfl, -⟩ := List.lookup_eq_some_iff.1 h
  exact List.mem_append_right _ List.mem_cons_self

/-- If no key is repeated, the key of a member is new behind the members in front of it. -/
theorem not_mem_of_nodup_append {members settled : Members} {member : String × Json}
    (h : ((settled ++ member :: members).map (·.1)).Nodup) : member.1 ∉ settled.map (·.1) := by
  rw [List.map_append, List.nodup_append] at h
  intro hmem
  exact h.2.2 _ hmem _ List.mem_cons_self rfl

end Members

namespace Json

/-- Whether the value is an array or an object. -/
def isContainer : Json → Bool
  | .array _ => true
  | .object _ => true
  | _ => false

/-- The values one step below: the items of an array or the values of an object, in order. -/
def children : Json → List Json
  | .array items => items
  | .object members => members.map (·.2)
  | _ => []

/-- A child is smaller than the value that holds it. -/
theorem sizeOf_lt_of_mem_children {child value : Json} (hmember : child ∈ value.children) :
    sizeOf child < sizeOf value := by
  cases value with
  | array items =>
    have := List.sizeOf_lt_of_mem (show child ∈ items from hmember)
    simp only [array.sizeOf_spec]
    omega
  | object members =>
    obtain ⟨⟨key, _⟩, hinside, rfl⟩ := List.mem_map.1 (show child ∈ members.map (·.2) from hmember)
    have := List.sizeOf_lt_of_mem hinside
    simp only [object.sizeOf_spec, Prod.mk.sizeOf_spec] at this ⊢
    omega
  | _ => simp [children] at hmember

/-- The value of a key is a child. -/
theorem mem_children_of_get? {members : Members} {key : String} {value : Json}
    (hget : members.get? key = some value) : value ∈ (object members).children :=
  List.mem_map_of_mem (f := (·.2)) (Members.mem_of_get?_eq_some hget)

/-- What holds of arrays and objects because it holds of their children, and of all other values,
holds of every value. -/
@[elab_as_elim]
theorem inductionOn {motive : Json → Prop} (null : motive .null)
    (bool : ∀ value, motive (.bool value)) (number : ∀ value, motive (.number value))
    (string : ∀ value, motive (.string value))
    (array : ∀ items, (∀ item ∈ items, motive item) → motive (.array items))
    (object : ∀ members : Members, (∀ member ∈ members, motive member.2) → motive (.object members))
    (value : Json) : motive value := by
  have hbelow (child : Json) (_ : child ∈ value.children) : motive child :=
    inductionOn null bool number string array object child
  cases value with
  | null => exact null
  | bool value => exact bool value
  | number value => exact number value
  | string value => exact string value
  | array items => exact array items hbelow
  | object members => exact object members fun _ hmember => hbelow _ (List.mem_map_of_mem hmember)
termination_by sizeOf value
decreasing_by exact sizeOf_lt_of_mem_children ‹_›

end Json

end DocQuery
