import DocQuery.Json.Basic

/-!
# Keys of objects

An object has one value for each of its keys. A list of members may give a key several values, so
this is a condition on values, which every object in them has to meet, at whatever depth. It can be
decided, and giving a key a value keeps it.

* `Json.keysDistinct_array`, `Json.keysDistinct_object`: arrays and objects that meet the condition.
* `Json.KeysDistinct.put`: an object after one of its keys was given a value.
-/

namespace DocQuery

namespace Json

/-- No object in the value repeats a key. -/
inductive KeysDistinct : Json → Prop
  | intro {value : Json}
      (hkeys : ∀ members, value = .object members → (members.map (·.1)).Nodup)
      (hchildren : ∀ child ∈ value.children, KeysDistinct child) : KeysDistinct value

/-- The values one step below a value that repeats no key. -/
theorem KeysDistinct.of_mem_children {value child : Json} (h : value.KeysDistinct)
    (hmem : child ∈ value.children) : child.KeysDistinct := by
  obtain ⟨-, hchildren⟩ := h
  exact hchildren child hmem

/-- The value of a key of an object that repeats no key. -/
theorem KeysDistinct.get? {members : Members} (h : (object members).KeysDistinct) {key : String}
    {value : Json} (hget : members.get? key = some value) : value.KeysDistinct :=
  h.of_mem_children (mem_children_of_get? hget)

/-- A value without children repeats no key. -/
theorem keysDistinct_of_not_isContainer {value : Json} (h : value.isContainer = false) :
    value.KeysDistinct := by
  refine .intro ?_ ?_
  · rintro members rfl
    cases h
  · intro child hmem
    cases value with
    | array items => cases h
    | object members => cases h
    | _ => cases hmem

/-- An array of items that repeat no key inside repeats no key. -/
theorem keysDistinct_array {items : List Json} (h : ∀ item ∈ items, item.KeysDistinct) :
    (array items).KeysDistinct :=
  .intro (fun _ heq => by cases heq) h

/-- An object with different keys whose values repeat no key repeats no key. -/
theorem keysDistinct_object {members : Members} (hkeys : (members.map (·.1)).Nodup)
    (h : ∀ member ∈ members, member.2.KeysDistinct) : (object members).KeysDistinct := by
  refine .intro ?_ ?_
  · rintro _ ⟨⟩
    exact hkeys
  · intro child hchild
    obtain ⟨member, hmem, rfl⟩ := List.mem_map.1 hchild
    exact h member hmem

/-- An object repeats no key after one of its keys was given a value that repeats none. -/
theorem KeysDistinct.put {members : Members} (h : (object members).KeysDistinct) {value : Json}
    (hvalue : value.KeysDistinct) (key : String) :
    (object (members.put key value)).KeysDistinct := by
  obtain ⟨hkeys, hchildren⟩ := h
  have hnodup := hkeys members rfl
  refine keysDistinct_object ?_ ?_
  · -- a key that is there already keeps its place, and a new one is put at the end
    rw [Members.keys_put]
    split
    · exact hnodup
    · rename_i hnew
      exact List.nodup_append.2 ⟨hnodup, List.pairwise_singleton _ _, by grind⟩
  · intro member hmem
    rcases Members.mem_put hmem with rfl | hmem
    · exact hvalue
    · exact hchildren _ (List.mem_map_of_mem (f := (·.2)) hmem)

/-! ## Deciding -/

mutual

/-- Whether no object in the value repeats a key. -/
def keysDistinct : Json → Bool
  | .array items => keysDistinctInItems items
  | .object members => decide (members.map (·.1)).Nodup && keysDistinctInMembers members
  | _ => true

/-- Whether no object in the items repeats a key. -/
def keysDistinctInItems : List Json → Bool
  | [] => true
  | item :: items => keysDistinct item && keysDistinctInItems items

/-- Whether no object in the values of the members repeats a key. -/
def keysDistinctInMembers : Members → Bool
  | [] => true
  | (_, value) :: members => keysDistinct value && keysDistinctInMembers members

end

/-- All items are looked at. -/
theorem keysDistinctInItems_iff {items : List Json} :
    keysDistinctInItems items = true ↔ ∀ item ∈ items, item.keysDistinct = true := by
  induction items with
  | nil => simp [keysDistinctInItems]
  | cons item items ih => rw [keysDistinctInItems, Bool.and_eq_true, ih, List.forall_mem_cons]

/-- The values of all members are looked at. -/
theorem keysDistinctInMembers_iff {members : Members} :
    keysDistinctInMembers members = true ↔ ∀ member ∈ members, member.2.keysDistinct = true := by
  induction members with
  | nil => simp [keysDistinctInMembers]
  | cons member members ih => rw [keysDistinctInMembers, Bool.and_eq_true, ih, List.forall_mem_cons]

/-- The condition is decided by looking at all objects in the value. -/
theorem keysDistinct_iff {value : Json} : value.keysDistinct = true ↔ value.KeysDistinct := by
  induction value using Json.inductionOn with
  | array items ih =>
    rw [keysDistinct, keysDistinctInItems_iff]
    constructor
    · exact fun h => keysDistinct_array fun item hitem => (ih item hitem).1 (h item hitem)
    · exact fun h item hitem => (ih item hitem).2 (h.of_mem_children hitem)
  | object members ih =>
    rw [keysDistinct, Bool.and_eq_true, keysDistinctInMembers_iff, decide_eq_true_iff]
    constructor
    · rintro ⟨hkeys, h⟩
      exact keysDistinct_object hkeys fun member hmem => (ih member hmem).1 (h member hmem)
    · intro h
      obtain ⟨hkeys, hchildren⟩ := h
      refine ⟨hkeys members rfl, fun member hmem => (ih member hmem).2 (hchildren _ ?_)⟩
      exact List.mem_map_of_mem (f := (·.2)) hmem
  | _ => exact iff_of_true rfl (keysDistinct_of_not_isContainer rfl)

instance (value : Json) : Decidable value.KeysDistinct := decidable_of_iff _ keysDistinct_iff

end Json

end DocQuery
