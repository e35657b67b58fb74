import DocQuery.Proofs.Comparison.Equality
import DocQuery.Proofs.Merging.Grouping

/-!
# Merging a value with itself

A scalar that comes in under a key takes the place of what is there, so the same scalar changes
nothing. An array is put behind what is there, so the same array doubles it. Merging goes down from
objects to their members and stops at everything else: what stands inside an array is copied, never
merged. So a value survives being merged with itself if the arrays that are found on the way down,
through members of objects only, have nothing in them.

* `Json.merge_self_of_arraysEmpty`: where all these arrays are empty, the value is left as it is.
* `Json.arraysEmpty_of_merge_self`: where one is not, no equal value comes out.
* `Document.mergeOptional_self_iff`: both for every document.
-/

namespace DocQuery

/-- A number has the representation that it has. -/
theorem Number.same_self (x : Number) : x.same x = true := by
  cases x <;> simp [Number.same, Binary64.same]

namespace Json

/-- The value is the other one or leads to it through members of objects only. -/
inductive ReachesByMembers : Json → Json → Prop
  | here {value : Json} : ReachesByMembers value value
  | member {members : Members} {key : String} {value found : Json}
      (hmem : (key, value) ∈ members) (h : ReachesByMembers value found) :
      ReachesByMembers (.object members) found

/-- Every array that the value leads to through members of objects is empty. -/
def ArraysEmpty (value : Json) : Prop :=
  ∀ items, value.ReachesByMembers (.array items) → items = []

/-- What an array leads to through members is itself, so it has to be empty. -/
theorem arraysEmpty_array_iff {items : List Json} : (array items).ArraysEmpty ↔ items = [] := by
  constructor
  · intro h
    exact h items .here
  · rintro rfl items h
    cases h
    rfl

/-- A scalar leads to no array. -/
theorem arraysEmpty_scalar {value : Json} (h : value.isContainer = false) : value.ArraysEmpty := by
  intro items hitems
  cases hitems with
  | here => cases h
  | member => cases h

/-- The arrays that an object leads to are those that its members lead to. -/
theorem arraysEmpty_object_iff {members : Members} :
    (object members).ArraysEmpty ↔ ∀ member ∈ members, member.2.ArraysEmpty := by
  constructor
  · intro h member hmem items hitems
    exact h items (.member hmem hitems)
  · intro h items hitems
    cases hitems with
    | member hmem hfound => exact h _ hmem items hfound

/-! ## Values that stay as they are -/

/-- A key keeps its value when the same one comes in, if merging the value with itself keeps it. -/
theorem absorb_self {value : Json}
    (h : value.isContainer = true → value.merge value = .ok value) :
    absorb (some value) value = .ok value := by
  cases hvalue : value.isContainer with
  | false => exact absorb_scalar hvalue _
  | true =>
    rw [absorb_container hvalue, Option.getD_some]
    exact h hvalue

/-- An array or an object that leads to empty arrays only is left as it is, with its keys in
order. -/
theorem merge_self_of_arraysEmpty {value : Json} (hvalue : value.KeysDistinct)
    (hcontainer : value.isContainer = true) (h : value.ArraysEmpty) :
    value.merge value = .ok value := by
  induction hvalue with
  | @intro value hkeys _ ih =>
    cases value with
    | array items =>
      obtain rfl := arraysEmpty_array_iff.1 h
      exact merge_array [] []
    | object members =>
      have hnodup := hkeys members rfl
      rw [arraysEmpty_object_iff] at h
      have hmembers : mergeMembers members members = .ok members := by
        rw [mergeMembers_eq_ok_iff hnodup hnodup]
        refine ⟨by simp, fun key => ?_⟩
        cases hget : Members.get? members key with
        | none => rfl
        | some child =>
          have hmem := (Members.get?_eq_some_iff hnodup).1 hget
          have habsorb : absorb (some child) child = .ok child := absorb_self fun hchild =>
            ih child (mem_children_of_get? hget) hchild (h _ hmem)
          exact absorbOptional_some_eq_ok_iff.2 ⟨child, habsorb, rfl⟩
      rw [merge_object, hmembers]
      rfl
    | _ => cases hcontainer

/-! ## Values that do not -/

/-- If a value equals what it is merged with itself to, it leads to empty arrays only. This is so
for every equality that compares numbers in some way and does not look at the order of keys. -/
theorem arraysEmpty_of_merge_self {numbers : Number → Number → Bool} {value merged : Json}
    (hvalue : value.KeysDistinct) (hmerge : value.merge value = .ok merged)
    (hequal : equalBy numbers merged value = true) : value.ArraysEmpty := by
  induction hvalue generalizing merged with
  | @intro value hkeys _ ih =>
    obtain ⟨items, _, rfl, ⟨⟩, rfl⟩ | ⟨members, _, result, rfl, ⟨⟩, hresult, rfl⟩ :=
      exists_of_merge_eq_ok hmerge
    · -- an array with anything in it has become longer
      obtain ⟨_, ⟨⟩, hlength, -⟩ := equalBy_array_iff.1 hequal
      rw [List.length_append] at hlength
      rw [arraysEmpty_array_iff]
      exact List.eq_nil_of_length_eq_zero (by omega)
    · have hnodup := hkeys members rfl
      have hinto := mergedInto_of_mergeMembers hnodup hresult
      obtain ⟨_, ⟨⟩, -, hfound⟩ := equalBy_object_iff.1 hequal
      rw [arraysEmpty_object_iff]
      rintro ⟨key, child⟩ hmem
      cases hchild : child.isContainer with
      | false => exact arraysEmpty_scalar hchild
      | true =>
        have hget := (Members.get?_eq_some_iff hnodup).2 hmem
        obtain ⟨inner, habsorb, hinner⟩ := hinto.get?_of_present key child hget
        rw [hget, absorb_container hchild, Option.getD_some] at habsorb
        -- the equality has looked up the key, and found the child, which merged with itself equals
        obtain ⟨old, hold, heq⟩ := hfound _ (Members.mem_of_get?_eq_some hinner)
        obtain rfl := Option.some.inj (hget.symm.trans hold)
        exact ih child (mem_children_of_get? hget) habsorb heq

/-! ## All values -/

/-- A container that leads to empty arrays only is the empty array or an object. -/
theorem isContainer_and_arraysEmpty_iff {value : Json} :
    value.isContainer = true ∧ value.ArraysEmpty ↔
      value = .array [] ∨ (∃ members, value = .object members) ∧
        ∀ items, value.ReachesByMembers (.array items) → items = [] := by
  cases value with
  | array items => simp [isContainer, arraysEmpty_array_iff]
  | object members => simp [isContainer, ArraysEmpty]
  | _ => simp [isContainer]

/-- Where an equal value comes out of merging a value with itself, it leads to empty arrays only. -/
theorem isContainer_and_arraysEmpty_of_mergeOptional_self {value merged : Json}
    (hvalue : value.KeysDistinct)
    (hmerged : mergeOptional (some value) (some value) = .ok (some merged))
    (hsame : merged.same value = true) : value.isContainer = true ∧ value.ArraysEmpty := by
  obtain ⟨_, hmerge, ⟨⟩⟩ := mergeOptional_some_some.1 hmerged
  exact ⟨(emptyLike_of_merge hmerge).2.1, arraysEmpty_of_merge_self hvalue hmerge hsame⟩

end Json

open Json

/-- Merging a document with itself yields the same document, with its keys in the same order at
every depth, exactly if it is the empty array, or an object all of whose arrays are empty that are
reached through members of objects only. Nor does it make a difference whether the order of keys is
looked at: a document that equals the one that was merged with itself is that document. -/
theorem Document.mergeOptional_self_iff (document : Document) :
    (mergeOptional (some document) (some document) = .ok (some document) ↔
      document.root = .array [] ∨ (∃ members, document.root = .object members) ∧
        ∀ items, document.root.ReachesByMembers (.array items) → items = []) ∧
    ∀ merged, mergeOptional (some document) (some document) = .ok (some merged) →
      merged.root.same document.root = true → merged = document := by
  obtain ⟨value, h⟩ := document
  simp only [mergeOptional_eq_ok_iff, Option.map_some]
  have hstays (hidle : value.isContainer = true ∧ value.ArraysEmpty) :
      Json.mergeOptional (some value) (some value) = .ok (some value) :=
    mergeOptional_some_some.2 ⟨value, merge_self_of_arraysEmpty h hidle.1 hidle.2, rfl⟩
  constructor
  · rw [← isContainer_and_arraysEmpty_iff]
    constructor
    · intro hmerged
      exact isContainer_and_arraysEmpty_of_mergeOptional_self h hmerged
        (equalBy_self Number.same_self h)
    · exact hstays
  · intro merged hmerged hsame
    -- an equal value comes out of no other values than those that stay as they are
    have hidle := isContainer_and_arraysEmpty_of_mergeOptional_self h hmerged hsame
    have hvalue := hmerged.symm.trans (hstays hidle)
    exact Document.ext (Option.some.inj (Except.ok.inj hvalue))

/-- Scalars and an empty array two objects down stay as they are. If the array has something in it,
be it an empty array, the document does not stay as it is. -/
theorem Document.mergeOptional_self_nested :
    let idle : Document :=
      ⟨.object [("b", .object [("y", .array []), ("x", .bool true)]), ("a", .null)], by decide⟩
    let doubled : Document :=
      ⟨.object [("b", .object [("y", .array [.array []])]), ("a", .null)], by decide⟩
    mergeOptional (some idle) (some idle) = .ok (some idle) ∧
      mergeOptional (some doubled) (some doubled) ≠ .ok (some doubled) := by
  intro idle doubled
  constructor
  · have harrays : idle.root.ArraysEmpty := by
      have hscalars : Json.null.ArraysEmpty ∧ (Json.bool true).ArraysEmpty :=
        ⟨arraysEmpty_scalar rfl, arraysEmpty_scalar rfl⟩
      simp [idle, arraysEmpty_object_iff, arraysEmpty_array_iff, hscalars]
    exact idle.mergeOptional_self_iff.1.2 (.inr ⟨⟨_, rfl⟩, harrays⟩)
  · intro hsame
    have hreached : doubled.root.ReachesByMembers (.array [.array []]) :=
      .member (List.mem_cons_self ..) (.member (List.mem_cons_self ..) .here)
    rcases doubled.mergeOptional_self_iff.1.1 hsame with harray | ⟨-, hall⟩
    · exact Json.noConfusion harray
    · exact absurd (hall _ hreached) (List.cons_ne_nil _ _)

end DocQuery
