import DocQuery.Proofs.Evaluation.Comprehension
import DocQuery.Proofs.Selection.Composition

/-!
# Arrays as sources

An array that is matched as a source stands for its items. The slice of all items names the same
items one by one, but then an item that is an array stands for its items in turn. So the two sources
are exchangeable in every query exactly when no item of a matched array is itself an array.

* `Json.flatMap_expand_eq_self_iff`: expanding arrays changes a list if and only if it holds one.
* `Query.elements_slice`: the elements of a slice are those of its arrays, expanded once more.
* `Query.values_slice_iff`: when an array and its slice are exchangeable as sources.
-/

-- the empty sum is the zero of the core library, also where other libraries are at hand
attribute [local instance (high)] Zero.ofOfNat0

namespace DocQuery

namespace Json

/-- Whether the value is an array. -/
def isArray : Json → Bool
  | .array _ => true
  | _ => false

/-- The sizes of the items of an array add up to less than its own. -/
theorem sum_sizeOf_lt (items : List Json) : (items.map sizeOf).sum < sizeOf (array items) := by
  have hle : (items.map sizeOf).sum ≤ sizeOf items := by
    induction items with
    | nil => simp
    | cons item items ih =>
      simp only [List.map_cons, List.sum_cons, List.cons.sizeOf_spec]
      omega
  rw [array.sizeOf_spec]
  omega

/-- Expanding arrays never makes values larger, and it makes an array smaller. -/
theorem sum_sizeOf_expand (value : Json) :
    (value.expand.map sizeOf).sum ≤ sizeOf value ∧
      (value.isArray = true → (value.expand.map sizeOf).sum < sizeOf value) := by
  cases value with
  | array items => exact ⟨Nat.le_of_lt (sum_sizeOf_lt items), fun _ => sum_sizeOf_lt items⟩
  | _ => simp [expand, isArray]

/-- A value that is no array stands for itself. -/
theorem expand_eq_singleton {value : Json} (h : value.isArray = false) :
    value.expand = [value] := by
  cases value with
  | array items => cases h
  | _ => rfl

/-- The sizes of values do not add up to more when their arrays are expanded. -/
theorem sum_sizeOf_flatMap_expand_le (values : List Json) :
    ((values.flatMap expand).map sizeOf).sum ≤ (values.map sizeOf).sum := by
  induction values with
  | nil => simp
  | cons value values ih =>
    have := value.sum_sizeOf_expand.1
    simp only [List.flatMap_cons, List.map_append, List.sum_append, List.map_cons, List.sum_cons]
    omega

/-- Expanding the arrays of a list changes it if and only if there is one. -/
theorem flatMap_expand_eq_self_iff {values : List Json} :
    values.flatMap expand = values ↔ ∀ value ∈ values, value.isArray = false := by
  induction values with
  | nil => simp
  | cons value values ih =>
    rw [List.forall_mem_cons, List.flatMap_cons]
    constructor
    · intro h
      -- the sizes would add up to less if the first value were an array
      have hvalue : value.isArray = false := by
        rw [Bool.eq_false_iff]
        intro harray
        have hsize := congrArg (fun values => (values.map sizeOf).sum) h
        simp only [List.map_append, List.sum_append, List.map_cons, List.sum_cons] at hsize
        have hlt := value.sum_sizeOf_expand.2 harray
        have hle := sum_sizeOf_flatMap_expand_le values
        omega
      rw [expand_eq_singleton hvalue] at h
      exact ⟨hvalue, ih.1 (List.tail_eq_of_cons_eq h)⟩
    · rintro ⟨hvalue, hvalues⟩
      rw [expand_eq_singleton hvalue, ih.2 hvalues]
      rfl

end Json

namespace Selector

/-- The slice of all items. -/
def items : Selector := .single (.slice none none)

/-- The slice of all items of an array. -/
theorem toList_select_items (values : List Json) :
    (items.select (.array values)).toList = values := by
  show (Matches.ofList (Position.slice values none none)).toList = values
  rw [Matches.toList_ofList, Position.slice_none_none]

end Selector

namespace Query

/-- Where only arrays are matched, their slices match what the arrays stand for. -/
theorem toList_select_append_items {source : Selector} (hend : source.endsInDescent = false)
    {document : Json} (harrays : ∀ x ∈ (source.select document).toList, x.isArray = true) :
    ((source ++ .items).select document).toList =
      (source.select document).toList.flatMap Json.expand := by
  have hjoined := Selector.toList_selectSegments_append hend Selector.items.segments document
  refine hjoined.trans (List.flatMap_congr ?_)
  intro x hx
  have harray := harrays x hx
  cases x with
  | array values => exact Selector.toList_select_items values
  | _ => cases harray

/-- The elements of a slice are those of its arrays, expanded once more. -/
theorem elements_slice {source : Selector} (hend : source.endsInDescent = false) {document : Json}
    (harrays : ∀ x ∈ (source.select document).toList, x.isArray = true) (select : List Selector)
    (filter : Filter) :
    ((Query.mk select (source ++ .items) filter).elements document).toList =
      ((Query.mk select source filter).elements document).toList.flatMap Json.expand := by
  simp only [elements, sources, Matches.toList_expandArrays]
  rw [toList_select_append_items hend harrays]

/-- The values of a query depend on its source only through the elements. -/
theorem values_eq_of_elements (query : Query) (document : Json) :
    query.values document =
      Selector.selectValues query.select
        ((query.elements document).toList.filter query.filter.holds) := by
  rw [values_eq_selectValues, kept, Matches.toList_filter]

/-- The query without filter that selects its elements yields them. -/
theorem values_identity_always (source : Selector) (document : Json) :
    (Query.mk [.identity] source .always).values document =
      .ok ((Query.mk [.identity] source .always).elements document).toList := by
  have hkept (values : List Json) : values.filter Filter.always.holds = values :=
    List.filter_eq_self.2 fun _ _ => rfl
  rw [values_eq_of_elements, hkept]
  exact congrArg Except.ok (List.flatMap_singleton' _)

/-- Where a source matches only arrays, its slice has the elements of the source with the arrays
among them expanded once more. So the two are exchangeable, whatever is selected and filtered,
exactly if no item of a matched array is an array itself. -/
theorem values_slice_iff {source : Selector} (hend : source.endsInDescent = false)
    {document : Json} (harrays : ∀ x ∈ (source.select document).toList, x.isArray = true) :
    (∀ select filter, ((Query.mk select (source ++ .items) filter).elements document).toList =
      ((Query.mk select source filter).elements document).toList.flatMap Json.expand) ∧
    ((∀ select filter, (Query.mk select source filter).values document =
        (Query.mk select (source ++ .items) filter).values document) ↔
      ∀ x ∈ (source.select document).toList, ∀ item ∈ x.expand, item.isArray = false) := by
  have hslice := elements_slice hend harrays
  have helements (select filter) : ((Query.mk select source filter).elements document).toList =
      (source.select document).toList.flatMap Json.expand := Matches.toList_expandArrays _
  have hitems : (∀ x ∈ (source.select document).toList, ∀ item ∈ x.expand, item.isArray = false) ↔
      ∀ item ∈ (source.select document).toList.flatMap Json.expand, item.isArray = false := by
    simp only [List.mem_flatMap]
    grind
  refine ⟨hslice, ?_⟩
  rw [hitems, ← Json.flatMap_expand_eq_self_iff]
  constructor
  · -- the query that selects the elements themselves tells them apart
    intro h
    have hvalues := h [.identity] .always
    rw [values_identity_always, values_identity_always, hslice, helements] at hvalues
    exact (Except.ok.inj hvalues).symm
  · intro h select filter
    rw [values_eq_of_elements, values_eq_of_elements, hslice, helements, h]

/-- An array of objects as a source. -/
theorem values_slice_iff_objects :
    let source : Selector := .single (.field "items")
    let document : Json := .object [("items", .array [.object [("id", .null)], .bool true])]
    source.endsInDescent = false ∧ (∀ x ∈ (source.select document).toList, x.isArray = true) ∧
      ∀ select filter, (Query.mk select source filter).values document =
        (Query.mk select (source ++ .items) filter).values document := by
  intro source document
  have hmatches : (source.select document).toList =
      [.array [.object [("id", .null)], .bool true]] := rfl
  have harrays : ∀ x ∈ (source.select document).toList, x.isArray = true := by
    rw [hmatches]
    simp [Json.isArray]
  refine ⟨rfl, harrays, (values_slice_iff rfl harrays).2.2 ?_⟩
  rw [hmatches]
  simp [Json.expand, Json.isArray]

/-- An array of arrays as a source: its items are the elements, and those of its slice are the items
of the items. -/
theorem values_slice_ne_arrays :
    let source : Selector := .single (.field "rows")
    let document : Json :=
      .object [("rows", .array [.array [.bool true, .bool false], .array [.null]])]
    source.endsInDescent = false ∧ (∀ x ∈ (source.select document).toList, x.isArray = true) ∧
      (Query.mk [.identity] source .always).values document =
        .ok [.array [.bool true, .bool false], .array [.null]] ∧
      (Query.mk [.identity] (source ++ .items) .always).values document =
        .ok [.bool true, .bool false, .null] ∧
      (Query.mk [.identity] source .always).values document ≠
        (Query.mk [.identity] (source ++ .items) .always).values document := by
  intro source document
  have hmatches : (source.select document).toList =
      [.array [.array [.bool true, .bool false], .array [.null]]] := rfl
  have hsource : (Query.mk [.identity] source .always).values document =
      .ok [.array [.bool true, .bool false], .array [.null]] := by
    rw [values_identity_always, elements, Matches.toList_expandArrays]
    rfl
  have hslice : (Query.mk [.identity] (source ++ .items) .always).values document =
      .ok [.bool true, .bool false, .null] := by
    rw [values_identity_always, elements, Matches.toList_expandArrays]
    rfl
  refine ⟨rfl, ?_, hsource, hslice, ?_⟩
  · rw [hmatches]
    simp [Json.isArray]
  · rw [hsource, hslice]
    simp

end Query

end DocQuery
