import DocQuery.Document.Selection
import DocQuery.Proofs.Evaluation.Comprehension
import DocQuery.Proofs.Merging.Members

/-!
# Records of fields

Selectors that end in fields with different names select a record of each value: an object with one
entry for every selector that matches something, in the order of the selectors. Records come out of
the deep merge of projections. There they find nothing to be merged with, since no name comes twice,
but every array and object among the entries is still taken apart and merged into an empty one, and
it has to come out as it went in.

* `Json.mergeAll_map_object`: objects of one member each, with different keys, are merged into the
  object of all the members.
* `Selector.projectAll_of_endsInField`: what the selectors make of a single value.
* `DocumentMatches.select_records`: what they make of any matches.
-/

namespace DocQuery

/-! ## Members that are merged one by one -/

namespace Json

/-- A member whose key is new comes last, and its value does not change. -/
theorem merge_object_singleton {members : Members} {key : String} {value : Json}
    (hkey : key ∉ members.map (·.1)) (hvalue : value.KeysDistinct) :
    (object members).merge (.object [(key, value)]) =
      .ok (.object (members ++ [(key, value)])) := by
  have hnone : members.get? key = none := Members.get?_eq_none_iff.2 hkey
  rw [merge_object, mergeMembers_cons, hnone, absorb_none hvalue]
  show (mergeMembers (members.put key value) []).map object = _
  rw [Members.put_of_not_mem hkey, mergeMembers]
  rfl

/-- Members with different keys come one behind the other when they are merged one by one. -/
theorem foldlM_mergeOptional_object {members settled : Members}
    (hkeys : ((settled ++ members).map (·.1)).Nodup)
    (hvalues : ∀ member ∈ members, member.2.KeysDistinct) :
    (members.map fun member => object [member]).foldlM
        (fun merged value => mergeOptional merged (some value)) (some (.object settled)) =
      .ok (some (.object (settled ++ members))) := by
  -- the members that are merged already grow by one in each step
  induction members generalizing settled with
  | nil =>
    rw [List.append_nil]
    rfl
  | cons member members ih =>
    obtain ⟨hvalue, hvalues⟩ := List.forall_mem_cons.1 hvalues
    have hnew := Members.not_mem_of_nodup_append hkeys
    rw [List.append_cons] at hkeys ⊢
    rw [List.map_cons, List.foldlM_cons, mergeOptional, merge_object_singleton hnew hvalue]
    exact ih hkeys hvalues

/-- Objects of one member each, with different keys, are merged into the object of all of them. -/
theorem mergeAll_map_object {members : Members} (hkeys : (members.map (·.1)).Nodup)
    (hvalues : ∀ member ∈ members, member.2.KeysDistinct) :
    mergeAll (members.map fun member => object [member]) =
      .ok (if members.isEmpty then none else some (.object members)) := by
  cases members with
  | nil => rfl
  | cons member members =>
    -- the first object is merged into nothing, and the others into its members
    rw [mergeAll, List.map_cons, List.foldlM_cons, none_mergeOptional]
    exact foldlM_mergeOptional_object hkeys (List.forall_mem_cons.1 hvalues).2

end Json

/-! ## One value -/

namespace Selector

/-- The last segment of the chain is the field of the given name. -/
def EndsInField (selector : Selector) (name : String) : Prop :=
  selector.segments.getLast? = some (.field name)

/-- What stands under a name in a record: the only match as it is, or the array of all matches in
their order. -/
def member? (name : String) : List Json → Option (String × Json)
  | [] => none
  | [found] => some (name, found)
  | found => some (name, .array found)

/-- The entries that selectors have in the record of a value, each under its name. -/
def record (selectors : List Selector) (names : List String) (value : Json) : Members :=
  (selectors.zip names).filterMap fun field => member? field.2 (field.1.select value).toList

/-- A selector that ends in a field projects a value to an object of one entry. -/
theorem EndsInField.project?_eq {selector : Selector} {name : String}
    (h : selector.EndsInField name) (value : Json) :
    selector.project? value =
      (member? name (selector.select value).toList).map fun entry => .object [entry] := by
  have hlabel : selector.label? = some name := by rw [label?, h]
  rw [project?, Matches.drain_eq_toList]
  rcases (selector.select value).toList with _ | ⟨first, _ | ⟨second, others⟩⟩
  · rfl
  all_goals simp [gather?, member?, labelled, hlabel]

section Record

variable {selectors : List Selector} {names : List String}

/-- The projections of a value are the entries of its record, as objects. -/
theorem projections_eq_record (hends : List.Forall₂ EndsInField selectors names) (value : Json) :
    projections selectors value =
      (record selectors names value).map fun entry => .object [entry] := by
  rw [projections, record, List.map_filterMap]
  induction hends with
  | nil => rfl
  | cons h _ ih =>
    rw [List.zip_cons_cons, List.filterMap_cons, List.filterMap_cons, ih, h.project?_eq]

/-- The keys of a record are among the names, in their order. -/
theorem keys_record_sublist (hends : List.Forall₂ EndsInField selectors names) (value : Json) :
    ((record selectors names value).map (·.1)).Sublist names := by
  rw [record]
  induction hends with
  | nil => exact List.nil_sublist _
  | @cons selector name selectors names _ _ ih =>
    rw [List.zip_cons_cons, List.filterMap_cons]
    -- without a match the name is left out, and otherwise it comes in front of the others
    rcases (selector.select value).toList with _ | ⟨first, _ | ⟨second, others⟩⟩
    · exact ih.cons name
    all_goals exact ih.cons_cons name

/-- The values in a record repeat no key if neither the value at hand nor a constant does. -/
theorem keysDistinct_of_mem_record (names : List String)
    (hconstants : ∀ selector ∈ selectors, selector.ConstantsDistinct) {value : Json}
    (hvalue : value.KeysDistinct) :
    ∀ entry ∈ record selectors names value, entry.2.KeysDistinct := by
  intro entry hentry
  obtain ⟨⟨selector, name⟩, hfield, hentry⟩ := List.mem_filterMap.1 hentry
  have hselector := hconstants selector (List.of_mem_zip hfield).1
  have hmatches := keysDistinct_select hselector hvalue
  rw [member?.eq_def] at hentry
  split at hentry
  · cases hentry
  · obtain rfl := Option.some.inj hentry
    exact hmatches _ (by simp [*])
  · obtain rfl := Option.some.inj hentry
    exact Json.keysDistinct_array hmatches

/-- A record has entries if any of the selectors matches something. -/
theorem anyMatches_eq_record (hends : List.Forall₂ EndsInField selectors names) (value : Json) :
    anyMatches selectors value = !(record selectors names value).isEmpty := by
  rw [← isEmpty_projections, projections_eq_record hends, List.isEmpty_map]

/-- Selectors that end in fields with different names make a record of a value, or nothing where
none of them matches. -/
theorem projectAll_of_endsInField (hends : List.Forall₂ EndsInField selectors names)
    (hnames : names.Nodup) (hconstants : ∀ selector ∈ selectors, selector.ConstantsDistinct)
    {value : Json} (hvalue : value.KeysDistinct) :
    projectAll selectors value =
      .ok (if anyMatches selectors value then some (.object (record selectors names value))
        else none) := by
  have hkeys := hnames.sublist (keys_record_sublist hends value)
  have hvalues := keysDistinct_of_mem_record names hconstants hvalue
  rw [projectAll_eq_mergeAll, projections_eq_record hends, Json.mergeAll_map_object hkeys hvalues,
    anyMatches_eq_record hends]
  cases (record selectors names value).isEmpty <;> rfl

end Record

end Selector

/-! ## Any matches -/

/-- Selectors that end in fields with pairwise different names never fail, unless there is just one
of them, which is not gathered into records. They yield, in order, a record of each value in which
any of them matches something, and nothing for the others. A record has one entry for each selector
that matches something, in the order of the selectors: under the name of its field stands its match,
or the array of its matches if there are several. -/
theorem DocumentMatches.select_records {selectors : List DocumentSelector} {names : List String}
    (hlength : selectors.length ≠ 1)
    (hends : List.Forall₂ (fun selector name => selector.EndsInField name) selectors names)
    (hnames : names.Nodup) (found : DocumentMatches) :
    let chains := selectors.map DocumentSelector.toSelector
    ∃ result, found.select selectors = .ok result ∧
      result.toList = (found.toList.filter (Selector.anyMatches chains)).map fun value =>
        .object (Selector.record chains names value) := by
  intro chains
  have hchains : ∀ chain ∈ chains, chain.ConstantsDistinct :=
    List.forall_mem_map.2 fun selector _ => selector.constantsDistinct
  have hends : List.Forall₂ Selector.EndsInField chains names := List.forall₂_map_left_iff.2 hends
  have hrows : found.toList.mapM (Selector.projectAll chains) =
      .ok (found.toList.map fun value =>
        if Selector.anyMatches chains value then
          some (.object (Selector.record chains names value))
        else none) := by
    -- no value fails, so there is one row for each
    rw [mapM_eq_ok_iff, List.forall₂_map_right_iff, List.forall₂_same]
    intro value hvalue
    exact Selector.projectAll_of_endsInField hends hnames hchains (found.keysDistinct value hvalue)
  have hselect := found.toMatches.toList_select chains
  rw [Selector.selectValues_of_length_ne_one (by rwa [List.length_map]), hrows,
    ← found.map_toMatches_select] at hselect
  obtain ⟨_, hmatches, hlist⟩ := map_eq_ok_iff.1 hselect
  obtain ⟨result, hresult, rfl⟩ := map_eq_ok_iff.1 hmatches
  refine ⟨result, hresult, ?_⟩
  -- those that have no record are left out
  rw [hlist, List.filterMap_map, ← List.filterMap_eq_map', List.filterMap_filter]
  rfl

/-- A field without a match, one with a single match and one with two of them. The second value, an
array, matches nothing. -/
theorem DocumentMatches.select_records_nested :
    let order : Json :=
      .object [("rows", .array [.object [("n", .array [])], .object [("n", .null)]]), ("id", .null)]
    let found : DocumentMatches :=
      ⟨(Matches.single order).nest (.single (.array [order])), by decide⟩
    let selectors : List DocumentSelector :=
      [⟨⟨[.field "name"]⟩, by decide⟩, ⟨⟨[.field "id"]⟩, by decide⟩,
        ⟨⟨[.field "rows", .slice none none, .field "n"]⟩, by decide⟩]
    let names := ["name", "id", "n"]
    selectors.length ≠ 1 ∧
      List.Forall₂ (fun selector name => selector.EndsInField name) selectors names ∧
      names.Nodup ∧
      ∃ result, found.select selectors = .ok result ∧
        result.toList = [.object [("id", .null), ("n", .array [.array [], .null])]] := by
  intro order found selectors names
  have hlength : selectors.length ≠ 1 := by decide
  have hends : List.Forall₂ (fun selector name => selector.EndsInField name) selectors names :=
    .cons rfl (.cons rfl (.cons rfl .nil))
  have hnames : names.Nodup := by decide
  obtain ⟨result, hresult, hlist⟩ := select_records hlength hends hnames found
  refine ⟨hlength, hends, hnames, result, hresult, ?_⟩
  have hchains : List.Forall₂ Selector.EndsInField
      (selectors.map DocumentSelector.toSelector) names := List.forall₂_map_left_iff.2 hends
  rw [hlist, funext (Selector.anyMatches_eq_record hchains)]
  rfl

end DocQuery
