import DocQuery.Proofs.Evaluation.Pipeline
import Mathlib.Data.List.Forall2

/-!
# Queries are comprehensions

A query goes through its elements one by one. The elements that the filter rejects play no part. A
single selector yields its matches in each of the others. Several selectors yield one value for each
element in which any of them matches something: their projections, merged from left to right. The
query fails where such a merge does, with the error of the first element that has one.

* `mapM_eq_ok_iff`: what a list of steps yields that may fail.
* `Selector.projectAll_eq_mergeAll`: selectors without matches do not take part in the merge.
* `Query.values_eq_comprehension`: the statement for every query and document.
-/

namespace DocQuery

/-! ## Steps that may fail -/

section Rows

variable {ε α β : Type} {row : α → Except ε β}

/-- A list of steps succeeds with the results of all of them. -/
theorem mapM_eq_ok_iff {xs : List α} {ys : List β} :
    xs.mapM row = .ok ys ↔ List.Forall₂ (fun x y => row x = .ok y) xs ys := by
  induction xs generalizing ys with
  | nil =>
    rw [List.mapM_nil, List.forall₂_nil_left_iff]
    exact ⟨fun h => (Except.ok.inj h).symm, fun h => congrArg Except.ok h.symm⟩
  | cons x xs ih =>
    rw [mapM_cons_eq, List.forall₂_cons_left_iff]
    cases row x with
    | error error => simp
    | ok y => simp [map_eq_ok_iff, ih, @eq_comm _ ys]

/-- Of steps with optional results those remain that have one. -/
theorem forall₂_filterMap_id {row : α → Except ε (Option β)} {keep : α → Bool}
    (hkeep : ∀ x result, row x = .ok result → keep x = result.isSome) {xs : List α}
    {results : List (Option β)} (h : List.Forall₂ (fun x result => row x = .ok result) xs results) :
    List.Forall₂ (fun x value => row x = .ok (some value)) (xs.filter keep)
      (results.filterMap id) := by
  induction h with
  | nil => exact .nil
  | @cons x result xs results hx _ ih =>
    have hsome := hkeep x result hx
    cases result with
    | none =>
      rw [List.filter_cons_of_neg (by simp [hsome])]
      exact ih
    | some value =>
      rw [List.filter_cons_of_pos hsome]
      exact .cons hx ih

end Rows

/-! ## Merging projections -/

/-- Merges values from left to right, the first one into nothing. -/
def Json.mergeAll (values : List Json) : Except MergeError (Option Json) :=
  values.foldlM (fun merged value => mergeOptional merged (some value)) none

/-- Merging a value into what was there leaves something. -/
theorem Json.isSome_of_mergeOptional {merged result : Option Json} {value : Json}
    (h : mergeOptional merged (some value) = .ok result) : result.isSome = true := by
  cases merged with
  | none =>
    cases h
    rfl
  | some base =>
    obtain ⟨_, -, rfl⟩ := map_eq_ok_iff.1 h
    rfl

/-- Once something is merged, something stays. -/
theorem Json.isSome_of_foldlM_mergeOptional {values : List Json} {merged result : Option Json}
    (hmerged : merged.isSome = true)
    (h : values.foldlM (fun merged value => mergeOptional merged (some value)) merged =
      .ok result) : result.isSome = true := by
  induction values generalizing merged with
  | nil =>
    obtain rfl := Except.ok.inj h
    exact hmerged
  | cons value values ih =>
    rw [List.foldlM_cons] at h
    cases hstep : mergeOptional merged (some value) with
    | error error =>
      rw [hstep] at h
      cases h
    | ok next =>
      rw [hstep] at h
      exact ih (isSome_of_mergeOptional hstep) h

/-- The merge of some values is there if there is a value. -/
theorem Json.isSome_of_mergeAll {values : List Json} {result : Option Json}
    (h : mergeAll values = .ok result) : result.isSome = !values.isEmpty := by
  cases values with
  | nil =>
    obtain rfl := Except.ok.inj h
    rfl
  | cons value values =>
    -- the first value is merged into nothing
    have hfirst : (some value).isSome = true := rfl
    exact isSome_of_foldlM_mergeOptional hfirst h

namespace Selector

/-- The projections of a value by those selectors that match something in it. -/
def projections (selectors : List Selector) (value : Json) : List Json :=
  selectors.filterMap (·.project? value)

/-- Whether any of some selectors matches something in a value. -/
def anyMatches (selectors : List Selector) (value : Json) : Bool :=
  selectors.any fun selector => !(selector.select value).isEmpty

/-- A selector has a projection where it matches something. -/
theorem isSome_project? (selector : Selector) (value : Json) :
    (selector.project? value).isSome = !(selector.select value).isEmpty := by
  rw [project?, Option.isSome_map, Matches.drain_eq_toList, Bool.eq_iff_iff, Bool.not_eq_true',
    ← Bool.not_eq_true, Matches.isEmpty_iff]
  rcases (selector.select value).toList with _ | ⟨first, _ | ⟨second, others⟩⟩ <;> simp [gather?]

/-- There is a projection if any of the selectors matches something. -/
theorem isEmpty_projections (selectors : List Selector) (value : Json) :
    (!(projections selectors value).isEmpty) = anyMatches selectors value := by
  induction selectors with
  | nil => rfl
  | cons selector others ih =>
    rw [anyMatches, List.any_cons, ← isSome_project?, ← anyMatches, ← ih]
    rw [projections, List.filterMap_cons]
    cases selector.project? value <;> rfl

/-- Selectors without matches do not take part in the merge. -/
theorem projectAll_eq_mergeAll (selectors : List Selector) (value : Json) :
    projectAll selectors value = Json.mergeAll (projections selectors value) := by
  rw [projectAll, Json.mergeAll, projections]
  generalize none = merged
  induction selectors generalizing merged with
  | nil => rfl
  | cons selector others ih =>
    rw [List.foldlM_cons, List.filterMap_cons]
    cases selector.project? value with
    | none =>
      rw [Json.mergeOptional_none]
      exact ih merged
    | some projection =>
      rw [List.foldlM_cons]
      exact congrArg _ (funext ih)

end Selector

/-- Unless there is exactly one selector, each value is replaced by its merged projections. -/
theorem Selector.selectValues_of_length_ne_one {selectors : List Selector}
    (h : selectors.length ≠ 1) (values : List Json) :
    selectValues selectors values =
      (values.mapM (projectAll selectors)).map (List.filterMap id) := by
  unfold selectValues
  split
  · exact absurd rfl h
  · rfl

/-! ## Queries -/

namespace Query

/-- The values of a query are what its selectors select in the elements that are kept. -/
theorem values_eq_selectValues (query : Query) (document : Json) :
    query.values document = Selector.selectValues query.select (query.kept document).toList := by
  rw [← Matches.toList_select, values, evaluate]
  congr 1
  exact funext Matches.drain_eq_toList

/-- Unless there is exactly one selector, the values of a query are the merged projections of each
element. -/
theorem values_eq_mapM {query : Query} (h : query.select.length ≠ 1) (document : Json) :
    query.values document =
      ((query.kept document).toList.mapM fun x =>
        Json.mergeAll (Selector.projections query.select x)).map (List.filterMap id) := by
  rw [values_eq_selectValues, Selector.selectValues_of_length_ne_one h]
  simp only [← Selector.projectAll_eq_mergeAll]

/-- A query is a comprehension over its elements, of which those are kept that satisfy the filter. A
single selector never fails and yields its matches in each of them. Otherwise the query succeeds
exactly if the projections of each kept element can be merged, it yields one merged value for each
kept element in which a selector matches something, and it fails with the error of the first kept
element that has one. -/
theorem values_eq_comprehension (query : Query) (document : Json) :
    let elements := (query.source.select document).toList.flatMap Json.expand
    let kept := elements.filter query.filter.holds
    let row := fun x => Json.mergeAll (Selector.projections query.select x)
    (∀ selector, query.select = [selector] →
      query.values document = .ok (kept.flatMap fun x => (selector.select x).toList)) ∧
    (query.select.length ≠ 1 →
      ((∃ values, query.values document = .ok values) ↔ ∀ x ∈ kept, ∃ result, row x = .ok result) ∧
      (∀ values, query.values document = .ok values →
        List.Forall₂ (fun x value => row x = .ok (some value))
          (kept.filter (Selector.anyMatches query.select)) values) ∧
      ∀ error, query.values document = .error error ↔
        ∃ before x after, kept = before ++ x :: after ∧
          (∀ y ∈ before, ∃ result, row y = .ok result) ∧ row x = .error error) := by
  intro elements kept row
  have hkept : (query.kept document).toList = kept := query.toList_kept document
  constructor
  · intro selector hselect
    rw [values_eq_selectValues, hselect, hkept]
    rfl
  · intro hlength
    rw [values_eq_mapM hlength, hkept]
    -- success, results and errors of the rows, without those in which nothing is matched
    refine ⟨?_, fun values h => ?_, fun error => map_eq_error_iff.trans mapM_eq_error_iff⟩
    · rw [← exists_mapM_eq_ok_iff]
      constructor
      · rintro ⟨values, h⟩
        obtain ⟨rows, hrows, -⟩ := map_eq_ok_iff.1 h
        exact ⟨rows, hrows⟩
      · rintro ⟨rows, hrows⟩
        exact ⟨_, map_eq_ok_iff.2 ⟨rows, hrows, rfl⟩⟩
    · obtain ⟨rows, hrows, rfl⟩ := map_eq_ok_iff.1 h
      refine forall₂_filterMap_id (fun x result hx => ?_) (mapM_eq_ok_iff.1 hrows)
      rw [← Selector.isEmpty_projections, Json.isSome_of_mergeAll hx]

/-- An element that the filter rejects could not be merged with itself, the next one can, and the
last one makes the query fail in a way of its own. -/
theorem values_eq_comprehension_error :
    let query : Query := ⟨[.identity, .identity, ⟨[.field "x", .slice none none]⟩], .identity,
      .exists (.single (.field "x"))⟩
    let document : Json :=
      .array [.bool true, .object [("x", .null)], .object [("x", .array [.null])]]
    query.select.length ≠ 1 ∧ query.values document = .error .differentKinds := by
  intro query document
  have hlength : query.select.length ≠ 1 := by decide
  refine ⟨hlength, ?_⟩
  rw [((query.values_eq_comprehension document).2 hlength).2.2]
  refine ⟨[.object [("x", .null)]], .object [("x", .array [.null])], [], ?_, ?_, rfl⟩
  · have hholds := funext (Filter.holds_exists (.single (.field "x")))
    rw [hholds]
    rfl
  · rintro _ hmem
    obtain rfl := List.mem_singleton.1 hmem
    exact ⟨_, rfl⟩

end Query

end DocQuery
