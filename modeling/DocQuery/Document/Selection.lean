import DocQuery.Document.Basic
import DocQuery.Projection
import DocQuery.Query

/-!
# What is selected in documents

A chain finds values inside the value at hand, or inside one of its own constants. So if the
constants are documents, what it finds in documents are documents. Merged projections are documents
too: the object that names a projection has a single key, and the array of several matches has none.

* `Selector.keysDistinct_select`, `DocumentSelector.select`: what a chain finds.
* `Selector.keysDistinct_of_projectAll`: the merged projections of a value.
* `Matches.keysDistinct_of_select`, `DocumentMatches.select`: what selectors make of matches.
* `DocumentQuery.evaluate`: what a query yields.
-/

namespace DocQuery

open Json

/-! ## Constants -/

/-- The segment is no constant, or a constant that repeats no key. -/
def Segment.ConstantDistinct : Segment → Prop
  | .constant value => value.KeysDistinct
  | _ => True

instance (segment : Segment) : Decidable segment.ConstantDistinct :=
  match segment with
  | .constant value => inferInstanceAs (Decidable value.KeysDistinct)
  | .field _ => .isTrue trivial
  | .index _ => .isTrue trivial
  | .slice _ _ => .isTrue trivial
  | .descent => .isTrue trivial

/-- No constant of the chain repeats a key. -/
def Selector.ConstantsDistinct (selector : Selector) : Prop :=
  ∀ segment ∈ selector.segments, segment.ConstantDistinct

instance (selector : Selector) : Decidable selector.ConstantsDistinct :=
  inferInstanceAs (Decidable (∀ segment ∈ selector.segments, segment.ConstantDistinct))

/-- A selector whose constants are documents. -/
structure DocumentSelector extends Selector where
  /-- No constant of the selector repeats a key. -/
  constantsDistinct : toSelector.ConstantsDistinct

/-- Matches that are documents. -/
@[ext]
structure DocumentMatches extends Matches where
  /-- No match repeats a key. -/
  keysDistinct : ∀ value ∈ toMatches.toList, value.KeysDistinct

/-- The array of the matches. -/
def DocumentMatches.toDocument (found : DocumentMatches) : Document where
  root := found.toJson
  keysDistinct := by
    rw [Matches.toJson, Matches.toList_walk]
    exact keysDistinct_array found.keysDistinct

/-! ## One chain -/

/-- What a descent finds repeats no key if that is so for what its function finds. -/
theorem keysDistinct_descend {here : Json → Matches}
    (hhere : ∀ value, value.KeysDistinct → ∀ found ∈ (here value).toList, found.KeysDistinct)
    {value : Json} (h : value.KeysDistinct) :
    ∀ found ∈ (descend here value).toList, found.KeysDistinct := by
  -- the children of a value repeat no key either, and the descent goes on with them
  induction h with
  | @intro value hkeys hchildren ih =>
    intro found hfound
    rw [toList_descend_eq, List.mem_append, List.mem_flatMap] at hfound
    rcases hfound with hfound | ⟨child, hchild, hfound⟩
    · exact hhere value (.intro hkeys hchildren) found hfound
    · exact ih child hchild found hfound

namespace Selector

/-- What a chain finds repeats no key if neither the value at hand nor a constant does. -/
theorem keysDistinct_select {selector : Selector} (hselector : selector.ConstantsDistinct)
    {value : Json} (h : value.KeysDistinct) :
    ∀ found ∈ (selector.select value).toList, found.KeysDistinct := by
  obtain ⟨segments⟩ := selector
  rw [select]
  induction segments generalizing value with
  | nil => exact List.forall_mem_singleton.2 h
  | cons segment rest ih =>
    obtain ⟨hsegment, hrest⟩ := List.forall_mem_cons.1 hselector
    have hrest : ∀ value : Json, value.KeysDistinct →
        ∀ found ∈ (selectSegments rest value).toList, found.KeysDistinct := fun _ hvalue =>
      ih hvalue hrest
    cases segment with
    | constant literal => exact hrest literal hsegment
    | field name =>
      cases value with
      | object members =>
        rw [selectSegments]
        split
        · rename_i hget
          exact hrest _ (h.get? hget)
        · exact List.forall_mem_nil _
      | _ => exact List.forall_mem_nil _
    | index position =>
      cases value with
      | array items =>
        rw [selectSegments]
        split
        · rename_i hitem
          exact hrest _ (h.of_mem_children (Position.mem_of_item? hitem))
        · exact List.forall_mem_nil _
      | _ => exact List.forall_mem_nil _
    | slice first last =>
      cases value with
      | array items =>
        have hitems (item) (hitem : item ∈ Position.slice items first last) : item.KeysDistinct :=
          h.of_mem_children (Position.mem_of_mem_slice hitem)
        rw [selectSegments]
        split
        · rwa [Matches.toList_ofList]
        · rw [Matches.toList_collect]
          intro found hfound
          obtain ⟨item, hitem, hmem⟩ := List.mem_flatMap.1 hfound
          exact hrest item (hitems item hitem) found hmem
      | _ => exact List.forall_mem_nil _
    | descent =>
      rw [selectSegments]
      refine keysDistinct_descend (fun here hhere => ?_) h
      split
      · exact List.forall_mem_nil _
      · exact hrest here hhere

end Selector

/-- What a selector finds in a document. -/
def DocumentSelector.select (selector : DocumentSelector) (document : Document) :
    DocumentMatches where
  toMatches := selector.toSelector.select document.root
  keysDistinct := Selector.keysDistinct_select selector.constantsDistinct document.keysDistinct

/-! ## Several selectors -/

/-- One value for several repeats no key. -/
theorem keysDistinct_of_gather? {values : List Json} {value : Json}
    (hvalues : ∀ item ∈ values, item.KeysDistinct) (h : gather? values = some value) :
    value.KeysDistinct := by
  rw [gather?.eq_def] at h
  split at h <;> cases h
  · exact hvalues _ List.mem_cons_self
  · exact keysDistinct_array hvalues

namespace Selector

/-- A projection repeats no key. -/
theorem keysDistinct_project? {selector : Selector} (hselector : selector.ConstantsDistinct)
    {value : Json} (h : value.KeysDistinct) :
    ∀ projection ∈ selector.project? value, projection.KeysDistinct := by
  intro projection hprojection
  obtain ⟨gathered, hgather, rfl⟩ := Option.map_eq_some_iff.1 hprojection
  rw [Matches.drain_eq_toList] at hgather
  have hgathered := keysDistinct_of_gather? (keysDistinct_select hselector h) hgather
  rw [labelled]
  split
  · refine keysDistinct_object (List.pairwise_singleton _ _) ?_
    exact List.forall_mem_singleton.2 hgathered
  · exact hgathered

/-- The merged projections of a value repeat no key. -/
theorem keysDistinct_of_projectAll {selectors : List Selector}
    (hselectors : ∀ selector ∈ selectors, selector.ConstantsDistinct) {value : Json}
    (h : value.KeysDistinct) {merged : Option Json}
    (hmerged : projectAll selectors value = .ok merged) :
    ∀ result ∈ merged, result.KeysDistinct := by
  rw [projectAll] at hmerged
  have hnone : ∀ base ∈ (none : Option Json), base.KeysDistinct := by rintro _ ⟨⟩
  -- what is merged so far repeats no key before and after each projection
  generalize none = base at hmerged hnone
  induction selectors generalizing base with
  | nil =>
    obtain rfl := Except.ok.inj hmerged
    exact hnone
  | cons selector selectors ih =>
    obtain ⟨hselector, hselectors⟩ := List.forall_mem_cons.1 hselectors
    rw [List.foldlM_cons, bind_eq_ok_iff] at hmerged
    obtain ⟨next, hnext, hlast⟩ := hmerged
    have hprojection := keysDistinct_project? hselector h
    exact ih hselectors next hlast (keysDistinct_of_mergeOptional hnone hprojection hnext)

end Selector

/-- What selectors make of matches that repeat no key repeats none. -/
theorem Matches.keysDistinct_of_select {found result : Matches} {selectors : List Selector}
    (hfound : ∀ value ∈ found.toList, value.KeysDistinct)
    (hselectors : ∀ selector ∈ selectors, selector.ConstantsDistinct)
    (h : found.select selectors = .ok result) : ∀ value ∈ result.toList, value.KeysDistinct := by
  rw [select.eq_def, toList_walk] at h
  split at h
  · -- a single selector
    obtain rfl := Except.ok.inj h
    rw [toList_collect]
    intro match' hmatch
    obtain ⟨value, hvalue, hmem⟩ := List.mem_flatMap.1 hmatch
    have hselector := hselectors _ List.mem_cons_self
    exact Selector.keysDistinct_select hselector (hfound value hvalue) match' hmem
  · -- each row is the merge of the projections of one of the values
    obtain ⟨rows, hrows, rfl⟩ := map_eq_ok_iff.1 h
    rw [toList_ofList]
    intro projection hprojection
    obtain ⟨_, hrow, rfl⟩ := List.mem_filterMap.1 hprojection
    obtain ⟨value, hvalue, hmerged⟩ := exists_mem_of_mapM_eq_ok hrows _ hrow
    exact Selector.keysDistinct_of_projectAll hselectors (hfound value hvalue) hmerged projection
      rfl

/-- Applies selectors to each of some matches. -/
def DocumentMatches.select (found : DocumentMatches) (selectors : List DocumentSelector) :
    Except MergeError DocumentMatches :=
  bundle DocumentMatches.mk (found.toMatches.select (selectors.map DocumentSelector.toSelector))
    fun _ h => Matches.keysDistinct_of_select found.keysDistinct
      (List.forall_mem_map.2 fun selector _ => selector.constantsDistinct) h

/-- Documents are selected as values are. -/
theorem DocumentMatches.map_toMatches_select (found : DocumentMatches)
    (selectors : List DocumentSelector) :
    (found.select selectors).map DocumentMatches.toMatches =
      found.toMatches.select (selectors.map DocumentSelector.toSelector) :=
  map_bundle (fun _ _ => rfl) _

/-! ## Queries -/

/-- The items of an array repeat no key, nor does a value that is no array. -/
theorem Json.KeysDistinct.expand {value : Json} (h : value.KeysDistinct) :
    ∀ item ∈ value.expand, item.KeysDistinct := by
  cases value with
  | array items => exact fun item hitem => h.of_mem_children hitem
  | _ => exact List.forall_mem_singleton.2 h

/-- A query whose constants are documents. -/
structure DocumentQuery extends Query where
  /-- No constant of the query repeats a key. -/
  constantsDistinct : ∀ selector ∈ toQuery.selectors, selector.ConstantsDistinct

/-- What a query yields repeats no key if neither the document nor a constant does. -/
theorem Query.keysDistinct_of_evaluate {query : Query}
    (hquery : ∀ selector ∈ query.selectors, selector.ConstantsDistinct) {document : Json}
    (h : document.KeysDistinct) {found : Matches} (hfound : query.evaluate document = .ok found) :
    ∀ value ∈ found.toList, value.KeysDistinct := by
  obtain ⟨hselect, hrest⟩ := List.forall_mem_append.1 hquery
  obtain ⟨hsource, -⟩ := List.forall_mem_cons.1 hrest
  refine Matches.keysDistinct_of_select ?_ hselect hfound
  -- the elements that are kept are items of what the source finds
  rw [toList_kept]
  intro element helement
  obtain ⟨source, hmem, hitem⟩ := List.mem_flatMap.1 (List.mem_filter.1 helement).1
  exact (Selector.keysDistinct_select hsource h source hmem).expand element hitem

/-- The outcome of a query on a document. -/
def DocumentQuery.evaluate (query : DocumentQuery) (document : Document) :
    Except MergeError DocumentMatches :=
  bundle DocumentMatches.mk (query.toQuery.evaluate document.root)
    fun _ h => Query.keysDistinct_of_evaluate query.constantsDistinct document.keysDistinct h

/-- A query is evaluated on a document as on its value. -/
theorem DocumentQuery.map_toMatches_evaluate (query : DocumentQuery) (document : Document) :
    (query.evaluate document).map DocumentMatches.toMatches =
      query.toQuery.evaluate document.root :=
  map_bundle (fun _ _ => rfl) _

end DocQuery
