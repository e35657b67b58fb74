import DocQuery.Document.Basic
import DocQuery.Proofs.Selection.Composition
import Mathlib.Data.Set.Card

/-!
# Which nodes are selected

A path from the root of a value can be cut into pieces that fit the segments of a chain in order:
one step for a field, a position or a slice, and any number of steps for a descent. Selection finds
the node at the end of a path once for each way of cutting the path, and it finds nothing else. With
at most one descent there is at most one way.

* `Selector.exists_paths_select`: the statement, for every document and every chain without
  constants that does not end in a descent.
-/

namespace DocQuery

open Json

/-- Whether a piece of a path, taken from a value, is what a segment stands for. -/
def Segment.Fits : Segment → Json → Path → Prop
  | .field name, .object _, piece => piece = [.key name]
  | .index position, .array items, piece =>
    ∃ place : Nat, place = Position.resolve items.length position ∧ piece = [.item place]
  | .slice first last, .array items, piece =>
    ∃ place, Position.start items.length first ≤ place ∧ place < Position.stop items.length last ∧
      piece = [.item place]
  | .descent, _, _ => True
  | _, _, _ => False

/-- Whether the segment is a constant. -/
def Segment.isConstant : Segment → Bool
  | .constant _ => true
  | _ => false

/-- A path from a value, cut into pieces that fit the segments in order. -/
inductive Cut : List Segment → Json → List Path → Prop
  | nil (value : Json) : Cut [] value []
  | cons {segment : Segment} {rest : List Segment} {value child : Json} {piece : Path}
      {pieces : List Path} (hfits : segment.Fits value piece) (hat : value.at? piece = some child)
      (hrest : Cut rest child pieces) : Cut (segment :: rest) value (piece :: pieces)

/-- The values inside a value in which no key is repeated repeat no key. -/
theorem Json.KeysDistinct.of_at? {value child : Json} (h : value.KeysDistinct) {path : Path}
    (hat : value.at? path = some child) : child.KeysDistinct := by
  induction path generalizing value with
  | nil =>
    cases hat
    exact h
  | cons step path ih =>
    obtain ⟨next, hnext, hpath⟩ := Option.bind_eq_some_iff.1 hat
    have hedge := (mem_edges_iff h).2 hnext
    obtain ⟨-, hchildren⟩ := h
    exact ih (hchildren next (mem_children_of_mem_edges hedge)) hpath

/-! ## One segment -/

namespace Segment

/-- The item at a place of a slice. -/
theorem mem_zipIdx_slice {items : List Json} {first last : Option Int64} {item : Json}
    {place : Nat} :
    (item, place) ∈ (Position.slice items first last).zipIdx (Position.start items.length first) ↔
      Position.start items.length first ≤ place ∧ place < Position.stop items.length last ∧
        items[place]? = some item := by
  rw [List.mem_zipIdx_iff_le_and_getElem?_sub, Position.slice]
  refine and_congr_right fun hstart => ?_
  rw [List.getElem?_take, List.getElem?_drop]
  split <;> simp <;> grind

/-- A field leads to the value under its key. -/
theorem mem_nodes_field_iff {name : String} {members : Members} {path : Path} {found : Json} :
    ⟨path, found⟩ ∈ (field name).nodes (.object members) ↔
      path = [.key name] ∧ (object members).at? path = some found := by
  simp only [nodes, List.mem_map, Option.mem_toList]
  constructor
  · rintro ⟨child, hchild, ⟨⟩⟩
    exact ⟨rfl, by simpa [at?, child?] using hchild⟩
  · rintro ⟨rfl, hat⟩
    exact ⟨found, by simpa [at?, child?] using hat, rfl⟩

/-- A position leads to the item at its place. -/
theorem mem_nodes_index_iff {position : Int64} {items : List Json} {path : Path} {found : Json} :
    ⟨path, found⟩ ∈ (index position).nodes (.array items) ↔
      (∃ place : Nat, place = Position.resolve items.length position ∧ path = [.item place]) ∧
        (array items).at? path = some found := by
  simp only [nodes, List.mem_map, Option.mem_toList, Position.item?_eq_some_iff]
  constructor
  · rintro ⟨item, ⟨place, hplace, hitem⟩, ⟨⟩⟩
    rw [← hplace, Int.toNat_natCast]
    exact ⟨⟨place, rfl, rfl⟩, by simpa [at?, child?] using hitem⟩
  · rintro ⟨⟨place, hplace, rfl⟩, hat⟩
    refine ⟨found, ⟨place, hplace, by simpa [at?, child?] using hat⟩, ?_⟩
    rw [← hplace, Int.toNat_natCast]

/-- A slice leads to the items between its bounds. -/
theorem mem_nodes_slice_iff {first last : Option Int64} {items : List Json} {path : Path}
    {found : Json} :
    ⟨path, found⟩ ∈ (slice first last).nodes (.array items) ↔
      (∃ place, Position.start items.length first ≤ place ∧
        place < Position.stop items.length last ∧ path = [.item place]) ∧
        (array items).at? path = some found := by
  simp only [nodes, List.mem_map]
  constructor
  · rintro ⟨⟨item, place⟩, hitem, ⟨⟩⟩
    obtain ⟨hstart, hstop, hat⟩ := mem_zipIdx_slice.1 hitem
    exact ⟨⟨place, hstart, hstop, rfl⟩, by simpa [at?, child?] using hat⟩
  · rintro ⟨⟨place, hstart, hstop, rfl⟩, hat⟩
    refine ⟨(found, place), mem_zipIdx_slice.2 ⟨hstart, hstop, ?_⟩, rfl⟩
    simpa [at?, child?] using hat

/-- The nodes that a segment leads to are those at the paths that fit it. -/
theorem mem_nodes_iff {segment : Segment} (hplain : segment.isConstant = false) {value : Json}
    (h : value.KeysDistinct) (node : Node) :
    node ∈ segment.nodes value ↔
      segment.Fits value node.path ∧ value.at? node.path = some node.value := by
  obtain ⟨path, found⟩ := node
  cases segment with
  | constant literal => cases hplain
  | field name =>
    cases value with
    | object members => exact mem_nodes_field_iff
    | _ => simp [nodes, Fits]
  | index position =>
    cases value with
    | array items => exact mem_nodes_index_iff
    | _ => simp [nodes, Fits]
  | slice first last =>
    cases value with
    | array items => exact mem_nodes_slice_iff
    | _ => simp [nodes, Fits]
  | descent => simpa [nodes, Fits] using Json.mem_nodes_iff h ⟨path, found⟩

/-- No path is among those to which a segment leads twice. -/
theorem nodup_paths (segment : Segment) {value : Json} (h : value.KeysDistinct) :
    ((segment.nodes value).map (·.path)).Nodup := by
  cases segment with
  | constant literal => exact List.nodup_singleton _
  | field name =>
    cases value with
    | object members =>
      simp only [nodes]
      cases Members.get? members name <;> simp
    | _ => exact List.nodup_nil
  | index position =>
    cases value with
    | array items =>
      simp only [nodes]
      cases Position.item? items position <;> simp
    | _ => exact List.nodup_nil
  | slice first last =>
    cases value with
    | array items =>
      have hinjective : Function.Injective fun place => [Step.item place] := by
        intro one other heq
        simpa using heq
      simp only [nodes, List.map_map]
      exact nodup_map_zipIdx hinjective _ _
    | _ => exact List.nodup_nil
  | descent => exact Json.nodup_paths h

end Segment

/-! ## Chains -/

/-- The ways to walk down from a value along a chain: the pieces of the path, and the value at its
end. -/
def cuttings : List Segment → Json → List (List Path × Json)
  | [], value => [([], value)]
  | segment :: rest, value =>
    (segment.nodes value).flatMap fun node =>
      (cuttings rest node.value).map fun cutting => (node.path :: cutting.1, cutting.2)

/-- The ways to walk down end at the values that are selected. -/
theorem map_snd_cuttings {segments : List Segment} (h : Segment.endsInDescent segments = false)
    (value : Json) :
    (cuttings segments value).map (·.2) = (Selector.selectSegments segments value).toList := by
  induction segments generalizing value with
  | nil => rfl
  | cons segment rest ih =>
    have hrest := ih (Segment.endsInDescent_of_cons h)
    have hcons := Segment.ne_nil_of_endsInDescent_cons h
    rw [Selector.toList_selectSegments_cons hcons, cuttings, List.map_flatMap]
    refine List.flatMap_congr ?_
    intro node _
    rw [List.map_map, ← hrest]
    rfl

/-- A way to walk down is a cut of the path to the value at its end. -/
theorem mem_cuttings_iff {segments : List Segment}
    (hplain : ∀ segment ∈ segments, segment.isConstant = false) {value : Json}
    (h : value.KeysDistinct) (pieces : List Path) (found : Json) :
    (pieces, found) ∈ cuttings segments value ↔
      Cut segments value pieces ∧ value.at? pieces.flatten = some found := by
  induction segments generalizing value pieces with
  | nil =>
    constructor
    · intro hmem
      cases List.mem_singleton.1 hmem
      exact ⟨.nil _, rfl⟩
    · rintro ⟨⟨⟩, hat⟩
      cases hat
      exact List.mem_singleton.2 rfl
  | cons segment rest ih =>
    have ⟨hsegment, hrest⟩ := List.forall_mem_cons.1 hplain
    rw [cuttings, List.mem_flatMap]
    -- the first piece leads to a node of the segment, from which the other pieces go on
    constructor
    · rintro ⟨node, hnode, hmem⟩
      obtain ⟨⟨others, _⟩, hothers, ⟨⟩⟩ := List.mem_map.1 hmem
      obtain ⟨hfits, hat⟩ := (Segment.mem_nodes_iff hsegment h node).1 hnode
      obtain ⟨hcut, hfound⟩ := (ih hrest (h.of_at? hat) others).1 hothers
      refine ⟨.cons hfits hat hcut, ?_⟩
      rw [List.flatten_cons, at?_append, hat]
      exact hfound
    · rintro ⟨hcut, hfound⟩
      cases hcut with
      | @cons _ _ _ child piece others hfits hat hcut =>
        rw [List.flatten_cons, at?_append, hat] at hfound
        refine ⟨⟨piece, child⟩, (Segment.mem_nodes_iff hsegment h _).2 ⟨hfits, hat⟩, ?_⟩
        have hothers := (ih hrest (h.of_at? hat) others).2 ⟨hcut, hfound⟩
        exact List.mem_map.2 ⟨_, hothers, rfl⟩

/-- A path that can be cut leads to a value. -/
theorem Cut.exists_at?_flatten {segments : List Segment} {value : Json} {pieces : List Path}
    (h : Cut segments value pieces) : ∃ found, value.at? pieces.flatten = some found := by
  induction h with
  | nil value => exact ⟨value, rfl⟩
  | cons _ hat _ ih =>
    rw [List.flatten_cons, at?_append, hat]
    exact ih

/-- The cuts that the ways to walk down make are all there are. -/
theorem mem_map_fst_cuttings_iff {segments : List Segment}
    (hplain : ∀ segment ∈ segments, segment.isConstant = false) {value : Json}
    (h : value.KeysDistinct) (pieces : List Path) :
    pieces ∈ (cuttings segments value).map (·.1) ↔ Cut segments value pieces := by
  rw [List.mem_map]
  constructor
  · rintro ⟨⟨pieces, found⟩, hmem, rfl⟩
    exact ((mem_cuttings_iff hplain h pieces found).1 hmem).1
  · intro hcut
    obtain ⟨found, hfound⟩ := hcut.exists_at?_flatten
    exact ⟨_, (mem_cuttings_iff hplain h pieces found).2 ⟨hcut, hfound⟩, rfl⟩

/-- No cut is listed twice. -/
theorem nodup_map_fst_cuttings {segments : List Segment}
    (hplain : ∀ segment ∈ segments, segment.isConstant = false) {value : Json}
    (h : value.KeysDistinct) : ((cuttings segments value).map (·.1)).Nodup := by
  induction segments generalizing value with
  | nil => exact List.nodup_singleton _
  | cons segment rest ih =>
    have ⟨hsegment, hrest⟩ := List.forall_mem_cons.1 hplain
    have hcuts : (cuttings (segment :: rest) value).map (·.1) = (segment.nodes value).flatMap
        fun node => ((cuttings rest node.value).map (·.1)).map (node.path :: ·) := by
      simp [cuttings, List.map_flatMap, Function.comp_def]
    rw [hcuts]
    -- the first piece of a cut is the path to a node of the segment
    refine nodup_flatMap_cons (segment.nodup_paths h) ?_
    intro node hnode
    have hat := ((Segment.mem_nodes_iff hsegment h node).1 hnode).2
    exact ih hrest (h.of_at? hat)

/-- A piece that fits a segment other than a descent is a single step. -/
theorem Segment.Fits.length_eq_one {segment : Segment} {value : Json} {piece : Path}
    (h : segment.Fits value piece) (hsegment : segment.isDescent = false) : piece.length = 1 := by
  unfold Segment.Fits at h
  split at h
  · rw [h, List.length_singleton]
  · obtain ⟨_, -, rfl⟩ := h
    rfl
  · obtain ⟨_, -, -, rfl⟩ := h
    rfl
  · cases hsegment
  · cases h

/-- Without a descent, a path has as many steps as there are segments. -/
theorem Cut.length_flatten {segments : List Segment} {value : Json} {pieces : List Path}
    (h : Cut segments value pieces) (hsegments : segments.countP Segment.isDescent = 0) :
    pieces.flatten.length = segments.length := by
  induction h with
  | nil value => rfl
  | @cons segment rest _ _ piece pieces hfits _ _ ih =>
    rw [List.countP_eq_zero, List.forall_mem_cons] at hsegments
    have hpiece := hfits.length_eq_one (Bool.eq_false_iff.2 hsegments.1)
    have hpieces := ih (List.countP_eq_zero.2 hsegments.2)
    rw [List.flatten_cons, List.length_append, List.length_cons, hpiece, hpieces, Nat.add_comm]

/-- With at most one descent, a path is cut in at most one way. -/
theorem Cut.eq_of_flatten_eq {segments : List Segment} {value : Json} {pieces others : List Path}
    (h : Cut segments value pieces) (hothers : Cut segments value others)
    (hsegments : segments.countP Segment.isDescent ≤ 1) (heq : pieces.flatten = others.flatten) :
    pieces = others := by
  induction h generalizing others with
  | nil value =>
    cases hothers
    rfl
  | @cons segment rest value child piece pieces hfits hat hcut ih =>
    -- both cuts begin with a piece for the same segment
    cases hothers with
    | @cons _ _ _ next first others hfirst hnext hrest =>
      rw [List.flatten_cons, List.flatten_cons] at heq
      -- the first pieces are equally long, either as single steps or because the others are
      have hlength : piece.length = first.length := by
        cases hsegment : segment.isDescent with
        | false => rw [hfits.length_eq_one hsegment, hfirst.length_eq_one hsegment]
        | true =>
          rw [List.countP_cons_of_pos hsegment] at hsegments
          have hnone : rest.countP Segment.isDescent = 0 := by omega
          have hpieces := hcut.length_flatten hnone
          have hothers := hrest.length_flatten hnone
          have hall := congrArg List.length heq
          rw [List.length_append, List.length_append] at hall
          omega
      obtain ⟨rfl, hflatten⟩ := List.append_inj heq hlength
      rw [hat] at hnext
      cases hnext
      have hless : rest.countP Segment.isDescent ≤ 1 :=
        ((List.sublist_cons_self segment rest).countP_le).trans hsegments
      rw [ih hrest hless hflatten]

namespace Selector

/-- The values that a chain selects are those at some paths, on which each path occurs once for each
way of cutting it into pieces that fit the segments. No path occurs twice if there is at most one
descent. -/
theorem exists_paths_select {selector : Selector}
    (hplain : ∀ segment ∈ selector.segments, segment.isConstant = false)
    (hend : selector.endsInDescent = false) (document : Document) :
    ∃ paths : List Path,
      paths.map document.root.at? = (selector.select document.root).toList.map some ∧
      (∀ path, (paths.count path : ℕ∞) =
        {pieces | Cut selector.segments document.root pieces ∧ pieces.flatten = path}.encard) ∧
      (selector.segments.countP Segment.isDescent ≤ 1 → paths.Nodup) := by
  obtain ⟨value, h⟩ := document
  have hnodup := nodup_map_fst_cuttings hplain h
  have hcuts := mem_map_fst_cuttings_iff hplain h
  refine ⟨((cuttings selector.segments value).map (·.1)).map List.flatten, ?_, ?_, ?_⟩
  · rw [select, ← map_snd_cuttings hend, List.map_map, List.map_map, List.map_map]
    refine List.map_congr_left ?_
    rintro ⟨pieces, found⟩ hcutting
    exact ((mem_cuttings_iff hplain h pieces found).1 hcutting).2
  · intro path
    generalize (cuttings selector.segments value).map (·.1) = cuts at hnodup hcuts
    -- the cuts of a path are a finite set, which the list counts
    have hset : {pieces | Cut selector.segments value pieces ∧ pieces.flatten = path} =
        ↑(cuts.filter (·.flatten == path)).toFinset := by
      ext pieces
      simp [hcuts]
    rw [hset, Set.encard_coe_eq_coe_finsetCard,
      List.toFinset_card_of_nodup (hnodup.filter _), List.count, List.countP_map,
      List.countP_eq_length_filter]
    rfl
  · intro hone
    refine List.Nodup.map_on ?_ hnodup
    intro pieces hpieces others hothers heq
    exact ((hcuts pieces).1 hpieces).eq_of_flatten_eq ((hcuts others).1 hothers) hone heq

/-- Two descents meet a key that is nested three times: the innermost value is found twice. -/
theorem exists_paths_select_nested :
    let document : Document := ⟨.object [("a", .object [("a", .object [("a", .null)])])], by decide⟩
    let selector : Selector := ⟨[.descent, .field "a", .descent, .field "a"]⟩
    (∀ segment ∈ selector.segments, segment.isConstant = false) ∧ selector.endsInDescent = false ∧
      ∃ paths : List Path,
        paths.map document.root.at? = [some (.object [("a", .null)]), some .null, some .null] ∧
        ∀ path, (paths.count path : ℕ∞) =
          {pieces | Cut selector.segments document.root pieces ∧ pieces.flatten = path}.encard := by
  intro document selector
  have hplain : ∀ segment ∈ selector.segments, segment.isConstant = false := by
    simp [selector, Segment.isConstant]
  obtain ⟨paths, hpaths, hcount, -⟩ := exists_paths_select hplain rfl document
  exact ⟨hplain, rfl, paths, hpaths, hcount⟩

end Selector

end DocQuery
