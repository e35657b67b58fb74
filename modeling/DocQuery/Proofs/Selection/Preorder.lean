import DocQuery.Proofs.Selection.Composition

/-!
# Descents in document order

A descent goes through the nodes of a value once, a node before everything below it and the children
of a node in the order of the document. `Json.Path.Before` says this of two paths, without regard to
how a traversal goes about it: either one of them leads on from where the other one leads, or they
part at some value, in whose text one step stands before the other.

* `Json.pairwise_before_paths`: the nodes of a value are listed in document order.
* `Selector.select_descent`: a descent and a chain behind it find what the chain finds at each node,
  in this order.
-/

namespace DocQuery

namespace Json

/-- The order of two paths that lead down from a value, as the text of the value shows them. -/
inductive Path.Before : Json → Path → Path → Prop
  /-- A value stands before everything below it. -/
  | above (value : Json) (step : Step) (path : Path) : Before value [] (step :: path)
  /-- Paths with a common first step are in the order that they have below it. -/
  | within {value child : Json} {step : Step} {path other : Path}
      (hedge : (step, child) ∈ value.edges) (h : Before child path other) :
      Before value (step :: path) (step :: other)
  /-- Paths with different first steps are in the order of these steps. -/
  | beside {value : Json} {step next : Step} (path other : Path)
      (h : [step, next].Sublist (value.edges.map (·.1))) :
      Before value (step :: path) (next :: other)

/-- The paths below a value begin with the step to a child and go on below the child. -/
theorem map_path_nodes (value : Json) :
    value.nodes.map (·.path) =
      [] :: value.edges.flatMap fun edge => (edge.2.nodes.map (·.path)).map (edge.1 :: ·) := by
  simp [nodes_eq value, List.map_flatMap, Node.under, Function.comp_def]

/-- The nodes of a value are listed in document order. -/
theorem pairwise_before_paths (value : Json) :
    (value.nodes.map (·.path)).Pairwise (Path.Before value) := by
  rw [map_path_nodes, List.pairwise_cons]
  constructor
  · -- every other path begins with a step
    intro path hpath
    obtain ⟨edge, -, hpath⟩ := List.mem_flatMap.1 hpath
    obtain ⟨below, -, rfl⟩ := List.mem_map.1 hpath
    exact .above value edge.1 below
  rw [List.pairwise_flatMap]
  constructor
  · -- paths below the same child are in the order that they have below it
    intro edge hedge
    have : sizeOf edge.2 < sizeOf value :=
      sizeOf_lt_of_mem_children (mem_children_of_mem_edges hedge)
    rw [List.pairwise_map]
    exact (pairwise_before_paths edge.2).imp fun h => .within hedge h
  · -- paths below different children part at the first step
    apply List.pairwise_iff_forall_sublist.2
    intro edge next hsublist path hpath other hother
    obtain ⟨below, -, rfl⟩ := List.mem_map.1 hpath
    obtain ⟨beyond, -, rfl⟩ := List.mem_map.1 hother
    exact .beside below beyond (hsublist.map Prod.fst)
termination_by sizeOf value

/-- Of two elements of a list without duplicates only one stands before the other. -/
theorem not_sublist_swap {α : Type} {xs : List α} (h : xs.Nodup) {x y : α}
    (hsublist : [x, y].Sublist xs) : ¬[y, x].Sublist xs := by
  induction xs with
  | nil => cases hsublist
  | cons first rest ih => grind

/-- Of two paths only one stands before the other, if no object repeats a key. -/
theorem Path.Before.asymm {value : Json} (hkeys : value.KeysDistinct) {path other : Path}
    (h : Path.Before value path other) : ¬Path.Before value other path := by
  induction h with
  | above => nofun
  | @within value child step path other hedge _ ih =>
    intro hother
    cases hother with
    | within hback hother =>
      -- the step leads to the same child both times
      have hchild := (mem_edges_iff hkeys).1 hedge
      rw [(mem_edges_iff hkeys).1 hback] at hchild
      obtain rfl := Option.some.inj hchild
      obtain ⟨-, hchildren⟩ := hkeys
      exact ih (hchildren _ (mem_children_of_mem_edges hedge)) hother
    | beside _ _ hback => exact not_sublist_swap (nodup_map_fst_edges hkeys) hback hback
  | @beside value step next path other hsublist =>
    intro hother
    cases hother with
    | within => exact not_sublist_swap (nodup_map_fst_edges hkeys) hsublist hsublist
    | beside _ _ hback => exact not_sublist_swap (nodup_map_fst_edges hkeys) hsublist hback

end Json

namespace Selector

/-- A descent with a chain behind it finds, one after the other, what the chain finds at each node
of the value. The nodes are listed in document order, a node before those below it. If no object
repeats a key, they are what the paths in the value lead to, each path is listed once, and no other
order is document order. -/
theorem select_descent {selector : Selector} (h : selector.isIdentity = false) (value : Json) :
    ((single .descent ++ selector).select value).toList =
        (value.nodes.flatMap fun node => (selector.select node.value).toList) ∧
      (value.nodes.map (·.path)).Pairwise (Json.Path.Before value) ∧
      (value.KeysDistinct →
        (∀ node, node ∈ value.nodes ↔ value.at? node.path = some node.value) ∧
          (value.nodes.map (·.path)).Nodup ∧
          ∀ path other, Json.Path.Before value path other →
            ¬Json.Path.Before value other path) := by
  refine ⟨?_, value.pairwise_before_paths, fun hkeys => ?_⟩
  · have hne : selector.segments ≠ [] := List.isEmpty_eq_false_iff.1 h
    exact toList_selectSegments_cons (.inr hne) value
  · exact ⟨Json.mem_nodes_iff hkeys, Json.nodup_paths hkeys,
      fun _ _ hbefore => hbefore.asymm hkeys⟩

/-- Behind a descent stands another one: a value is found once for each node at or above the object
that holds it. -/
theorem select_descent_nested :
    let value : Json := .object [("x", .array [.object [("n", .null)]]), ("n", .bool true)]
    let selector : Selector := ⟨[.descent, .field "n"]⟩
    selector.isIdentity = false ∧
      (value.nodes.flatMap fun node => (selector.select node.value).toList) =
        [.bool true, .null, .null, .null] := by
  intro value selector
  have hselector : selector.isIdentity = false := by decide
  refine ⟨hselector, ?_⟩
  obtain ⟨hmatches, -⟩ := select_descent hselector value
  rw [← hmatches]
  rfl

end Selector

end DocQuery
