import DocQuery.Json.Keys
import DocQuery.Selector.Selection
import Mathlib.Data.List.Nodup

/-!
# The nodes of a document

A path leads down from a value by keys of objects and places of arrays, and a node is a value
together with the path that leads to it. The nodes of a document are listed in document order, each
before the nodes below it.

* `Json.mem_nodes_iff`, `Json.nodup_paths`: the nodes of a value are what its paths lead to, each
  listed once, if no object repeats a key.
* `toList_descend`: a descent applies its function to every node.
-/

namespace DocQuery

/-- A key has the value of its only member. -/
theorem Members.get?_eq_some_iff {members : Members} (h : (members.map (·.1)).Nodup)
    {key : String} {value : Json} :
    members.get? key = some value ↔ (key, value) ∈ members := by
  induction members with
  | nil => simp [get?]
  | cons member rest ih =>
    obtain ⟨name, first⟩ := member
    rw [List.map_cons, List.nodup_cons] at h
    have hrest := ih h.2
    rw [get?, List.lookup_cons]
    rcases eq_or_ne key name with rfl | hname
    · have hnot : (key, value) ∉ rest := fun hmem => h.1 (List.mem_map_of_mem (f := (·.1)) hmem)
      simp [hnot, eq_comm]
    · rw [beq_false_of_ne hname]
      simpa [hname, get?] using hrest

namespace Json

/-- A step down from a value. -/
inductive Step where
  /-- To the value of a key of an object. -/
  | key (name : String)
  /-- To the item at a place of an array. -/
  | item (place : Nat)
  deriving DecidableEq, Repr

/-- The steps that lead from a value to a value inside it. -/
abbrev Path := List Step

/-- A value and the path that leads to it. -/
structure Node where
  /-- The path from the value at hand. -/
  path : Path
  /-- The value at the end of the path. -/
  value : Json

/-- The node as seen from the value one step above. -/
def Node.under (step : Step) (node : Node) : Node := ⟨step :: node.path, node.value⟩

/-- The value that a step leads to, if it fits the value at hand. -/
def child? : Json → Step → Option Json
  | .object members, .key name => Members.get? members name
  | .array items, .item place => items[place]?
  | _, _ => none

/-- The value that a path leads to, if every step of it fits. -/
def at? (value : Json) : Path → Option Json
  | [] => some value
  | step :: path => (value.child? step).bind fun child => child.at? path

/-- The steps down from a value, each with the value that it leads to, in document order. -/
def edges : Json → List (Step × Json)
  | .array items => items.zipIdx.map fun entry => (.item entry.2, entry.1)
  | .object members => members.map fun member => (.key member.1, member.2)
  | _ => []

/-! ## Lists without duplicates -/

/-- A list with a different value for each place repeats none of them. -/
theorem nodup_map_zipIdx {α β : Type} {atPlace : Nat → β} (h : Function.Injective atPlace)
    (items : List α) (start : Nat) :
    ((items.zipIdx start).map fun entry => atPlace entry.2).Nodup := by
  have hplaces : ((items.zipIdx start).map (·.2)).Nodup := by
    rw [List.zipIdx_map_snd]
    exact List.nodup_range'
  show ((items.zipIdx start).map (atPlace ∘ Prod.snd)).Nodup
  rw [← List.map_map]
  exact hplaces.map h

/-- Different tails behind different heads are different lists. -/
theorem nodup_flatMap_cons {α β : Type} {head : α → β} {tails : α → List (List β)} {xs : List α}
    (hheads : (xs.map head).Nodup) (htails : ∀ x ∈ xs, (tails x).Nodup) :
    (xs.flatMap fun x => (tails x).map (head x :: ·)).Nodup := by
  rw [List.nodup_flatMap]
  constructor
  · intro x hx
    exact (htails x hx).map fun _ _ heq => (List.cons.inj heq).2
  · -- lists from different elements differ in their heads
    refine (List.pairwise_map.1 hheads).imp ?_
    intro one other hne list hone hother
    obtain ⟨_, -, rfl⟩ := List.mem_map.1 hone
    obtain ⟨_, -, heq⟩ := List.mem_map.1 hother
    exact hne (List.cons.inj heq).1.symm

/-! ## Steps and paths -/

/-- The steps down from a value lead to its children. -/
theorem map_snd_edges (value : Json) : value.edges.map (·.2) = value.children := by
  cases value with
  | array items =>
    simp only [edges, children, List.map_map]
    exact List.zipIdx_map_fst 0 items
  | object members => simp [edges, children, Function.comp_def]
  | _ => rfl

/-- What a step down leads to is a child. -/
theorem mem_children_of_mem_edges {value : Json} {edge : Step × Json} (h : edge ∈ value.edges) :
    edge.2 ∈ value.children := by
  rw [← map_snd_edges]
  exact List.mem_map_of_mem h

/-- Each step is taken once if no key is repeated. -/
theorem nodup_map_fst_edges {value : Json} (h : value.KeysDistinct) :
    (value.edges.map (·.1)).Nodup := by
  obtain ⟨hkeys, -⟩ := h
  cases value with
  | array items =>
    simp only [edges, List.map_map]
    exact nodup_map_zipIdx (fun _ _ => Step.item.inj) items 0
  | object members =>
    have hnames : (members.map (·.1)).Nodup := hkeys members rfl
    simp only [edges, List.map_map]
    show (members.map (Step.key ∘ Prod.fst)).Nodup
    rw [← List.map_map]
    exact hnames.map fun _ _ => Step.key.inj
  | _ => exact List.nodup_nil

/-- The steps down are those that fit, if no key is repeated. -/
theorem mem_edges_iff {value : Json} (h : value.KeysDistinct) {step : Step} {child : Json} :
    (step, child) ∈ value.edges ↔ value.child? step = some child := by
  obtain ⟨hkeys, -⟩ := h
  cases value with
  | array items =>
    cases step with
    | key name => simp [edges, child?]
    | item place => simp [edges, child?, List.mem_zipIdx_iff_getElem?]
  | object members =>
    cases step with
    | key name => simp [edges, child?, Members.get?_eq_some_iff (hkeys members rfl)]
    | item place => simp [edges, child?]
  | _ => simp [edges, child?]

/-- A path that is taken after another leads on from where the other one leads. -/
theorem at?_append (value : Json) (path after : Path) :
    value.at? (path ++ after) = (value.at? path).bind fun child => child.at? after := by
  induction path generalizing value with
  | nil => rfl
  | cons step path ih => simp only [List.cons_append, at?, ih, Option.bind_assoc]

/-! ## Nodes -/

/-- The nodes of a value in document order. -/
def nodes (value : Json) : List Node :=
  ⟨[], value⟩ :: value.edges.attach.flatMap fun edge =>
    (nodes edge.1.2).map (Node.under edge.1.1)
termination_by sizeOf value
decreasing_by exact sizeOf_lt_of_mem_children (mem_children_of_mem_edges edge.2)

/-- The nodes of a value are the value itself and those of each child in turn. -/
theorem nodes_eq (value : Json) :
    value.nodes =
      ⟨[], value⟩ :: value.edges.flatMap fun edge => edge.2.nodes.map (Node.under edge.1) := by
  rw [nodes, List.flatMap_subtype (g := fun edge => edge.2.nodes.map (Node.under edge.1))]
  · rw [List.unattach_attach]
  · intro _ _
    rfl

/-- The nodes of a value are what its paths lead to, if no object repeats a key. -/
theorem mem_nodes_iff {value : Json} (h : value.KeysDistinct) (node : Node) :
    node ∈ value.nodes ↔ value.at? node.path = some node.value := by
  induction h generalizing node with
  | @intro value hkeys hchildren ih =>
    obtain ⟨path, found⟩ := node
    rw [nodes_eq, List.mem_cons, List.mem_flatMap]
    -- the value itself is at the empty path, and every other node is below a child
    cases path with
    | nil => simp [at?, Node.under, eq_comm]
    | cons step path =>
      rw [at?, Option.bind_eq_some_iff]
      constructor
      · rintro (heq | ⟨⟨first, child⟩, hedge, hnode⟩)
        · cases heq
        · obtain ⟨below, hbelow, heq⟩ := List.mem_map.1 hnode
          cases heq
          refine ⟨child, (mem_edges_iff (.intro hkeys hchildren)).1 hedge, ?_⟩
          exact (ih child (mem_children_of_mem_edges hedge) below).1 hbelow
      · rintro ⟨child, hchild, hat⟩
        have hedge := (mem_edges_iff (.intro hkeys hchildren)).2 hchild
        refine .inr ⟨(step, child), hedge, List.mem_map.2 ⟨⟨path, found⟩, ?_, rfl⟩⟩
        exact (ih child (mem_children_of_mem_edges hedge) _).2 hat

/-- No path is listed twice, if no object repeats a key. -/
theorem nodup_paths {value : Json} (h : value.KeysDistinct) :
    (value.nodes.map (·.path)).Nodup := by
  induction h with
  | @intro value hkeys hchildren ih =>
    have hpaths : value.nodes.map (·.path) =
        [] :: value.edges.flatMap fun edge => (edge.2.nodes.map (·.path)).map (edge.1 :: ·) := by
      simp [nodes_eq value, List.map_flatMap, Node.under, Function.comp_def]
    rw [hpaths, List.nodup_cons]
    refine ⟨by simp, ?_⟩
    -- a path below a child begins with the step to it
    refine nodup_flatMap_cons (nodup_map_fst_edges (.intro hkeys hchildren)) ?_
    exact fun edge hedge => ih edge.2 (mem_children_of_mem_edges hedge)

end Json

/-! ## Descents -/

/-- A descent finds what its function finds at each node in turn. -/
theorem toList_descend (here : Json → Matches) (value : Json) :
    (descend here value).toList = value.nodes.flatMap fun node => (here node.value).toList := by
  rw [toList_descend_eq, Json.nodes_eq, List.flatMap_cons, List.flatMap_assoc,
    ← Json.map_snd_edges, List.flatMap_map]
  -- the nodes below are those of each child, which is smaller
  congr 1
  refine List.flatMap_congr ?_
  intro edge hedge
  have : sizeOf edge.2 < sizeOf value :=
    Json.sizeOf_lt_of_mem_children (Json.mem_children_of_mem_edges hedge)
  rw [List.flatMap_map]
  exact toList_descend here edge.2
termination_by sizeOf value

end DocQuery
