import DocQuery.Projection
import DocQuery.Proofs.Grammar.Canonical
import DocQuery.Proofs.Selection.Nodes

/-!
# Selecting with appended chains

A segment leads from a value to some nodes, and a chain goes on from each of them in turn. The one
exception is a descent at the end of a chain, which matches nothing although it leads to every
node. Appending a chain to one that does not end in a descent is therefore selecting in two stages,
and the chains that the language can express are all of this kind.

* `Selector.select_append`: one joined chain finds what its two parts find one after the other.
-/

namespace DocQuery

/-! ## Chains that end in a descent -/

namespace Segment

/-- Whether the last segment is a descent. -/
def endsInDescent (segments : List Segment) : Bool := segments.getLast?.any isDescent

/-- Appended segments do not end in a descent if neither part does. -/
theorem endsInDescent_append {segments others : List Segment}
    (h : endsInDescent segments = false) (hothers : endsInDescent others = false) :
    endsInDescent (segments ++ others) = false := by
  rw [endsInDescent] at h hothers ⊢
  rw [List.getLast?_append]
  cases hlast : others.getLast? with
  | none => exact h
  | some last =>
    rw [hlast] at hothers
    exact hothers

/-- Leaving out the first segment does not bring a descent to the end. -/
theorem endsInDescent_of_cons {segment : Segment} {rest : List Segment}
    (h : endsInDescent (segment :: rest) = false) : endsInDescent rest = false := by
  cases rest with
  | nil => rfl
  | cons next others => rwa [endsInDescent, List.getLast?_cons_cons] at h

/-- A descent before the end is followed by another segment. -/
theorem ne_nil_of_endsInDescent_cons {segment : Segment} {rest : List Segment}
    (h : endsInDescent (segment :: rest) = false) : segment.isDescent = false ∨ rest ≠ [] := by
  cases rest with
  | nil => exact .inl h
  | cons next others => exact .inr (List.cons_ne_nil _ _)

end Segment

/-- Whether the chain ends in a descent. -/
def Selector.endsInDescent (selector : Selector) : Bool := Segment.endsInDescent selector.segments

/-- A chain in which every descent is followed by a step does not end in a descent. -/
theorem Segment.IsChain.endsInDescent_eq_false {segments : List Segment} (h : IsChain segments) :
    endsInDescent segments = false := by
  have hlast {segment : Segment} (h : segment.IsStep) : endsInDescent [segment] = false :=
    h.isDescent_eq_false
  induction h with
  | nil => rfl
  | step h _ ih => exact endsInDescent_append (hlast h) ih
  | @descent segment _ h _ ih =>
    have hpair : endsInDescent [.descent, segment] = false := hlast h
    exact endsInDescent_append hpair ih

/-- No canonical selector ends in a descent. -/
theorem Selector.Canonical.endsInDescent_eq_false {selector : Selector} (h : selector.Canonical) :
    selector.endsInDescent = false := by
  cases h with
  | chain h => exact h.endsInDescent_eq_false
  | literal _ => rfl

/-! ## One segment at a time -/

namespace Segment

/-- The nodes that a segment leads to. A constant takes the place of the value at hand, so that its
path is empty. -/
def nodes : Segment → Json → List Json.Node
  | .constant literal, _ => [⟨[], literal⟩]
  | .field name, .object members => (Members.get? members name).toList.map (.mk [.key name])
  | .index position, .array items =>
    (Position.item? items position).toList.map
      (.mk [.item (Position.resolve items.length position).toNat])
  | .slice first last, .array items =>
    let start := Position.start items.length first
    ((Position.slice items first last).zipIdx start).map fun entry => ⟨[.item entry.2], entry.1⟩
  | .descent, value => value.nodes
  | _, _ => []

end Segment

namespace Selector

/-- A position goes on from its item, if there is one. -/
theorem toList_selectSegments_index (position : Int64) (rest : List Segment) (items : List Json) :
    (selectSegments (.index position :: rest) (.array items)).toList =
      (Position.item? items position).toList.flatMap fun item =>
        (selectSegments rest item).toList := by
  rw [selectSegments]
  cases Position.item? items position <;> simp

/-- A slice goes on from each of its items in turn. -/
theorem toList_selectSegments_slice (first last : Option Int64) (rest : List Segment)
    (items : List Json) :
    (selectSegments (.slice first last :: rest) (.array items)).toList =
      (Position.slice items first last).flatMap fun item => (selectSegments rest item).toList := by
  -- the last segment is treated apart from an inner one, but finds the same
  cases rest with
  | nil => simp [selectSegments]
  | cons next others => simp [selectSegments]

/-- A segment that is no descent, or that is not the last one, leads to some nodes, from each of
which the rest of the chain goes on. -/
theorem toList_selectSegments_cons {segment : Segment} {rest : List Segment}
    (h : segment.isDescent = false ∨ rest ≠ []) (value : Json) :
    (selectSegments (segment :: rest) value).toList =
      (segment.nodes value).flatMap fun node => (selectSegments rest node.value).toList := by
  -- a segment that does not suit the kind of the value leads nowhere on both sides
  cases segment with
  | constant literal => simp [selectSegments, Segment.nodes]
  | field name =>
    cases value with
    | object members =>
      simp only [selectSegments, Segment.nodes]
      cases Members.get? members name <;> simp
    | _ => rfl
  | index position =>
    cases value with
    | array items =>
      rw [toList_selectSegments_index, Segment.nodes, List.flatMap_map]
    | _ => rfl
  | slice first last =>
    cases value with
    | array items =>
      rw [toList_selectSegments_slice, Segment.nodes, List.flatMap_map,
        ← List.flatMap_map (f := Prod.fst) (g := fun item => (selectSegments rest item).toList),
        List.zipIdx_map_fst]
    | _ => rfl
  | descent =>
    have hrest : rest.isEmpty = false := by
      rcases h with h | h
      · cases h
      · exact List.isEmpty_eq_false_iff.2 h
    simp only [selectSegments, Segment.nodes, hrest]
    exact toList_descend _ value

/-- The matches of appended segments are those of the second part in each match of the first. -/
theorem toList_selectSegments_append {segments : List Segment}
    (h : Segment.endsInDescent segments = false) (others : List Segment) (value : Json) :
    (selectSegments (segments ++ others) value).toList =
      (selectSegments segments value).toList.flatMap fun x => (selectSegments others x).toList := by
  induction segments generalizing value with
  | nil => simp [selectSegments]
  | cons segment rest ih =>
    have hrest := Segment.endsInDescent_of_cons h
    have hcons := Segment.ne_nil_of_endsInDescent_cons h
    -- both chains begin with the same segment, and each node of it goes on by the hypothesis
    rw [List.cons_append, toList_selectSegments_cons hcons, List.flatMap_assoc,
      toList_selectSegments_cons (hcons.imp_right fun hne => by simp [hne])]
    refine List.flatMap_congr ?_
    intro node _
    exact ih hrest node.value

/-- No selector that is parsed ends in a descent, and a chain that does not end in one may be
followed by any other: the joined chain finds, in order, what the second part finds in each match of
the first, and so does selecting with the second part in the matches of the first. -/
theorem select_append :
    (∀ selector, Parsed selector → selector.endsInDescent = false) ∧
      ∀ (a b : Selector) (value : Json), a.endsInDescent = false →
        ((a ++ b).select value).toList =
            ((a.select value).toList.flatMap fun x => (b.select x).toList) ∧
          ∃ staged, (a.select value).select [b] = .ok staged ∧
            staged.toList = ((a ++ b).select value).toList := by
  refine ⟨fun _ h => h.canonical.endsInDescent_eq_false, ?_⟩
  intro a b value h
  have hjoined := toList_selectSegments_append h b.segments value
  refine ⟨hjoined, _, Matches.select_single .., ?_⟩
  rw [Matches.toList_collect]
  exact hjoined.symm

/-- The arrays under a key at any depth, and then the first item of each. -/
theorem select_append_descent_index :
    let value : Json := .object [("x", .object [("y", .array [.null, .bool false])]),
      ("y", .array [.bool true])]
    let a : Selector := ⟨[.descent, .field "y"]⟩
    a.endsInDescent = false ∧
      ∃ staged, (a.select value).select [.single (.index 0)] = .ok staged ∧
        staged.toList = [.bool true, .null] := by
  intro value a
  obtain ⟨hjoined, staged, hstaged, hlist⟩ := select_append.2 a (.single (.index 0)) value rfl
  refine ⟨rfl, staged, hstaged, ?_⟩
  rw [hlist, hjoined]
  rfl

end Selector

end DocQuery
