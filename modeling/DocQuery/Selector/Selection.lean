import DocQuery.Matches.Basic
import DocQuery.Selector.Basic
import DocQuery.Selector.Position

/-!
# What a selector matches

`Selector.select` applies a chain to a value, segment by segment. A field or a position that is not
there, and a segment that does not fit the kind of the value, match nothing. A descent applies the
rest of the chain to the value at hand and then, again as a descent, to each of its children; at
the end of a chain it matches nothing.

* `toList_descend_eq`: what a descent finds.
-/

namespace DocQuery

mutual

/-- Applies a function to a value and to everything below it, a value before its children. -/
def descend (here : Json → Matches) : Json → Matches
  | .array items => ⟨(here (.array items)).asEntry ++ descendItems here items⟩
  | .object members => ⟨(here (.object members)).asEntry ++ descendMembers here members⟩
  | value => ⟨(here value).asEntry⟩

/-- Descends into the items of an array, in order. -/
def descendItems (here : Json → Matches) : List Json → List Entry
  | [] => []
  | item :: items => (descend here item).asEntry ++ descendItems here items

/-- Descends into the members of an object, in order. -/
def descendMembers (here : Json → Matches) : Members → List Entry
  | [] => []
  | (_, value) :: members => (descend here value).asEntry ++ descendMembers here members

end

/-- The entries of a descent into items are those of each item in turn. -/
theorem descendItems_eq (here : Json → Matches) (items : List Json) :
    descendItems here items = items.flatMap fun item => (descend here item).asEntry := by
  induction items with
  | nil => rfl
  | cons item items ih => rw [descendItems, ih, List.flatMap_cons]

/-- The entries of a descent into members are those of each value in turn. -/
theorem descendMembers_eq (here : Json → Matches) (members : Members) :
    descendMembers here members =
      (members.map (·.2)).flatMap fun value => (descend here value).asEntry := by
  induction members with
  | nil => rfl
  | cons member members ih => rw [descendMembers, ih, List.map_cons, List.flatMap_cons]

/-- A descent applies its function to the value at hand and descends into each child in turn. -/
theorem descend_eq (here : Json → Matches) (value : Json) :
    descend here value =
      ⟨(here value).asEntry ++
        value.children.flatMap fun child => (descend here child).asEntry⟩ := by
  cases value with
  | array items => rw [descend, descendItems_eq, Json.children]
  | object members => rw [descend, descendMembers_eq, Json.children]
  | _ => rw [descend, Json.children, List.flatMap_nil, List.append_nil] <;> simp

/-- A descent finds what its function finds at the value at hand, and what it finds itself in each
child in turn. -/
theorem toList_descend_eq (here : Json → Matches) (value : Json) :
    (descend here value).toList =
      (here value).toList ++ value.children.flatMap fun child => (descend here child).toList := by
  rw [descend_eq, ← Matches.toList_collect, ← Matches.valuesOf_asEntry (here value)]
  exact Entry.valuesOf_append _ _

namespace Selector

/-- The matches of a chain of segments. -/
def selectSegments : List Segment → Json → Matches
  | [], value => .single value
  | .constant constant :: rest, _ => selectSegments rest constant
  | .field name :: rest, value =>
    match value with
    | .object members =>
      match Members.get? members name with
      | some child => selectSegments rest child
      | none => .empty
    | _ => .empty
  | .index position :: rest, value =>
    match value with
    | .array items =>
      match Position.item? items position with
      | some item => selectSegments rest item
      | none => .empty
    | _ => .empty
  | .slice first last :: rest, value =>
    match value with
    | .array items =>
      let sliced := Position.slice items first last
      if rest.isEmpty then .ofList sliced
      else .collect (selectSegments rest) sliced
    | _ => .empty
  | .descent :: rest, value =>
    descend (fun here => if rest.isEmpty then .empty else selectSegments rest here) value

/-- The matches of a selector in a value, in document order. -/
def select (selector : Selector) (value : Json) : Matches :=
  selectSegments selector.segments value

/-- The identity matches the value at hand. -/
theorem select_identity (value : Json) : identity.select value = .single value := rfl

end Selector

end DocQuery
