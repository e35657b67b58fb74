import DocQuery.Json.Comparison

/-!
# Selectors

A selector is a chain of segments, each of which leads from a value to some of the values inside
it. The empty chain is the identity, and chains are appended with `++`.

* `Selector.identity_append`, `Selector.append_identity`, `Selector.append_assoc`: chains form a
  monoid under appending.
-/

namespace DocQuery

/-- A step of a selector. -/
inductive Segment where
  /-- Goes on with a literal value, whatever the value at hand. -/
  | constant (value : Json)
  /-- The value of a key of an object. -/
  | field (name : String)
  /-- The item at a position of an array; negative positions count from the end. -/
  | index (position : Int64)
  /-- The items between two positions of an array, the second one excluded. -/
  | slice (first last : Option Int64)
  /-- The value at hand and everything below it, to each of which the rest of the chain applies. -/
  | descent
  deriving Inhabited, Repr

namespace Segment

/-- Equality of segments, constants being compared by representation. -/
def same : Segment → Segment → Bool
  | .constant a, .constant b => a.same b
  | .field a, .field b => a == b
  | .index a, .index b => a == b
  | .slice a b, .slice c d => a == c && b == d
  | .descent, .descent => true
  | _, _ => false

/-- Whether the segment is a descent. -/
def isDescent : Segment → Bool
  | .descent => true
  | _ => false

end Segment

/-- A chain of segments, applied from left to right. -/
structure Selector where
  /-- The segments of the chain. -/
  segments : List Segment
  deriving Inhabited, Repr

namespace Selector

/-- The empty chain, which selects the value at hand. -/
def identity : Selector := ⟨[]⟩

/-- The chain of a single segment. -/
def single (segment : Segment) : Selector := ⟨[segment]⟩

/-- Appends a segment to a chain. -/
def push (selector : Selector) (segment : Segment) : Selector :=
  ⟨selector.segments ++ [segment]⟩

instance : Append Selector where
  append a b := ⟨a.segments ++ b.segments⟩

/-- Whether the chain is empty. -/
def isIdentity (selector : Selector) : Bool := selector.segments.isEmpty

/-- The name of the field that the chain ends with, if it ends with one. -/
def label? (selector : Selector) : Option String :=
  match selector.segments.getLast? with
  | some (.field name) => some name
  | _ => none

/-- Whether two chains have equal segments at equal places. -/
def segmentsSame : List Segment → List Segment → Bool
  | [], [] => true
  | a :: as, b :: bs => a.same b && segmentsSame as bs
  | _, _ => false

/-- Equality of selectors, constants being compared by representation. -/
def same (a b : Selector) : Bool := segmentsSame a.segments b.segments

/-- Whether two lists have equal selectors at equal places. -/
def listSame : List Selector → List Selector → Bool
  | [], [] => true
  | a :: as, b :: bs => a.same b && listSame as bs
  | _, _ => false

/-- Appended chains have their segments one after the other. -/
@[simp]
theorem segments_append (a b : Selector) : (a ++ b).segments = a.segments ++ b.segments := rfl

/-- The identity may be left out before a chain. -/
theorem identity_append (a : Selector) : identity ++ a = a := rfl

/-- The identity may be left out after a chain. -/
theorem append_identity (a : Selector) : a ++ identity = a := by
  cases a
  exact congrArg Selector.mk (List.append_nil _)

/-- Appending is associative. -/
theorem append_assoc (a b c : Selector) : a ++ b ++ c = a ++ (b ++ c) :=
  congrArg Selector.mk (List.append_assoc ..)

end Selector

end DocQuery
