import DocQuery.Json.Comparison

/-!
# Matches

The values that a selector matches. While they are collected, matches may hold other matches, as
nested entries; everything that looks at them sees the flattened values, in order. Arrays and
objects are values like any other and are not flattened.

* `Matches.toList_append`, `Matches.toList_nest`, `Matches.toList_push`, `Matches.toList_extend`:
  what each way of growing matches does to the flattened values.
* `Matches.length_toList`: `size` counts the flattened values.
* `Matches.drain_eq_toList`: taking the values out one after the other yields the flattened values.
-/

namespace DocQuery

/-- The items of an array, or the value alone if it is no array. -/
def Json.expand : Json → List Json
  | .array items => items
  | value => [value]

/-- An entry of matches. -/
inductive Entry where
  /-- A single value. -/
  | single (value : Json)
  /-- Matches that were added as a whole. -/
  | nested (entries : List Entry)
  deriving Inhabited, Repr

namespace Entry

mutual

/-- The values of an entry. -/
def values : Entry → List Json
  | .single value => [value]
  | .nested entries => valuesOf entries

/-- The values of entries. -/
def valuesOf : List Entry → List Json
  | [] => []
  | entry :: entries => entry.values ++ valuesOf entries

end

mutual

/-- How many values an entry has. -/
def size : Entry → Nat
  | .single _ => 1
  | .nested entries => sizeOfAll entries

/-- How many values entries have. -/
def sizeOfAll : List Entry → Nat
  | [] => 0
  | entry :: entries => entry.size + sizeOfAll entries

end

mutual

/-- Adds the values of an entry to those that have been taken out. -/
def drain : Entry → Array Json → Array Json
  | .single value, taken => taken.push value
  | .nested entries, taken => drainAll entries taken

/-- Adds the values of entries to those that have been taken out. -/
def drainAll : List Entry → Array Json → Array Json
  | [], taken => taken
  | entry :: entries, taken => drainAll entries (entry.drain taken)

end

mutual

/-- Equality of entries with their nesting. -/
def same : Entry → Entry → Bool
  | .single a, .single b => a.same b
  | .nested as, .nested bs => allSame as bs
  | _, _ => false

/-- Equality of lists of entries with their nesting. -/
def allSame : List Entry → List Entry → Bool
  | [], [] => true
  | a :: as, b :: bs => a.same b && allSame as bs
  | _, _ => false

end

/-- The values of appended entries. -/
theorem valuesOf_append (as bs : List Entry) :
    valuesOf (as ++ bs) = valuesOf as ++ valuesOf bs := by
  induction as with
  | nil => rfl
  | cons entry as ih => simp [valuesOf, ih]

/-- The values of entries that are single values. -/
theorem valuesOf_map_single (values : List Json) : valuesOf (values.map .single) = values := by
  induction values with
  | nil => rfl
  | cons value values ih => simp [valuesOf, Entry.values, ih]

mutual

/-- The size of an entry is the number of its values. -/
theorem length_values : (entry : Entry) → entry.values.length = entry.size
  | .single _ => rfl
  | .nested entries => length_valuesOf entries

/-- The size of entries is the number of their values. -/
theorem length_valuesOf : (entries : List Entry) → (valuesOf entries).length = sizeOfAll entries
  | [] => rfl
  | entry :: entries => by
    simp [valuesOf, sizeOfAll, length_values entry, length_valuesOf entries]

end

mutual

/-- The values of an entry are added behind those that have been taken out. -/
theorem toList_drain : (entry : Entry) → (taken : Array Json) →
    (entry.drain taken).toList = taken.toList ++ entry.values
  | .single _, _ => Array.toList_push
  | .nested entries, taken => toList_drainAll entries taken

/-- The values of entries are added behind those that have been taken out. -/
theorem toList_drainAll : (entries : List Entry) → (taken : Array Json) →
    (drainAll entries taken).toList = taken.toList ++ valuesOf entries
  | [], taken => (List.append_nil taken.toList).symm
  | entry :: entries, taken => by
    rw [drainAll, toList_drainAll, toList_drain, List.append_assoc]
    rfl

end

end Entry

/-- Matched values in order, some of them possibly nested. -/
structure Matches where
  /-- The entries in order. -/
  entries : List Entry
  deriving Inhabited, Repr

namespace Matches

/-- No matches. -/
def empty : Matches := ⟨[]⟩

/-- Exactly one value. -/
def single (value : Json) : Matches := ⟨[.single value]⟩

/-- The given values. -/
def ofList (values : List Json) : Matches := ⟨values.map .single⟩

/-- The flattened values. -/
def toList (found : Matches) : List Json := Entry.valuesOf found.entries

/-- The values, taken out one after the other. -/
def drain (found : Matches) : List Json := (Entry.drainAll found.entries #[]).toList

/-- The number of flattened values. -/
def size (found : Matches) : Nat := Entry.sizeOfAll found.entries

/-- Adds a value at the end. -/
def push (found : Matches) (value : Json) : Matches := ⟨found.entries ++ [.single value]⟩

/-- Adds values at the end. -/
def extend (found : Matches) (values : List Json) : Matches :=
  ⟨found.entries ++ values.map .single⟩

/-- The matches as one nested entry, or no entry if they have no entries themselves. -/
def asEntry (found : Matches) : List Entry :=
  if found.entries.isEmpty then [] else [.nested found.entries]

/-- Adds matches at the end as one nested entry, unless they have no entries at all. -/
def nest (found inner : Matches) : Matches := ⟨found.entries ++ inner.asEntry⟩

instance : Append Matches where
  append a b := ⟨a.entries ++ b.entries⟩

/-- Nests the matches of each value in turn. -/
def collect (select : Json → Matches) (values : List Json) : Matches :=
  ⟨values.flatMap fun value => (select value).asEntry⟩

/-- Each array is replaced by its items, one level deep; other values stay in place. -/
def expandArrays (found : Matches) : Matches :=
  .ofList (found.drain.flatMap Json.expand)

/-- Equality of matches with their nesting. -/
def same (a b : Matches) : Bool := Entry.allSame a.entries b.entries

/-- The text that tells the number of matches. -/
def text (found : Matches) : String := toString found.size ++ " results"

/-- The size is the number of flattened values. -/
theorem length_toList (found : Matches) : found.toList.length = found.size :=
  Entry.length_valuesOf found.entries

/-- The values that are taken out are the flattened values. -/
theorem drain_eq_toList (found : Matches) : found.drain = found.toList := by
  rw [drain, Entry.toList_drainAll]
  rfl

/-- No matches have no values. -/
@[simp]
theorem toList_empty : empty.toList = [] := rfl

/-- A single match is its value. -/
@[simp]
theorem toList_single (value : Json) : (single value).toList = [value] := rfl

/-- Given values are the flattened values. -/
@[simp]
theorem toList_ofList (values : List Json) : (ofList values).toList = values :=
  Entry.valuesOf_map_single values

/-- Appended matches are appended values. -/
@[simp]
theorem toList_append (a b : Matches) : (a ++ b).toList = a.toList ++ b.toList :=
  Entry.valuesOf_append a.entries b.entries

/-- A value that is pushed comes last. -/
@[simp]
theorem toList_push (found : Matches) (value : Json) :
    (found.push value).toList = found.toList ++ [value] :=
  Entry.valuesOf_append found.entries [.single value]

/-- Values that extend matches come last. -/
@[simp]
theorem toList_extend (found : Matches) (values : List Json) :
    (found.extend values).toList = found.toList ++ values := by
  rw [toList, extend, Entry.valuesOf_append, Entry.valuesOf_map_single]
  rfl

/-- Matches as an entry keep their values. -/
@[simp]
theorem valuesOf_asEntry (found : Matches) : Entry.valuesOf found.asEntry = found.toList := by
  unfold asEntry
  split
  · -- no entries have no values
    rename_i hnone
    rw [List.isEmpty_iff] at hnone
    simp [toList, hnone, Entry.valuesOf]
  · simp [toList, Entry.valuesOf, Entry.values]

/-- Nested matches come last. -/
@[simp]
theorem toList_nest (found inner : Matches) :
    (found.nest inner).toList = found.toList ++ inner.toList := by
  simp only [nest, toList, Entry.valuesOf_append, valuesOf_asEntry]

/-- Collected matches are the matches of each value in turn. -/
@[simp]
theorem toList_collect (select : Json → Matches) (values : List Json) :
    (collect select values).toList = values.flatMap fun value => (select value).toList := by
  induction values with
  | nil => rfl
  | cons value values ih =>
    simp only [collect, toList, List.flatMap_cons, Entry.valuesOf_append, valuesOf_asEntry] at ih ⊢
    rw [ih]

/-- Each array among the flattened values is replaced by its items. -/
@[simp]
theorem toList_expandArrays (found : Matches) :
    found.expandArrays.toList = found.toList.flatMap Json.expand := by
  rw [expandArrays, toList_ofList, drain_eq_toList]

end Matches

end DocQuery
