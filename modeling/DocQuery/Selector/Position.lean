import DocQuery.Json.Basic

/-!
# Positions in arrays

Positions and bounds of slices are 64-bit words. A negative one counts from the end of the array;
the bounds of a slice are then moved into the array, and a slice whose bounds are out of order is
empty.

`Position.resolve` and `Position.clamp` add the length of an array to a negative position in exact
integers. A machine adds two words, and what it does with a sum that is no word is its own affair.
`Position.range?` and `Position.index?` compute in words, step by step, and give nothing from the
first sum beyond the words on. Such a sum does not come up: a negative word and the length of an
array have different signs. So the same places come out of both computations.

* `Position.start_le_length`, `Position.stop_le_length`: the bounds of a slice lie in the array.
* `Position.item?_eq_some_iff`: the item at a position, told by its place.
* `Position.slice_none_none`: a slice without bounds holds all items.
* `Position.range?_eq`, `Position.index?_eq`: the computation in words.
-/

namespace DocQuery

namespace Position

/-- The place that a position names in an array of the given length; it may lie outside. -/
def resolve (length : Nat) (position : Int64) : Int :=
  if position < 0 then position.toInt + length else position.toInt

/-- The place that a bound names, moved into the array. -/
def clamp (length : Nat) (bound : Int64) : Nat :=
  min (resolve length bound).toNat length

/-- The place of the first item of a slice. -/
def start (length : Nat) (first : Option Int64) : Nat :=
  (first.map (clamp length)).getD 0

/-- The place before which a slice ends. -/
def stop (length : Nat) (last : Option Int64) : Nat :=
  (last.map (clamp length)).getD length

/-- The item at a position, if there is one. -/
def item? (items : List Json) (position : Int64) : Option Json :=
  let place := resolve items.length position
  if 0 ≤ place then items[place.toNat]? else none

/-- The items of a slice. -/
def slice (items : List Json) (first last : Option Int64) : List Json :=
  let start := start items.length first
  (items.drop start).take (stop items.length last - start)

/-- The first bound of a slice lies in the array. -/
theorem start_le_length (length : Nat) (first : Option Int64) : start length first ≤ length := by
  cases first with
  | none => exact Nat.zero_le _
  | some bound => exact Nat.min_le_right ..

/-- The last bound of a slice lies in the array. -/
theorem stop_le_length (length : Nat) (last : Option Int64) : stop length last ≤ length := by
  cases last with
  | none => exact Nat.le_refl _
  | some bound => exact Nat.min_le_right ..

/-- The item at a position is the one at the place that the position names. A place before the
first item holds nothing. -/
theorem item?_eq_some_iff {items : List Json} {position : Int64} {item : Json} :
    item? items position = some item ↔
      ∃ place : Nat, place = resolve items.length position ∧ items[place]? = some item := by
  simp only [item?]
  constructor
  · intro h
    split at h
    · rename_i hplace
      exact ⟨_, Int.toNat_of_nonneg hplace, h⟩
    · cases h
  · rintro ⟨place, hplace, hitem⟩
    rw [← hplace, if_pos (Int.natCast_nonneg place), Int.toNat_natCast]
    exact hitem

/-- The item at a position is one of the items. -/
theorem mem_of_item? {items : List Json} {position : Int64} {item : Json}
    (h : item? items position = some item) : item ∈ items := by
  obtain ⟨place, -, hitem⟩ := item?_eq_some_iff.1 h
  exact List.mem_of_getElem? hitem

/-- The items of a slice are among the items. -/
theorem mem_of_mem_slice {items : List Json} {first last : Option Int64} {item : Json}
    (h : item ∈ slice items first last) : item ∈ items :=
  List.mem_of_mem_drop (List.mem_of_mem_take h)

/-- The slice without bounds holds all items. -/
theorem slice_none_none (items : List Json) : slice items none none = items :=
  List.take_length

/-! ## The computation in words -/

/-- The sum of two words, or nothing if it is beyond the words. -/
def add? (a b : Int64) : Option Int64 :=
  if Int64.minValue.toInt ≤ a.toInt + b.toInt ∧ a.toInt + b.toInt ≤ Int64.maxValue.toInt then
    some (a + b)
  else none

/-- The place that a position names in an array of the given length, computed in words. -/
def resolveWord? (length : Nat) (position : Int64) : Option Int64 :=
  if position < 0 then add? position (.ofNat length) else some position

/-- The word between `0` and the given length that is next to a word. -/
def clampWord (length place : Int64) : Int64 :=
  if place < 0 then 0 else if length < place then length else place

/-- The place that a bound names, moved into the array and computed in words. -/
def bound? (length : Nat) (bound : Int64) : Option Nat :=
  (resolveWord? length bound).map fun place => (clampWord (.ofNat length) place).toInt.toNat

/-- The places at which a slice begins and before which it ends, computed in words. -/
def range? (length : Nat) (first last : Option Int64) : Option (Nat × Nat) := do
  let start ← first.elim (some 0) (bound? length)
  let stop ← last.elim (some length) (bound? length)
  return (start, max stop start)

/-- The place of the item at a position, if there is such an item, computed in words. -/
def index? (length : Nat) (position : Int64) : Option (Option Nat) :=
  (resolveWord? length position).map fun place =>
    if 0 ≤ place ∧ place.toInt.toNat < length then some place.toInt.toNat else none

section Words

variable {length : Nat}

/-- Words of different signs have a sum. -/
theorem add?_eq_some {a b : Int64} (ha : a.toInt < 0) (hb : 0 ≤ b.toInt) :
    ∃ sum, add? a b = some sum ∧ sum.toInt = a.toInt + b.toInt := by
  have hlower := a.le_toInt
  have hupper := b.toInt_lt
  have hmin : Int64.minValue.toInt = -2 ^ 63 := Int64.toInt_minValue
  have hmax : Int64.maxValue.toInt = 2 ^ 63 - 1 := Int64.toInt_maxValue
  refine ⟨a + b, if_pos (by omega), ?_⟩
  rw [Int64.toInt_add]
  apply Int.bmod_eq_of_le <;> omega

/-- The place of a position is a word. -/
theorem resolveWord?_eq (hlength : length < 2 ^ 63) (position : Int64) :
    ∃ place, resolveWord? length position = some place ∧
      place.toInt = resolve length position := by
  have hword : (Int64.ofNat length).toInt = length := Int64.toInt_ofNat_of_lt hlength
  rw [resolveWord?, resolve]
  split
  · rename_i hneg
    rw [Int64.lt_iff_toInt_lt, Int64.toInt_zero] at hneg
    rw [← hword]
    exact add?_eq_some hneg (by omega)
  · exact ⟨position, rfl, rfl⟩

/-- A place is moved into the array in words as in exact integers. -/
theorem toInt_clampWord {place : Int64} (hlength : length < 2 ^ 63) :
    (clampWord (.ofNat length) place).toInt.toNat = min place.toInt.toNat length := by
  have hword : (Int64.ofNat length).toInt = length := Int64.toInt_ofNat_of_lt hlength
  simp only [clampWord, Int64.lt_iff_toInt_lt, Int64.toInt_zero, hword]
  split
  · rw [Int64.toInt_zero]
    omega
  split
  · rw [hword]
    omega
  · omega

/-- A bound is computed in words as in exact integers. -/
theorem bound?_eq (hlength : length < 2 ^ 63) (bound : Int64) :
    bound? length bound = some (clamp length bound) := by
  obtain ⟨place, hplace, hvalue⟩ := resolveWord?_eq hlength bound
  rw [bound?, hplace, Option.map_some, toInt_clampWord hlength, hvalue, clamp]

/-- The ends of a slice are computed in words as in exact integers. -/
theorem range?_eq (hlength : length < 2 ^ 63) (first last : Option Int64) :
    range? length first last =
      some (start length first, max (stop length last) (start length first)) := by
  have hfirst : first.elim (some 0) (bound? length) = some (start length first) := by
    cases first with
    | none => rfl
    | some bound => exact bound?_eq hlength bound
  have hlast : last.elim (some length) (bound? length) = some (stop length last) := by
    cases last with
    | none => rfl
    | some bound => exact bound?_eq hlength bound
  rw [range?, hfirst, hlast]
  rfl

/-- The item at a position is the one at the place that is computed in words. -/
theorem index?_eq {items : List Json} (hlength : items.length < 2 ^ 63) (position : Int64) :
    ∃ place, index? items.length position = some place ∧
      (∀ k ∈ place, k < items.length) ∧ item? items position = place.bind (items[·]?) := by
  obtain ⟨place, hplace, hvalue⟩ := resolveWord?_eq hlength position
  refine ⟨_, by rw [index?, hplace, Option.map_some], ?_, ?_⟩
  · intro k hk
    rw [Option.mem_ite_none_right] at hk
    obtain ⟨⟨-, hlt⟩, hk⟩ := hk
    exact Option.some.inj hk ▸ hlt
  · simp only [item?, ← hvalue, Int64.le_iff_toInt_le, Int64.toInt_zero]
    by_cases hnonneg : 0 ≤ place.toInt
    · by_cases hlt : place.toInt.toNat < items.length
      · rw [if_pos hnonneg, if_pos ⟨hnonneg, hlt⟩, Option.bind_some]
      · -- a place behind the last item holds nothing
        rw [if_pos hnonneg, if_neg (fun h => hlt h.2), Option.bind_none]
        exact List.getElem?_eq_none (Nat.le_of_not_lt hlt)
    · rw [if_neg hnonneg, if_neg (fun h => hnonneg h.1), Option.bind_none]

end Words

end Position

end DocQuery
