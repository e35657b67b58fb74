import DocQuery.Proofs.Selection.Cutting

/-!
# Positions and slices

A position and the bounds of a slice are computed in words, which stops at the first sum beyond the
words. No such sum comes up, and the places lie in the array. The two bounds of a slice do not
depend on each other, which is why slices can be put together again where they were cut, and why a
position is the slice from itself to the next one.

* `Position.slice_eq_filter`: a slice is told by the places of its items.
* `Position.slice_after?`, `Position.slice_append_slice`: slices of one item, and slices that meet.
* `Selector.select_slice`: what positions and slices select in every array.
-/

namespace DocQuery

namespace Position

/-! ## Slices by the places of their items -/

/-- The place that a bound stands for: the length is added to a negative one, what lies outside the
array is moved to its end there, and an absent bound stands for the given place. -/
def cut (length : Nat) (absent : Int) : Option Int64 → Int
  | none => absent
  | some bound =>
    max 0 (min length (if bound.toInt < 0 then bound.toInt + length else bound.toInt))

/-- The place of a position, in exact integers. -/
theorem resolve_eq (length : Nat) (position : Int64) :
    resolve length position =
      if position.toInt < 0 then position.toInt + length else position.toInt := by
  rw [resolve]
  simp only [Int64.lt_iff_toInt_lt, Int64.toInt_zero]

/-- A bound that is there is moved into the array. -/
theorem cast_clamp (length : Nat) (absent : Int) (bound : Int64) :
    (clamp length bound : Int) = cut length absent (some bound) := by
  rw [clamp, cut, resolve_eq]
  omega

/-- A slice begins where its first bound stands. -/
theorem cast_start (length : Nat) (first : Option Int64) :
    (start length first : Int) = cut length 0 first := by
  cases first with
  | none => rfl
  | some bound => exact cast_clamp length 0 bound

/-- A slice ends where its last bound stands. -/
theorem cast_stop (length : Nat) (last : Option Int64) :
    (stop length last : Int) = cut length length last := by
  cases last with
  | none => rfl
  | some bound => exact cast_clamp length length bound

/-- The items from a place on are those that do not come before it. -/
theorem filter_le_zipIdx (items : List Json) (start k : Nat) :
    (items.zipIdx k).filter (fun entry => start + k ≤ entry.2) = (items.zipIdx k).drop start := by
  induction items generalizing start k with
  | nil => simp
  | cons item items ih =>
    cases start with
    | zero =>
      rw [List.drop_zero, List.filter_eq_self]
      intro entry hentry
      simpa using List.le_snd_of_mem_zipIdx hentry
    | succ start =>
      rw [List.zipIdx_cons, List.drop_succ_cons, List.filter_cons_of_neg (by simp), ← ih]
      simp only [Nat.add_assoc, Nat.add_comm 1 k]

/-- The items before a place are those that come before it. -/
theorem filter_lt_zipIdx (items : List Json) (stop k : Nat) :
    (items.zipIdx k).filter (fun entry => entry.2 < stop + k) = (items.take stop).zipIdx k := by
  induction items generalizing stop k with
  | nil => simp
  | cons item items ih =>
    cases stop with
    | zero =>
      rw [List.take_zero, List.zipIdx_nil, List.filter_eq_nil_iff]
      intro entry hentry
      simpa using List.le_snd_of_mem_zipIdx hentry
    | succ stop =>
      rw [List.take_succ_cons, List.zipIdx_cons, List.zipIdx_cons,
        List.filter_cons_of_pos (by simp), ← ih]
      simp only [Nat.add_assoc, Nat.add_comm 1 k]

/-- A slice has the items from its first bound up to, and without, its last one. -/
theorem slice_eq_filter (items : List Json) (first last : Option Int64) :
    slice items first last =
      (items.zipIdx.filter fun entry =>
        cut items.length 0 first ≤ entry.2 ∧ entry.2 < cut items.length items.length last).map
          (·.1) := by
  have hplaces (entry : Json × Nat) :
      decide (cut items.length 0 first ≤ entry.2 ∧ entry.2 < cut items.length items.length last) =
        (decide (start items.length first + 0 ≤ entry.2) &&
          decide (entry.2 < stop items.length last + 0)) := by
    simp [← cast_start, ← cast_stop]
  rw [funext hplaces, ← List.filter_filter, filter_lt_zipIdx, filter_le_zipIdx, List.map_drop,
    List.zipIdx_map_fst, List.drop_take]
  rfl

/-- The bound behind a position, if there is one: none behind the last item of an array, and none
behind the greatest word. -/
def after? (position : Int64) : Option Int64 :=
  if position = -1 ∨ position = Int64.maxValue then none else some (position + 1)

/-- The next bound ends a slice one place further, if not at the end of the array. -/
theorem stop_after? {length : Nat} (hlength : length < 2 ^ 63) (position : Int64) :
    stop length (after? position) = min (resolve length position + 1).toNat length := by
  rw [after?]
  split
  · rename_i hlast
    show length = _
    rcases hlast with rfl | rfl
    · have hminus : (-1 : Int64).toInt = -1 := rfl
      rw [resolve_eq, hminus]
      omega
    · rw [resolve_eq, Int64.toInt_maxValue]
      omega
  · rename_i hinner
    obtain ⟨hminus, hmax⟩ := not_or.1 hinner
    -- the next word is one greater, and not negative if this one is not
    have hupper : position.toInt ≠ 2 ^ 63 - 1 := fun h =>
      hmax (Int64.toInt_inj.1 (h.trans Int64.toInt_maxValue.symm))
    have hsign : position.toInt ≠ -1 := fun h => hminus (Int64.toInt_inj.1 h)
    have hlt := position.toInt_lt
    have hle := position.le_toInt
    have hnext : (position + 1).toInt = position.toInt + 1 := by
      rw [Int64.toInt_add, Int64.toInt_one]
      apply Int.bmod_eq_of_le <;> omega
    show clamp length (position + 1) = _
    rw [clamp, resolve_eq, resolve_eq, hnext]
    split_ifs <;> omega

/-- The slice from a position to the next bound holds the item at the position. -/
theorem slice_after? {items : List Json} (hlength : items.length < 2 ^ 63) (position : Int64) :
    slice items (some position) (after? position) = (item? items position).toList := by
  have hstart : start items.length (some position) =
      min (resolve items.length position).toNat items.length := rfl
  rw [slice, stop_after? hlength, hstart, item?]
  generalize resolve items.length position = place
  split
  · rename_i hplace
    by_cases hlt : place.toNat < items.length
    · have hone : min (place + 1).toNat items.length - place.toNat = 1 := by omega
      rw [Nat.min_eq_left hlt.le, hone, List.take_one_drop_eq_of_lt_length hlt,
        List.getElem?_eq_getElem hlt]
      rfl
    · -- behind the last item there is none
      have hle : items.length ≤ place.toNat := Nat.le_of_not_lt hlt
      rw [Nat.min_eq_right hle, List.drop_length, List.take_nil, List.getElem?_eq_none hle]
      rfl
  · -- before the first item there is none either
    have hzero : min (place + 1).toNat items.length = 0 := by omega
    rw [hzero, Nat.zero_sub, List.take_zero]
    rfl

/-- Two slices that meet hold all items. -/
theorem slice_append_slice (items : List Json) (bound : Int64) :
    slice items none (some bound) ++ slice items (some bound) none = slice items none none := by
  have hlow : slice items none (some bound) = items.take (clamp items.length bound) := rfl
  have hhigh : slice items (some bound) none = items.drop (clamp items.length bound) := by
    show (items.drop (clamp items.length bound)).take (items.length - clamp items.length bound) = _
    rw [← List.length_drop, List.take_length]
  rw [hlow, hhigh, List.take_append_drop, slice_none_none]

end Position

namespace Selector

/-- Positions and slices of an array whose length is a word. Computed in words, no sum is beyond the
words, the ends of a slice are in order and lie in the array, and so does the place of an item. A
slice selects the items whose places lie between its bounds, in order. A position selects what the
slice from it to the next bound selects, whatever follows in the chain, and the two slices that meet
at a bound select together what the slice of all items does. -/
theorem select_slice {items : List Json} (hlength : items.length < 2 ^ 63) :
    (∀ first last, ∃ start stop, Position.range? items.length first last = some (start, stop) ∧
      start ≤ stop ∧ stop ≤ items.length ∧
      Position.slice items first last = (items.drop start).take (stop - start)) ∧
    (∀ position, ∃ place, Position.index? items.length position = some place ∧
      (∀ k ∈ place, k < items.length) ∧
      Position.item? items position = place.bind (items[·]?)) ∧
    (∀ first last, ((single (.slice first last)).select (.array items)).toList =
      (items.zipIdx.filter fun entry =>
        Position.cut items.length 0 first ≤ entry.2 ∧
          entry.2 < Position.cut items.length items.length last).map (·.1)) ∧
    (∀ position rest, (select ⟨.index position :: rest⟩ (.array items)).toList =
      (select ⟨.slice (some position) (Position.after? position) :: rest⟩ (.array items)).toList) ∧
    ∀ bound rest, (select ⟨.slice none (some bound) :: rest⟩ (.array items)).toList ++
        (select ⟨.slice (some bound) none :: rest⟩ (.array items)).toList =
      (select ⟨.slice none none :: rest⟩ (.array items)).toList := by
  refine ⟨fun first last => ?_, Position.index?_eq hlength, fun first last => ?_,
    fun position rest => ?_, fun bound rest => ?_⟩
  · refine ⟨_, _, Position.range?_eq hlength first last, Nat.le_max_right .., ?_, ?_⟩
    · exact Nat.max_le.2 ⟨Position.stop_le_length .., Position.start_le_length ..⟩
    · rw [Position.slice]
      congr 1
      omega
  · rw [← Position.slice_eq_filter]
    exact Matches.toList_ofList _
  · show (selectSegments _ _).toList = (selectSegments _ _).toList
    rw [toList_selectSegments_index, toList_selectSegments_slice, Position.slice_after? hlength]
  · show (selectSegments _ _).toList ++ (selectSegments _ _).toList = (selectSegments _ _).toList
    simp only [toList_selectSegments_slice]
    rw [← List.flatMap_append, Position.slice_append_slice]

/-- The least and the greatest word, and one that counts from the end, in an array of three items.
-/
theorem select_slice_three :
    let items : List Json := [.null, .bool true, .bool false]
    items.length < 2 ^ 63 ∧
      ((single (.slice (some Int64.minValue) (some (-1)))).select (.array items)).toList =
        [.null, .bool true] ∧
      (select ⟨[.index (-1)]⟩ (.array items)).toList = [.bool false] ∧
      (select ⟨[.index Int64.maxValue]⟩ (.array items)).toList = [] := by
  intro items
  have hlength : items.length < 2 ^ 63 := by decide
  obtain ⟨-, -, hslice, hindex, -⟩ := select_slice hlength
  refine ⟨hlength, ?_, ?_, ?_⟩
  · rw [hslice]
    rfl
  · rw [hindex]
    rfl
  · rw [hindex]
    rfl

end Selector

end DocQuery
