import DocQuery.Filter.Evaluation

/-!
# Comparing what two selectors match

A comparison looks at all matches of its two sides. If one of the sides has a single match, it
suffices that any pair of matches compares as the operator says, whichever side it is; otherwise the
sides are compared as arrays. It is not seen that a single pattern is compiled once for all matches
on the left, nor that a constant one is compiled once for all values that are filtered.

* `Filter.selectionsCompare_eq`: the two sides have the same part in a comparison.
* `Filter.keep_and_holds_compare`: what a filter keeps, and of what a comparison holds.
-/

namespace DocQuery

namespace Filter

/-- Two selections compare if a pair of their values does, where one of them has a single value, and
as arrays otherwise. Membership always compares them as arrays. -/
theorem selectionsCompare_eq (left : List Json) (op : Operator) (right : List Json) :
    selectionsCompare none left op right =
      if op = .within then op.holds (.array left) (.array right)
      else if left.length = 1 ∨ right.length = 1 then
        left.any fun l => right.any fun r => op.holds l r
      else op.holds (.array left) (.array right) := by
  rw [selectionsCompare.eq_def]
  by_cases hop : op = .within
  · rw [if_pos hop, if_pos hop]
  rw [if_neg hop, if_neg hop]
  split
  · rename_i single
    have hpairs : (left.any fun l => [single].any fun r => op.holds l r) =
        left.any (op.holds · single) := by simp
    rw [if_pos (.inr rfl), hpairs]
    -- the pattern that is compiled once is the one that each value on the left is compared with
    split <;> rfl
  · rename_i single _
    have hpairs : ([single].any fun l => right.any fun r => op.holds l r) =
        right.any (op.holds single ·) := by simp
    rw [if_pos (.inl rfl), hpairs]
  · rename_i hright hleft
    have hplural : ¬(left.length = 1 ∨ right.length = 1) := by
      simp only [List.length_eq_one_iff, not_or, not_exists]
      exact ⟨hright, hleft⟩
    rw [if_neg hplural]

/-- A comparison of two selectors compares what they match. -/
theorem holds_compare_eq (lhs : Selector) (op : Operator) (rhs : Selector) (value : Json) :
    (Filter.compare lhs op rhs).holds value =
      selectionsCompare none (lhs.select value).toList op (rhs.select value).toList := by
  rw [holds, holdsWith, Matches.drain_eq_toList, Matches.drain_eq_toList]

/-- A filter keeps the values of which it holds, in order. A membership holds of a value if each
match on the left equals some match on the right. Any other comparison holds if some match on the
left compares with the only match on the right, or, if there is no such, if the only match on the
left compares with some match on the right, or else if all matches on the left, as an array, compare
with all matches on the right. -/
theorem keep_and_holds_compare :
    (∀ (filter : Filter) (values : List Json), filter.keep values = values.filter filter.holds) ∧
    ∀ (lhs : Selector) (op : Operator) (rhs : Selector) (value : Json),
      (Filter.compare lhs op rhs).holds value = true ↔
        if op = .within then
          ∀ l ∈ (lhs.select value).toList, ∃ r ∈ (rhs.select value).toList, l.equal r = true
        else
          match (lhs.select value).toList, (rhs.select value).toList with
          | left, [r] => ∃ l ∈ left, op.holds l r = true
          | [l], right => ∃ r ∈ right, op.holds l r = true
          | left, right => op.holds (.array left) (.array right) = true := by
  refine ⟨keep_eq_filter, fun lhs op rhs value => ?_⟩
  rw [holds_compare_eq, selectionsCompare_eq]
  generalize (lhs.select value).toList = left
  generalize (rhs.select value).toList = right
  by_cases hop : op = .within
  · simp [hop, Operator.holds, Json.isWithin, Json.isItemOf]
  rw [if_neg hop, if_neg hop]
  -- none, one or several matches on either side
  rcases left with _ | ⟨l, _ | ⟨l', left⟩⟩ <;> rcases right with _ | ⟨r, _ | ⟨r', right⟩⟩ <;> simp

end Filter

end DocQuery
