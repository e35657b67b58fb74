/-!
# Sets of code points given by ranges

A character property is tabulated as a list of disjoint inclusive ranges in ascending order.
`CodeRanges.contains` looks a code point up and stops at the first range that lies above it, so
the frequent characters, which come first, are decided after a step or two.

* `CodeRanges.exists_of_contains`: a code point that is found lies in a range of the table.
-/

namespace DocQuery

/-- Inclusive ranges of code points, disjoint and in ascending order. -/
abbrev CodeRanges := List (Nat × Nat)

namespace CodeRanges

/-- Whether a code point lies in one of the ranges. -/
def contains : CodeRanges → Nat → Bool
  | [], _ => false
  | (low, high) :: rest, code =>
    if code < low then false else if code ≤ high then true else contains rest code

/-- A code point that is found lies in a range of the table. -/
theorem exists_of_contains {table : CodeRanges} {code : Nat} (hfound : contains table code = true) :
    ∃ range ∈ table, range.1 ≤ code ∧ code ≤ range.2 := by
  induction table with
  | nil => simp [contains] at hfound
  | cons range rest ih =>
    obtain ⟨low, high⟩ := range
    by_cases hbelow : code < low
    · simp [contains, hbelow] at hfound
    by_cases hinside : code ≤ high
    · exact ⟨(low, high), by simp, by omega, hinside⟩
    · obtain ⟨other, hmember, hbounds⟩ := ih (by simpa [contains, hbelow, hinside] using hfound)
      exact ⟨other, by simp [hmember], hbounds⟩

end CodeRanges

end DocQuery
