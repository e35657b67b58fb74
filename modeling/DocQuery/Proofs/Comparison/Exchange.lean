import DocQuery.Document.Selection
import DocQuery.Proofs.Comparison.Broadcast
import DocQuery.Proofs.Comparison.Equality

/-!
# Exchanging the sides of a comparison

Equality and the order operators may be read from right to left if the operator is mirrored. This is
so for two values, because equality is symmetric and exchanging two values reverses their order, and
for all matches of two selectors, because both sides have the same part in a comparison.

* `Json.equal_comm`: equality of values that repeat no key is symmetric.
* `Operator.holds_flip`: exchanging two values.
* `Filter.holds_compare_flip`: exchanging two selectors.
-/

namespace DocQuery

/-- Numbers are equal in both directions. -/
theorem Number.equal_comm (x y : Number) : x.equal y = y.equal x := by
  rw [equal, equal, ← order_swap x y]
  cases x.order y <;> rfl

/-- Values that repeat no key are equal in both directions. -/
theorem Json.equal_comm {a b : Json} (ha : a.KeysDistinct) (hb : b.KeysDistinct) :
    a.equal b = b.equal a := by
  have hnumbers (x y : Number) (h : x.equal y = true) : y.equal x = true := by
    rwa [Number.equal_comm]
  rw [Bool.eq_iff_iff]
  exact ⟨equalBy_symm hnumbers ha hb, equalBy_symm hnumbers hb ha⟩

namespace Operator

/-- Two values compare as the mirrored operator says of them in the other order. -/
theorem holds_flip {op : Operator} (hop : op ≠ .within ∧ op ≠ .like) {a b : Json}
    (ha : a.KeysDistinct) (hb : b.KeysDistinct) : op.holds a b = op.flip.holds b a := by
  have hequal := Json.equal_comm ha hb
  have horder := Json.order?_swap a b
  cases op with
  | equal => exact hequal
  | notEqual => exact congrArg (!·) hequal
  | within => exact absurd rfl hop.1
  | like => exact absurd rfl hop.2
  | _ =>
    simp only [holds, flip, ← horder]
    rcases a.order? b with _ | (_ | _ | _) <;> rfl

end Operator

namespace Filter

/-- Exchanging the selectors of a comparison by equality or by order, and mirroring the operator,
does not change of which values it holds. -/
theorem holds_compare_flip (lhs rhs : DocumentSelector) {op : Operator}
    (hop : op ≠ .within ∧ op ≠ .like) (document : Document) :
    (Filter.compare lhs.toSelector op rhs.toSelector).holds document.root =
      (Filter.compare rhs.toSelector op.flip lhs.toSelector).holds document.root := by
  have hleft : ∀ l ∈ (lhs.toSelector.select document.root).toList, l.KeysDistinct :=
    (lhs.select document).keysDistinct
  have hright : ∀ r ∈ (rhs.toSelector.select document.root).toList, r.KeysDistinct :=
    (rhs.select document).keysDistinct
  rw [holds_compare_eq, holds_compare_eq, selectionsCompare_eq, selectionsCompare_eq]
  generalize (lhs.toSelector.select document.root).toList = left at hleft ⊢
  generalize (rhs.toSelector.select document.root).toList = right at hright ⊢
  have hwithin : op.flip ≠ .within := by cases op <;> simp_all [Operator.flip]
  have harrays :
      op.holds (.array left) (.array right) = op.flip.holds (.array right) (.array left) :=
    Operator.holds_flip hop (Json.keysDistinct_array hleft) (Json.keysDistinct_array hright)
  -- one pair is asked for, whichever side is gone through first
  have hpairs : (left.any fun l => right.any fun r => op.holds l r) =
      right.any fun r => left.any fun l => op.flip.holds r l := by
    have hflip (l) (hl : l ∈ left) (r) (hr : r ∈ right) : op.holds l r = op.flip.holds r l :=
      Operator.holds_flip hop (hleft l hl) (hright r hr)
    rw [Bool.eq_iff_iff]
    simp only [List.any_eq_true]
    constructor
    · rintro ⟨l, hl, r, hr, h⟩
      exact ⟨r, hr, l, hl, hflip l hl r hr ▸ h⟩
    · rintro ⟨r, hr, l, hl, h⟩
      exact ⟨l, hl, r, hr, (hflip l hl r hr).trans h⟩
  simp only [if_neg hop.1, if_neg hwithin, hpairs, harrays, or_comm]

/-- Several matches on the left are compared with several on the right, and some of them are objects
that list their members in another order. -/
theorem holds_compare_flip_arrays :
    let lhs : DocumentSelector := ⟨⟨[.field "a", .slice none none]⟩, by decide⟩
    let rhs : DocumentSelector := ⟨⟨[.field "b", .slice none none]⟩, by decide⟩
    let document : Document := ⟨.object
      [("a", .array [.object [("p", .null), ("q", .bool true)], .bool true]),
        ("b", .array [.object [("q", .bool true), ("p", .null)], .bool true])], by decide⟩
    (Filter.compare lhs.toSelector .equal rhs.toSelector).holds document.root = true ∧
      (Filter.compare rhs.toSelector .equal lhs.toSelector).holds document.root = true := by
  intro lhs rhs document
  have hholds : (Filter.compare lhs.toSelector .equal rhs.toSelector).holds document.root = true :=
    by decide +kernel
  have hop : Operator.equal ≠ .within ∧ Operator.equal ≠ .like := by decide
  exact ⟨hholds, (holds_compare_flip lhs rhs hop document).symm.trans hholds⟩

end Filter

end DocQuery
