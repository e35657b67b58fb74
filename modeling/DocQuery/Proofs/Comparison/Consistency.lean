import DocQuery.Document.Basic
import DocQuery.Filter.Comparison
import DocQuery.Proofs.Comparison.Equality

/-!
# Equality and order agree

Equality and order go down into values on their own, and they treat null values and objects
differently: these may be equal, but they have no order, and neither has an array before which one
of them is reached. Where there is an order, though, the two agree. So of two values at most one is
before, equal to or after the other one.

* `Json.equal_of_order?`, `Json.order?_of_equal`: values without a difference in order.
* `Json.order?_self_iff`: which values can be compared with themselves.
* `Json.equal_consistent_order?`: the statement for all values and operators.
-/

namespace DocQuery

namespace Json

/-! ## What a value can be compared with -/

/-- The null value can be compared with nothing. -/
theorem order?_null {b : Json} : Json.null.order? b = none := by cases b <;> rfl

/-- An object can be compared with nothing. -/
theorem order?_object {members : Members} {b : Json} : (Json.object members).order? b = none := by
  cases b <;> rfl

/-- A truth value can be compared with truth values. -/
theorem order?_bool_iff {x : Bool} {b : Json} {order : Ordering} :
    (Json.bool x).order? b = some order ↔ ∃ y, b = .bool y ∧ compare x y = order := by
  cases b <;> simp [order?]

/-- A text can be compared with texts. -/
theorem order?_string_iff {x : String} {b : Json} {order : Ordering} :
    (Json.string x).order? b = some order ↔ ∃ y, b = .string y ∧ compare x y = order := by
  cases b <;> simp [order?]

/-- A number can be compared with numbers. -/
theorem order?_number_iff {x : Number} {b : Json} {order : Ordering} :
    (Json.number x).order? b = some order ↔ ∃ y, b = .number y ∧ x.order y = order := by
  cases b <;> simp [order?]

/-- An array can be compared with arrays if the items that decide can be compared. -/
theorem order?_array_iff {items : List Json} {b : Json} {order : Ordering} :
    (Json.array items).order? b = some order ↔
      ∃ others, b = .array others ∧ itemsOrder? items others = some order := by
  cases b <;> simp [order?]

/-! ## Sequences without a difference -/

/-- Sequences are without a difference in order if their items are. -/
theorem itemsOrder?_eq_some_eq_iff {items others : List Json} :
    itemsOrder? items others = some .eq ↔
      List.Forall₂ (fun a b => a.order? b = some .eq) items others := by
  induction items generalizing others with
  | nil => cases others <;> simp [itemsOrder?]
  | cons item items ih =>
    cases others with
    | nil => simp [itemsOrder?]
    | cons other others =>
      rw [itemsOrder?, List.forall₂_cons, ← ih]
      split <;> simp_all

/-- Sequences have no difference in order, or no order at all, if it is so for their items. -/
theorem itemsOrder?_eq_or_eq_none {items others : List Json}
    (h : List.Forall₂ (fun a b => a.order? b = some .eq ∨ a.order? b = none) items others) :
    itemsOrder? items others = some .eq ∨ itemsOrder? items others = none := by
  induction h with
  | nil => exact .inl rfl
  | cons hfirst _ ih =>
    rw [itemsOrder?]
    rcases hfirst with hfirst | hfirst <;> rw [hfirst]
    · exact ih
    · exact .inr rfl

/-! ## Equal values -/

/-- Values without a difference in order are equal. -/
theorem equal_of_order? {a b : Json} (h : a.order? b = some .eq) : a.equal b = true := by
  rw [equal]
  -- null values and objects have no order, so nothing is to be shown for them
  induction a using Json.inductionOn generalizing b with
  | null => cases order?_null.symm.trans h
  | object members => cases order?_object.symm.trans h
  | bool x =>
    obtain ⟨y, rfl, hxy⟩ := order?_bool_iff.1 h
    exact equalBy_bool_iff.2 (congrArg _ (Std.LawfulEqOrd.eq_of_compare hxy).symm)
  | string x =>
    obtain ⟨y, rfl, hxy⟩ := order?_string_iff.1 h
    exact equalBy_string_iff.2 (congrArg _ (Std.LawfulEqOrd.eq_of_compare hxy).symm)
  | number x =>
    obtain ⟨y, rfl, hxy⟩ := order?_number_iff.1 h
    exact equalBy_number_iff.2 ⟨y, rfl, beq_iff_eq.2 hxy⟩
  | array items ih =>
    obtain ⟨others, rfl, h⟩ := order?_array_iff.1 h
    obtain ⟨hlength, hitems⟩ := List.forall₂_iff_get.1 (itemsOrder?_eq_some_eq_iff.1 h)
    exact equalBy_array_iff.2 ⟨others, rfl, hlength,
      fun place h h' => ih _ (List.getElem_mem h) (hitems place h h')⟩

/-- Equal values have no difference in order, or no order at all. -/
theorem order?_of_equal {a b : Json} (h : a.equal b = true) :
    a.order? b = some .eq ∨ a.order? b = none := by
  rw [equal] at h
  induction a using Json.inductionOn generalizing b with
  | null => exact .inr order?_null
  | bool x =>
    obtain rfl := equalBy_bool_iff.1 h
    simp [order?]
  | string x =>
    obtain rfl := equalBy_string_iff.1 h
    simp [order?]
  | number x =>
    obtain ⟨y, rfl, hxy⟩ := equalBy_number_iff.1 h
    simpa [order?, Number.equal] using hxy
  | object members => exact .inr order?_object
  | array items ih =>
    obtain ⟨others, rfl, hlength, hitems⟩ := equalBy_array_iff.1 h
    rw [order?]
    exact itemsOrder?_eq_or_eq_none (List.forall₂_iff_get.2 ⟨hlength,
      fun place h h' => ih _ (List.getElem_mem h) (hitems place h h')⟩)

/-! ## Values that can be compared with themselves -/

/-- Whether the value is another one or leads to it through arrays only. -/
inductive ReachesInArrays : Json → Json → Prop
  | here {value : Json} : ReachesInArrays value value
  | item {items : List Json} {item found : Json} (hitem : item ∈ items)
      (h : ReachesInArrays item found) : ReachesInArrays (.array items) found

/-- What an array leads to through arrays is itself or what one of its items leads to. -/
theorem reachesInArrays_array_iff {items : List Json} {found : Json} :
    ReachesInArrays (.array items) found ↔
      found = .array items ∨ ∃ item ∈ items, ReachesInArrays item found := by
  constructor
  · intro h
    cases h with
    | here => exact .inl rfl
    | item hitem h => exact .inr ⟨_, hitem, h⟩
  · rintro (rfl | ⟨item, hitem, h⟩)
    · exact .here
    · exact .item hitem h

/-- A value can be compared with itself exactly if it leads to neither a null value nor an object
through arrays. -/
theorem order?_self_iff {value : Json} :
    value.order? value = some .eq ↔
      ∀ found, value.ReachesInArrays found → found ≠ .null ∧
        ∀ members, found ≠ .object members := by
  induction value using Json.inductionOn with
  | null => exact ⟨fun h => (by cases h), fun h => absurd rfl (h _ .here).1⟩
  | object members => exact ⟨fun h => (by cases h), fun h => absurd rfl ((h _ .here).2 members)⟩
  | array items ih =>
    rw [order?, itemsOrder?_eq_some_eq_iff, List.forall₂_same]
    simp only [reachesInArrays_array_iff]
    constructor
    · rintro h found (rfl | ⟨item, hitem, hfound⟩)
      · simp
      · exact (ih item hitem).1 (h item hitem) found hfound
    · exact fun h item hitem => (ih item hitem).2 fun found hfound =>
        h found (.inr ⟨item, hitem, hfound⟩)
  | _ =>
    refine ⟨fun _ found h => ?_, fun _ => by simp [order?, Number.order_self]⟩
    cases h
    simp

/-- A document equals every reordering of it. Where two values have an order, they are equal exactly
if there is no difference in it; a value has an order with itself exactly if it leads to neither a
null value nor an object through arrays. So of two values at most one is before, equal to or after
the other one, and one is before or equal in order exactly if it is before or if it is equal and has
an order. -/
theorem equal_consistent_order? :
    (∀ (document : Document) (other : Json), document.root.Reordered other →
      document.root.equal other = true) ∧
    (∀ a b : Json, (a.order? b = some .eq → a.equal b = true) ∧
      (a.equal b = true → a.order? b = some .eq ∨ a.order? b = none)) ∧
    (∀ value : Json, value.order? value = some .eq ↔
      ∀ found, value.ReachesInArrays found →
        found ≠ .null ∧ ∀ members, found ≠ .object members) ∧
    ∀ a b : Json,
      ¬(Operator.less.holds a b = true ∧ Operator.equal.holds a b = true) ∧
      ¬(Operator.less.holds a b = true ∧ Operator.greater.holds a b = true) ∧
      ¬(Operator.equal.holds a b = true ∧ Operator.greater.holds a b = true) ∧
      (Operator.lessOrEqual.holds a b = true ↔ Operator.less.holds a b = true ∨
        Operator.equal.holds a b = true ∧ (a.order? b).isSome = true) ∧
      (Operator.greaterOrEqual.holds a b = true ↔ Operator.greater.holds a b = true ∨
        Operator.equal.holds a b = true ∧ (a.order? b).isSome = true) := by
  refine ⟨fun document other h => h.equalBy Number.equal_self document.keysDistinct,
    fun a b => ⟨equal_of_order?, order?_of_equal⟩, fun value => order?_self_iff, fun a b => ?_⟩
  have hequal := equal_of_order? (a := a) (b := b)
  have horder := order?_of_equal (a := a) (b := b)
  simp only [Operator.holds]
  -- nothing else about the two values matters
  generalize a.order? b = order at hequal horder ⊢
  generalize a.equal b = equal at hequal horder ⊢
  rcases order with _ | (_ | _ | _) <;> cases equal <;> simp_all

/-- An object inside an array, and then the object around the array, list their members in another
order. -/
theorem equal_consistent_order?_nested :
    let document : Document :=
      ⟨.object [("x", .array [.object [("p", .null), ("q", .bool true)]]), ("y", .null)], by decide⟩
    let other : Json :=
      .object [("y", .null), ("x", .array [.object [("q", .bool true), ("p", .null)]])]
    document.root.Reordered other ∧ document.root.equal other = true := by
  intro document other
  have hinner : Reorders document.root
      (.object [("x", .array [.object [("q", .bool true), ("p", .null)]]), ("y", .null)]) :=
    @Reorders.member [] [("y", .null)] "x" _ _ (@Reorders.item [] [] _ _ (.members (.swap _ _ _)))
  have hreordered : document.root.Reordered other :=
    .tail (.single hinner) (.members (.swap _ _ _))
  exact ⟨hreordered, equal_consistent_order?.1 document other hreordered⟩

end Json

end DocQuery
