import DocQuery.Proofs.Comparison.Consistency
import DocQuery.Proofs.Comparison.Exchange
import DocQuery.Proofs.Numbers.Order
import Mathlib.Order.RelClasses

/-!
# Where equality and order are transitive

Equality of values is an equivalence relation, and their order a strict one, as far as it is so for
the numbers in them: arrays and objects, compared item by item and key by key, add nothing. For
numbers it fails where a binary64 number equals two different integers, which do not equal each
other. Then equality is not transitive. Nor is the order: arrays that begin with the three numbers
may ascend, each one being longer than the one before, although the integers they begin with
descend.

* `Json.composes_of_numbersIn`: the order of values is as transitive as that of numbers.
* `Json.transitive_of_natAbs_le`: integers up to `2 ^ 53` do no harm.
* `Json.equivalence_and_isStrictOrder_iff`: the numbers for which equality and order are transitive.
-/

namespace DocQuery

namespace Json

/-- The order of the outer ones of three ascending values is made up of the two orders between. -/
def Composes (a b c : Json) : Prop :=
  ∀ first second, a.order? b = some first → b.order? c = some second → first ≠ .gt → second ≠ .gt →
    a.order? c = some (first.then second)

/-- If a sequence is not after another one, its first item is before the other first item, or it is
not different from it and the items that follow decide. -/
theorem cases_of_itemsOrder?_cons {a b : Json} {items others : List Json} {order : Ordering}
    (h : itemsOrder? (a :: items) (b :: others) = some order) (horder : order ≠ .gt) :
    a.order? b = some .lt ∧ order = .lt ∨
      a.order? b = some .eq ∧ itemsOrder? items others = some order := by
  rw [itemsOrder?] at h
  rcases hab : a.order? b with _ | (_ | _ | _) <;> rw [hab] at h
  · cases h
  · exact .inl ⟨rfl, (Option.some.inj h).symm⟩
  · exact .inr ⟨rfl, h⟩
  · exact absurd (Option.some.inj h).symm horder

/-- The order of sequences is made up in this way if that of their items is. -/
theorem itemsOrder?_eq_then {items others more : List Json}
    (hitems : ∀ a ∈ items, ∀ b ∈ others, ∀ c ∈ more, a.Composes b c) {first second : Ordering}
    (h : itemsOrder? items others = some first) (h' : itemsOrder? others more = some second)
    (hfirst : first ≠ .gt) (hsecond : second ≠ .gt) :
    itemsOrder? items more = some (first.then second) := by
  induction items generalizing others more with
  | nil =>
    rcases others with _ | ⟨b, others⟩
    · obtain rfl : .eq = first := Option.some.inj h
      exact h'
    · obtain rfl : .lt = first := Option.some.inj h
      rcases more with _ | ⟨c, more⟩
      · exact absurd (Option.some.inj h').symm hsecond
      · rfl
  | cons a items ih =>
    rcases others with _ | ⟨b, others⟩
    · exact absurd (Option.some.inj h).symm hfirst
    rcases more with _ | ⟨c, more⟩
    · exact absurd (Option.some.inj h').symm hsecond
    have hcomposes := hitems a List.mem_cons_self b List.mem_cons_self c List.mem_cons_self
    simp only [List.forall_mem_cons] at hitems
    rw [itemsOrder?]
    -- the first place where two neighbours differ decides between the outer sequences as well
    rcases cases_of_itemsOrder?_cons h hfirst with ⟨hab, rfl⟩ | ⟨hab, h⟩
    · rcases cases_of_itemsOrder?_cons h' hsecond with ⟨hbc, rfl⟩ | ⟨hbc, -⟩ <;>
      · rw [hcomposes _ _ hab hbc (by decide) (by decide)]
        rfl
    rcases cases_of_itemsOrder?_cons h' hsecond with ⟨hbc, rfl⟩ | ⟨hbc, h'⟩
    · rw [hcomposes _ _ hab hbc (by decide) (by decide)]
      cases first with
      | gt => exact absurd rfl hfirst
      | _ => rfl
    · rw [hcomposes _ _ hab hbc (by decide) (by decide)]
      exact ih (fun x hx y hy z hz => (hitems.2 x hx).2 y hy |>.2 z hz) h h'

/-! ## Values with given numbers -/

variable {range : Set Number}

/-- The order of values is transitive if no binary64 number equals two of the integers in them. -/
theorem composes_of_numbersIn (hrange : Number.Separated range) {a b c : Json}
    (ha : a.NumbersIn range) (hb : b.NumbersIn range) (hc : c.NumbersIn range) :
    a.Composes b c := by
  intro first second hab hbc hfirst hsecond
  -- each comparison fixes the kind of the next value, and only numbers need the assumption
  induction ha generalizing b c first second with
  | @intro a hx _ ih =>
    obtain ⟨hy, hb⟩ := hb
    obtain ⟨hz, hc⟩ := hc
    cases a with
    | null => cases order?_null.symm.trans hab
    | object members => cases order?_object.symm.trans hab
    | bool x =>
      obtain ⟨y, rfl, rfl⟩ := order?_bool_iff.1 hab
      obtain ⟨z, rfl, rfl⟩ := order?_bool_iff.1 hbc
      exact order?_bool_iff.2 ⟨z, rfl, compare_eq_then hfirst hsecond⟩
    | string x =>
      obtain ⟨y, rfl, rfl⟩ := order?_string_iff.1 hab
      obtain ⟨z, rfl, rfl⟩ := order?_string_iff.1 hbc
      exact order?_string_iff.2 ⟨z, rfl, compare_eq_then hfirst hsecond⟩
    | number x =>
      obtain ⟨y, rfl, rfl⟩ := order?_number_iff.1 hab
      obtain ⟨z, rfl, rfl⟩ := order?_number_iff.1 hbc
      exact order?_number_iff.2 ⟨z, rfl,
        Number.order_trans hrange (hx x rfl) (hy y rfl) (hz z rfl) hfirst hsecond⟩
    | array items =>
      obtain ⟨others, rfl, hab⟩ := order?_array_iff.1 hab
      obtain ⟨more, rfl, hbc⟩ := order?_array_iff.1 hbc
      have hitems : ∀ a ∈ items, ∀ b ∈ others, ∀ c ∈ more, a.Composes b c :=
        fun a ha b hb' c hc' => ih a ha (hb b hb') (hc c hc')
      exact order?_array_iff.2 ⟨more, rfl, itemsOrder?_eq_then hitems hab hbc hfirst hsecond⟩

/-- The documents whose numbers, at any depth, are among the given ones. -/
def Over (range : Set Number) : Type := {document : Document // document.root.NumbersIn range}

/-- Equality is an equivalence if no binary64 number equals two of the integers at hand. -/
theorem equivalence_equal (hrange : Number.Separated range) :
    Equivalence fun a b : Over range => a.1.root.equal b.1.root = true where
  refl a := equalBy_self Number.equal_self a.1.keysDistinct
  symm {a b} h := (equal_comm a.1.keysDistinct b.1.keysDistinct).symm.trans h
  trans {a b c} hab hbc := by
    refine equalBy_trans (fun x hx y hy z hz hxy hyz => ?_) a.2 b.2 c.2 hab hbc
    rw [Number.equal, beq_iff_eq] at hxy hyz ⊢
    rw [Number.order_trans hrange hx hy hz (by simp [hxy]) (by simp [hyz]), hxy, hyz]
    rfl

/-- The order is a strict one if no binary64 number equals two of the integers at hand. -/
theorem isStrictOrder_less (hrange : Number.Separated range) :
    IsStrictOrder (Over range) fun a b => a.1.root.order? b.1.root = some .lt where
  irrefl a h := by
    have hswap := order?_swap a.1.root a.1.root
    rw [h] at hswap
    cases hswap
  trans a b c hab hbc :=
    composes_of_numbersIn hrange a.2 b.2 c.2 _ _ hab hbc (by decide) (by decide)

/-- Values with integers up to `2 ^ 53`, and any binary64 numbers, are compared transitively. -/
theorem transitive_of_natAbs_le (h : ∀ n hn, .int n hn ∈ range → n.natAbs ≤ 2 ^ 53) :
    (Equivalence fun a b : Over range => a.1.root.equal b.1.root = true) ∧
      IsStrictOrder (Over range) fun a b => a.1.root.order? b.1.root = some .lt :=
  ⟨equivalence_equal (Number.separated_of_natAbs_le h),
    isStrictOrder_less (Number.separated_of_natAbs_le h)⟩

/-! ## Numbers that are not separated -/

/-- A number is among the given ones if it is one of them. -/
theorem numbersIn_number {x : Number} (hx : x ∈ range) : (Json.number x).NumbersIn range :=
  .intro (fun _ heq => number.inj heq ▸ hx) (List.forall_mem_nil _)

/-- A number as a document. -/
def numberDocument (x : Number) : Document := ⟨.number x, keysDistinct_of_not_isContainer rfl⟩

/-- Where equality is transitive, no binary64 number equals two integers. -/
theorem separated_of_equivalence
    (h : Equivalence fun a b : Over range => a.1.root.equal b.1.root = true) :
    Number.Separated range := by
  intro x hx m hm hmem n hn hmem' hmx hnx
  -- the numbers themselves are documents, and equality leads from one integer to the other
  have htrans {u v w : Number} (hu : u ∈ range) (hv : v ∈ range) (hw : w ∈ range)
      (huv : u.equal v = true) (hvw : v.equal w = true) : u.equal w = true :=
    h.trans (x := ⟨numberDocument u, numbersIn_number hu⟩)
      (y := ⟨numberDocument v, numbersIn_number hv⟩)
      (z := ⟨numberDocument w, numbersIn_number hw⟩) huv hvw
  have hxn : (Number.float x).equal (.int n hn) = true := (Number.equal_comm _ _).trans hnx
  exact Number.equal_int_iff.1 (htrans hmem hx hmem' hmx hxn)

/-- A number and then several times the same truth value, as an array. -/
def padded (x : Number) (count : Nat) : Json := .array (.number x :: .replicate count (.bool true))

/-- The items of the array repeat no key. -/
theorem keysDistinct_padded (x : Number) (count : Nat) : (padded x count).KeysDistinct := by
  have hnumber : (Json.number x).KeysDistinct := keysDistinct_of_not_isContainer rfl
  have htrue : (Json.bool true).KeysDistinct := keysDistinct_of_not_isContainer rfl
  exact keysDistinct_array (List.forall_mem_cons.2
    ⟨hnumber, fun item hitem => List.eq_of_mem_replicate hitem ▸ htrue⟩)

/-- The number is the only one in the array. -/
theorem numbersIn_padded {x : Number} (hx : x ∈ range) (count : Nat) :
    (padded x count).NumbersIn range := by
  have htrue : (Json.bool true).NumbersIn range :=
    .intro (fun _ heq => nomatch heq) (List.forall_mem_nil _)
  refine .intro (fun _ heq => nomatch heq) (List.forall_mem_cons.2 ⟨numbersIn_number hx, ?_⟩)
  exact fun item hitem => List.eq_of_mem_replicate hitem ▸ htrue

/-- Where the numbers are not different, the lengths decide. -/
theorem order?_padded (x y : Number) (m n : Nat) :
    (padded x m).order? (padded y n) = some ((x.order y).then (compare m n)) := by
  have hrest : itemsOrder? (.replicate m (.bool true)) (.replicate n (.bool true)) =
      some (compare m n) := by
    induction m generalizing n with
    | zero => cases n <;> rfl
    | succ m ih =>
      cases n with
      | zero => rfl
      | succ n =>
        rw [List.replicate_succ, List.replicate_succ, itemsOrder?]
        refine (ih n).trans ?_
        simp [compare, compareOfLessAndEq]
  rw [padded, padded, order?, itemsOrder?, order?, hrest]
  cases x.order y <;> rfl

/-- Where the order is transitive, no binary64 number equals two integers. -/
theorem separated_of_isStrictOrder
    (h : IsStrictOrder (Over range) fun a b => a.1.root.order? b.1.root = some .lt) :
    Number.Separated range := by
  let value {u : Number} (hu : u ∈ range) (count : Nat) : Over range :=
    ⟨⟨padded u count, keysDistinct_padded u count⟩, numbersIn_padded hu count⟩
  intro x hx
  have hle (m hm) (hmem : .int m hm ∈ range) (n hn) (hmem' : .int n hn ∈ range)
      (hmx : (Number.int m hm).equal (.float x) = true)
      (hnx : (Number.int n hn).equal (.float x) = true) : m ≤ n := by
    by_contra hlt
    have hmx : (Number.int m hm).order (.float x) = .eq := beq_iff_eq.1 hmx
    have hxn : (Number.float x).order (.int n hn) = .eq :=
      beq_iff_eq.1 ((Number.equal_comm _ _).trans hnx)
    -- the binary64 number makes no difference to either integer, and there the lengths ascend
    have hless := h.trans (value hmem 0) (value hx 1) (value hmem' 2)
      (by rw [order?_padded, hmx]; rfl) (by rw [order?_padded, hxn]; rfl)
    rw [order?_padded, Number.order_int, compare_gt_iff_gt.2 (not_le.1 hlt)] at hless
    cases hless
  exact fun m hm hmem n hn hmem' hmx hnx =>
    le_antisymm (hle m hm hmem n hn hmem' hmx hnx) (hle n hn hmem' m hm hmem hnx hmx)

/-- Equality is an equivalence, and the order a strict one, exactly where no binary64 number equals
two different integers. -/
theorem equivalence_and_isStrictOrder_iff (range : Set Number) :
    ((Equivalence fun a b : Over range => a.1.root.equal b.1.root = true) ↔
      Number.Separated range) ∧
    (IsStrictOrder (Over range) (fun a b => a.1.root.order? b.1.root = some .lt) ↔
      Number.Separated range) :=
  ⟨⟨separated_of_equivalence, equivalence_equal⟩, separated_of_isStrictOrder, isStrictOrder_less⟩

/-- The integer `2 ^ 53 + 1` is rounded to `2 ^ 53`, so that neither equality nor order is
transitive from there on. -/
theorem not_transitive_of_rounded :
    let next : Number := .int (2 ^ 53 + 1) (by decide)
    let rounded : Number := .float (.ofInt (2 ^ 53))
    let whole : Number := .int (2 ^ 53) (by decide)
    ((Json.number next).equal (.number rounded) = true ∧
      (Json.number rounded).equal (.number whole) = true ∧
      (Json.number next).equal (.number whole) = false) ∧
    (padded next 0).order? (padded rounded 1) = some .lt ∧
      (padded rounded 1).order? (padded whole 2) = some .lt ∧
      (padded next 0).order? (padded whole 2) = some .gt := by
  decide +kernel

end Json

end DocQuery
