import DocQuery.Json.Comparison
import DocQuery.Proofs.Selection.Nodes
import Mathlib.Data.List.Forall2
import Mathlib.Data.List.Perm.Subperm
import Mathlib.Data.Set.Defs
import Mathlib.Logic.Relation

/-!
# Deep equality

Deep equality of values is built on an equality of numbers and inherits its laws. It is reflexive
and symmetric only because no object repeats a key: equality looks up the keys of one object in
another one with as many members, and different keys leave none of those out. For the same reason
the order in which an object lists its members plays no part.

* `Json.equalBy_self`, `Json.equalBy_symm`, `Json.equalBy_trans`: the three laws.
* `Json.Reordered.equalBy`: reordering the members of objects, at any depth, keeps a value equal.
-/

namespace DocQuery

/-- If different keys are all found in an object with as many members, that object has no other
keys. -/
theorem Members.perm_keys {members others : Members} (hkeys : (members.map (·.1)).Nodup)
    (hlength : members.length = others.length)
    (hfound : ∀ member ∈ members, ∃ value, others.get? member.1 = some value) :
    (members.map (·.1)).Perm (others.map (·.1)) := by
  have hsubset : members.map (·.1) ⊆ others.map (·.1) := by
    intro key hkey
    obtain ⟨member, hmem, rfl⟩ := List.mem_map.1 hkey
    obtain ⟨value, hget⟩ := hfound member hmem
    exact List.mem_map_of_mem (f := (·.1)) (mem_of_get?_eq_some hget)
  -- pigeonhole: as many different keys as there are places
  refine (hkeys.subperm hsubset).perm_of_length_le ?_
  rw [List.length_map, List.length_map]
  exact Nat.le_of_eq hlength.symm

/-- Whether two numbers are one and the same, the two zeros told apart. -/
def Number.identical (x y : Number) : Bool := decide (x = y)

/-- Identical numbers are the same number. -/
theorem Number.identical_iff {x y : Number} : x.identical y = true ↔ x = y := decide_eq_true_iff

namespace Json

variable {numbers : Number → Number → Bool}

/-! ## What a value equals -/

/-- Only the null value equals the null value. -/
theorem equalBy_null_iff {b : Json} : equalBy numbers .null b = true ↔ b = .null := by
  cases b <;> simp [equalBy]

/-- Only the same truth value equals a truth value. -/
theorem equalBy_bool_iff {x : Bool} {b : Json} :
    equalBy numbers (.bool x) b = true ↔ b = .bool x := by
  cases b <;> simp [equalBy, eq_comm (a := x)]

/-- Only the same text equals a text. -/
theorem equalBy_string_iff {x : String} {b : Json} :
    equalBy numbers (.string x) b = true ↔ b = .string x := by
  cases b <;> simp [equalBy, eq_comm (a := x)]

/-- A number equals those numbers that the equality of numbers says. -/
theorem equalBy_number_iff {x : Number} {b : Json} :
    equalBy numbers (.number x) b = true ↔ ∃ y, b = .number y ∧ numbers x y = true := by
  cases b <;> simp [equalBy]

/-- An array equals the arrays of its length with equal items at equal places. -/
theorem equalBy_array_iff {items : List Json} {b : Json} :
    equalBy numbers (.array items) b = true ↔
      ∃ others, b = .array others ∧ items.length = others.length ∧
        ∀ place (h : place < items.length) (h' : place < others.length),
          equalBy numbers items[place] others[place] = true := by
  have hitems (others : List Json) : itemsEqualBy numbers items others = true ↔
      List.Forall₂ (fun a b => equalBy numbers a b = true) items others := by
    induction items generalizing others with
    | nil => cases others <;> simp [itemsEqualBy]
    | cons item items ih => cases others <;> simp [itemsEqualBy, ih]
  cases b with
  | array others => simp [equalBy, hitems, List.forall₂_iff_get]
  | _ => simp [equalBy]

/-- An object equals the objects with as many members that have an equal value for each of its
keys. -/
theorem equalBy_object_iff {members : Members} {b : Json} :
    equalBy numbers (.object members) b = true ↔
      ∃ others : Members, b = .object others ∧ members.length = others.length ∧
        ∀ member ∈ members, ∃ value,
          others.get? member.1 = some value ∧ equalBy numbers member.2 value = true := by
  have hmembers (others : Members) : membersFoundBy numbers members others = true ↔
      ∀ member ∈ members,
        ∃ value, others.get? member.1 = some value ∧ equalBy numbers member.2 value = true := by
    induction members with
    | nil => simp [membersFoundBy]
    | cons member members ih =>
      rw [membersFoundBy, Bool.and_eq_true, ih, List.forall_mem_cons]
      cases others.get? member.1 <;> simp
  cases b with
  | object others => simp [equalBy, hmembers]
  | _ => simp [equalBy]

/-! ## The laws of an equality -/

/-- A value that repeats no key equals itself if numbers do. -/
theorem equalBy_self (hnumbers : ∀ x, numbers x x = true) {value : Json} (h : value.KeysDistinct) :
    equalBy numbers value value = true := by
  induction h with
  | @intro value hkeys _ ih =>
    cases value with
    | null => exact equalBy_null_iff.2 rfl
    | bool x => exact equalBy_bool_iff.2 rfl
    | string x => exact equalBy_string_iff.2 rfl
    | number x => exact equalBy_number_iff.2 ⟨x, rfl, hnumbers x⟩
    | array items =>
      exact equalBy_array_iff.2 ⟨items, rfl, rfl, fun place h _ => ih _ (List.getElem_mem h)⟩
    | object members =>
      -- a key that occurs once leads back to its own member
      refine equalBy_object_iff.2 ⟨members, rfl, rfl, fun member hmem => ⟨member.2, ?_, ?_⟩⟩
      · exact (Members.get?_eq_some_iff (hkeys members rfl)).2 hmem
      · exact ih _ (List.mem_map_of_mem (f := (·.2)) hmem)

/-- A weaker equality of numbers makes a weaker equality of values. -/
theorem equalBy_mono {weaker : Number → Number → Bool}
    (hnumbers : ∀ x y, numbers x y = true → weaker x y = true) {a b : Json}
    (h : equalBy numbers a b = true) : equalBy weaker a b = true := by
  induction a using Json.inductionOn generalizing b with
  | null => exact equalBy_null_iff.2 (equalBy_null_iff.1 h)
  | bool x => exact equalBy_bool_iff.2 (equalBy_bool_iff.1 h)
  | string x => exact equalBy_string_iff.2 (equalBy_string_iff.1 h)
  | number x =>
    obtain ⟨y, rfl, hxy⟩ := equalBy_number_iff.1 h
    exact equalBy_number_iff.2 ⟨y, rfl, hnumbers x y hxy⟩
  | array items ih =>
    obtain ⟨others, rfl, hlength, hitems⟩ := equalBy_array_iff.1 h
    exact equalBy_array_iff.2 ⟨others, rfl, hlength,
      fun place h h' => ih _ (List.getElem_mem h) (hitems place h h')⟩
  | object members ih =>
    obtain ⟨others, rfl, hlength, hmembers⟩ := equalBy_object_iff.1 h
    refine equalBy_object_iff.2 ⟨others, rfl, hlength, fun member hmem => ?_⟩
    obtain ⟨value, hget, hvalue⟩ := hmembers member hmem
    exact ⟨value, hget, ih member hmem hvalue⟩

/-- Two values that repeat no key are equal in both directions if numbers are. -/
theorem equalBy_symm (hnumbers : ∀ x y, numbers x y = true → numbers y x = true) {a b : Json}
    (ha : a.KeysDistinct) (hb : b.KeysDistinct) (h : equalBy numbers a b = true) :
    equalBy numbers b a = true := by
  induction ha generalizing b with
  | @intro a hkeys _ ih =>
    obtain ⟨hkeys', hb⟩ := hb
    cases a with
    | null =>
      obtain rfl := equalBy_null_iff.1 h
      exact h
    | bool x =>
      obtain rfl := equalBy_bool_iff.1 h
      exact h
    | string x =>
      obtain rfl := equalBy_string_iff.1 h
      exact h
    | number x =>
      obtain ⟨y, rfl, hxy⟩ := equalBy_number_iff.1 h
      exact equalBy_number_iff.2 ⟨x, rfl, hnumbers x y hxy⟩
    | array items =>
      obtain ⟨others, rfl, hlength, hitems⟩ := equalBy_array_iff.1 h
      refine equalBy_array_iff.2 ⟨items, rfl, hlength.symm, fun place h h' => ?_⟩
      exact ih _ (List.getElem_mem h') (hb _ (List.getElem_mem h)) (hitems place h' h)
    | object members =>
      obtain ⟨others, rfl, hlength, hmembers⟩ := equalBy_object_iff.1 h
      have hnames := Members.perm_keys (hkeys members rfl) hlength
        fun member hmem => (hmembers member hmem).imp fun _ => And.left
      refine equalBy_object_iff.2 ⟨members, rfl, hlength.symm, fun other hother => ?_⟩
      -- the key is one of those that were looked up, and what was found is its only value
      obtain ⟨member, hmem, hname⟩ :=
        List.mem_map.1 (hnames.mem_iff.2 (List.mem_map_of_mem (f := (·.1)) hother))
      obtain ⟨value, hget, hvalue⟩ := hmembers member hmem
      rw [hname, (Members.get?_eq_some_iff (hkeys' others rfl)).2 hother] at hget
      obtain rfl := Option.some.inj hget
      refine ⟨member.2, (Members.get?_eq_some_iff (hkeys members rfl)).2 (hname ▸ hmem), ?_⟩
      exact ih _ (List.mem_map_of_mem (f := (·.2)) hmem)
        (hb _ (List.mem_map_of_mem (f := (·.2)) hother)) hvalue

/-- All numbers in the value, at any depth, are among the given ones. -/
inductive NumbersIn (range : Set Number) : Json → Prop
  | intro {value : Json} (hnumber : ∀ x, value = .number x → x ∈ range)
      (hchildren : ∀ child ∈ value.children, NumbersIn range child) : NumbersIn range value

/-- Equality of values is transitive if equality of the numbers in them is. -/
theorem equalBy_trans {range : Set Number}
    (hnumbers : ∀ x ∈ range, ∀ y ∈ range, ∀ z ∈ range, numbers x y = true → numbers y z = true →
      numbers x z = true)
    {a b c : Json} (ha : a.NumbersIn range) (hb : b.NumbersIn range) (hc : c.NumbersIn range)
    (hab : equalBy numbers a b = true) (hbc : equalBy numbers b c = true) :
    equalBy numbers a c = true := by
  induction ha generalizing b c with
  | @intro a hx _ ih =>
    cases a with
    | null =>
      obtain rfl := equalBy_null_iff.1 hab
      exact hbc
    | bool x =>
      obtain rfl := equalBy_bool_iff.1 hab
      exact hbc
    | string x =>
      obtain rfl := equalBy_string_iff.1 hab
      exact hbc
    | number x =>
      obtain ⟨hy, -⟩ := hb
      obtain ⟨hz, -⟩ := hc
      obtain ⟨y, rfl, hxy⟩ := equalBy_number_iff.1 hab
      obtain ⟨z, rfl, hyz⟩ := equalBy_number_iff.1 hbc
      refine equalBy_number_iff.2 ⟨z, rfl, ?_⟩
      exact hnumbers x (hx x rfl) y (hy y rfl) z (hz z rfl) hxy hyz
    | array items =>
      obtain ⟨-, hb⟩ := hb
      obtain ⟨-, hc⟩ := hc
      obtain ⟨others, rfl, hlength, hitems⟩ := equalBy_array_iff.1 hab
      obtain ⟨more, rfl, hlength', hothers⟩ := equalBy_array_iff.1 hbc
      refine equalBy_array_iff.2 ⟨more, rfl, hlength.trans hlength', fun place h h' => ?_⟩
      have hplace : place < others.length := hlength ▸ h
      exact ih _ (List.getElem_mem h) (hb _ (List.getElem_mem hplace)) (hc _ (List.getElem_mem h'))
        (hitems place h hplace) (hothers place hplace h')
    | object members =>
      obtain ⟨-, hb⟩ := hb
      obtain ⟨-, hc⟩ := hc
      obtain ⟨others, rfl, hlength, hmembers⟩ := equalBy_object_iff.1 hab
      obtain ⟨more, rfl, hlength', hothers⟩ := equalBy_object_iff.1 hbc
      refine equalBy_object_iff.2 ⟨more, rfl, hlength.trans hlength', fun member hmem => ?_⟩
      -- the member that is found in the second object is looked up in the third
      obtain ⟨value, hget, hvalue⟩ := hmembers member hmem
      have hother := Members.mem_of_get?_eq_some hget
      obtain ⟨last, hlast, hequal⟩ := hothers _ hother
      have hmore := Members.mem_of_get?_eq_some hlast
      exact ⟨last, hlast, ih _ (List.mem_map_of_mem (f := (·.2)) hmem)
        (hb _ (List.mem_map_of_mem (f := (·.2)) hother))
        (hc _ (List.mem_map_of_mem (f := (·.2)) hmore)) hvalue hequal⟩

/-- All numbers are among all numbers. -/
theorem numbersIn_univ (value : Json) : value.NumbersIn Set.univ := by
  induction value using Json.inductionOn with
  | array items ih => exact .intro (fun _ _ => trivial) ih
  | object members ih =>
    exact .intro (fun _ _ => trivial) (List.forall_mem_map.2 ih)
  | _ => exact .intro (fun _ _ => trivial) (List.forall_mem_nil _)

/-! ## Reordering members -/

/-- One object in the value, at any depth, lists its members in another order. -/
inductive Reorders : Json → Json → Prop
  | members {members others : Members} (h : members.Perm others) :
      Reorders (.object members) (.object others)
  | item {before after : List Json} {item other : Json} (h : Reorders item other) :
      Reorders (.array (before ++ item :: after)) (.array (before ++ other :: after))
  | member {before after : Members} {key : String} {value other : Json} (h : Reorders value other) :
      Reorders (.object (before ++ (key, value) :: after))
        (.object (before ++ (key, other) :: after))

/-- The objects in the value, at any depth, list their members in other orders. -/
def Reordered : Json → Json → Prop := Relation.ReflTransGen Reorders

/-- Reordering the members of one object repeats no key and keeps a value equal. -/
theorem Reorders.keysDistinct_and_equalBy (hnumbers : ∀ x, numbers x x = true) {value other : Json}
    (h : Reorders value other) (hvalue : value.KeysDistinct) :
    other.KeysDistinct ∧ equalBy numbers value other = true := by
  obtain ⟨hkeys, hchildren⟩ := hvalue
  induction h with
  | @members members others h =>
    have hnames := (h.map _).nodup_iff.1 (hkeys _ rfl)
    have hvalues (member : String × Json) (hmem : member ∈ members) : member.2.KeysDistinct :=
      hchildren _ (List.mem_map_of_mem (f := (·.2)) hmem)
    refine ⟨keysDistinct_object hnames fun member hmem => hvalues _ (h.mem_iff.2 hmem), ?_⟩
    refine equalBy_object_iff.2 ⟨others, rfl, h.length_eq, fun member hmem => ⟨member.2, ?_, ?_⟩⟩
    · exact (Members.get?_eq_some_iff hnames).2 (h.mem_iff.1 hmem)
    · exact equalBy_self hnumbers (hvalues member hmem)
  | @item before after item other _ ih =>
    rw [children, List.forall_mem_append, List.forall_mem_cons] at hchildren
    obtain ⟨hbefore, ⟨hkeys, hchildren⟩, hafter⟩ := hchildren
    obtain ⟨hother, hequal⟩ := ih hkeys hchildren
    constructor
    · refine keysDistinct_array ?_
      exact List.forall_mem_append.2 ⟨hbefore, List.forall_mem_cons.2 ⟨hother, hafter⟩⟩
    · -- the items at the other places stay the same
      have hself : ∀ x ∈ before ++ after, equalBy numbers x x = true := fun x hx =>
        equalBy_self hnumbers (List.forall_mem_append.2 ⟨hbefore, hafter⟩ x hx)
      exact equalBy_array_iff.2 ⟨_, rfl, by simp, fun place h h' => by grind⟩
  | @member before after key value other _ ih =>
    rw [children, List.forall_mem_map, List.forall_mem_append, List.forall_mem_cons] at hchildren
    obtain ⟨hbefore, ⟨hkeys', hchildren⟩, hafter⟩ := hchildren
    obtain ⟨hother, hequal⟩ := ih hkeys' hchildren
    have hnames : ((before ++ (key, other) :: after).map (·.1)).Nodup := by
      simpa using hkeys _ rfl
    constructor
    · refine keysDistinct_object hnames ?_
      exact List.forall_mem_append.2 ⟨hbefore, List.forall_mem_cons.2 ⟨hother, hafter⟩⟩
    · refine equalBy_object_iff.2 ⟨_, rfl, by simp, fun member hmem => ?_⟩
      -- the member that changed is found under its key, and all others are found as they were
      simp only [Members.get?_eq_some_iff hnames]
      rcases List.mem_append.1 hmem with hmem | hmem
      · exact ⟨member.2, List.mem_append_left _ hmem, equalBy_self hnumbers (hbefore _ hmem)⟩
      rcases List.mem_cons.1 hmem with rfl | hmem
      · exact ⟨other, List.mem_append_right _ List.mem_cons_self, hequal⟩
      · exact ⟨member.2, List.mem_append_right _ (List.mem_cons_of_mem _ hmem),
          equalBy_self hnumbers (hafter _ hmem)⟩

/-- Equality of values with nothing but the number itself in the place of a number is transitive. -/
theorem equalBy_identical_trans {a b c : Json} (hab : equalBy Number.identical a b = true)
    (hbc : equalBy Number.identical b c = true) : equalBy Number.identical a c = true := by
  refine equalBy_trans ?_ a.numbersIn_univ b.numbersIn_univ c.numbersIn_univ hab hbc
  intro x _ y _ z _ hxy hyz
  rw [Number.identical_iff] at hxy hyz ⊢
  exact hxy.trans hyz

/-- Reordering the members of objects, at any depth, repeats no key and changes no number. -/
theorem Reordered.keysDistinct_and_equalBy {value other : Json} (h : Reordered value other)
    (hvalue : value.KeysDistinct) :
    other.KeysDistinct ∧ Json.equalBy Number.identical value other = true := by
  have hself (x : Number) : x.identical x = true := Number.identical_iff.2 rfl
  induction h with
  | refl => exact ⟨hvalue, equalBy_self hself hvalue⟩
  | tail _ hstep ih =>
    obtain ⟨hkeys, hequal⟩ := ih
    obtain ⟨hkeys', hequal'⟩ := hstep.keysDistinct_and_equalBy hself hkeys
    exact ⟨hkeys', equalBy_identical_trans hequal hequal'⟩

/-- Reordering the members of objects, at any depth, keeps a value equal. -/
theorem Reordered.equalBy (hnumbers : ∀ x, numbers x x = true) {value other : Json}
    (h : Reordered value other) (hvalue : value.KeysDistinct) :
    Json.equalBy numbers value other = true := by
  -- the numbers stay what they are, and so they are equal in every sense
  refine equalBy_mono (fun x y hxy => ?_) (h.keysDistinct_and_equalBy hvalue).2
  rw [Number.identical_iff.1 hxy]
  exact hnumbers y

end Json

end DocQuery
