import DocQuery.Proofs.Merging.Members

/-!
# Merging in groups

Merging is not symmetric, and it fails for some values, so it has to be asked whether several
values may be merged in groups. Merging from the left is the way that succeeds least often: where
it does, a scalar that comes in last has hidden nothing that could not be merged before. The
argument is the one for a single key, `Json.absorbOptional_regroup`, and members are merged key by
key.

* `Json.mergeMembers_eq_ok_iff`: merged members, told by their keys and the value of each.
* `Json.merge_regroup`: the last two of three values may be merged first.
* `Document.mergeOptional_regroup`: documents that can be merged from the left can be merged in all
  groupings, with the same result.
-/

namespace DocQuery

namespace Json

/-! ## What a key is left with if something may come in -/

/-- What a key has after a value may have come in under it. -/
def absorbOptional (old : Option Json) : Option Json → Except MergeError (Option Json)
  | none => .ok old
  | some value => (absorb old value).map some

/-- A value that comes in is absorbed, and a value is there afterwards. -/
theorem absorbOptional_some_eq_ok_iff {old result : Option Json} {value : Json} :
    absorbOptional old (some value) = .ok result ↔
      ∃ merged, absorb old value = .ok merged ∧ result = some merged := by
  rw [absorbOptional]
  cases absorb old value <;> simp [Except.map, eq_comm]

/-- Members can be merged exactly if what comes in under each key can be absorbed, and a key that
has none keeps its value. -/
theorem exists_mergeMembers_iff_forall_key {members more : Members}
    (hmore : (more.map (·.1)).Nodup) :
    (∃ result, mergeMembers members more = .ok result) ↔
      ∀ key, ∃ merged, absorbOptional (members.get? key) (more.get? key) = .ok merged := by
  rw [exists_mergeMembers_iff hmore]
  constructor
  · intro h key
    cases hget : Members.get? more key with
    | none => exact ⟨_, rfl⟩
    | some value =>
      obtain ⟨merged, hmerged⟩ := h (key, value) ((Members.get?_eq_some_iff hmore).1 hget)
      exact ⟨some merged, absorbOptional_some_eq_ok_iff.2 ⟨merged, hmerged, rfl⟩⟩
  · intro h member hmem
    obtain ⟨result, hresult⟩ := h member.1
    rw [(Members.get?_eq_some_iff hmore).2 hmem] at hresult
    obtain ⟨merged, hmerged, -⟩ := absorbOptional_some_eq_ok_iff.1 hresult
    exact ⟨merged, hmerged⟩

/-- Each key of merged members has absorbed what came in under it. -/
theorem MergedInto.absorbOptional_get? {members more result : Members}
    (h : MergedInto members more result) (key : String) :
    absorbOptional (members.get? key) (more.get? key) = .ok (result.get? key) := by
  cases hget : Members.get? more key with
  | none => rw [h.get?_of_absent key hget, absorbOptional]
  | some value => exact absorbOptional_some_eq_ok_iff.2 (h.get?_of_present key value hget)

/-- Merged members are determined by their keys, in order, and by what each of these is left with.
-/
theorem mergeMembers_eq_ok_iff {members more result : Members}
    (hmembers : (members.map (·.1)).Nodup) (hmore : (more.map (·.1)).Nodup) :
    mergeMembers members more = .ok result ↔
      result.map (·.1) = members.map (·.1) ++ (more.map (·.1)).filter (· ∉ members.map (·.1)) ∧
        ∀ key, absorbOptional (members.get? key) (more.get? key) = .ok (result.get? key) := by
  constructor
  · intro h
    have hinto := mergedInto_of_mergeMembers hmore h
    exact ⟨hinto.keys_eq, hinto.absorbOptional_get?⟩
  · rintro ⟨hnames, hget⟩
    obtain ⟨other, hother⟩ :=
      (exists_mergeMembers_iff_forall_key hmore).2 fun key => ⟨_, hget key⟩
    have hinto := mergedInto_of_mergeMembers hmore hother
    -- the members that come out are known by their keys, in order, and the values of these
    rw [hother]
    congr 1
    apply Members.eq_of_get?_eq
    · rw [hnames, ← hinto.keys_eq]
      exact hinto.nodup hmembers hmore
    · rw [hinto.keys_eq, hnames]
    · intro key
      exact Except.ok.inj ((hinto.absorbOptional_get? key).symm.trans (hget key))

/-! ## Three values -/

/-- The last two of three values may be merged first. -/
def Regroups (later : Json) : Prop :=
  ∀ base incoming merged result : Json, base.KeysDistinct → incoming.KeysDistinct →
    base.merge incoming = .ok merged → merged.merge later = .ok result →
    ∃ inner, incoming.merge later = .ok inner ∧ base.merge inner = .ok result

/-- A merge is of the kind of its base, and its kind is what an empty container tells. -/
theorem emptyLike_of_merge {base incoming merged : Json} (h : base.merge incoming = .ok merged) :
    merged.isContainer = true ∧ base.isContainer = true ∧ merged.emptyLike = base.emptyLike := by
  rcases exists_of_merge_eq_ok h with ⟨_, _, rfl, -, rfl⟩ | ⟨_, _, _, rfl, -, -, rfl⟩
  · exact ⟨rfl, rfl, rfl⟩
  · exact ⟨rfl, rfl, rfl⟩

/-- What comes in last may be absorbed by what comes in before it, and both of them together by what
was there. -/
theorem absorb_regroup {old : Option Json} {value later merged result : Json}
    (hlater : later.Regroups) (hold : ∀ base ∈ old, base.KeysDistinct) (hvalue : value.KeysDistinct)
    (hfirst : absorb old value = .ok merged) (hsecond : absorb (some merged) later = .ok result) :
    ∃ inner, absorb (some value) later = .ok inner ∧ absorb old inner = .ok result := by
  cases hcontainer : later.isContainer with
  | false =>
    -- a scalar hides whatever was there before
    rw [absorb_scalar hcontainer] at hsecond
    obtain rfl := Except.ok.inj hsecond
    exact ⟨later, absorb_scalar hcontainer _, absorb_scalar hcontainer _⟩
  | true =>
    rw [absorb_container hcontainer, Option.getD_some] at hsecond ⊢
    -- an array or an object cannot come in over a scalar
    have hbefore : value.isContainer = true := by
      by_contra hscalar
      rw [absorb_scalar (Bool.not_eq_true _ ▸ hscalar)] at hfirst
      obtain rfl := Except.ok.inj hfirst
      exact hscalar (emptyLike_of_merge hsecond).2.1
    rw [absorb_container hbefore] at hfirst
    have hbase := keysDistinct_getD_emptyLike hold value
    obtain ⟨inner, hinner, hresult⟩ := hlater _ _ _ _ hbase hvalue hfirst hsecond
    obtain ⟨hkind, -, hempty⟩ := emptyLike_of_merge hinner
    refine ⟨inner, hinner, ?_⟩
    rw [absorb_container hkind, hempty, hresult]

/-- The same if something may have been there, and may come in either time. -/
theorem absorbOptional_regroup {old value later merged result : Option Json}
    (hregroups : ∀ last ∈ later, last.Regroups) (hold : ∀ base ∈ old, base.KeysDistinct)
    (hvalue : ∀ incoming ∈ value, incoming.KeysDistinct)
    (hlater : ∀ last ∈ later, last.KeysDistinct)
    (hfirst : absorbOptional old value = .ok merged)
    (hsecond : absorbOptional merged later = .ok result) :
    ∃ inner, absorbOptional value later = .ok inner ∧ absorbOptional old inner = .ok result := by
  rcases later with _ | last
  · obtain rfl := Except.ok.inj hsecond
    exact ⟨value, rfl, hfirst⟩
  rcases value with _ | incoming
  · -- what comes in last comes in under a new key, and so does not change
    obtain rfl := Except.ok.inj hfirst
    refine ⟨some last, ?_, hsecond⟩
    rw [absorbOptional, absorb_none (hlater last rfl)]
    rfl
  · obtain ⟨first, habsorbed, rfl⟩ := absorbOptional_some_eq_ok_iff.1 hfirst
    obtain ⟨second, hall, rfl⟩ := absorbOptional_some_eq_ok_iff.1 hsecond
    obtain ⟨inner, hinner, hboth⟩ :=
      absorb_regroup (hregroups last rfl) hold (hvalue incoming rfl) habsorbed hall
    exact ⟨some inner, absorbOptional_some_eq_ok_iff.2 ⟨inner, hinner, rfl⟩,
      absorbOptional_some_eq_ok_iff.2 ⟨second, hboth, rfl⟩⟩

/-- New keys come in the same order if the last two of three lists of members are merged first. -/
theorem filter_keys_regroup (base incoming later : List String) :
    (base ++ incoming.filter (· ∉ base)) ++
        later.filter (· ∉ base ++ incoming.filter (· ∉ base)) =
      base ++ (incoming ++ later.filter (· ∉ incoming)).filter (· ∉ base) := by
  rw [List.filter_append, List.filter_filter, List.append_assoc]
  congr 2
  apply List.filter_congr
  intro key _
  simp only [List.mem_append, List.mem_filter]
  grind

/-- The last two of three lists of members may be merged first if that is so for each key alone. -/
theorem mergeMembers_regroup {members more rest both all : Members}
    (hmembers : (members.map (·.1)).Nodup) (hmore : (more.map (·.1)).Nodup)
    (hrest : (rest.map (·.1)).Nodup) (hboth : mergeMembers members more = .ok both)
    (hall : mergeMembers both rest = .ok all)
    (hregroup : ∀ key, ∃ inner,
      absorbOptional (more.get? key) (rest.get? key) = .ok inner ∧
        absorbOptional (members.get? key) inner = .ok (all.get? key)) :
    ∃ inner, mergeMembers more rest = .ok inner ∧ mergeMembers members inner = .ok all := by
  have hnames := (mergedInto_of_mergeMembers hmore hboth).keys_eq
  have hallNames := (mergedInto_of_mergeMembers hrest hall).keys_eq
  obtain ⟨inner, hinner⟩ := (exists_mergeMembers_iff_forall_key hrest).2 fun key =>
    (hregroup key).imp fun _ h => h.1
  have hinto := mergedInto_of_mergeMembers hrest hinner
  refine ⟨inner, hinner, ?_⟩
  rw [mergeMembers_eq_ok_iff hmembers (hinto.nodup hmore hrest)]
  constructor
  · rw [hallNames, hnames, hinto.keys_eq]
    exact filter_keys_regroup _ _ _
  · intro key
    -- what the key has in the middle is what was found for it alone
    obtain ⟨value, hvalue, hkey⟩ := hregroup key
    obtain rfl := Except.ok.inj (hvalue.symm.trans (hinto.absorbOptional_get? key))
    exact hkey

/-- The last two of three values that repeat no key may be merged first. -/
theorem merge_regroup {later : Json} (hlater : later.KeysDistinct) : later.Regroups := by
  induction hlater with
  | @intro later hkeys hchildren ih =>
    intro base incoming merged result hbase hincoming hfirst hsecond
    -- the three are all arrays or all objects, as each merge is of the kind of its base
    obtain ⟨items, more, rfl, rfl, rfl⟩ | ⟨members, more, both, rfl, rfl, hboth, rfl⟩ :=
      exists_of_merge_eq_ok hfirst
    · obtain ⟨_, rest, ⟨⟩, rfl, rfl⟩ | ⟨_, _, _, ⟨⟩, -⟩ := exists_of_merge_eq_ok hsecond
      refine ⟨_, merge_array more rest, ?_⟩
      rw [merge_array, List.append_assoc]
    · obtain ⟨_, _, ⟨⟩, -⟩ | ⟨_, rest, all, ⟨⟩, rfl, hall, rfl⟩ := exists_of_merge_eq_ok hsecond
      obtain ⟨hmembers, -⟩ := id hbase
      obtain ⟨hmore, -⟩ := id hincoming
      have hboth' := (mergedInto_of_mergeMembers (hmore more rfl) hboth).absorbOptional_get?
      have hall' := (mergedInto_of_mergeMembers (hkeys rest rfl) hall).absorbOptional_get?
      have hchild (last : Json) (key : String) (h : last ∈ Members.get? rest key) :
          last ∈ (object rest).children :=
        mem_children_of_get? h
      -- under each key stand three values, the last of which the induction hypothesis is about
      have hregroup (key : String) : ∃ inner,
          absorbOptional (Members.get? more key) (Members.get? rest key) = .ok inner ∧
            absorbOptional (Members.get? members key) inner = .ok (Members.get? all key) :=
        absorbOptional_regroup (fun last h => ih last (hchild last key h))
          (fun _ h => hbase.get? h) (fun _ h => hincoming.get? h)
          (fun last h => hchildren last (hchild last key h)) (hboth' key) (hall' key)
      obtain ⟨inner, hinner, hresult⟩ := mergeMembers_regroup (hmembers members rfl)
        (hmore more rfl) (hkeys rest rfl) hboth hall hregroup
      refine ⟨.object inner, ?_, ?_⟩
      · rw [merge_object, hinner]
        rfl
      · rw [merge_object, hresult]
        rfl

/-- The same if any of the three may be absent. -/
theorem exists_mergeOptional_regroup {base incoming later merged result : Option Json}
    (hbase : ∀ value ∈ base, value.KeysDistinct)
    (hincoming : ∀ value ∈ incoming, value.KeysDistinct)
    (hlater : ∀ value ∈ later, value.KeysDistinct)
    (hfirst : mergeOptional base incoming = .ok merged)
    (hsecond : mergeOptional merged later = .ok result) :
    ∃ inner, mergeOptional incoming later = .ok inner ∧ mergeOptional base inner = .ok result := by
  -- nothing happens in a merge with a value that is absent, whichever of the three it is
  rcases later with _ | last
  · rw [mergeOptional_none] at hsecond
    obtain rfl := Except.ok.inj hsecond
    exact ⟨incoming, mergeOptional_none _, hfirst⟩
  rcases base with _ | first
  · rw [none_mergeOptional] at hfirst
    obtain rfl := Except.ok.inj hfirst
    exact ⟨result, hsecond, none_mergeOptional _⟩
  rcases incoming with _ | second
  · rw [mergeOptional_none] at hfirst
    obtain rfl := Except.ok.inj hfirst
    exact ⟨some last, none_mergeOptional _, hsecond⟩
  · obtain ⟨both, hboth, rfl⟩ := mergeOptional_some_some.1 hfirst
    obtain ⟨all, hall, rfl⟩ := mergeOptional_some_some.1 hsecond
    obtain ⟨inner, hinner, hresult⟩ :=
      merge_regroup (hlater last rfl) _ _ _ _ (hbase first rfl) (hincoming second rfl) hboth hall
    exact ⟨some inner, mergeOptional_some_some.2 ⟨inner, hinner, rfl⟩,
      mergeOptional_some_some.2 ⟨all, hresult, rfl⟩⟩

end Json

namespace Document

/-- The last two of three documents may be merged first, if any of them may be absent. -/
theorem exists_mergeOptional_eq_ok_regroup {base incoming later merged result : Option Document}
    (hfirst : mergeOptional base incoming = .ok merged)
    (hsecond : mergeOptional merged later = .ok result) :
    ∃ inner, mergeOptional incoming later = .ok inner ∧ mergeOptional base inner = .ok result := by
  rw [mergeOptional_eq_ok_iff] at hfirst hsecond
  obtain ⟨_, hinner, hresult⟩ := Json.exists_mergeOptional_regroup keysDistinct_of_mem_map_root
    keysDistinct_of_mem_map_root keysDistinct_of_mem_map_root hfirst hsecond
  obtain ⟨inner, hmerged, rfl⟩ := exists_mergeOptional_eq_ok hinner
  exact ⟨inner, hmerged, mergeOptional_eq_ok_iff.2 hresult⟩

end Document

/-! ## Any number of documents -/

/-- Documents in a row, any of which may be absent, with the brackets that say which are merged
first. -/
inductive Grouping where
  /-- A single document. -/
  | value (found : Option Document)
  /-- Two groups, each of which is merged before it meets the other. -/
  | pair (first second : Grouping)

namespace Grouping

/-- The documents from left to right. -/
def values : Grouping → List (Option Document)
  | .value found => [found]
  | .pair first second => first.values ++ second.values

/-- Merges the documents as the brackets say. -/
def merge : Grouping → Except MergeError (Option Document)
  | .value found => .ok found
  | .pair first second => do
    let base ← first.merge
    let incoming ← second.merge
    Document.mergeOptional base incoming

/-- Both groups of a pair are merged, and then their results. -/
theorem merge_pair_eq_ok_iff {first second : Grouping} {result : Option Document} :
    (pair first second).merge = .ok result ↔
      ∃ base incoming, first.merge = .ok base ∧ second.merge = .ok incoming ∧
        Document.mergeOptional base incoming = .ok result := by
  simp only [merge, bind_eq_ok_iff, exists_and_left]

/-- What comes in from the left, document by document, may be merged as the brackets say before it
comes in. -/
theorem exists_merge_of_foldlM {grouping : Grouping} {base result : Option Document}
    (hresult : grouping.values.foldlM Document.mergeOptional base = .ok result) :
    ∃ inner, grouping.merge = .ok inner ∧ Document.mergeOptional base inner = .ok result := by
  induction grouping generalizing base result with
  | value found =>
    rw [values, List.foldlM_cons, bind_eq_ok_iff] at hresult
    obtain ⟨merged, hmerged, hlast⟩ := hresult
    obtain rfl := Except.ok.inj hlast
    exact ⟨found, rfl, hmerged⟩
  | pair first second ihfirst ihsecond =>
    rw [values, List.foldlM_append, bind_eq_ok_iff] at hresult
    obtain ⟨middle, hleft, hright⟩ := hresult
    -- the first group meets the base, the second what comes out, and then the brackets move
    obtain ⟨one, hone, hbaseone⟩ := ihfirst hleft
    obtain ⟨two, htwo, hmiddletwo⟩ := ihsecond hright
    obtain ⟨inner, hinner, hall⟩ :=
      Document.exists_mergeOptional_eq_ok_regroup hbaseone hmiddletwo
    exact ⟨inner, merge_pair_eq_ok_iff.2 ⟨one, two, hone, htwo, hinner⟩, hall⟩

end Grouping

/-- If three documents, any of which may be absent, can be merged from the left, then the last two
can be merged, and the first with what comes out, which gives the same result. So if any number of
documents can be merged from the left, they can be merged in every grouping, with the same result.
Results are the same with the order of keys at every depth. -/
theorem Document.mergeOptional_regroup :
    (∀ base incoming later merged result : Option Document,
      mergeOptional base incoming = .ok merged → mergeOptional merged later = .ok result →
      ∃ inner, mergeOptional incoming later = .ok inner ∧ mergeOptional base inner = .ok result) ∧
    ∀ (grouping : Grouping) (result : Option Document),
      grouping.values.foldlM mergeOptional none = .ok result → grouping.merge = .ok result := by
  constructor
  · intro base incoming later merged result hfirst hsecond
    exact exists_mergeOptional_eq_ok_regroup hfirst hsecond
  · intro grouping result hresult
    obtain ⟨inner, hinner, hmerged⟩ := Grouping.exists_merge_of_foldlM hresult
    rw [none_mergeOptional] at hmerged
    rw [hinner, hmerged]

/-- An object is merged over an object whose member a scalar has replaced, in both groupings. -/
theorem Document.mergeOptional_regroup_nested :
    let first : Document := ⟨.object [("a", .object [("x", .null)])], by decide⟩
    let second : Document := ⟨.object [("b", .array [.null]), ("a", .bool true)], by decide⟩
    let third : Document := ⟨.object [("c", .null), ("b", .array [.bool true])], by decide⟩
    let result : Document := ⟨.object
      [("a", .bool true), ("b", .array [.null, .bool true]), ("c", .null)], by decide⟩
    let grouping : Grouping := .pair (.value (some first))
      (.pair (.value none) (.pair (.value (some second)) (.value (some third))))
    grouping.values.foldlM mergeOptional none = .ok (some result) ∧
      grouping.merge = .ok (some result) := by
  intro first second third result grouping
  have hresult : grouping.values.foldlM mergeOptional none = .ok (some result) := rfl
  exact ⟨hresult, mergeOptional_regroup.2 grouping _ hresult⟩

end DocQuery
