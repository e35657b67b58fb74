import DocQuery.Document.Basic
import DocQuery.Proofs.Selection.Nodes

/-!
# Merging members

Members come in one after the other, and each is merged with what its key has by then. As they
repeat no key, none of them changes what another one finds. So the outcome can be told key by key,
without the order in which they come in: `Json.absorb` is what a single key is left with.

* `Members.eq_of_get?_eq`: members are their keys, in order, and the value of each.
* `Json.exists_mergeMembers_iff`, `Json.mergedInto_of_mergeMembers`: when members can be merged, and
  what they are then.
* `Json.absorb_none`: a value that comes in under a new key does not change.
-/

namespace DocQuery

namespace Members

/-- The first of some members has the value of its key. -/
theorem get?_cons (key : String) (value : Json) (more : Members) (other : String) :
    get? ((key, value) :: more) other = if other = key then some value else more.get? other := by
  rw [get?, List.lookup_cons]
  by_cases h : other = key
  · simp [h]
  · rw [beq_false_of_ne h, if_neg h]
    rfl

/-- A key has no value if it is none of the keys. -/
theorem get?_eq_none_iff {members : Members} {key : String} :
    members.get? key = none ↔ key ∉ members.map (·.1) := by
  rw [get?, List.lookup_eq_none_iff, List.mem_map]
  constructor
  · rintro h ⟨member, hmem, rfl⟩
    simpa using h member hmem
  · intro h member hmem
    rw [bne_iff_ne]
    rintro rfl
    exact h ⟨member, hmem, rfl⟩

/-- Each key of members that repeat none has the value that stands beside it. -/
theorem map_get?_keys {members : Members} (hkeys : (members.map (·.1)).Nodup) :
    (members.map (·.1)).map (fun key => (key, members.get? key)) =
      members.map fun member => (member.1, some member.2) := by
  rw [List.map_map]
  apply List.map_congr_left
  intro member hmem
  show (member.1, members.get? member.1) = _
  rw [(get?_eq_some_iff hkeys).2 hmem]

/-- Members that repeat no key are determined by their keys, in order, and the value of each. -/
theorem eq_of_get?_eq {members others : Members} (hkeys : (members.map (·.1)).Nodup)
    (hnames : others.map (·.1) = members.map (·.1))
    (hget : ∀ key, others.get? key = members.get? key) : others = members := by
  have hinjective : Function.Injective fun member : String × Json => (member.1, some member.2) := by
    rintro ⟨_, _⟩ ⟨_, _⟩ h
    simpa using h
  apply List.map_injective_iff.2 hinjective
  show others.map (fun member => (member.1, some member.2)) = _
  rw [← map_get?_keys (hnames ▸ hkeys), ← map_get?_keys hkeys, hnames]
  apply List.map_congr_left
  intro key _
  rw [hget]

end Members

namespace Json

/-! ## What a key is left with -/

/-- What a key has after a value has come in under it. A scalar takes the place of what was there;
an array or an object is merged with it, or into an empty container if the key is new. -/
def absorb (old : Option Json) (value : Json) : Except MergeError Json :=
  if value.isContainer then (old.getD value.emptyLike).merge value else .ok value

/-- A scalar takes the place of what was there. -/
theorem absorb_scalar {value : Json} (h : value.isContainer = false) (old : Option Json) :
    absorb old value = .ok value := by
  rw [absorb, if_neg (by simp [h])]

/-- An array or an object is merged with what was there. -/
theorem absorb_container {value : Json} (h : value.isContainer = true) (old : Option Json) :
    absorb old value = (old.getD value.emptyLike).merge value :=
  if_pos h

/-- The first member that comes in is absorbed before the others come in. -/
theorem mergeMembers_cons (members : Members) (key : String) (value : Json) (more : Members) :
    mergeMembers members ((key, value) :: more) =
      match absorb (members.get? key) value with
      | .ok merged => mergeMembers (members.put key merged) more
      | .error error => .error error := by
  rw [mergeMembers]
  by_cases hvalue : value.isContainer = true
  · rw [absorb_container hvalue]
    exact if_pos hvalue
  · rw [absorb_scalar (by simpa using hvalue)]
    exact if_neg hvalue

/-! ## Members key by key -/

/-- Members and incoming members, merged. -/
structure MergedInto (members more result : Members) : Prop where
  /-- The keys that were there keep their order, and the new ones follow in theirs. -/
  keys_eq : result.map (·.1) =
    members.map (·.1) ++ (more.map (·.1)).filter (· ∉ members.map (·.1))
  /-- A key under which nothing comes in keeps its value. -/
  get?_of_absent : ∀ key, more.get? key = none → result.get? key = members.get? key
  /-- A value that comes in is absorbed. -/
  get?_of_present : ∀ key value, more.get? key = some value →
    ∃ merged, absorb (members.get? key) value = .ok merged ∧ result.get? key = some merged

/-- A key that is put is the first of the new ones, unless it was there. -/
theorem keys_put_append (members : Members) {key : String} {names : List String}
    (h : key ∉ names) (merged : Json) :
    (members.put key merged).map (·.1) ++
        names.filter (· ∉ (members.put key merged).map (·.1)) =
      members.map (·.1) ++ (key :: names).filter (· ∉ members.map (·.1)) := by
  rw [Members.keys_put]
  by_cases hmem : key ∈ members.map (·.1)
  · rw [if_pos hmem, List.filter_cons_of_neg (by simpa using hmem)]
  · rw [if_neg hmem, List.filter_cons_of_pos (by simpa using hmem), List.append_assoc,
      List.singleton_append]
    congr 2
    apply List.filter_congr
    intro other hother
    have hne : other ≠ key := fun heq => h (heq ▸ hother)
    simp [hne]

/-- After the first member is absorbed, the others find under their keys what they found before. -/
theorem get?_put_of_mem {key : String} {value merged : Json} {more : Members}
    (hmore : (((key, value) :: more).map (·.1)).Nodup) (members : Members)
    {member : String × Json} (hmem : member ∈ more) :
    (members.put key merged).get? member.1 = members.get? member.1 := by
  rw [List.map_cons, List.nodup_cons] at hmore
  rw [Members.get?_put, if_neg]
  rintro rfl
  exact hmore.1 (List.mem_map_of_mem (f := (·.1)) hmem)

/-- Members can be merged exactly if each value that comes in can be absorbed. -/
theorem exists_mergeMembers_iff {members more : Members} (hmore : (more.map (·.1)).Nodup) :
    (∃ result, mergeMembers members more = .ok result) ↔
      ∀ member ∈ more, ∃ merged, absorb (members.get? member.1) member.2 = .ok merged := by
  -- by induction over what comes in; the members that it comes into change on the way
  induction more generalizing members with
  | nil => simp [mergeMembers]
  | cons member more ih =>
    obtain ⟨key, value⟩ := member
    rw [mergeMembers_cons, List.forall_mem_cons]
    cases habsorb : absorb (members.get? key) value with
    | error error => simp
    | ok merged =>
      rw [ih hmore.of_cons]
      constructor
      · intro h
        refine ⟨⟨merged, rfl⟩, fun other hother => ?_⟩
        rw [← get?_put_of_mem hmore members hother]
        exact h other hother
      · rintro ⟨-, h⟩ other hother
        rw [get?_put_of_mem hmore members hother]
        exact h other hother

/-- What merged members are, key by key. -/
theorem mergedInto_of_mergeMembers {members more result : Members}
    (hmore : (more.map (·.1)).Nodup) (h : mergeMembers members more = .ok result) :
    MergedInto members more result := by
  induction more generalizing members with
  | nil =>
    rw [mergeMembers] at h
    obtain rfl := Except.ok.inj h
    refine ⟨by simp, fun _ _ => rfl, ?_⟩
    rintro key value ⟨⟩
  | cons member more ih =>
    obtain ⟨key, value⟩ := member
    rw [mergeMembers_cons] at h
    cases habsorb : absorb (members.get? key) value with
    | error error => simp [habsorb] at h
    | ok merged =>
      rw [habsorb] at h
      obtain ⟨hkeys, habsent, hpresent⟩ := ih hmore.of_cons h
      have hnew : key ∉ more.map (·.1) := (List.nodup_cons.1 hmore).1
      have hnone : Members.get? more key = none := Members.get?_eq_none_iff.2 hnew
      -- what is known of the others is about the members after the first one has been put
      simp only [Members.get?_put] at habsent hpresent
      refine ⟨?_, fun other hother => ?_, fun other found hother => ?_⟩
      · rw [hkeys, keys_put_append members hnew]
        rfl
      · rw [Members.get?_cons] at hother
        by_cases heq : other = key
        · simp [heq] at hother
        · rw [if_neg heq] at hother
          rw [habsent other hother, if_neg heq]
      · rw [Members.get?_cons] at hother
        by_cases heq : other = key
        · -- no later member has the key
          subst heq
          rw [if_pos rfl] at hother
          obtain rfl := Option.some.inj hother
          exact ⟨merged, habsorb, by rw [habsent other hnone, if_pos rfl]⟩
        · rw [if_neg heq] at hother
          have hfound := hpresent other found hother
          rwa [if_neg heq] at hfound

/-! ## Values -/

/-- A value that comes in under a new key does not change, although an array or an object is merged
into an empty one. -/
theorem absorb_none {value : Json} (h : value.KeysDistinct) : absorb none value = .ok value := by
  induction h with
  | @intro value hkeys _ ih =>
    cases value with
    | array items => exact merge_array [] items
    | object members =>
      have hnodup := hkeys members rfl
      have habsorb (member : String × Json) (hmem : member ∈ members) :
          absorb (Members.get? [] member.1) member.2 = .ok member.2 :=
        ih _ (List.mem_map_of_mem (f := (·.2)) hmem)
      obtain ⟨result, hresult⟩ :=
        (exists_mergeMembers_iff hnodup).2 fun member hmem => ⟨_, habsorb member hmem⟩
      obtain ⟨hnames, habsent, hpresent⟩ := mergedInto_of_mergeMembers hnodup hresult
      -- all keys are new, and each of their values is left as it is
      have hsame : result = members := by
        apply Members.eq_of_get?_eq hnodup
        · simpa using hnames
        · intro key
          cases hget : Members.get? members key with
          | none => exact habsent key hget
          | some value =>
            obtain ⟨merged, hmerged, hfound⟩ := hpresent key value hget
            have hmem := (Members.get?_eq_some_iff hnodup).1 hget
            obtain rfl := Except.ok.inj (hmerged.symm.trans (habsorb _ hmem))
            exact hfound
      show (object []).merge (.object members) = _
      rw [merge_object, hresult, hsame]
      rfl
    | _ => exact absorb_scalar rfl none

/-! ## Keys of merged members -/

/-- The keys of merged members are different if those of either side are. -/
theorem MergedInto.nodup {members more result : Members} (h : MergedInto members more result)
    (hmembers : (members.map (·.1)).Nodup) (hmore : (more.map (·.1)).Nodup) :
    (result.map (·.1)).Nodup := by
  rw [h.keys_eq]
  refine List.nodup_append.2 ⟨hmembers, hmore.filter _, ?_⟩
  rintro key hkey _ hnew rfl
  exact of_decide_eq_true (List.mem_filter.1 hnew).2 hkey

end Json

end DocQuery
