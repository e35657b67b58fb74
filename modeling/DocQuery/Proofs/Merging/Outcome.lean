import DocQuery.Proofs.Merging.Members

/-!
# What comes out of a merge

A merge fails for one reason only: somewhere an array or an object comes in where there is
something of another kind. A scalar that comes in under a key never fails, whatever it replaces,
while an array or an object that comes in over a scalar always does. So the two sides play
different parts, and success at a key depends on the values of that key alone.

* `Json.exists_merge_object_iff`: when two objects can be merged, told by their keys.
* `Json.error_of_merge`: the one error that a merge may end with.
* `Json.outcome_of_mergeOptional`: success, result and failure of every merge.
-/

namespace DocQuery

namespace Json

/-- Whether the values are two arrays or two objects. -/
def sameKind : Json → Json → Bool
  | .array _, .array _ => true
  | .object _, .object _ => true
  | _, _ => false

/-- Only containers of the same kind can be merged. -/
theorem sameKind_of_merge {base incoming merged : Json} (h : base.merge incoming = .ok merged) :
    base.sameKind incoming = true := by
  rcases exists_of_merge_eq_ok h with ⟨_, _, rfl, rfl, -⟩ | ⟨_, _, _, rfl, rfl, -⟩
  · rfl
  · rfl

/-! ## Success -/

/-- A value that comes in is absorbed unless it is an array or an object that cannot be merged with
what was there. -/
theorem exists_absorb_iff {value : Json} (hvalue : value.KeysDistinct) (old : Option Json) :
    (∃ merged, absorb old value = .ok merged) ↔
      ∀ base, old = some base → value.isContainer = true →
        base.sameKind value = true ∧ ∃ merged, base.merge value = .ok merged := by
  cases hcontainer : value.isContainer with
  | false => simp [absorb_scalar hcontainer]
  | true =>
    rcases old with _ | base
    · simp [absorb_none hvalue]
    · rw [absorb_container hcontainer, Option.getD_some]
      constructor
      · rintro ⟨merged, hmerged⟩ _ ⟨⟩ -
        exact ⟨sameKind_of_merge hmerged, merged, hmerged⟩
      · intro h
        exact (h base rfl rfl).2

/-- Objects can be merged if, under each key that both of them have, an array or an object comes in
over one of its kind that it can be merged with. -/
theorem exists_merge_object_iff {members more : Members} (hmore : (object more).KeysDistinct) :
    (∃ merged, (object members).merge (.object more) = .ok merged) ↔
      ∀ key old value, members.get? key = some old → more.get? key = some value →
        value.isContainer = true →
          old.sameKind value = true ∧ ∃ merged, old.merge value = .ok merged := by
  obtain ⟨hkeys, -⟩ := id hmore
  have hnodup := hkeys more rfl
  have hmembers : (∃ merged, (object members).merge (.object more) = .ok merged) ↔
      ∃ result, mergeMembers members more = .ok result := by
    rw [merge_object]
    cases mergeMembers members more <;> simp [Except.map]
  rw [hmembers, exists_mergeMembers_iff hnodup]
  constructor
  · intro h key old value hold hvalue
    have hmem := (Members.get?_eq_some_iff hnodup).1 hvalue
    exact (exists_absorb_iff (hmore.get? hvalue) _).1 (h _ hmem) old hold
  · intro h member hmem
    have hvalue := (Members.get?_eq_some_iff hnodup).2 hmem
    exact (exists_absorb_iff (hmore.get? hvalue) _).2 fun old hold => h _ old _ hold hvalue

/-- Values can be merged if they are two arrays or two objects that can be merged. -/
theorem exists_merge_iff {base incoming : Json} (hincoming : incoming.KeysDistinct) :
    (∃ merged, base.merge incoming = .ok merged) ↔
      (∃ items more, base = .array items ∧ incoming = .array more) ∨
        ∃ members more : Members, base = .object members ∧ incoming = .object more ∧
          ∀ key old value, members.get? key = some old → more.get? key = some value →
            value.isContainer = true →
              old.sameKind value = true ∧ ∃ merged, old.merge value = .ok merged := by
  constructor
  · rintro ⟨merged, hmerged⟩
    obtain ⟨items, more, rfl, rfl, -⟩ | ⟨members, more, _, rfl, rfl, -⟩ :=
      exists_of_merge_eq_ok hmerged
    · exact .inl ⟨items, more, rfl, rfl⟩
    · exact .inr ⟨members, more, rfl, rfl, (exists_merge_object_iff hincoming).1 ⟨merged, hmerged⟩⟩
  · rintro (⟨items, more, rfl, rfl⟩ | ⟨members, more, rfl, rfl, h⟩)
    · exact ⟨_, merge_array items more⟩
    · exact (exists_merge_object_iff hincoming).2 h

/-! ## What comes out -/

/-- A value that comes in under a new key does not change, and no scalar does. -/
theorem absorb_eq_self {old : Option Json} {value : Json} (hvalue : value.KeysDistinct)
    (h : old = none ∨ value.isContainer = false) : absorb old value = .ok value := by
  rcases h with rfl | hscalar
  · exact absorb_none hvalue
  · exact absorb_scalar hscalar old

/-- What two merged objects are, key by key. -/
theorem exists_of_merge_object {members more : Members} (hmore : (object more).KeysDistinct)
    {merged : Json} (h : (object members).merge (.object more) = .ok merged) :
    ∃ result : Members, merged = .object result ∧ MergedInto members more result := by
  obtain ⟨hkeys, -⟩ := hmore
  rw [merge_object] at h
  cases hmembers : mergeMembers members more with
  | error error => simp [hmembers, Except.map] at h
  | ok result =>
    rw [hmembers] at h
    exact ⟨result, (Except.ok.inj h).symm, mergedInto_of_mergeMembers (hkeys more rfl) hmembers⟩

/-! ## Failure -/

/-- A scalar cannot be merged with anything. -/
theorem merge_scalar {incoming : Json} (h : incoming.isContainer = false) (base : Json) :
    base.merge incoming =
      .error (if base.isContainer then .differentKinds else .scalars base incoming) := by
  cases incoming with
  | array more => cases h
  | object more => cases h
  | _ =>
    rw [merge]
    · split <;> rfl
    all_goals simp

/-- Merging members fails where one of them cannot be absorbed. -/
theorem exists_of_mergeMembers_eq_error {members more : Members} {error : MergeError}
    (h : mergeMembers members more = .error error) :
    ∃ member ∈ more, ∃ old, absorb old member.2 = .error error := by
  induction more generalizing members with
  | nil => simp [mergeMembers] at h
  | cons member more ih =>
    obtain ⟨key, value⟩ := member
    rw [mergeMembers_cons] at h
    cases habsorb : absorb (members.get? key) value with
    | error other =>
      rw [habsorb] at h
      obtain rfl := Except.error.inj h
      exact ⟨(key, value), List.mem_cons_self, _, habsorb⟩
    | ok merged =>
      rw [habsorb] at h
      obtain ⟨found, hmem, hfound⟩ := ih h
      exact ⟨found, List.mem_cons_of_mem _ hmem, hfound⟩

/-- A merge that fails reports two simple values if it was given such, and different kinds in all
other cases, at whatever depth it failed. -/
theorem error_of_merge {base incoming : Json} {error : MergeError}
    (h : base.merge incoming = .error error) :
    error = if base.isContainer || incoming.isContainer then .differentKinds
      else .scalars base incoming := by
  induction incoming using Json.inductionOn generalizing base error with
  | array more =>
    cases base with
    | array items => simp [merge_array] at h
    | _ => simpa [merge, isContainer, eq_comm] using h
  | object more ih =>
    cases base with
    | object members =>
      rw [merge_object] at h
      cases hmembers : mergeMembers members more with
      | ok result => simp [hmembers, Except.map] at h
      | error inner =>
        rw [hmembers] at h
        obtain rfl := Except.error.inj h
        obtain ⟨member, hmem, old, habsorb⟩ := exists_of_mergeMembers_eq_error hmembers
        -- only an array or an object fails to be absorbed, so the error tells of kinds
        cases hvalue : member.2.isContainer with
        | false => simp [absorb_scalar hvalue] at habsorb
        | true =>
          rw [absorb_container hvalue] at habsorb
          rw [ih member hmem habsorb, hvalue, Bool.or_true]
          rfl
    | _ => simpa [merge, isContainer, eq_comm] using h
  | _ =>
    rw [merge_scalar rfl] at h
    rw [← Except.error.inj h]
    cases base.isContainer <;> rfl

/-! ## Every merge -/

/-- Values that are there can be merged if they can be merged as such. -/
theorem exists_mergeOptional_iff {base incoming : Json} :
    (∃ merged, mergeOptional (some base) (some incoming) = .ok merged) ↔
      ∃ merged, base.merge incoming = .ok merged := by
  simp [mergeOptional_some_some]

/-- Merging values that are there fails as merging them as such does. -/
theorem merge_of_mergeOptional_eq_error {base incoming : Json} {error : MergeError}
    (h : mergeOptional (some base) (some incoming) = .error error) :
    base.merge incoming = .error error := by
  rw [mergeOptional] at h
  cases hmerge : base.merge incoming with
  | ok merged => simp [hmerge, Except.map] at h
  | error other =>
    rw [hmerge] at h
    obtain rfl := Except.error.inj h
    rfl

/-- A merge succeeds exactly for two arrays, and for two objects if, under each key that both of
them have, an array or an object comes in over one of its kind that it can be merged with. Arrays
are put one after the other. An object keeps its keys in order, and the new ones follow in theirs. A
key keeps its value if nothing comes in under it; it has the value that comes in, as it is, if the
key is new or the value a scalar; and it has the merge of the two values otherwise. A merge that
fails tells of simple values only if it was given two of them. -/
theorem outcome_of_mergeOptional (base : Json) (incoming : Document) :
    ((∃ merged, mergeOptional (some base) (some incoming.root) = .ok merged) ↔
      (∃ items more, base = .array items ∧ incoming.root = .array more) ∨
        ∃ members more : Members, base = .object members ∧ incoming.root = .object more ∧
          ∀ key old value, members.get? key = some old → more.get? key = some value →
            value.isContainer = true → old.sameKind value = true ∧
              ∃ merged, mergeOptional (some old) (some value) = .ok merged) ∧
    (∀ items more, base = .array items → incoming.root = .array more →
      mergeOptional (some base) (some incoming.root) = .ok (some (.array (items ++ more)))) ∧
    (∀ (members more : Members) (merged : Option Json), base = .object members →
      incoming.root = .object more → mergeOptional (some base) (some incoming.root) = .ok merged →
      ∃ result : Members, merged = some (.object result) ∧
        result.map (·.1) = members.map (·.1) ++ (more.map (·.1)).filter (· ∉ members.map (·.1)) ∧
        (∀ key, more.get? key = none → result.get? key = members.get? key) ∧
        ∀ key value, more.get? key = some value →
          (members.get? key = none ∨ value.isContainer = false → result.get? key = some value) ∧
          ∀ old, members.get? key = some old → value.isContainer = true →
            ∃ inner, mergeOptional (some old) (some value) = .ok (some inner) ∧
              result.get? key = some inner) ∧
    ∀ error, mergeOptional (some base) (some incoming.root) = .error error →
      (error = if base.isContainer || incoming.root.isContainer then .differentKinds
        else .scalars base incoming.root) ∧
      error.message =
        if base.isContainer || incoming.root.isContainer then
          "Merge error: Cannot merge objects of different types"
        else
          "Merge error: Cannot merge simple values " ++ base.render .compact ++ " and " ++
            incoming.root.render .compact := by
  obtain ⟨incoming, hincoming⟩ := incoming
  dsimp only
  refine ⟨?_, ?_, ?_, ?_⟩
  · simp only [exists_mergeOptional_iff]
    exact exists_merge_iff hincoming
  · rintro items more rfl rfl
    rw [mergeOptional_some_some]
    exact ⟨_, merge_array items more, rfl⟩
  · rintro members more merged rfl rfl h
    obtain ⟨_, hmerged, rfl⟩ := mergeOptional_some_some.1 h
    obtain ⟨result, rfl, hinto⟩ := exists_of_merge_object hincoming hmerged
    refine ⟨result, rfl, hinto.keys_eq, hinto.get?_of_absent, fun key value hvalue => ?_⟩
    obtain ⟨inner, habsorb, hinner⟩ := hinto.get?_of_present key value hvalue
    constructor
    · intro h
      rw [absorb_eq_self (hincoming.get? hvalue) h] at habsorb
      obtain rfl := Except.ok.inj habsorb
      exact hinner
    · intro old hold hcontainer
      rw [hold, absorb_container hcontainer] at habsorb
      exact ⟨inner, mergeOptional_some_some.2 ⟨inner, habsorb, rfl⟩, hinner⟩
  · intro error h
    rw [error_of_merge (merge_of_mergeOptional_eq_error h)]
    refine ⟨rfl, ?_⟩
    split
    · rfl
    · rfl

/-- A scalar comes in over an object, an array over an array, and an object under a new key. -/
theorem outcome_of_mergeOptional_nested :
    let members : Members := [("a", .object [("x", .null)]), ("b", .array [.null])]
    let incoming : Document := ⟨.object [("b", .array [.bool true]),
      ("c", .object [("y", .array [])]), ("a", .bool false)], by decide⟩
    ∃ result : Members,
      mergeOptional (some (.object members)) (some incoming.root) = .ok (some (.object result)) ∧
      result.map (·.1) = ["a", "b", "c"] ∧
      result.get? "a" = some (.bool false) ∧
      result.get? "b" = some (.array [.null, .bool true]) ∧
      result.get? "c" = some (.object [("y", .array [])]) := by
  intro members incoming
  obtain ⟨-, -, hobjects, -⟩ := outcome_of_mergeOptional (.object members) incoming
  have hmerged : mergeOptional (some (.object members)) (some incoming.root) =
      .ok (some (.object [("a", .bool false), ("b", .array [.null, .bool true]),
        ("c", .object [("y", .array [])])])) := rfl
  obtain ⟨result, hresult, hkeys, -, hpresent⟩ := hobjects members _ _ rfl rfl hmerged
  refine ⟨result, hresult ▸ hmerged, hkeys, ?_, ?_, ?_⟩
  · exact (hpresent "a" (.bool false) rfl).1 (.inr rfl)
  · obtain ⟨inner, hinner, hfound⟩ :=
      (hpresent "b" (.array [.bool true]) rfl).2 (.array [.null]) rfl rfl
    rw [hfound, ← Except.ok.inj hinner]
    rfl
  · exact (hpresent "c" (.object [("y", .array [])]) rfl).1 (.inl rfl)

end Json

end DocQuery
