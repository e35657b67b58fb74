import DocQuery.Json.Keys
import DocQuery.Json.Merge
import DocQuery.Json.Reader

/-!
# Documents

A document is a value in which no object repeats a key. What is read from a text is a document, as a
key that comes again takes the place of its first value, and what two documents are merged to is
one.

* `Json.keysDistinct_of_read?`, `Document.read?`: documents that are read.
* `Json.keysDistinct_of_merge`, `Document.mergeOptional`: documents that are merged.
-/

namespace DocQuery

/-- A value in which no object repeats a key. -/
@[ext]
structure Document where
  /-- The value. -/
  root : Json
  /-- No object in the value repeats a key. -/
  keysDistinct : root.KeysDistinct

/-! ## Documents that are read -/

namespace Json

/-- The object of members whose values repeat no key repeats no key. -/
theorem keysDistinct_settle {members : Members} (h : ∀ member ∈ members, member.2.KeysDistinct) :
    (object (settle members)).KeysDistinct := by
  -- the members are put one after the other into those that are settled already
  have hput (settled : Members) (hsettled : (object settled).KeysDistinct) :
      (object (members.foldl (fun settled member => Members.put settled member.1 member.2)
        settled)).KeysDistinct := by
    induction members generalizing settled with
    | nil => exact hsettled
    | cons member members ih =>
      obtain ⟨hvalue, hvalues⟩ := List.forall_mem_cons.1 h
      exact ih hvalues _ (hsettled.put hvalue member.1)
  exact hput [] (keysDistinct_object .nil (List.forall_mem_nil _))

/-- A value other than an array or an object is read. -/
theorem isContainer_of_readScalar? {cs : List Char} {reading : Reading Json cs}
    (h : readScalar? cs = some reading) : reading.result.isContainer = false := by
  unfold readScalar? at h
  split at h
  · cases h
    rfl
  · cases h
    rfl
  · cases h
    rfl
  · rw [Option.map_eq_some_iff] at h
    obtain ⟨_, -, rfl⟩ := h
    rfl
  · split at h
    · cases h
    · split at h <;> cases h
      rfl

/-- The value of a member repeats no key if no value that is read does. -/
theorem keysDistinct_of_readMember? {value : (cs : List Char) → Option (Reading Json cs)}
    (hvalue : ∀ {cs reading}, value cs = some reading → reading.result.KeysDistinct)
    {cs : List Char} {reading : Reading (String × Json) cs}
    (h : readMember? value cs = some reading) : reading.result.2.KeysDistinct := by
  rw [readMember?] at h
  split at h
  · cases h
  · split at h
    · split at h
      · cases h
      · rename_i hitem
        cases h
        exact hvalue hitem
    · cases h

/-- No object of a value that is read repeats a key. -/
theorem keysDistinct_of_readValue? {depth : Nat} {cs : List Char} {reading : Reading Json cs}
    (h : readValue? depth cs = some reading) : reading.result.KeysDistinct := by
  -- arrays and objects take one level of depth each, so their insides are read at a lower depth
  induction depth generalizing cs with
  | zero =>
    rw [readValue?, Option.map_eq_some_iff] at h
    obtain ⟨value, hvalue, rfl⟩ := h
    have hscalar := isContainer_of_readScalar? hvalue
    exact keysDistinct_of_not_isContainer hscalar
  | succ depth ih =>
    rw [readValue?] at h
    split at h <;> rw [Option.map_eq_some_iff] at h
    · obtain ⟨items, hitems, rfl⟩ := h
      exact keysDistinct_array (of_mem_readEnclosed? ih hitems)
    · obtain ⟨members, hmembers, rfl⟩ := h
      refine keysDistinct_settle (of_mem_readEnclosed? (fun hmember => ?_) hmembers)
      exact keysDistinct_of_readMember? ih hmember
    · obtain ⟨value, hvalue, rfl⟩ := h
      have hscalar := isContainer_of_readScalar? hvalue
      exact keysDistinct_of_not_isContainer hscalar

/-- No object of a value that is read from a text repeats a key. -/
theorem keysDistinct_of_read? {text : String} {value : Json} (h : read? text = some value) :
    value.KeysDistinct := by
  rw [read?] at h
  split at h
  · cases h
  · rename_i hreading
    split at h
    · cases h
      exact keysDistinct_of_readValue? hreading
    · cases h

end Json

/-- The document of a text. -/
def Document.read? (text : String) : Option Document :=
  (Json.read? text).pmap Document.mk fun _ h => Json.keysDistinct_of_read? h

/-- A text holds a document if it holds its value. -/
theorem Document.read?_eq_some_iff {text : String} {document : Document} :
    read? text = some document ↔ Json.read? text = some document.root := by
  rw [read?, Option.pmap_eq_some_iff]
  constructor
  · rintro ⟨value, -, h, rfl⟩
    exact h
  · intro h
    exact ⟨document.root, document.keysDistinct, h, rfl⟩

/-! ## Documents that are merged -/

namespace Json

/-- The empty container of any kind repeats no key. -/
theorem keysDistinct_emptyLike (value : Json) : value.emptyLike.KeysDistinct := by
  cases value with
  | array items => exact keysDistinct_array (List.forall_mem_nil _)
  | _ => exact keysDistinct_object .nil (List.forall_mem_nil _)

/-- What an array or an object is merged with repeats no key, whether it was there or is empty. -/
theorem keysDistinct_getD_emptyLike {old : Option Json} (hold : ∀ base ∈ old, base.KeysDistinct)
    (value : Json) : (old.getD value.emptyLike).KeysDistinct := by
  rcases old with _ | base
  · exact keysDistinct_emptyLike value
  · exact hold base rfl

/-- Merging members into an object that repeats no key yields one that does not, if no merge with
one of their values makes one. -/
theorem keysDistinct_of_mergeMembers {members more result : Members}
    (hmembers : (object members).KeysDistinct)
    (hvalues : ∀ member ∈ more, member.2.KeysDistinct ∧ ∀ base merged : Json, base.KeysDistinct →
      base.merge member.2 = .ok merged → merged.KeysDistinct)
    (h : mergeMembers members more = .ok result) : (object result).KeysDistinct := by
  induction more generalizing members with
  | nil =>
    rw [mergeMembers] at h
    cases h
    exact hmembers
  | cons member more ih =>
    obtain ⟨key, value⟩ := member
    obtain ⟨⟨hvalue, hmerge⟩, hvalues⟩ := List.forall_mem_cons.1 hvalues
    rw [mergeMembers] at h
    split at h
    · split at h
      · rename_i merged hmerged
        have hold : ∀ old ∈ members.get? key, old.KeysDistinct := fun _ hget => hmembers.get? hget
        have hbase := keysDistinct_getD_emptyLike hold value
        exact ih (hmembers.put (hmerge _ _ hbase hmerged) key) hvalues h
      · cases h
    · exact ih (hmembers.put hvalue key) hvalues h

/-- Merging values that repeat no key yields one that does not. -/
theorem keysDistinct_of_merge {base incoming merged : Json} (hbase : base.KeysDistinct)
    (hincoming : incoming.KeysDistinct) (h : base.merge incoming = .ok merged) :
    merged.KeysDistinct := by
  induction incoming using Json.inductionOn generalizing base merged with
  | array more =>
    obtain ⟨items, _, rfl, ⟨⟩, rfl⟩ | ⟨_, _, _, _, ⟨⟩, _⟩ := exists_of_merge_eq_ok h
    refine keysDistinct_array (List.forall_mem_append.2 ⟨?_, ?_⟩)
    · exact fun item hitem => hbase.of_mem_children hitem
    · exact fun item hitem => hincoming.of_mem_children hitem
  | object more ih =>
    obtain ⟨_, _, _, ⟨⟩, _⟩ | ⟨members, _, result, rfl, ⟨⟩, hresult, rfl⟩ := exists_of_merge_eq_ok h
    refine keysDistinct_of_mergeMembers hbase (fun member hmem => ?_) hresult
    have hvalue := hincoming.of_mem_children (List.mem_map_of_mem (f := (·.2)) hmem)
    exact ⟨hvalue, fun _ _ hold hmerged => ih member hmem hold hvalue hmerged⟩
  | _ => rcases exists_of_merge_eq_ok h with ⟨_, _, _, ⟨⟩, _⟩ | ⟨_, _, _, _, ⟨⟩, _⟩

/-- Merging values that repeat no key, either of which may be absent, yields none that does. -/
theorem keysDistinct_of_mergeOptional {base incoming merged : Option Json}
    (hbase : ∀ old ∈ base, old.KeysDistinct) (hincoming : ∀ value ∈ incoming, value.KeysDistinct)
    (h : mergeOptional base incoming = .ok merged) : ∀ result ∈ merged, result.KeysDistinct := by
  rcases base with _ | old
  · rw [none_mergeOptional] at h
    obtain rfl := Except.ok.inj h
    exact hincoming
  rcases incoming with _ | value
  · obtain rfl := Except.ok.inj h
    exact hbase
  · obtain ⟨result, hresult, rfl⟩ := mergeOptional_some_some.1 h
    rintro _ ⟨⟩
    exact keysDistinct_of_merge (hbase old rfl) (hincoming value rfl) hresult

end Json

namespace Document

/-- No value of a document that may be absent repeats a key. -/
theorem keysDistinct_of_mem_map_root {found : Option Document} :
    ∀ value ∈ found.map root, value.KeysDistinct := by
  intro value hvalue
  obtain ⟨document, -, rfl⟩ := Option.map_eq_some_iff.1 hvalue
  exact document.keysDistinct

/-- Merges two documents, either of which may be absent. -/
def mergeOptional (base incoming : Option Document) : Except MergeError (Option Document) :=
  bundle (fun merged h => merged.pmap mk h) (Json.mergeOptional (base.map root) (incoming.map root))
    fun _ h => Json.keysDistinct_of_mergeOptional keysDistinct_of_mem_map_root
      keysDistinct_of_mem_map_root h

/-- Documents are merged as their values are. -/
theorem map_root_mergeOptional (base incoming : Option Document) :
    (mergeOptional base incoming).map (Option.map root) =
      Json.mergeOptional (base.map root) (incoming.map root) := by
  refine map_bundle (fun merged h => ?_) _
  cases merged <;> rfl

/-- Documents that may be absent are determined by their values. -/
theorem eq_of_map_root_eq {found other : Option Document} (h : found.map root = other.map root) :
    found = other := by
  cases found <;> cases other
  · rfl
  · cases h
  · cases h
  · exact congrArg some (Document.ext (Option.some.inj h))

/-- A merge of documents has the result that the merge of their values has. -/
theorem mergeOptional_eq_ok_iff {base incoming merged : Option Document} :
    mergeOptional base incoming = .ok merged ↔
      Json.mergeOptional (base.map root) (incoming.map root) = .ok (merged.map root) := by
  rw [← map_root_mergeOptional, map_eq_ok_iff]
  constructor
  · exact fun h => ⟨merged, h, rfl⟩
  · rintro ⟨other, h, heq⟩
    rw [h, eq_of_map_root_eq heq]

/-- Where values of documents can be merged, so can the documents. -/
theorem exists_mergeOptional_eq_ok {base incoming : Option Document} {merged : Option Json}
    (h : Json.mergeOptional (base.map root) (incoming.map root) = .ok merged) :
    ∃ result, mergeOptional base incoming = .ok result ∧ result.map root = merged :=
  map_eq_ok_iff.1 ((map_root_mergeOptional base incoming).trans h)

/-- Nothing was there. -/
@[simp]
theorem none_mergeOptional (incoming : Option Document) :
    mergeOptional none incoming = .ok incoming :=
  mergeOptional_eq_ok_iff.2 (Json.none_mergeOptional _)

end Document

end DocQuery
