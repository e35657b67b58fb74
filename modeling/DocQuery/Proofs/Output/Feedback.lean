import DocQuery.CommandLine.Run
import DocQuery.Proofs.Numbers.Exactness
import DocQuery.Proofs.Output.Decoding
import DocQuery.Proofs.RoundTrip.Inverse
import DocQuery.Proofs.Selection.Nodes

/-!
# Output as input

What a run writes can be given to another run, with two exceptions. The array around the values and
the objects of projections add to the depth, so the output may be too deep to be read. And a
binary64 number may be decoded as a neighbour of the one that was written.

* `Json.reread_eq_self_iff`: a value is decoded as itself if its binary64 numbers are.
* `read?_of_run_eq_ok`: what the output of a run is decoded as.
* `run_output_not_read_again`: both exceptions occur.
-/

namespace DocQuery

namespace Json

/-! ## Values that are read again as they are -/

/-- A step leads to the same place after reading again. -/
theorem child?_reread (value : Json) (step : Step) :
    value.reread.child? step = (value.child? step).map reread := by
  cases value with
  | array items =>
    cases step with
    | key name => rfl
    | item place => rw [reread, rereadItems_eq, child?, child?, List.getElem?_map]
  | object members =>
    cases step with
    | key name =>
      rw [reread, rereadMembers_eq, child?, child?, Members.get?, Members.get?]
      -- keys are read again as they are, so the same member is found
      induction members with
      | nil => rfl
      | cons member members ih =>
        rw [List.map_cons, List.lookup_cons, List.lookup_cons, ih]
        split <;> rfl
    | item place => rfl
  | _ => cases step <;> rfl

/-- A path leads to the same place after reading again. -/
theorem at?_reread (value : Json) (path : Path) :
    value.reread.at? path = (value.at? path).map reread := by
  induction path generalizing value with
  | nil => rfl
  | cons step path ih =>
    rw [at?, at?, child?_reread, Option.bind_map, Option.map_bind]
    congr 1
    funext child
    exact ih child

/-- A value is read again as itself if all values one step below are, unless it is a number. -/
theorem reread_eq_self_of_children {value : Json}
    (hnumber : ∀ x, value = .number (.float x) → x.reread = x)
    (h : ∀ child ∈ value.children, child.reread = child) : value.reread = value := by
  cases value with
  | number value =>
    cases value with
    | int value hrange => rfl
    | float x => rw [reread, Number.reread, hnumber x rfl]
  | array items =>
    have hitems : ∀ item ∈ items, item.reread = item := h
    rw [reread, rereadItems_eq, List.map_congr_left hitems, List.map_id']
  | object members =>
    have hmembers : ∀ member ∈ members, (member.1, member.2.reread) = member := by
      intro member hmember
      rw [h member.2 (List.mem_map_of_mem (f := (·.2)) hmember)]
    rw [reread, rereadMembers_eq, List.map_congr_left hmembers, List.map_id']
  | _ => rfl

/-- A value is read again as itself exactly when every binary64 number inside is. -/
theorem reread_eq_self_iff {value : Json} (h : value.KeysDistinct) :
    value.reread = value ↔
      ∀ path x, value.at? path = some (.number (.float x)) → x.reread = x := by
  constructor
  · intro hself path x hat
    have hreread := value.at?_reread path
    rw [hself, hat, Option.map_some, reread, Number.reread] at hreread
    injection hreread with hreread
    injection hreread with hreread
    injection hreread with hreread
    exact hreread.symm
  · intro hfloats
    induction h with
    | @intro value hkeys hchildren ih =>
      refine reread_eq_self_of_children (fun x hx => hfloats [] x (congrArg some hx)) ?_
      intro child hchild
      -- a child is at the end of some step, which is put in front of the paths below it
      rw [← map_snd_edges] at hchild
      obtain ⟨⟨step, child⟩, hedge, rfl⟩ := List.mem_map.1 hchild
      have hstep := (mem_edges_iff (.intro hkeys hchildren)).1 hedge
      refine ih child (mem_children_of_mem_edges hedge) fun path x hat => ?_
      refine hfloats (step :: path) x ?_
      rw [at?, hstep, Option.bind_some, hat]

end Json

/-- A number whose text makes up a simple decimal is read again as itself. -/
theorem Binary64.reread_eq_self_of_isSimple {x : Binary64} {n : Numeral} {rest : List Char}
    (hscan : Numeral.scan? (Json.floatText Json.floatLayout x) = some (n, rest))
    (h : n.decimal.IsSimple) : x.reread = x := by
  obtain ⟨m, htext, -, hsign, hnearest⟩ := Numeral.exists_isText_floatText x
  have hread := x.reread?_eq
  rw [htext.scan?_eq] at hscan
  cases hscan
  rw [reread?, htext.scan?_eq, Option.bind_some, Numeral.toBinary64?_eq_ofDecimal? h, hsign,
    hnearest]
    at hread
  exact (Option.some.inj hread).symm

/-! ## Runs without clauses -/

/-- A run without clauses writes the items of its document, or the document if it is no array. -/
theorem exists_run_of_read? {content : String} {document : Document}
    (h : Document.read? content = some document) (compact : Bool) :
    ∃ found, document.query (Arguments.queryText ⟨"-", [], compact⟩) = .ok found ∧
      found.toList = document.root.expand ∧
      run ⟨"-", [], compact⟩ (.text content) =
        .ok ((Json.array document.root.expand).render (Arguments.rendering ⟨"-", [], compact⟩) ++
          "\n") := by
  have hidentity : Selector.identity.Canonical := .chain .nil
  have hroot : Query.root.Canonical :=
    ⟨List.cons_ne_nil _ _, List.forall_mem_singleton.2 hidentity, hidentity, .always⟩
  have hparse : Query.parse (Arguments.queryText ⟨"-", [], compact⟩) = .ok .root := hroot.parse_text
  have hevaluate := Query.root.evaluate_single .identity rfl document.root
  -- every item is kept, and each is selected as it is
  have hlist : (Matches.collect Selector.identity.select
      (Query.root.kept document.root).toList).toList = document.root.expand := by
    have hkept : (Query.root.kept document.root).toList = document.root.expand := by
      have hholds (value : Json) : Query.root.filter.holds value = true := rfl
      rw [Query.toList_kept, List.filter_eq_self.2 fun value _ => hholds value]
      exact List.flatMap_singleton ..
    rw [Matches.toList_collect, hkept]
    exact List.flatMap_singleton' _
  rw [← DocumentQuery.map_toQuery_parse, map_eq_ok_iff] at hparse
  obtain ⟨query, hquery, hroot⟩ := hparse
  rw [← hroot, ← query.map_toMatches_evaluate, map_eq_ok_iff] at hevaluate
  obtain ⟨found, hfound, hmatches⟩ := hevaluate
  rw [← hroot, ← hmatches] at hlist
  have hrun := Document.query_eq_ok_iff.2 ⟨query, hquery, hfound⟩
  refine ⟨found, hrun, hlist, (run_eq_ok_iff ..).2 ⟨document, found, ?_, hrun, ?_⟩⟩
  · exact loadDocument_text_eq_ok_iff.2 h
  · rw [Matches.toJson, Matches.toList_walk, hlist]

/-- A text that holds an array with a single number. -/
theorem Json.read?_singleton {n : Numeral} {source blanks : List Char} {value : Number}
    (h : n.IsText source) (hvalue : n.toNumber? = some value) (hblanks : skipSpace blanks = []) :
    read? (.ofList ('[' :: (source ++ ']' :: blanks))) = some (.array [.number value]) := by
  have hitem : (readValue? 126 ([] ++ (source ++ ']' :: blanks))).map Reading.both = _ :=
    readValue?_of_isText h (List.forall_mem_nil _) (by rintro _ ⟨⟩; rfl)
  rw [hvalue, List.nil_append] at hitem
  have hitems := readSequence?_close hitem (skipSpace_cons rfl blanks)
  obtain ⟨c, cs, hcons, hc⟩ := h.exists_cons
  have hother : c ∉ [' ', '\t', '\n', '\r', ']'] := Lexeme.not_mem_of_class (by decide) hc
  have hspace : isSpace c = false := by simp_all [isSpace]
  have hinside : skipSpace (source ++ ']' :: blanks) = c :: (cs ++ ']' :: blanks) := by
    rw [hcons]
    exact skipSpace_cons hspace _
  have hread : (readValue? 127 ('[' :: (source ++ ']' :: blanks))).map Reading.both = _ :=
    readValue?_array (skipSpace_cons rfl _)
  rw [readEnclosed?_of_ne hinside (by simp_all), hitems] at hread
  refine read?_of_readValue? ?_ hblanks
  rw [String.toList_ofList]
  exact hread

/-! ## The output of a run -/

/-- The output of a run is read again exactly when the array of what the query yields is no deeper
than a document may be. What is read again is this array, but for its binary64 numbers, each of
which keeps its sign and is moved by five ranks at most; it is the array itself exactly when none of
them is moved. A number whose text makes up a simple decimal is not moved. -/
theorem read?_of_run_eq_ok {arguments : Arguments} {content output : String}
    (h : run arguments (.text content) = .ok output) :
    ∃ document found, Document.read? content = some document ∧
      document.query arguments.queryText = .ok found ∧
      (Json.read? output =
        if (Json.array found.toList).depth ≤ Json.maxDepth then
          some (Json.array found.toList).reread
        else none) ∧
      (Json.read? output = some (.array found.toList) ↔
        (Json.array found.toList).depth ≤ Json.maxDepth ∧
          ∀ path x, (Json.array found.toList).at? path = some (.number (.float x)) →
            x.reread = x) ∧
      ∀ x : Binary64, x.reread.negative = x.negative ∧ |(x.reread.rank : Int) - x.rank| ≤ 5 ∧
        ∀ n rest, Numeral.scan? (Json.floatText Json.floatLayout x) = some (n, rest) →
          n.decimal.IsSimple → x.reread = x := by
  obtain ⟨document, found, hload, hfound, rfl⟩ := (run_eq_ok_iff ..).1 h
  have hread := loadDocument_text_eq_ok_iff.1 hload
  have hdistinct : found.toJson.KeysDistinct := found.toDocument.keysDistinct
  have hagain := Json.read?_render hdistinct arguments.rendering
  rw [Matches.toJson, Matches.toList_walk] at hdistinct hagain ⊢
  refine ⟨document, found, hread, hfound, hagain, ?_, fun x => ⟨x.negative_reread,
    x.abs_rank_reread_sub_le, fun n rest => Binary64.reread_eq_self_of_isSimple⟩⟩
  rw [hagain, ← Json.reread_eq_self_iff hdistinct]
  split
  · rename_i hdepth
    rw [Option.some_inj]
    exact ⟨fun hself => ⟨hdepth, hself⟩, fun hself => hself.2⟩
  · rename_i hdepth
    exact ⟨fun hnone => absurd hnone.symm (Option.some_ne_none _),
      fun hself => absurd hself.1 hdepth⟩

/-- The theorem at a document with a single number. -/
theorem read?_of_run_half :
    run ⟨"-", [], false⟩ (.text "[0.5]") = .ok "[\n    0.5\n]\n" ∧
      ∃ document found, Document.read? "[0.5]" = some document ∧
        document.query (Arguments.queryText ⟨"-", [], false⟩) = .ok found ∧
        (Json.read? "[\n    0.5\n]\n" = some (.array found.toList) ↔
          (Json.array found.toList).depth ≤ Json.maxDepth ∧
            ∀ path x, (Json.array found.toList).at? path = some (.number (.float x)) →
              x.reread = x) := by
  have htext : Numeral.IsText ⟨false, ['0'], some ['5'], none⟩ "0.5".toList :=
    Numeral.isText_iff.2 rfl
  have hread : Document.read? "[0.5]" =
      some ⟨.array [.number (.float ⟨false, 1022 * 2 ^ 52, by decide⟩)], by decide⟩ :=
    Document.read?_eq_some_iff.2
      (Json.read?_singleton htext (by decide +kernel) (rfl : Json.skipSpace [] = []))
  obtain ⟨-, -, -, hrun⟩ := exists_run_of_read? hread false
  have houtput : run ⟨"-", [], false⟩ (.text "[0.5]") = .ok "[\n    0.5\n]\n" := by
    rw [hrun, Except.ok.injEq]
    decide +kernel
  obtain ⟨document, found, hdocument, hfound, -, hself, -⟩ := read?_of_run_eq_ok houtput
  exact ⟨houtput, document, found, hdocument, hfound, hself⟩

/-- Objects inside one another, each with a single member. -/
def Json.nested : Nat → Json
  | 0 => .null
  | n + 1 => .object [("a", nested n)]

/-- The objects repeat no key, are as deep as they are many, and are read again as they are. -/
theorem Json.nested_spec (n : Nat) :
    (nested n).KeysDistinct ∧ (nested n).depth = n ∧ (nested n).reread = nested n := by
  induction n with
  | zero => exact ⟨keysDistinct_of_not_isContainer rfl, rfl, rfl⟩
  | succ n ih =>
    obtain ⟨hdistinct, hdepth, hreread⟩ := ih
    refine ⟨keysDistinct_object (List.nodup_singleton _) ?_, ?_, ?_⟩
    · exact List.forall_mem_singleton.2 hdistinct
    · rw [nested, depth, depthOfMembers, depthOfMembers, Nat.max_zero, hdepth]
    · rw [nested, reread, rereadMembers, rereadMembers, hreread]

/-- The output of a run may be too deep to be read again, and a number in it may be read as another
one. -/
theorem run_output_not_read_again :
    (∃ output,
      run ⟨"-", [], true⟩ (.text ((Json.nested 127).render .compact ++ "\n")) = .ok output ∧
        Json.read? output = none) ∧
    ∃ document found, Document.read? "[9007199254740991e0]" = some document ∧
      document.query (Arguments.queryText ⟨"-", [], true⟩) = .ok found ∧
      run ⟨"-", [], true⟩ (.text "[9007199254740991e0]") = .ok "[9007199254740991.0]\n" ∧
      (Json.read? "[9007199254740991.0]\n").isSome = true ∧
      Json.read? "[9007199254740991.0]\n" ≠ some (.array found.toList) := by
  constructor
  · -- as many objects as a document may have inside one another, and an array around them
    obtain ⟨hdistinct, hdepth, hreread⟩ := Json.nested_spec 127
    have hread := Json.read?_render hdistinct .compact
    rw [if_pos (hdepth.trans_le (Nat.le_refl Json.maxDepth)), hreread] at hread
    have hdocument : Document.read? _ = some ⟨Json.nested 127, hdistinct⟩ :=
      Document.read?_eq_some_iff.2 hread
    obtain ⟨-, -, -, hrun⟩ := exists_run_of_read? hdocument true
    have hagain := Json.read?_render
      (Json.keysDistinct_array (List.forall_mem_singleton.2 hdistinct)) .compact
    have hdeep : ¬(Json.array [Json.nested 127]).depth ≤ Json.maxDepth := by
      rw [Json.depth, Json.depthOfItems, Json.depthOfItems, hdepth]
      decide
    rw [if_neg hdeep] at hagain
    exact ⟨_, hrun, hagain⟩
  · have hfirst : Numeral.IsText ⟨false, "9007199254740991".toList, none, some (false, ['0'])⟩
        "9007199254740991e0".toList := Numeral.isText_iff.2 rfl
    have hsecond : Numeral.IsText ⟨false, "9007199254740991".toList, some ['0'], none⟩
        "9007199254740991.0".toList := Numeral.isText_iff.2 rfl
    -- the digits are rounded to fifty-three binary digits before they are divided by ten
    have hread : Document.read? "[9007199254740991e0]" =
        some
          ⟨.array [.number (.float ⟨false, 1074 * 2 ^ 52 + 2 ^ 53 - 1, by decide⟩)], by decide⟩ :=
      Document.read?_eq_some_iff.2
        (Json.read?_singleton hfirst (by decide +kernel) (rfl : Json.skipSpace [] = []))
    have hagain : Json.read? "[9007199254740991.0]\n" =
        some (.array [.number (.float ⟨false, 1074 * 2 ^ 52 + 2 ^ 53 - 2, by decide⟩)]) :=
      Json.read?_singleton hsecond (by decide +kernel) (rfl : Json.skipSpace ['\n'] = [])
    obtain ⟨found, hfound, hlist, hrun⟩ := exists_run_of_read? hread true
    refine ⟨_, found, hread, hfound, ?_, ?_, ?_⟩
    · rw [hrun, Except.ok.injEq]
      decide +kernel
    · rw [hagain]
      rfl
    · rw [hagain, hlist]
      simp [Json.expand]

end DocQuery
