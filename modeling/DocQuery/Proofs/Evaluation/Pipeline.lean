import DocQuery.Query

/-!
# Nested matches are lists of values

Matches may be nested to any depth, but nothing that is done with them tells how. Every view of
matches is a view of their flattened values, and every operation on matches is an operation on the
lists of these values. A `Pipeline` puts the operations together in any way, so that what holds of
each of them holds of all their combinations.

* `Matches.toList_select`: selecting in matches is selecting in the list of their values.
* `Pipeline.toList_eval`: a pipeline yields what it yields on plain lists.
* `Pipeline.matches_refine_lists`: the statement for all views, operations and pipelines.
-/

namespace DocQuery

/-- What selectors select in a list of values. -/
def Selector.selectValues (selectors : List Selector) (values : List Json) :
    Except MergeError (List Json) :=
  match selectors with
  | [selector] => .ok (values.flatMap fun value => (selector.select value).toList)
  | _ => (values.mapM (projectAll selectors)).map (List.filterMap id)

/-- Selecting in matches is selecting in the list of their values. -/
theorem Matches.toList_select (found : Matches) (selectors : List Selector) :
    (found.select selectors).map toList = Selector.selectValues selectors found.toList := by
  have hrows : ((found.walk.toList.mapM (Selector.projectAll selectors)).map fun rows =>
      ofList (rows.filterMap id)).map toList =
        (found.toList.mapM (Selector.projectAll selectors)).map (List.filterMap id) := by
    rw [toList_walk]
    cases found.toList.mapM (Selector.projectAll selectors) with
    | error error => rfl
    | ok rows => exact congrArg Except.ok (toList_ofList _)
  -- only a single selector is treated apart
  cases selectors with
  | nil => exact hrows
  | cons selector others =>
    cases others with
    | nil =>
      rw [select_single]
      exact congrArg Except.ok (toList_collect ..)
    | cons second others => exact hrows

/-- A way of making matches from the matches at hand. -/
inductive Pipeline where
  /-- The matches at hand. -/
  | given
  /-- No matches. -/
  | empty
  /-- Exactly one value. -/
  | single (value : Json)
  /-- The given values. -/
  | ofList (values : List Json)
  /-- The values of other matches, collected anew. -/
  | flatten (pipeline : Pipeline)
  /-- A value is added at the end. -/
  | push (pipeline : Pipeline) (value : Json)
  /-- The values of other matches are added at the end, one after the other. -/
  | extend (pipeline others : Pipeline)
  /-- Other matches are added at the end as one nested entry. -/
  | nest (outer inner : Pipeline)
  /-- The entries of other matches are added at the end. -/
  | append (first second : Pipeline)
  /-- Each array is replaced by its items. -/
  | expandArrays (pipeline : Pipeline)
  /-- The matches are filtered. -/
  | filter (pipeline : Pipeline) (condition : Filter)
  /-- Selectors are applied to the matches. -/
  | select (pipeline : Pipeline) (selectors : List Selector)

namespace Pipeline

/-- The matches that a pipeline makes. -/
def eval (pipeline : Pipeline) (found : Matches) : Except MergeError Matches :=
  match pipeline with
  | .given => return found
  | .empty => return .empty
  | .single value => return .single value
  | .ofList values => return .ofList values
  | .flatten pipeline => return .ofList (← pipeline.eval found).drain
  | .push pipeline value => return (← pipeline.eval found).push value
  | .extend pipeline others => return (← pipeline.eval found).extend (← others.eval found).drain
  | .nest outer inner => return (← outer.eval found).nest (← inner.eval found)
  | .append first second => return (← first.eval found) ++ (← second.eval found)
  | .expandArrays pipeline => return (← pipeline.eval found).expandArrays
  | .filter pipeline condition => return (← pipeline.eval found).filter condition
  | .select pipeline selectors => do (← pipeline.eval found).select selectors

/-- What a pipeline makes of a plain list of values. -/
def evalList (pipeline : Pipeline) (values : List Json) : Except MergeError (List Json) :=
  match pipeline with
  | .given => return values
  | .empty => return []
  | .single value => return [value]
  | .ofList others => return others
  | .flatten pipeline => pipeline.evalList values
  | .push pipeline value => return (← pipeline.evalList values) ++ [value]
  | .extend pipeline others => return (← pipeline.evalList values) ++ (← others.evalList values)
  | .nest outer inner => return (← outer.evalList values) ++ (← inner.evalList values)
  | .append first second => return (← first.evalList values) ++ (← second.evalList values)
  | .expandArrays pipeline => return (← pipeline.evalList values).flatMap Json.expand
  | .filter pipeline condition => return (← pipeline.evalList values).filter condition.holds
  | .select pipeline selectors => do Selector.selectValues selectors (← pipeline.evalList values)

/-- An operation on matches that is an operation on the list of their values is so after anything
that is made of matches, and it does not run after a failure. -/
theorem toList_bind {step : Matches → Except MergeError Matches}
    {listStep : List Json → Except MergeError (List Json)}
    (h : ∀ found, (step found).map Matches.toList = listStep found.toList)
    {before : Except MergeError Matches} {values : Except MergeError (List Json)}
    (hbefore : before.map Matches.toList = values) :
    (before >>= step).map Matches.toList = values >>= listStep := by
  subst hbefore
  cases before with
  | error error => rfl
  | ok found => exact h found

/-- An operation on matches that does not fail. -/
theorem toList_map {operation : Matches → Matches} {listOperation : List Json → List Json}
    (h : ∀ found, (operation found).toList = listOperation found.toList)
    {before : Except MergeError Matches} {values : Except MergeError (List Json)}
    (hbefore : before.map Matches.toList = values) :
    (before >>= fun found => pure (operation found)).map Matches.toList =
      values >>= fun values => pure (listOperation values) := by
  refine toList_bind (fun found => ?_) hbefore
  exact congrArg Except.ok (h found)

/-- An operation on two results that does not fail. -/
theorem toList_map₂ {operation : Matches → Matches → Matches}
    {listOperation : List Json → List Json → List Json}
    (h : ∀ found others,
      (operation found others).toList = listOperation found.toList others.toList)
    {before after : Except MergeError Matches} {values others : Except MergeError (List Json)}
    (hbefore : before.map Matches.toList = values) (hafter : after.map Matches.toList = others) :
    (before >>= fun found => after >>= fun more => pure (operation found more)).map
        Matches.toList =
      values >>= fun values => others >>= fun others => pure (listOperation values others) :=
  toList_bind (fun found => toList_map (h found) hafter) hbefore

/-- A pipeline yields what it yields on plain lists, or fails in the same way. -/
theorem toList_eval (pipeline : Pipeline) (found : Matches) :
    (pipeline.eval found).map Matches.toList = pipeline.evalList found.toList := by
  -- one case for each operation; the pipelines it is applied to are treated already
  induction pipeline with
  | given => rfl
  | empty => rfl
  | single value => rfl
  | ofList values => exact congrArg Except.ok (Matches.toList_ofList values)
  | flatten pipeline ih =>
    -- on a list there is nothing to do, which is an operation as well
    rw [eval, evalList, ← bind_pure (pipeline.evalList found.toList)]
    refine toList_map (fun before => ?_) ih
    rw [Matches.toList_ofList, before.drain_eq_toList]
  | push pipeline value ih => exact toList_map (fun before => before.toList_push value) ih
  | extend pipeline others ih ih' =>
    refine toList_map₂ (fun before more => ?_) ih ih'
    rw [more.drain_eq_toList, before.toList_extend]
  | nest outer inner ih ih' => exact toList_map₂ Matches.toList_nest ih ih'
  | append first second ih ih' => exact toList_map₂ Matches.toList_append ih ih'
  | expandArrays pipeline ih => exact toList_map Matches.toList_expandArrays ih
  | filter pipeline condition ih =>
    exact toList_map (fun before => before.toList_filter condition) ih
  | select pipeline selectors ih =>
    exact toList_bind (fun before => before.toList_select selectors) ih

/-- Nesting is never seen. Walking through matches, taking their values out and writing them as an
array all yield the flattened values, which are as many as the size says. Every operation on matches
is one on the flattened values, and pipelines that begin with equal flattened values end with equal
ones or fail in the same way. -/
theorem matches_refine_lists :
    (∀ found : Matches, found.walk.toList = found.toList ∧ found.drain = found.toList ∧
      found.toJson = .array found.toList ∧ found.size = found.toList.length ∧
      (found.isEmpty = true ↔ found.toList = [])) ∧
    (∀ value values, Matches.empty.toList = [] ∧ (Matches.single value).toList = [value] ∧
      (Matches.ofList values).toList = values) ∧
    (∀ (found others : Matches) value values (condition : Filter) selectors,
      (found.push value).toList = found.toList ++ [value] ∧
      (found.extend values).toList = found.toList ++ values ∧
      (found.nest others).toList = found.toList ++ others.toList ∧
      (found ++ others).toList = found.toList ++ others.toList ∧
      found.expandArrays.toList = found.toList.flatMap Json.expand ∧
      (found.filter condition).toList = found.toList.filter condition.holds ∧
      (found.select selectors).map Matches.toList =
        Selector.selectValues selectors found.toList) ∧
    (∀ (pipeline : Pipeline) (found : Matches),
      (pipeline.eval found).map Matches.toList = pipeline.evalList found.toList) ∧
    ∀ (pipeline : Pipeline) (found others : Matches), found.toList = others.toList →
      (pipeline.eval found).map Matches.toList = (pipeline.eval others).map Matches.toList := by
  refine ⟨fun found => ?_, fun value values => ?_, ?_, toList_eval, ?_⟩
  · have hjson : found.toJson = .array found.toList := congrArg Json.array found.toList_walk
    exact ⟨found.toList_walk, found.drain_eq_toList, hjson, found.length_toList.symm,
      found.isEmpty_iff⟩
  · exact ⟨Matches.toList_empty, Matches.toList_single value, Matches.toList_ofList values⟩
  · intro found others value values condition selectors
    exact ⟨found.toList_push value, found.toList_extend values, found.toList_nest others,
      found.toList_append others, found.toList_expandArrays, found.toList_filter condition,
      found.toList_select selectors⟩
  · intro pipeline found others h
    rw [toList_eval, toList_eval, h]

/-- Two values side by side, and the same two nested at different depths, in a pipeline that puts
the matches at hand after themselves and replaces arrays by their items. -/
theorem matches_refine_lists_nested :
    let flat : Matches := .ofList [.array [.null], .bool true]
    let nested : Matches :=
      (Matches.single (.array [.null])).nest (Matches.empty.nest (.single (.bool true)))
    flat.toList = nested.toList ∧
      ((expandArrays (.nest .given .given)).eval flat).map Matches.toList =
        ((expandArrays (.nest .given .given)).eval nested).map Matches.toList :=
  ⟨rfl, matches_refine_lists.2.2.2.2 _ _ _ rfl⟩

end Pipeline

end DocQuery
