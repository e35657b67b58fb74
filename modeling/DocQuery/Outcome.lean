/-!
# Steps that may fail

The outcome of a step is a result or an error. Steps are put one after the other, or taken for each
element of a list; the first error ends them. What is known of a result can be put together with it.

* `bind_eq_ok_iff`, `map_eq_ok_iff`: what succeeds, put together from steps.
* `exists_mapM_eq_ok_iff`, `mapM_eq_error_iff`: when the steps for the elements of a list succeed,
  and with which error they fail.
* `map_bundle`: a result with what is known of it is the result.
-/

namespace DocQuery

section Outcomes

variable {ε α β : Type}

/-- Two steps succeed if the first one does and the second one behind it. -/
theorem bind_eq_ok_iff {first : Except ε α} {next : α → Except ε β} {result : β} :
    first >>= next = .ok result ↔ ∃ between, first = .ok between ∧ next between = .ok result := by
  cases first with
  | error error => simp [bind, Except.bind]
  | ok between => simp [bind, Except.bind]

/-- A result that is changed afterwards was there before. -/
theorem map_eq_ok_iff {f : α → β} {outcome : Except ε α} {result : β} :
    outcome.map f = .ok result ↔ ∃ a, outcome = .ok a ∧ f a = result := by
  cases outcome <;> simp [Except.map]

/-- A failure is not changed afterwards. -/
theorem map_eq_error_iff {f : α → β} {outcome : Except ε α} {error : ε} :
    outcome.map f = .error error ↔ outcome = .error error := by
  cases outcome <;> simp [Except.map]

/-! ## Steps for the elements of a list -/

variable {row : α → Except ε β}

/-- A list of steps begins with the first one, and goes on only if that does not fail. -/
theorem mapM_cons_eq (row : α → Except ε β) (x : α) (xs : List α) :
    (x :: xs).mapM row =
      match row x with
      | .error error => .error error
      | .ok y => (xs.mapM row).map (y :: ·) := by
  rw [List.mapM_cons]
  cases row x with
  | error error => rfl
  | ok y => cases xs.mapM row <;> rfl

/-- Every result of a list of steps is that of one of them. -/
theorem exists_mem_of_mapM_eq_ok {xs : List α} {ys : List β} (h : xs.mapM row = .ok ys) :
    ∀ y ∈ ys, ∃ x ∈ xs, row x = .ok y := by
  induction xs generalizing ys with
  | nil =>
    obtain rfl := Except.ok.inj h
    exact List.forall_mem_nil _
  | cons x xs ih =>
    rw [mapM_cons_eq] at h
    cases hx : row x with
    | error error =>
      rw [hx] at h
      cases h
    | ok y =>
      rw [hx] at h
      obtain ⟨others, hothers, rfl⟩ := map_eq_ok_iff.1 h
      refine List.forall_mem_cons.2 ⟨⟨x, List.mem_cons_self, hx⟩, fun other hother => ?_⟩
      obtain ⟨z, hz, hrow⟩ := ih hothers other hother
      exact ⟨z, List.mem_cons_of_mem _ hz, hrow⟩

/-- A list of steps succeeds if each of them does. -/
theorem exists_mapM_eq_ok_iff {xs : List α} :
    (∃ ys, xs.mapM row = .ok ys) ↔ ∀ x ∈ xs, ∃ y, row x = .ok y := by
  induction xs with
  | nil => simpa using ⟨[], rfl⟩
  | cons x xs ih =>
    rw [mapM_cons_eq, List.forall_mem_cons, ← ih]
    cases row x with
    | error error => simp
    | ok y =>
      simp only [map_eq_ok_iff]
      constructor
      · rintro ⟨_, others, h, -⟩
        exact ⟨⟨y, rfl⟩, others, h⟩
      · rintro ⟨-, others, h⟩
        exact ⟨_, others, h, rfl⟩

/-- A list of steps fails with the error of the first step that fails. -/
theorem mapM_eq_error_iff {xs : List α} {error : ε} :
    xs.mapM row = .error error ↔
      ∃ before x after, xs = before ++ x :: after ∧ (∀ y ∈ before, ∃ result, row y = .ok result) ∧
        row x = .error error := by
  induction xs with
  | nil => simp [pure, Except.pure]
  | cons x xs ih =>
    rw [mapM_cons_eq]
    constructor
    · intro h
      cases hx : row x with
      | error other =>
        rw [hx] at h
        obtain rfl := Except.error.inj h
        exact ⟨[], x, xs, rfl, List.forall_mem_nil _, hx⟩
      | ok y =>
        rw [hx] at h
        obtain ⟨before, found, after, rfl, hbefore, hfound⟩ := ih.1 (map_eq_error_iff.1 h)
        exact ⟨x :: before, found, after, rfl, List.forall_mem_cons.2 ⟨⟨y, hx⟩, hbefore⟩, hfound⟩
    · rintro ⟨before, found, after, heq, hbefore, hfound⟩
      -- the step that fails is the first one, or it is among the others
      cases before with
      | nil =>
        cases heq
        rw [hfound]
      | cons first before =>
        cases heq
        obtain ⟨⟨y, hy⟩, hbefore⟩ := List.forall_mem_cons.1 hbefore
        rw [hy]
        exact map_eq_error_iff.2 (ih.2 ⟨before, found, after, rfl, hbefore, hfound⟩)

/-! ## What is known of a result -/

/-- Puts a result together with what is known of it. -/
def bundle {P : α → Prop} (make : (value : α) → P value → β) :
    (outcome : Except ε α) → (∀ value, outcome = .ok value → P value) → Except ε β
  | .ok value, h => .ok (make value (h value rfl))
  | .error error, _ => .error error

/-- Forgetting what is known of a result gives back the outcome. -/
theorem map_bundle {P : α → Prop} {make : (value : α) → P value → β} {forget : β → α}
    (hforget : ∀ value h, forget (make value h) = value) {outcome : Except ε α}
    (h : ∀ value, outcome = .ok value → P value) :
    (bundle make outcome h).map forget = outcome := by
  cases outcome with
  | error error => rfl
  | ok value => exact congrArg Except.ok (hforget value _)

end Outcomes

end DocQuery
