import DocQuery.Like
import Mathlib.Data.List.Forall2

/-!
# What a pattern stands for

A text is like a pattern if it can be cut into pieces, one for each character of the pattern. With
several `%` there are many ways to cut it, and trying them one after the other takes time
exponential in their number. The columns answer for all suffixes of the text at once. Each entry of
a column still is what trying would find: the column of a suffix is a suffix of the column, so
entries obey the equations of a search that reads the text from its start.

* `Like.cuts_cons_iff`: the first piece is cut off before the others.
* `Like.column_cons`: the column of a text extends the column of its rest.
* `Like.fits_iff_cuts`: the pieces fit exactly the texts that can be cut into them.
-/

namespace DocQuery

namespace Like

/-! ## Cutting a text -/

/-- Whether a character of a pattern stands for a piece of a text: `%` for any, `_` for one
character, and every other character for itself. -/
def StandsFor (c : Char) (piece : List Char) : Prop :=
  if c = '%' then True else if c = '_' then piece.length = 1 else piece = [c]

/-- A text can be cut into pieces, one for each character of a pattern in order. -/
def Cuts (pattern text : List Char) : Prop :=
  ∃ pieces : List (List Char), List.Forall₂ StandsFor pattern pieces ∧ pieces.flatten = text

/-- An empty pattern leaves no piece to cut. -/
theorem cuts_nil_iff {text : List Char} : Cuts [] text ↔ text = [] := by
  constructor
  · rintro ⟨pieces, hpieces, rfl⟩
    cases hpieces
    rfl
  · rintro rfl
    exact ⟨[], .nil, rfl⟩

/-- The first piece is cut off before the others. -/
theorem cuts_cons_iff {c : Char} {pattern text : List Char} :
    Cuts (c :: pattern) text ↔
      ∃ piece rest, text = piece ++ rest ∧ StandsFor c piece ∧ Cuts pattern rest := by
  constructor
  · rintro ⟨pieces, hpieces, rfl⟩
    obtain ⟨piece, others, hpiece, hothers, rfl⟩ := List.forall₂_cons_left_iff.1 hpieces
    exact ⟨piece, others.flatten, List.flatten_cons, hpiece, others, hothers, rfl⟩
  · rintro ⟨piece, _, rfl, hpiece, others, hothers, rfl⟩
    exact ⟨piece :: others, .cons hpiece hothers, List.flatten_cons⟩

/-- A `%` stands for nothing or takes in the next character. -/
theorem cuts_run_iff {pattern text : List Char} :
    Cuts ('%' :: pattern) text ↔
      Cuts pattern text ∨ ∃ d rest, text = d :: rest ∧ Cuts ('%' :: pattern) rest := by
  simp only [cuts_cons_iff, StandsFor, if_true, true_and]
  constructor
  · rintro ⟨piece, rest, rfl, hrest⟩
    cases piece with
    | nil => exact .inl hrest
    | cons d piece => exact .inr ⟨d, piece ++ rest, rfl, piece, rest, rfl, hrest⟩
  · rintro (h | ⟨d, _, rfl, piece, rest, rfl, hrest⟩)
    · exact ⟨[], text, rfl, h⟩
    · exact ⟨d :: piece, rest, rfl, hrest⟩

/-- A `_` stands for the next character. -/
theorem cuts_one_iff {pattern text : List Char} :
    Cuts ('_' :: pattern) text ↔ ∃ d rest, text = d :: rest ∧ Cuts pattern rest := by
  rw [cuts_cons_iff]
  constructor
  · rintro ⟨piece, rest, rfl, hpiece, hrest⟩
    obtain ⟨d, rfl⟩ := List.length_eq_one_iff.1 (show piece.length = 1 from hpiece)
    exact ⟨d, rest, rfl, hrest⟩
  · rintro ⟨d, rest, rfl, hrest⟩
    exact ⟨[d], rest, rfl, show [d].length = 1 from rfl, hrest⟩

/-- Any other character stands for itself. -/
theorem cuts_exactly_iff {c : Char} (hrun : c ≠ '%') (hone : c ≠ '_') {pattern text : List Char} :
    Cuts (c :: pattern) text ↔ ∃ rest, text = c :: rest ∧ Cuts pattern rest := by
  simp only [cuts_cons_iff, StandsFor, if_neg hrun, if_neg hone]
  constructor
  · rintro ⟨_, rest, rfl, rfl, hrest⟩
    exact ⟨rest, rfl, hrest⟩
  · rintro ⟨rest, rfl, hrest⟩
    exact ⟨[c], rest, rfl, rfl, hrest⟩

/-! ## Columns -/

/-- Whether pieces match a text, as the column of the text says. -/
def fits (pieces : List Piece) (text : List Char) : Bool := (column text pieces).headD false

/-- The text itself is a suffix of it, so no column is empty. -/
theorem column_ne_nil (text : List Char) (pieces : List Piece) : column text pieces ≠ [] := by
  induction pieces with
  | nil => simp [column]
  | cons piece pieces ih =>
    obtain ⟨entry, later, hcolumn⟩ := List.exists_cons_of_ne_nil ih
    rw [column, hcolumn]
    cases piece <;> simp [Piece.extend, anyLater]

/-- At the end of a text there is one suffix left. -/
theorem column_nil (pieces : List Piece) : column [] pieces = [fits pieces []] := by
  induction pieces with
  | nil => rfl
  | cons piece pieces ih =>
    rw [fits, column, ih]
    cases piece <;> rfl

/-- A piece extends the entries of the later suffixes without looking at the first one. -/
theorem Piece.exists_extend_cons (piece : Piece) (d : Char) (text : List Char) (entry : Bool)
    {column : List Bool} (h : column ≠ []) :
    ∃ first, piece.extend (d :: text) (entry :: column) = first :: piece.extend text column := by
  obtain ⟨next, later, rfl⟩ := List.exists_cons_of_ne_nil h
  cases piece with
  | run => exact ⟨_, rfl⟩
  | one => exact ⟨_, rfl⟩
  | exactly c => exact ⟨_, rfl⟩

/-- The column of a text extends the column of its rest. -/
theorem column_cons (d : Char) (text : List Char) (pieces : List Piece) :
    column (d :: text) pieces = fits pieces (d :: text) :: column text pieces := by
  induction pieces with
  | nil => rfl
  | cons piece pieces ih =>
    obtain ⟨first, hfirst⟩ :=
      piece.exists_extend_cons d text (fits pieces (d :: text)) (column_ne_nil text pieces)
    have hcolumn :
        column (d :: text) (piece :: pieces) = first :: column text (piece :: pieces) := by
      rw [column, ih, hfirst, column]
    rw [fits, hcolumn]
    rfl

/-! ## Entries -/

/-- The first entry of a column tells of the whole text. -/
theorem exists_column_eq_cons (text : List Char) (pieces : List Piece) :
    ∃ later, column text pieces = fits pieces text :: later := by
  obtain ⟨entry, later, hcolumn⟩ := List.exists_cons_of_ne_nil (column_ne_nil text pieces)
  refine ⟨later, ?_⟩
  rw [fits, hcolumn, List.headD_cons]

/-- Without pieces only the empty text is left. -/
theorem fits_nil (text : List Char) : fits [] text = text.isEmpty := by
  cases text <;> rfl

/-- A run at the end of a text is empty. -/
theorem fits_run_nil (pieces : List Piece) : fits (.run :: pieces) [] = fits pieces [] := by
  rw [fits, column, column_nil]
  show (fits pieces [] || false) = _
  rw [Bool.or_false]

/-- A run is empty or takes in the next character. -/
theorem fits_run_cons (pieces : List Piece) (d : Char) (text : List Char) :
    fits (.run :: pieces) (d :: text) =
      (fits pieces (d :: text) || fits (.run :: pieces) text) := by
  rw [fits, column, column_cons]
  rfl

/-- One character is the next one. -/
theorem fits_one_cons (pieces : List Piece) (d : Char) (text : List Char) :
    fits (.one :: pieces) (d :: text) = fits pieces text := by
  obtain ⟨later, hcolumn⟩ := exists_column_eq_cons text pieces
  rw [fits, column, column_cons, hcolumn]
  rfl

/-- A given character has to be the next one. -/
theorem fits_exactly_cons (c : Char) (pieces : List Piece) (d : Char) (text : List Char) :
    fits (.exactly c :: pieces) (d :: text) = (d == c && fits pieces text) := by
  obtain ⟨later, hcolumn⟩ := exists_column_eq_cons text pieces
  rw [fits, column, column_cons, hcolumn]
  rfl

/-- A piece that takes a character does not match the end of a text. -/
theorem fits_cons_nil {piece : Piece} (h : piece ≠ .run) (pieces : List Piece) :
    fits (piece :: pieces) [] = false := by
  rw [fits, column, column_nil]
  cases piece with
  | run => exact absurd rfl h
  | one => rfl
  | exactly c => rfl

/-! ## What is accepted -/

/-- The pieces of a pattern fit exactly the texts that can be cut into them. -/
theorem fits_iff_cuts (pattern text : List Char) :
    fits (pattern.map Piece.ofChar) text = true ↔ Cuts pattern text := by
  -- by induction over the pattern; a run needs an induction over the text of its own
  induction pattern generalizing text with
  | nil =>
    rw [List.map_nil, fits_nil, cuts_nil_iff]
    exact List.isEmpty_iff
  | cons c pattern ih =>
    rw [List.map_cons]
    rcases eq_or_ne c '%' with rfl | hrun
    · show fits (.run :: pattern.map Piece.ofChar) text = true ↔ _
      -- the run ends here, or the rest of the text is tried
      induction text with
      | nil =>
        rw [fits_run_nil, cuts_run_iff, ih]
        simp
      | cons d text ihtext =>
        rw [fits_run_cons, cuts_run_iff, Bool.or_eq_true, ih, ihtext]
        simp
    rcases eq_or_ne c '_' with rfl | hone
    · show fits (.one :: pattern.map Piece.ofChar) text = true ↔ _
      rw [cuts_one_iff]
      cases text with
      | nil => simp [fits_cons_nil]
      | cons d text => simp [fits_one_cons, ih]
    · rw [Piece.ofChar, if_neg hrun, if_neg hone, cuts_exactly_iff hrun hone]
      cases text with
      | nil => simp [fits_cons_nil]
      | cons d text =>
        rw [fits_exactly_cons, Bool.and_eq_true, beq_iff_eq, ih]
        simp

/-- A compiled pattern accepts the texts that can be cut into its pieces. -/
theorem accepts_compile_iff (pattern text : String) :
    (compile pattern).accepts text = true ↔ Cuts pattern.toList text.toList :=
  fits_iff_cuts pattern.toList text.toList

end Like

end DocQuery
