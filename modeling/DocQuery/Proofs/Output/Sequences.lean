import DocQuery.Json.Reader

/-!
# Sequences between marks

What a reader of elements takes from the front of a text, without the proof that the rest is
shorter: one equation for each way in which a sequence can begin, go on and end. The items of an
array and the members of an object are such sequences.

* `Json.readSequence?_close`, `Json.readSequence?_comma`: a sequence that ends and one that goes on.
* `Json.readEnclosed?_close`, `Json.readEnclosed?_of_ne`: nothing and a sequence between two marks.
-/

namespace DocQuery

namespace Json

/-- What was read, and the text that follows it. -/
def Reading.both {α : Type} {cs : List Char} (reading : Reading α cs) : α × List Char :=
  (reading.result, reading.rest)

variable {α : Type} {element : (cs : List Char) → Option (Reading α cs)} {close : Char}
  {cs rest after : List Char}

/-- A sequence whose first element cannot be read. -/
theorem readSequence?_none (h : (element cs).map Reading.both = none) :
    (readSequence? element close cs).map Reading.both = none := by
  rw [Option.map_eq_none_iff] at h ⊢
  rw [readSequence?, h]

/-- The last element of a sequence. -/
theorem readSequence?_close {first : α} (h : (element cs).map Reading.both = some (first, rest))
    (hclose : skipSpace rest = close :: after) :
    (readSequence? element close cs).map Reading.both = some ([first], after) := by
  obtain ⟨reading, hreading, hboth⟩ := Option.map_eq_some_iff.1 h
  cases hboth
  rw [readSequence?, hreading]
  dsimp only
  split <;> rename_i hmark <;> cases hclose.symm.trans hmark
  rw [if_pos rfl]
  rfl

/-- An element with more elements behind it. -/
theorem readSequence?_comma {first : α} (h : (element cs).map Reading.both = some (first, rest))
    (hcomma : skipSpace rest = ',' :: after) (hne : ',' ≠ close) :
    (readSequence? element close cs).map Reading.both =
      ((readSequence? element close after).map Reading.both).map (Prod.map (first :: ·) id) := by
  obtain ⟨reading, hreading, hboth⟩ := Option.map_eq_some_iff.1 h
  cases hboth
  rw [readSequence?, hreading]
  dsimp only
  split <;> rename_i hmark <;> cases hcomma.symm.trans hmark
  rw [if_neg hne, if_pos rfl]
  cases readSequence? element close after <;> rfl

/-- The closing mark behind the opening one. -/
theorem readEnclosed?_close (hclose : skipSpace cs = close :: after) :
    (readEnclosed? element close cs).map Reading.both = some ([], after) := by
  unfold readEnclosed?
  split <;> rename_i hmark <;> cases hclose.symm.trans hmark
  rw [if_pos rfl]
  rfl

/-- Elements behind the opening mark. -/
theorem readEnclosed?_of_ne {mark : Char} (hmark : skipSpace cs = mark :: after)
    (hne : mark ≠ close) : readEnclosed? element close cs = readSequence? element close cs := by
  unfold readEnclosed?
  split <;> rename_i hother <;> cases hmark.symm.trans hother
  exact if_neg hne

end Json

end DocQuery
