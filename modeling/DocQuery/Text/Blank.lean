import DocQuery.Text.Ranges

/-!
# Blank characters

The Unicode property `White_Space`. Between the tokens of a query any run of these characters is
white space; a zero-width space, a word joiner and a byte order mark are not.

* `isBlank_of_isWhitespace`: the ASCII white space characters are among them.
-/

namespace DocQuery

/-- The code points of white space, in ascending order. -/
def blankTable : CodeRanges :=
  [
    (0x9, 0xd), (0x20, 0x20), (0x85, 0x85), (0xa0, 0xa0), (0x1680, 0x1680), (0x2000, 0x200a),
    (0x2028, 0x2029), (0x202f, 0x202f), (0x205f, 0x205f), (0x3000, 0x3000)
  ]

/-- Whether a character is white space in the sense of Unicode. -/
def isBlank (c : Char) : Bool :=
  blankTable.contains c.toNat

/-- The ASCII white space characters are blank. -/
theorem isBlank_of_isWhitespace {c : Char} (hwhite : c.isWhitespace = true) : isBlank c = true := by
  simp only [Char.isWhitespace, Bool.or_eq_true, decide_eq_true_eq] at hwhite
  rcases hwhite with ((rfl | rfl) | rfl) | rfl <;> decide

end DocQuery
