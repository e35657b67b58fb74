/-!
# Words compared without regard to case

Keywords are recognised whatever the case of their ASCII letters; other characters are compared as
they are, so the Kelvin sign is no `k` and the dotless `ı` no `i`.
-/

namespace DocQuery

/-- Whether a text is a given keyword, which is written in small letters. -/
def isKeyword (keyword text : String) : Bool :=
  text.toList.map Char.toLower == keyword.toList

/-- A keyword matches itself. -/
theorem isKeyword_self {keyword : String}
    (hsmall : keyword.toList.map Char.toLower = keyword.toList) :
    isKeyword keyword keyword = true := by
  simp [isKeyword, hsmall]

/-- A text is at most one keyword. -/
theorem eq_of_isKeyword {first second text : String} (h₁ : isKeyword first text = true)
    (h₂ : isKeyword second text = true) : first = second := by
  rw [isKeyword, beq_iff_eq] at h₁ h₂
  exact String.toList_inj.1 (h₁.symm.trans h₂)

end DocQuery
