import PostfixCalc.Text.CodePoints

/-!
# Blank characters

The blank characters are those with the Unicode property `White_Space`.

Main results:

- `isBlank_eq_false_of_isAlphanum`: no letter or digit is one of them.
-/

namespace PostfixCalc

/-- The ranges of code points with the property `White_Space`. -/
def blankRanges : CodeRanges :=
  [(0x9, 0xD), (0x20, 0x20), (0x85, 0x85), (0xA0, 0xA0), (0x1680, 0x1680), (0x2000, 0x200A),
    (0x2028, 0x2029), (0x202F, 0x202F), (0x205F, 0x205F), (0x3000, 0x3000)]

/-- Whether a character separates lexemes without belonging to any. -/
def isBlank (c : Char) : Bool := CodeRanges.covers blankRanges c

/-- No letter or digit is blank. -/
theorem isBlank_eq_false_of_isAlphanum {c : Char} (h : c.isAlphanum = true) :
    isBlank c = false := by
  delta Char.isAlphanum Char.isAlpha Char.isUpper Char.isLower Char.isDigit at h
  simp only [Bool.or_eq_true, Bool.and_eq_true, decide_eq_true_eq, ge_iff_le,
    UInt32.le_iff_toNat_le] at h
  have hcode : c.val.toNat = c.toNat := rfl
  rw [hcode] at h
  simp [isBlank, CodeRanges.covers, blankRanges]
  simp at h
  omega

end PostfixCalc
