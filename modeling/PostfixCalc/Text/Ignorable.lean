import PostfixCalc.Text.CodePoints

/-!
# Ignorable characters

Characters that show nothing where they are not supported: fillers, selectors of variants, marks of
direction and invisible operators.  They are the code points with the property
`Default_Ignorable_Code_Point` of Unicode 17.0.

Main results:

- `isIgnorable_eq_false`: the first of these characters is the soft hyphen, `0xAD`.
-/

namespace PostfixCalc

/-- The ranges of ignorable code points in ascending order. -/
def ignorableRanges : CodeRanges :=
  [(0xAD, 0xAD), (0x34F, 0x34F), (0x61C, 0x61C), (0x115F, 0x1160), (0x17B4, 0x17B5),
    (0x180B, 0x180F), (0x200B, 0x200F), (0x202A, 0x202E), (0x2060, 0x206F), (0x3164, 0x3164),
    (0xFE00, 0xFE0F), (0xFEFF, 0xFEFF), (0xFFA0, 0xFFA0), (0xFFF0, 0xFFF8), (0x1BCA0, 0x1BCA3),
    (0x1D173, 0x1D17A), (0xE0000, 0xE0FFF)]

/-- The ranges lie apart, all from `0xAD` on. -/
theorem ignorableRanges_isAscending : CodeRanges.isAscendingFrom 0xAD ignorableRanges = true := by
  decide +kernel

/-- Whether a character shows nothing where it is not supported. -/
def isIgnorable (c : Char) : Bool := CodeRanges.covers ignorableRanges c

/-- No character before the soft hyphen is ignorable. -/
theorem isIgnorable_eq_false {c : Char} (h : c.toNat < 0xAD) : isIgnorable c = false :=
  CodeRanges.covers_eq_false ignorableRanges_isAscending h

end PostfixCalc
