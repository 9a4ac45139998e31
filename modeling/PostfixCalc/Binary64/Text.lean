import PostfixCalc.Decimal.Shortest

/-!
# Texts of doubles

Three texts are in use.  In expressions a number is written with the shortest digits that read back,
every position written out.  In the journal the same digits always show a fraction or an exponent.
Results have a fixed number of digits after the point.

Main results:

- `textWith_of_isFinite` and `textWith_of_isInfinite`: the texts of numbers begin with a sign.
-/

namespace PostfixCalc

namespace Binary64

/-- The text of a number, given that of its finite magnitudes and of non-numbers. -/
def textWith (magnitude : Binary64 → List Char) (notANumber : String) (x : Binary64) : String :=
  if x.isNaN then notANumber
  else
    (if x.negative then "-" else "") ++
      (if x.isInfinite then "inf" else String.ofList (magnitude x))

/-- A finite number is its magnitude behind a sign. -/
theorem textWith_of_isFinite {x : Binary64} (h : x.isFinite = true)
    (magnitude : Binary64 → List Char) (notANumber : String) :
    x.textWith magnitude notANumber =
      (if x.negative then "-" else "") ++ String.ofList (magnitude x) := by
  have hnan : ¬x.isNaN = true := fun hnan => not_isFinite_of_isNaN hnan h
  have hinfinite : ¬x.isInfinite = true := fun hinf => not_isFinite_of_isInfinite hinf h
  rw [textWith, if_neg hnan, if_neg hinfinite]

/-- Infinity is a word behind a sign. -/
theorem textWith_of_isInfinite {x : Binary64} (h : x.isInfinite = true)
    (magnitude : Binary64 → List Char) (notANumber : String) :
    x.textWith magnitude notANumber = (if x.negative then "-" else "") ++ "inf" := by
  rw [textWith, if_neg (not_isNaN_of_isInfinite h), if_pos h]

/-- The shortest digits that read back, every position written out. -/
def plainText (x : Binary64) : String := x.textWith (fun x => x.shortest.positional) "NaN"

/-- The shortest digits that read back, with a fraction even if it is zero; from `1e16` on and below
`1e-4` in scientific form. -/
def journalDigits (x : Binary64) : List Char :=
  let d := x.shortest
  if d.coefficient ≠ 0 ∧ (d.magnitude < -4 ∨ 16 ≤ d.magnitude) then d.scientific
  else if 0 ≤ d.exponent then d.positional ++ ['.', '0']
  else d.positional

/-- The text of a number in the journal. -/
def journalText (x : Binary64) : String := x.textWith journalDigits "NaN"

/-- The exact magnitude rounded to a number of places after the point, a tie to the even digit. -/
def fixedDigits (places : Nat) (x : Binary64) : List Char :=
  fixedPoint (roundDiv (x.units * tenPow places) unitsPerOne) places

/-- The text of a result: seven places after the point, never an exponent. -/
def resultText (x : Binary64) : String := x.textWith (fixedDigits 7) "nan"

end Binary64

end PostfixCalc
