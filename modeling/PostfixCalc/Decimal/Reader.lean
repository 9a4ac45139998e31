import PostfixCalc.Binary64.Nearest

/-!
# Reading decimal numbers

The grammar of an unsigned number is digits with at most one point among, before or after them, then
optionally an `e` or `E`, a sign and digits.  A signed number has at most one sign in front, and may
also be one of the words `inf`, `infinity` and `nan` in any mixture of cases.

Main results:

- `read?_of_digits`: digits alone read as the number that they stand for.
-/

namespace PostfixCalc

namespace Decimal

/-- The number that one or more digits stand for. -/
def readDigits? (text : List Char) : Option Nat :=
  if text ≠ [] ∧ text.all Char.isDigit then some (Nat.ofDigitChars 10 text 0) else none

/-- The power of ten that stands at the end of a number: nothing, or a mark, a sign and digits. -/
def readExponent? : List Char → Option Int
  | [] => some 0
  | mark :: rest =>
    if mark = 'e' ∨ mark = 'E' then
      match rest with
      | '-' :: text => (readDigits? text).map fun n => -(n : Int)
      | '+' :: text => (readDigits? text).map fun n => (n : Int)
      | text => (readDigits? text).map fun n => (n : Int)
    else none

/-- Split the digits after a leading point from what follows them. -/
def splitFraction : List Char → List Char × List Char
  | '.' :: rest => (rest.takeWhile Char.isDigit, rest.dropWhile Char.isDigit)
  | rest => ([], rest)

/-- Read a whole text as an unsigned decimal number. -/
def read? (text : List Char) : Option Decimal :=
  let whole := text.takeWhile Char.isDigit
  let (fraction, rest) := splitFraction (text.dropWhile Char.isDigit)
  if whole = [] ∧ fraction = [] then none
  else
    (readExponent? rest).map fun exponent =>
      ⟨Nat.ofDigitChars 10 (whole ++ fraction) 0, exponent - fraction.length⟩

/-- Digits alone read as the number that they stand for. -/
theorem read?_of_digits {text : List Char} (hne : text ≠ [])
    (hdigits : ∀ c ∈ text, c.isDigit = true) :
    read? text = some ⟨Nat.ofDigitChars 10 text 0, 0⟩ := by
  have htake : (text ++ []).takeWhile Char.isDigit = text ++ [].takeWhile Char.isDigit :=
    List.takeWhile_append_of_pos hdigits
  have hdrop : (text ++ []).dropWhile Char.isDigit = [].dropWhile Char.isDigit :=
    List.dropWhile_append_of_pos hdigits
  simp only [List.append_nil, List.takeWhile_nil, List.dropWhile_nil] at htake hdrop
  simp [read?, htake, hdrop, splitFraction, readExponent?, hne]

end Decimal

namespace Binary64

/-- Read a whole text as an unsigned number, decimal or named. -/
def readMagnitude? (text : List Char) : Option Binary64 :=
  match (Decimal.read? text).map ofDecimal with
  | some x => some x
  | none =>
    let word := String.ofList (text.map Char.toLower)
    if word = "inf" ∨ word = "infinity" then some infinity
    else if word = "nan" then some nan
    else none

/-- Read a whole text as a number with an optional sign. -/
def read? (text : String) : Option Binary64 :=
  match text.toList with
  | '-' :: magnitude => (readMagnitude? magnitude).map neg
  | '+' :: magnitude => readMagnitude? magnitude
  | magnitude => readMagnitude? magnitude

end Binary64

end PostfixCalc
