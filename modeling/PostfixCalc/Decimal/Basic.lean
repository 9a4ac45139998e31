/-!
# Decimal numbers and their digits

A `Decimal` is a natural coefficient and a power of ten.  This module writes decimals: all positions
as digits, with no exponent, or in scientific form.

Main results:

- `length_padded`: padding gives exactly the wanted number of digits.
- `ofDigitChars_padded`: padding does not change the number that the digits stand for.
-/

namespace PostfixCalc

/-- The number `coefficient * 10 ^ exponent`. -/
structure Decimal where
  /-- The significant digits as one number. -/
  coefficient : Nat
  /-- The power of ten of the last digit. -/
  exponent : Int
  deriving DecidableEq

/-! ## Powers of ten -/

/-- Ten to a natural power. -/
def tenPow (n : Nat) : Nat := Nat.pow 10 n

/-- The first power of ten is one. -/
@[simp] theorem tenPow_zero : tenPow 0 = 1 := rfl

/-- No power of ten is zero. -/
theorem tenPow_pos (n : Nat) : 0 < tenPow n := Nat.pow_pos (by decide)

/-! ## Digits -/

/-- The digits of a number, most significant first and without leading zeros. -/
def digits (n : Nat) : List Char := Nat.toDigits 10 n

/-- The digits of `n` with zeros put in front of them up to a given width. -/
def padded (width n : Nat) : List Char :=
  List.replicate (width - (digits n).length) '0' ++ digits n

/-- A number with no more digits than the width is padded to exactly the width. -/
theorem length_padded {width n : Nat} (h : (digits n).length ≤ width) :
    (padded width n).length = width := by
  simp [padded]
  omega

/-- Leading zeros do not change the number that digits stand for. -/
theorem ofDigitChars_padded (width n : Nat) : Nat.ofDigitChars 10 (padded width n) 0 = n := by
  have hzeros : ∀ k : Nat, Nat.ofDigitChars 10 (List.replicate k '0') 0 = 0 := by
    intro k
    induction k with
    | zero => rfl
    | succ k ih => simpa [List.replicate_succ, Nat.ofDigitChars] using ih
  unfold padded
  rw [Nat.ofDigitChars_append, hzeros]
  exact Nat.ofDigitChars_toDigits (by decide) (by decide)

/-! ## Positional and scientific form -/

/-- The number `n / 10 ^ places`, written with exactly `places` digits after the point. -/
def fixedPoint (n places : Nat) : List Char :=
  if places = 0 then digits n
  else digits (n / tenPow places) ++ '.' :: padded places (n % tenPow places)

/-- The digits of an integer behind a minus sign if it is negative. -/
def signedDigits : Int → List Char
  | .ofNat n => digits n
  | .negSucc n => '-' :: digits (n + 1)

namespace Decimal

/-- Every position written out, with a point only where the last digit stands after it. -/
def positional (d : Decimal) : List Char :=
  fixedPoint (d.coefficient * tenPow d.exponent.toNat) (-d.exponent).toNat

/-- The power of ten of the first digit. -/
def magnitude (d : Decimal) : Int := d.exponent + (digits d.coefficient).length - 1

/-- One digit, the others after a point, and the power of ten of the first digit. -/
def scientific (d : Decimal) : List Char :=
  let exponent := 'e' :: signedDigits d.magnitude
  match digits d.coefficient with
  | first :: second :: others => first :: '.' :: second :: others ++ exponent
  | single => single ++ exponent

end Decimal

end PostfixCalc
