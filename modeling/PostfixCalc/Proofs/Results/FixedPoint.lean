import Mathlib.Tactic.NormNum
import PostfixCalc.Proofs.NumberText
import PostfixCalc.Proofs.Results.ExactValue
import PostfixCalc.Proofs.Results.Nearest

/-!
# Results in fixed point

The result of a calculation is written with seven digits after the point, whatever its magnitude.
Its text stands for the multiple of a ten-millionth that is nearest to the exact value.

Main results:

- `FixedPoint.even_coefficient_iff`: the last digit tells whether the whole number of units in the
  last place is even.
- `decimalValue?_signed`: digits in fixed point are read as the number that they stand for.
- `Binary64.isNearestMultiple_resultUnits`: the text of a finite result stands for the nearest
  multiple.
- `Binary64.resultText_exact`: the texts of all results, and their order.
-/

namespace PostfixCalc

open Lexing

/-! ## Digits in fixed point -/

/-- A number above zero is written without leading zeros. -/
theorem head?_digits {n : Nat} (h : n ≠ 0) : (digits n).head? ≠ some '0' := by
  induction n using Nat.strongRecOn with
  | ind n ih =>
    unfold digits at *
    rcases Nat.lt_or_ge n 10 with hsmall | hlarge
    · rw [Nat.toDigits_of_lt_base hsmall, List.head?_cons]
      exact fun heq => h (Nat.digitChar_eq_zero.1 (Option.some.inj heq))
    · rw [Nat.toDigits_of_base_le (by decide) hlarge,
        List.head?_append_of_ne_nil _ Nat.toDigits_ne_nil]
      exact ih (n / 10) (by omega) (by omega)

/-- A number written out with a given number of places after the point. -/
structure FixedPoint (places : Nat) where
  /-- The digits in front of the point. -/
  whole : List Char
  /-- The digits after the point. -/
  fraction : List Char
  isDigits_whole : IsDigits whole
  /-- A leading zero is the only digit in front of the point. -/
  eq_zero_of_head : whole.head? = some '0' → whole = ['0']
  isDigits_fraction : IsDigits fraction
  length_fraction : fraction.length = places

namespace FixedPoint

variable {places : Nat}

/-- All digits, with the point among them. -/
def text (t : FixedPoint places) : List Char := t.whole ++ '.' :: t.fraction

/-- The number of units in the last place. -/
def coefficient (t : FixedPoint places) : Nat := Nat.ofDigitChars 10 (t.whole ++ t.fraction) 0

/-- The number `n / 10 ^ places`. -/
def ofNat (n : Nat) (h : 0 < places) : FixedPoint places where
  whole := digits (n / tenPow places)
  fraction := padded places (n % tenPow places)
  isDigits_whole := isDigits_digits _
  eq_zero_of_head := by
    intro hhead
    by_cases hzero : n / tenPow places = 0
    · rw [hzero]
      rfl
    · exact absurd hhead (head?_digits hzero)
  isDigits_fraction := isDigits_padded h
  length_fraction := length_padded (length_digits_mod h)

@[simp] theorem text_ofNat (n : Nat) (h : 0 < places) : (ofNat n h).text = fixedPoint n places :=
  (if_neg h.ne').symm

@[simp] theorem coefficient_ofNat (n : Nat) (h : 0 < places) : (ofNat n h).coefficient = n :=
  ofDigitChars_cut n h

/-- The number of units in the last place is even if its last digit is. -/
theorem even_coefficient_iff (t : FixedPoint places) {c : Char} (hc : c ∈ t.fraction.getLast?) :
    Even t.coefficient ↔ c ∈ ['0', '2', '4', '6', '8'] := by
  obtain ⟨front, hfront⟩ := List.getLast?_eq_some_iff.1 hc
  have hdigit : c.isDigit = true := t.isDigits_fraction.2 c (List.mem_of_getLast? hc)
  have hvalue : t.coefficient =
      10 * Nat.ofDigitChars 10 (t.whole ++ front) 0 + (c.toNat - 48) := by
    rw [coefficient, hfront, ← List.append_assoc, Nat.ofDigitChars_append]
    rfl
  have hrange : 48 ≤ c.toNat ∧ c.toNat ≤ 57 := by
    simpa [Char.isDigit, UInt32.le_iff_toNat_le] using hdigit
  have hmem : c ∈ ['0', '2', '4', '6', '8'] ↔ c.toNat ∈ [48, 50, 52, 54, 56] := by
    simp only [List.mem_cons, List.not_mem_nil, ← Char.toNat_inj]
    rfl
  rw [hvalue, hmem, Nat.even_iff]
  simp only [List.mem_cons, List.not_mem_nil, or_false]
  omega

end FixedPoint

/-! ## The number that a text stands for -/

/-- The number that a decimal is. -/
def Decimal.value (d : Decimal) : ℚ := d.coefficient * 10 ^ d.exponent

/-- The number that a decimal text stands for, with perhaps a minus sign in front. -/
def decimalValue? (text : String) : Option ℚ :=
  match text.toList with
  | '-' :: magnitude => (Decimal.read? magnitude).map fun d => -d.value
  | magnitude => (Decimal.read? magnitude).map Decimal.value

/-- Digits in fixed point are read as the number that they stand for. -/
theorem decimalValue?_signed {places : Nat} (negative : Bool) (t : FixedPoint places) :
    decimalValue? ((if negative then "-" else "") ++ String.ofList t.text) =
      some ((signOf negative : ℚ) * t.coefficient * (1 / 10 ^ places)) := by
  have hread : Decimal.read? t.text = some ⟨t.coefficient, -(places : ℤ)⟩ := by
    rw [FixedPoint.text, Decimal.read?_of_fraction t.isDigits_whole t.isDigits_fraction,
      t.length_fraction, FixedPoint.coefficient]
  have hvalue : Decimal.value ⟨t.coefficient, -(places : ℤ)⟩ =
      t.coefficient * (1 / 10 ^ places) := by
    rw [Decimal.value, zpow_neg, zpow_natCast, one_div]
  cases negative with
  | true =>
    have htext : ((if true then "-" else "") ++ String.ofList t.text).toList = '-' :: t.text := by
      rw [if_pos rfl, String.toList_append, String.toList_ofList, String.toList_ofList]
      rfl
    rw [decimalValue?, htext]
    simp [hread, hvalue, signOf]
  | false =>
    have htext : ((if false then "-" else "") ++ String.ofList t.text).toList = t.text := by
      rw [if_neg (by decide), String.empty_append, String.toList_ofList]
    have hhead : t.text.head? ≠ some '-' :=
      (Positional.fraction t.isDigits_whole t.isDigits_fraction).head?_ne rfl
    rw [decimalValue?, htext]
    split
    · rename_i hminus
      exact absurd (congrArg List.head? hminus) hhead
    · simp [hread, hvalue, signOf]

/-! ## Results -/

namespace Binary64

/-- The nearest ten-millionths to the exact magnitude, written out. -/
def resultDigits (x : Binary64) : FixedPoint 7 :=
  .ofNat (roundDiv (x.units * tenPow 7) unitsPerOne) (by decide)

/-- The whole number of ten-millionths that the text of a result stands for. -/
def resultUnits (x : Binary64) : ℤ := signOf x.negative * x.resultDigits.coefficient

variable {x y : Binary64}

/-- The text of a finite result is its digits behind a sign. -/
theorem resultText_of_finite (h : x.isFinite = true) :
    x.resultText = (if x.negative then "-" else "") ++ String.ofList x.resultDigits.text := by
  rw [resultText, textWith_of_isFinite h, resultDigits, FixedPoint.text_ofNat, fixedDigits]

/-- The text of a finite result stands for a whole number of ten-millionths. -/
theorem decimalValue?_resultText (h : x.isFinite = true) :
    decimalValue? x.resultText = some ((x.resultUnits : ℚ) * (1 / 10 ^ 7)) := by
  rw [resultText_of_finite h, decimalValue?_signed, resultUnits]
  push_cast
  rfl

/-- The text of a finite result stands for the ten-millionths nearest to the exact value. -/
theorem isNearestMultiple_resultUnits (x : Binary64) :
    IsNearestMultiple (1 / 10 ^ 7) x.exactValue x.resultUnits := by
  have hmagnitude := isNearestMultiple_roundDiv x.units unitsPerOne_pos (tenPow_pos 7)
  have hunit : (1 / (tenPow 7 : ℕ) : ℚ) = 1 / 10 ^ 7 := by norm_num [tenPow]
  rw [hunit] at hmagnitude
  rw [exactValue_eq_units, resultUnits, resultDigits, FixedPoint.coefficient_ofNat]
  cases x.negative
  · simpa [signOf] using hmagnitude
  · simpa [signOf] using hmagnitude.neg

/-- The order of the texts' numbers is that of the doubles. -/
theorem resultUnits_le_of_le (h : x.le y = true) : x.resultUnits ≤ y.resultUnits :=
  x.isNearestMultiple_resultUnits.mono (by positivity) y.isNearestMultiple_resultUnits
    (exactValue_le_of_le h)

/-- The result of a calculation is exact to seven places.  A finite number has the sign of its sign
bit, digits without superfluous leading zeros, a point and seven digits; they stand for the multiple
of a ten-millionth nearest to its exact value, with an even last digit at a tie.  So a number that
is no larger has a text that stands for no larger number.  The other doubles are named. -/
theorem resultText_exact (x : Binary64) :
    (x.isNaN = true → x.resultText = "nan") ∧
      (x.isInfinite = true → x.resultText = if x.negative then "-inf" else "inf") ∧
      (x.isFinite = true →
        ∃ (t : FixedPoint 7) (n : ℤ),
          x.resultText = (if x.negative then "-" else "") ++ String.ofList t.text ∧
            decimalValue? x.resultText = some ((n : ℚ) * (1 / 10 ^ 7)) ∧
            IsNearestMultiple (1 / 10 ^ 7) x.exactValue n ∧
            ∀ c ∈ t.fraction.getLast?, Even n ↔ c ∈ ['0', '2', '4', '6', '8']) ∧
      ∀ y : Binary64, x.isFinite = true → y.isFinite = true → x.le y = true →
        ∃ p q : ℚ, decimalValue? x.resultText = some p ∧ decimalValue? y.resultText = some q ∧
          p ≤ q := by
  refine ⟨fun h => ?_, fun h => ?_, fun h => ?_, fun y hx hy hle => ?_⟩
  · rw [resultText, textWith, if_pos h]
  · rw [resultText, textWith_of_isInfinite h]
    split <;> rfl
  · refine ⟨x.resultDigits, x.resultUnits, resultText_of_finite h, decimalValue?_resultText h,
      x.isNearestMultiple_resultUnits, fun c hc => ?_⟩
    rw [← x.resultDigits.even_coefficient_iff hc, resultUnits]
    cases x.negative <;> simp [signOf]
  · refine ⟨_, _, decimalValue?_resultText hx, decimalValue?_resultText hy, ?_⟩
    have hunits : (x.resultUnits : ℚ) ≤ y.resultUnits := by exact_mod_cast resultUnits_le_of_le hle
    exact mul_le_mul_of_nonneg_right hunits (by positivity)

-- The numbers `0.00390625` and `-0.01171875` are ties, which go down and up to an even digit.
example :
    (ofBits 0x3F70000000000000).resultText = "0.0039062" ∧
      (ofBits 0xBF88000000000000).resultText = "-0.0117188" := by
  decide

end Binary64

end PostfixCalc
