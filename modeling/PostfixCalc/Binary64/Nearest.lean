import PostfixCalc.Rounding
import PostfixCalc.Binary64.Basic
import PostfixCalc.Decimal.Basic

/-!
# The double nearest to a number

A quotient of natural numbers is rounded to the nearest double: the quotient is cut to 53 binary
digits, or to whole units where it is smaller than that, and the kept part is rounded.  Since codes
follow one another across powers of two, a carry out of the kept part needs no further step.

Main results:

- `nearest_units`: the exact magnitude of a finite double is rounded to that double.
-/

namespace PostfixCalc

namespace Binary64

/-- The code of the double nearest to `num / den` units; numbers past the largest double have the
code of infinity. -/
def nearestCode (num den : Nat) : Nat :=
  let dropped := (num / den).log2 - 52
  min (roundDiv num (den <<< dropped) + dropped * 0x10000000000000) infinityCode

/-- The double nearest to `num / den` units. -/
def nearest (num den : Nat) : Binary64 :=
  ⟨false, nearestCode num den, Nat.lt_of_le_of_lt (Nat.min_le_right _ _) (by decide)⟩

/-- The nearest double depends on the quotient alone. -/
theorem nearest_mul_right (num den : Nat) {k : Nat} (h : 0 < k) :
    nearest (num * k) (den * k) = nearest num den := by
  have hshift (n : Nat) : (den * k) <<< n = den <<< n * k := by
    rw [Nat.shiftLeft_eq, Nat.shiftLeft_eq, Nat.mul_right_comm]
  simp only [nearest, nearestCode, Nat.mul_div_mul_right _ _ h, hshift, roundDiv_mul_right _ _ h]

/-- The units of a finite code round to that code, whatever the fraction they are given by. -/
theorem nearestCode_unitsOfCode {code scale : Nat} (hcode : code ≤ infinityCode)
    (hscale : 0 < scale) : nearestCode (unitsOfCode code * scale) scale = code := by
  unfold nearestCode
  rw [Nat.mul_div_cancel _ hscale]
  by_cases hsmall : code < 0x10000000000000
  · have hunits : unitsOfCode code = code := if_pos hsmall
    have hlog : code.log2 < 53 := by
      by_cases hzero : code = 0
      · subst hzero
        decide
      · exact (Nat.log2_lt hzero).2 (Nat.lt_trans hsmall (by decide))
    have hdropped : code.log2 - 52 = 0 := by omega
    rw [hunits, hdropped]
    simp only [Nat.shiftLeft_zero, Nat.zero_mul, Nat.add_zero]
    rw [roundDiv_mul_self _ hscale]
    exact Nat.min_eq_left hcode
  · generalize hexponent : code / 0x10000000000000 - 1 = exponent
    generalize hsignificand : 0x10000000000000 + code % 0x10000000000000 = significand
    have hunits : unitsOfCode code = significand * 2 ^ exponent := by
      rw [unitsOfCode, if_neg hsmall, hexponent, hsignificand, Nat.shiftLeft_eq]
    have hpow : 0 < 2 ^ exponent := Nat.two_pow_pos _
    have hlog : (unitsOfCode code).log2 = 52 + exponent := by
      rw [hunits, Nat.log2_eq_iff (Nat.mul_ne_zero (by omega) (by omega))]
      constructor
      · rw [Nat.pow_add]
        exact Nat.mul_le_mul_right _ (by omega)
      · rw [Nat.add_right_comm, Nat.pow_add]
        exact Nat.mul_lt_mul_of_pos_right (by omega) hpow
    have hdropped : (unitsOfCode code).log2 - 52 = exponent := by omega
    have hfraction : significand * 2 ^ exponent * scale = significand * (scale <<< exponent) := by
      rw [Nat.shiftLeft_eq, Nat.mul_assoc, Nat.mul_comm scale]
    have hpositive : 0 < scale <<< exponent := by
      rw [Nat.shiftLeft_eq]
      exact Nat.mul_pos hscale hpow
    have hcarry : significand + exponent * 0x10000000000000 = code := by omega
    simp only [hdropped]
    rw [hunits, hfraction, roundDiv_mul_self _ hpositive, hcarry]
    exact Nat.min_eq_left hcode

/-- The exact magnitude of a finite or infinite double rounds to its absolute value. -/
theorem nearest_units {x : Binary64} (h : x.isNaN = false) {scale : Nat} (hscale : 0 < scale) :
    nearest (x.units * scale) scale = { x with negative := false } := by
  have hcode : x.code ≤ infinityCode := by simpa [isNaN] using h
  simp [nearest, units, nearestCode_unitsOfCode hcode hscale]

/-- The double nearest to a decimal number.  Ten is more than two to the third, so a decimal whose
exponent is far from zero is infinite or zero without forming its power of ten. -/
def ofDecimal (d : Decimal) : Binary64 :=
  if d.coefficient = 0 then zero
  else if 1024 ≤ 3 * d.exponent then infinity
  else if d.coefficient.log2 + 1076 + 3 * d.exponent ≤ 0 then zero
  else nearest (d.coefficient * tenPow d.exponent.toNat * unitsPerOne) (tenPow (-d.exponent).toNat)

/-- A decimal with a moderate exponent is rounded from its exact value. -/
theorem ofDecimal_of_moderate {d : Decimal} (hcoefficient : d.coefficient ≠ 0)
    (hlarge : 3 * d.exponent < 1024) (hsmall : 0 < d.coefficient.log2 + 1076 + 3 * d.exponent) :
    ofDecimal d =
      nearest (d.coefficient * tenPow d.exponent.toNat * unitsPerOne)
        (tenPow (-d.exponent).toNat) := by
  simp only [ofDecimal, if_neg hcoefficient, if_neg (Int.not_le.2 hlarge),
    if_neg (Int.not_le.2 hsmall)]

end Binary64

end PostfixCalc
