import Mathlib.Algebra.Order.Field.Rat
import Mathlib.Data.Int.ConditionallyCompleteOrder
import Mathlib.Order.Monotone.Odd
import Mathlib.Tactic.FieldSimp
import Mathlib.Tactic.Linarith
import Mathlib.Tactic.Positivity
import Mathlib.Tactic.Ring
import PostfixCalc.Binary64.Basic

/-!
# The exact value of a double

A double has a sign, an exponent of eleven bits and a fraction of 52 bits.  Together they stand for
a rational number, which is the number of units of the double behind its sign.

Main results:

- `exactValue_eq_units`: the exact value is counted by the units.
- `le_iff_exactValue_le`, `lt_iff_exactValue_lt`: the order of doubles is the order of their exact
  values.
- `isZero_iff`, `isInteger_iff`: the doubles whose exact value is zero or an integer.
-/

namespace PostfixCalc

/-- Minus one for a sign bit that is set, and one for a clear one. -/
def signOf (negative : Bool) : ℤ := if negative then -1 else 1

namespace Binary64

/-- The eleven bits of the exponent. -/
def exponentField (x : Binary64) : Nat := x.code / 2 ^ 52

/-- The 52 bits of the fraction, read as binary places after the point. -/
def fraction (x : Binary64) : ℚ := (x.code % 2 ^ 52 : Nat) / 2 ^ 52

/-- The number that a finite double stands for.  In front of the fraction there is a one, except at
the least exponent, which has the same weight as the next one. -/
def exactValue (x : Binary64) : ℚ :=
  signOf x.negative *
    if x.exponentField = 0 then x.fraction * 2 ^ (-1022 : ℤ)
    else (1 + x.fraction) * 2 ^ ((x.exponentField : ℤ) - 1023)

variable {x y : Binary64}

/-- One is as many units as two powers of two with the exponent of the unit between them. -/
theorem unitsPerOne_eq_mul {a b : Nat} (h : unitExponent = a + b) :
    (unitsPerOne : ℚ) = 2 ^ a * 2 ^ b := by
  rw [unitsPerOne, Nat.one_shiftLeft, h, Nat.pow_add, Nat.cast_mul, Nat.cast_pow, Nat.cast_pow,
    Nat.cast_ofNat]

theorem unitsPerOne_pos : 0 < unitsPerOne := by
  rw [unitsPerOne, Nat.one_shiftLeft]
  exact Nat.two_pow_pos _

/-- The exact value is the number of units, out of those that make one, behind the sign. -/
theorem exactValue_eq_units (x : Binary64) :
    x.exactValue = signOf x.negative * (x.units / unitsPerOne) := by
  rw [exactValue, @unitsPerOne_eq_mul 52 1022 rfl]
  congr 1
  by_cases hsubnormal : x.exponentField = 0
  · have hcode : x.code < 2 ^ 52 := (Nat.div_eq_zero_iff_lt (by positivity)).1 hsubnormal
    have hunits : x.units = x.code := if_pos hcode
    rw [if_pos hsubnormal, fraction, Nat.mod_eq_of_lt hcode, hunits, zpow_neg, zpow_ofNat,
      ← div_eq_mul_inv, div_div]
  · have hcode : ¬ x.code < 2 ^ 52 := mt Nat.div_eq_of_lt hsubnormal
    have hunits : x.units = (2 ^ 52 + x.code % 2 ^ 52) * 2 ^ (x.exponentField - 1) :=
      (if_neg hcode).trans (Nat.shiftLeft_eq _ _)
    obtain ⟨e, he⟩ := Nat.exists_eq_add_one_of_ne_zero hsubnormal
    have hweight : (x.exponentField : ℤ) - 1023 = (e : ℤ) - (1022 : ℕ) := by omega
    rw [if_neg hsubnormal, hunits, hweight, he, Nat.add_sub_cancel, zpow_sub₀ two_ne_zero,
      zpow_natCast, zpow_natCast, fraction, Nat.cast_mul, Nat.cast_add, Nat.cast_pow, Nat.cast_pow,
      Nat.cast_ofNat]
    generalize ((x.code % 2 ^ 52 : Nat) : ℚ) = f
    field_simp

/-! ## Order -/

/-- The units at a position on the line of signed codes, less than none before the origin. -/
def unitsAt (position : ℤ) : ℤ := position.sign * unitsOfCode position.natAbs

/-- More units are at a later position. -/
theorem unitsAt_strictMono : StrictMono unitsAt := by
  refine strictMono_of_odd_strictMonoOn_nonneg (fun position => ?_) ?_
  · rw [unitsAt, unitsAt, Int.sign_neg, Int.natAbs_neg, neg_mul]
  · intro a ha b hb hab
    have hunits : unitsOfCode a.natAbs < unitsOfCode b.natAbs :=
      strictMono_nat_of_lt_succ unitsOfCode_lt_succ (Int.natAbs_lt_natAbs_of_nonneg_of_lt ha hab)
    rw [unitsAt, unitsAt, Int.sign_eq_one_of_pos (lt_of_le_of_lt ha hab), one_mul]
    rcases eq_or_lt_of_le (Set.mem_Ici.1 ha) with hzero | hpos
    · rw [← hzero, Int.sign_zero, zero_mul]
      omega
    · rw [Int.sign_eq_one_of_pos hpos, one_mul]
      exact_mod_cast hunits

/-- The exact value is counted by the units at the position. -/
theorem exactValue_eq_unitsAt (x : Binary64) :
    x.exactValue = (unitsAt x.position : ℚ) / unitsPerOne := by
  have hunits : unitsAt x.position = signOf x.negative * x.units := by
    rcases Nat.eq_zero_or_pos x.code with hzero | hpos
    · have hnone : x.units = 0 := unitsOfCode_eq_zero.2 hzero
      rw [hnone, unitsAt, position, hzero]
      simp
    · rw [unitsAt, position, signOf, units]
      cases x.negative <;> simp [Int.sign_eq_one_of_pos, hpos]
  rw [exactValue_eq_units, hunits, Int.cast_mul, mul_div_assoc]
  rfl

/-- The line of signed codes is in the order of the exact values. -/
theorem exactValue_lt_iff : x.exactValue < y.exactValue ↔ x.position < y.position := by
  have hone : (0 : ℚ) < unitsPerOne := Nat.cast_pos.2 unitsPerOne_pos
  rw [exactValue_eq_unitsAt, exactValue_eq_unitsAt, div_lt_div_iff_of_pos_right hone,
    Int.cast_lt, unitsAt_strictMono.lt_iff_lt]

theorem exactValue_le_iff : x.exactValue ≤ y.exactValue ↔ x.position ≤ y.position := by
  rw [← not_lt, exactValue_lt_iff, not_lt]

/-- The order of doubles is the order of their exact values. -/
theorem exactValue_le_of_le (h : x.le y = true) : x.exactValue ≤ y.exactValue := by
  rw [le, Bool.and_eq_true, decide_eq_true_eq] at h
  exact exactValue_le_iff.2 h.2

/-- A double is at most another one exactly if its exact value is.  An infinite double has the place
of the exact value that its fields would have. -/
theorem le_iff_exactValue_le (hx : x.isNaN = false) (hy : y.isNaN = false) :
    x.le y = true ↔ x.exactValue ≤ y.exactValue := by
  rw [exactValue_le_iff, le, hx, hy]
  exact decide_eq_true_iff

/-- A double is less than another one exactly if its exact value is. -/
theorem lt_iff_exactValue_lt (hx : x.isNaN = false) (hy : y.isNaN = false) :
    x.lt y = true ↔ x.exactValue < y.exactValue := by
  rw [exactValue_lt_iff, lt, hx, hy]
  exact decide_eq_true_iff

/-! ## Zero, one and the integers -/

@[simp] theorem exactValue_zero : zero.exactValue = 0 := by
  rw [exactValue_eq_unitsAt]
  norm_num [unitsAt, position, zero]

@[simp] theorem exactValue_neg (x : Binary64) : x.neg.exactValue = -x.exactValue := by
  have hsign : signOf x.neg.negative = -signOf x.negative := by
    cases hx : x.negative <;> simp [neg, signOf, hx]
  rw [exactValue_eq_units, exactValue_eq_units, hsign, Int.cast_neg, neg_mul]
  rfl

@[simp] theorem exactValue_one : one.exactValue = 1 := by
  have hfield : one.exponentField = 1023 := by decide
  have hfraction : one.fraction = 0 := by norm_num [fraction, one]
  rw [exactValue, hfield, hfraction]
  norm_num [signOf, one]

/-- A double is zero exactly if its exact value is. -/
theorem isZero_iff : x.isZero = true ↔ x.exactValue = 0 := by
  have hone : (unitsPerOne : ℚ) ≠ 0 := Nat.cast_ne_zero.2 unitsPerOne_pos.ne'
  have hsign : (signOf x.negative : ℚ) ≠ 0 := by cases hx : x.negative <;> simp [signOf]
  rw [isZero, decide_eq_true_iff, ← unitsOfCode_eq_zero, exactValue_eq_units, mul_eq_zero,
    or_iff_right hsign, div_eq_zero_iff, or_iff_left hone, Nat.cast_eq_zero]
  rfl

/-- A finite double is an integer exactly if its exact value is. -/
theorem isInteger_iff (h : x.isFinite = true) :
    x.isInteger = true ↔ ∃ n : ℤ, x.exactValue = n := by
  have hone : (unitsPerOne : ℚ) ≠ 0 := Nat.cast_ne_zero.2 unitsPerOne_pos.ne'
  rw [isInteger, h, Bool.true_and, decide_eq_true_iff, exactValue_eq_units]
  constructor
  · intro hunits
    obtain ⟨k, hk⟩ := Nat.dvd_of_mod_eq_zero hunits
    refine ⟨signOf x.negative * k, ?_⟩
    rw [hk, Nat.cast_mul, mul_div_cancel_left₀ _ hone, Int.cast_mul, Int.cast_natCast]
  · rintro ⟨n, hn⟩
    rw [← mul_div_assoc, div_eq_iff hone] at hn
    have hsigned : signOf x.negative * (x.units : ℤ) = n * unitsPerOne := by exact_mod_cast hn
    have hmultiple : (unitsPerOne : ℤ) ∣ signOf x.negative * x.units := hsigned ▸ dvd_mul_left _ _
    have hunits : (unitsPerOne : ℤ) ∣ x.units := by
      cases hx : x.negative <;> simpa [signOf, hx] using hmultiple
    exact Nat.mod_eq_zero_of_dvd (Int.natCast_dvd_natCast.1 hunits)

end Binary64

end PostfixCalc
