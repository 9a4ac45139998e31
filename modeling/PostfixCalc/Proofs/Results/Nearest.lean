import Mathlib.Algebra.Order.Field.Rat
import Mathlib.Algebra.Ring.Int.Parity
import Mathlib.Tactic.FieldSimp
import Mathlib.Tactic.Linarith
import Mathlib.Tactic.Positivity
import Mathlib.Tactic.Ring
import PostfixCalc.Rounding

/-!
# The nearest multiple of a unit

Rounding to a number of places after the point chooses among the multiples of a unit.  The nearest
one is chosen, and of two equally near ones the even one; so there is only one choice, and a larger
number is never given a smaller multiple.

Main results:

- `IsNearestMultiple.of_abs_le`: a multiple within half a unit is nearest.
- `IsNearestMultiple.mono`: the nearest multiple grows with the number.
- `isNearestMultiple_roundDiv`: a rounded quotient is nearest.
-/

namespace PostfixCalc

/-- Of all multiples of `unit`, the one by `n` is nearest to `q`, and a tie goes to the even one. -/
structure IsNearestMultiple (unit q : ℚ) (n : ℤ) : Prop where
  /-- No multiple is nearer. -/
  nearest : ∀ m : ℤ, |q - n * unit| ≤ |q - m * unit|
  /-- If another multiple is as near, this one is even. -/
  even_of_tie : ∀ m : ℤ, m ≠ n → |q - m * unit| = |q - n * unit| → Even n

namespace IsNearestMultiple

variable {unit q r : ℚ} {n m : ℤ}

/-- A multiple within half a unit is nearest, if it is even where it is exactly half a unit away. -/
theorem of_abs_le (hunit : 0 < unit) (hle : 2 * |q - n * unit| ≤ unit)
    (heven : 2 * |q - n * unit| = unit → Even n) : IsNearestMultiple unit q n := by
  -- Two multiples are at least a unit apart, so any other one is at least half a unit away.
  have hfar : ∀ m : ℤ, m ≠ n → unit ≤ 2 * |q - m * unit| := by
    intro m hm
    have hstep : (1 : ℚ) ≤ |(m : ℚ) - n| := by
      exact_mod_cast Int.one_le_abs (sub_ne_zero.2 hm)
    have hapart : unit ≤ |m * unit - n * unit| := by
      rw [← sub_mul, abs_mul, abs_of_pos hunit]
      exact le_mul_of_one_le_left hunit.le hstep
    have htriangle : |m * unit - n * unit| ≤ |q - n * unit| + |q - m * unit| := by
      have hsplit : m * unit - n * unit = (q - n * unit) - (q - m * unit) := by ring
      rw [hsplit]
      exact abs_sub _ _
    linarith
  constructor
  · intro m
    by_cases hm : m = n
    · rw [hm]
    · have := hfar m hm
      linarith
  · intro m hm htie
    have := hfar m hm
    exact heven (by linarith)

/-- A number and its negative have the same nearest multiple but for the sign. -/
theorem neg (h : IsNearestMultiple unit q n) : IsNearestMultiple unit (-q) (-n) := by
  have hdistance : ∀ m : ℤ, |-q - m * unit| = |q - (-m : ℤ) * unit| := by
    intro m
    rw [← abs_neg]
    congr 1
    push_cast
    ring
  constructor
  · intro m
    rw [hdistance, hdistance, neg_neg]
    exact h.nearest (-m)
  · intro m hm htie
    rw [hdistance, hdistance, neg_neg] at htie
    have hne : -m ≠ n := fun heq => hm (by rw [← heq, neg_neg])
    exact (h.even_of_tie (-m) hne htie).neg

/-- What is no nearer to the smaller of two numbers is past the middle between them. -/
theorem add_le_of_abs_le {a x y : ℚ} (hxy : x < y) (h : |a - y| ≤ |a - x|) : x + y ≤ 2 * a := by
  by_contra hmiddle
  have hbelow : |a - y| = y - a := by
    rw [abs_sub_comm]
    exact abs_of_pos (by linarith)
  have hcloser : |a - x| < y - a := abs_lt.2 ⟨by linarith, by linarith⟩
  linarith

/-- A larger number is never given a smaller multiple. -/
theorem mono (hunit : 0 < unit) (hn : IsNearestMultiple unit q n)
    (hm : IsNearestMultiple unit r m) (hqr : q ≤ r) : n ≤ m := by
  by_contra hlt
  have hmn : m < n := not_le.1 hlt
  have hmultiples : ∀ {k : ℤ}, k < n → (k : ℚ) * unit < n * unit := fun hk =>
    mul_lt_mul_of_pos_right (by exact_mod_cast hk) hunit
  have hq : m * unit + n * unit ≤ 2 * q := add_le_of_abs_le (hmultiples hmn) (hn.nearest m)
  have hr : -(n * unit) + -(m * unit) ≤ 2 * -r := by
    refine add_le_of_abs_le (neg_lt_neg (hmultiples hmn)) ?_
    simpa only [neg_sub_neg, abs_sub_comm] using hm.nearest n
  -- Both numbers are in the middle between the multiples, so both multiples are even.
  have hsame : r = q := by linarith
  have hmiddle : 2 * q = m * unit + n * unit := by linarith
  subst hsame
  have htie : |r - m * unit| = |r - n * unit| :=
    le_antisymm (hm.nearest n) (hn.nearest m)
  have hevenn := hn.even_of_tie m hmn.ne htie
  have hevenm := hm.even_of_tie n hmn.ne' htie.symm
  -- There is a multiple between them, which is nearer.
  have hbetween : m + 1 < n := by
    obtain ⟨i, rfl⟩ := hevenn
    obtain ⟨j, rfl⟩ := hevenm
    omega
  have hnext := add_le_of_abs_le (hmultiples hbetween) (hn.nearest (m + 1))
  push_cast at hnext
  linarith

end IsNearestMultiple

/-- A quotient that is an odd number of halves leaves half of the divisor. -/
theorem two_mul_mod_of_odd_halves {num den j : Nat} (hden : 0 < den)
    (h : 2 * num = (2 * j + 1) * den) : 2 * (num % den) = den := by
  have hodd : (2 * j + 1) * den = den + 2 * den * j := by ring
  rw [← Nat.mul_mod_mul_left, h, hodd, Nat.add_mul_mod_self_left]
  exact Nat.mod_eq_of_lt (by omega)

/-- A rounded quotient that is half a unit away from the quotient is even. -/
theorem even_roundDiv_of_tie {num den : Nat} (hden : 0 < den)
    (h : 2 * |(num : ℤ) - roundDiv num den * den| = den) : Even (roundDiv num den) := by
  generalize hk : roundDiv num den = k at h
  have hhalves : ∃ j : Nat, 2 * num = (2 * j + 1) * den := by
    rcases abs_cases ((num : ℤ) - k * den) with ⟨habs, -⟩ | ⟨habs, -⟩
    · refine ⟨k, ?_⟩
      zify
      linarith
    · cases k with
      | zero => omega
      | succ j =>
        refine ⟨j, ?_⟩
        zify
        push_cast at habs h
        linarith
  obtain ⟨j, hj⟩ := hhalves
  rw [← hk]
  exact Nat.even_iff.2 (roundDiv_even_of_tie (two_mul_mod_of_odd_halves hden hj))

/-- A rounded quotient is the nearest multiple of the unit it is counted in. -/
theorem isNearestMultiple_roundDiv (num : Nat) {den scale : Nat} (hden : 0 < den)
    (hscale : 0 < scale) :
    IsNearestMultiple (1 / scale) (num / den) (roundDiv (num * scale) den) := by
  have hbelow := roundDiv_le (num * scale) hden
  have habove := le_roundDiv (num * scale) hden
  have htie := @even_roundDiv_of_tie (num * scale) den hden
  generalize roundDiv (num * scale) den = k at *
  have hdenq : (0 : ℚ) < den := by exact_mod_cast hden
  have hscaleq : (0 : ℚ) < scale := by exact_mod_cast hscale
  have hdistance : |(num / den : ℚ) - (k : ℤ) * (1 / scale)| =
      (|((num * scale : ℕ) : ℤ) - k * den| : ℤ) / (den * scale) := by
    have hdiff : (num / den : ℚ) - (k : ℤ) * (1 / scale) =
        (((num * scale : ℕ) : ℤ) - k * den : ℤ) / (den * scale) := by
      push_cast
      field_simp
    rw [hdiff, abs_div, abs_of_pos (mul_pos hdenq hscaleq), Int.cast_abs]
  have hunit : (1 / scale : ℚ) = den / (den * scale) := by field_simp
  have hpos : (0 : ℚ) < den * scale := mul_pos hdenq hscaleq
  refine .of_abs_le (by positivity) ?_ ?_
  · rw [hdistance, hunit, ← mul_div_assoc, div_le_div_iff_of_pos_right hpos]
    have hle : 2 * |((num * scale : ℕ) : ℤ) - k * den| ≤ den := by
      rcases abs_cases (((num * scale : ℕ) : ℤ) - k * den) with ⟨habs, -⟩ | ⟨habs, -⟩ <;>
      · rw [habs]
        zify at hbelow habove
        push_cast
        linarith
    exact_mod_cast hle
  · rw [hdistance, hunit, ← mul_div_assoc, div_left_inj' hpos.ne']
    intro h
    exact (Int.even_coe_nat k).2 (htie (by exact_mod_cast h))

end PostfixCalc
