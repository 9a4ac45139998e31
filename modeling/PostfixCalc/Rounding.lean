/-!
# Rounding a quotient

`roundDiv num den` is the whole number nearest to `num / den`, and of two equally near ones the
even one.

Main results:

- `roundDiv_mul_self`: a whole quotient is its own rounding.
- `roundDiv_le` and `le_roundDiv`: the rounding is within half a unit of the quotient.
- `roundDiv_even_of_tie`: a quotient halfway between two whole numbers goes to the even one.
-/

namespace PostfixCalc

/-- The whole number nearest to `num / den`; a tie goes to the even neighbour. -/
def roundDiv (num den : Nat) : Nat :=
  if 2 * (num % den) < den ∨ (2 * (num % den) = den ∧ num / den % 2 = 0) then num / den
  else num / den + 1

/-- A whole quotient is its own rounding. -/
theorem roundDiv_mul_self (q : Nat) {den : Nat} (h : 0 < den) : roundDiv (q * den) den = q := by
  simp [roundDiv, Nat.mul_div_cancel q h, h]

/-- The rounding depends on the quotient alone. -/
theorem roundDiv_mul_right (num den : Nat) {k : Nat} (h : 0 < k) :
    roundDiv (num * k) (den * k) = roundDiv num den := by
  have hless : 2 * (num % den) * k < den * k ↔ 2 * (num % den) < den := Nat.mul_lt_mul_right h
  have htie : 2 * (num % den) * k = den * k ↔ 2 * (num % den) = den :=
    Nat.mul_left_inj (Nat.ne_of_gt h)
  simp only [roundDiv, Nat.mul_mod_mul_right, Nat.mul_div_mul_right _ _ h, ← Nat.mul_assoc, hless,
    htie]

/-- The rounding exceeds the quotient by at most half a unit. -/
theorem roundDiv_le (num : Nat) {den : Nat} (h : 0 < den) :
    2 * (roundDiv num den * den) ≤ 2 * num + den := by
  have hsplit := Nat.div_add_mod' num den
  have hmod := Nat.mod_lt num h
  unfold roundDiv
  split
  · omega
  · rw [Nat.add_mul]
    omega

/-- The rounding falls short of the quotient by at most half a unit. -/
theorem le_roundDiv (num : Nat) {den : Nat} (h : 0 < den) :
    2 * num ≤ 2 * (roundDiv num den * den) + den := by
  have hsplit := Nat.div_add_mod' num den
  have hmod := Nat.mod_lt num h
  unfold roundDiv
  split
  · omega
  · rw [Nat.add_mul]
    omega

/-- A quotient halfway between two whole numbers is rounded to the even one. -/
theorem roundDiv_even_of_tie {num den : Nat} (h : 2 * (num % den) = den) :
    roundDiv num den % 2 = 0 := by
  unfold roundDiv
  split <;> omega

end PostfixCalc
