import PostfixCalc.Binary64.Nearest

/-!
# The shortest decimal that reads back

A finite double is written with the fewest digits that read back as the same double, and of those
with the nearest ones.  Grids of decimals are tried from coarse to fine, each ten times finer than
the one before; on a grid only the two neighbours of the exact value can be the nearest.

Main results:

- `ofDecimal_exact`: the exact decimal of a magnitude reads back.
- `code_ofDecimal_shortest`: the shortest decimal of a finite number reads back as its magnitude.
-/

namespace PostfixCalc

namespace Binary64

/-- The decimal reads as a double of the same magnitude as `x`. -/
def isReadFrom (x : Binary64) (d : Decimal) : Bool := (ofDecimal d).code == x.code

/-- The magnitude of `x` counted in steps of `10 ^ exponent`, as numerator and denominator. -/
def inSteps (x : Binary64) (exponent : Int) : Nat × Nat :=
  (x.units * tenPow (-exponent).toNat, unitsPerOne * tenPow exponent.toNat)

/-- The decimal on the grid of multiples of `10 ^ exponent` that is nearest to `x` among those that
read back; of two equally near ones the greater. -/
def onGrid? (x : Binary64) (exponent : Int) : Option Decimal :=
  let (num, den) := x.inSteps exponent
  let below : Decimal := ⟨num / den, exponent⟩
  let above : Decimal := ⟨num / den + 1, exponent⟩
  match x.isReadFrom below, x.isReadFrom above with
  | true, true => some (if 2 * (num % den) < den then below else above)
  | true, false => some below
  | false, true => some above
  | false, false => none

/-- The first decimal that reads back on the grids from `exponent` downwards. -/
def search (x : Binary64) : Nat → Int → Option Decimal
  | 0, _ => none
  | grids + 1, exponent => (x.onGrid? exponent).or (search x grids (exponent - 1))

/-- A power of ten that exceeds the magnitude: a little more than `log 2 / log 10` of the power of
two that does. -/
def decimalBound (x : Binary64) : Int := ((x.units.log2 : Int) - 1073) * 30103 / 100000 + 1

/-- The exact magnitude as a decimal: a unit is a whole number of steps of `10 ^ (-1074)`. -/
def exact (x : Binary64) : Decimal :=
  ⟨x.units * tenPow unitExponent / unitsPerOne, -unitExponent⟩

/-- The shortest decimal that reads back as the magnitude of a finite number.  Seventeen digits
always suffice, and the bound on the magnitude is at most one power of ten too large. -/
def shortest (x : Binary64) : Decimal :=
  if x.units = 0 then ⟨0, 0⟩ else (x.search 19 x.decimalBound).getD x.exact

/-! ## Reading back -/

/-- The exact decimal of a magnitude reads back. -/
theorem ofDecimal_exact {x : Binary64} (hfinite : x.isFinite = true) (hunits : x.units ≠ 0) :
    ofDecimal x.exact = { x with negative := false } := by
  have hnan : x.isNaN = false := by
    simp only [isFinite, isNaN, decide_eq_true_eq, decide_eq_false_iff_not] at *
    omega
  have hfives (n : Nat) : x.units * tenPow n / (1 <<< n) = x.units * 5 ^ n := by
    have hten : tenPow n = 5 ^ n * 2 ^ n := Nat.mul_pow 5 2 n
    rw [hten, Nat.shiftLeft_eq, Nat.one_mul, ← Nat.mul_assoc,
      Nat.mul_div_cancel _ (Nat.two_pow_pos n)]
  have hcoefficient : x.exact.coefficient = x.units * 5 ^ unitExponent := hfives unitExponent
  have hne : x.exact.coefficient ≠ 0 := by
    rw [hcoefficient]
    exact Nat.mul_ne_zero hunits (Nat.ne_of_gt (Nat.pow_pos (by decide)))
  have hlog (n : Nat) (hn : unitExponent = 3 * n) : 6 * n ≤ x.exact.coefficient.log2 := by
    rw [Nat.le_log2 hne, hcoefficient, hn, Nat.pow_mul, Nat.pow_mul]
    exact Nat.le_trans (Nat.pow_le_pow_left (by decide) n)
      (Nat.le_mul_of_pos_left _ (Nat.pos_of_ne_zero hunits))
  have hlogExact := hlog 358 rfl
  have hexponent : x.exact.exponent = -1074 := rfl
  rw [ofDecimal_of_moderate hne (by omega) (by omega), hcoefficient]
  have hzero : x.exact.exponent.toNat = 0 := by omega
  have hplaces : (-x.exact.exponent).toNat = unitExponent := by
    rw [hexponent]
    rfl
  rw [hzero, hplaces, tenPow_zero, Nat.mul_one]
  have hround (n : Nat) : x.units * 5 ^ n * (1 <<< n) = x.units * tenPow n := by
    rw [Nat.shiftLeft_eq, Nat.one_mul, Nat.mul_assoc]
    exact congrArg _ (Nat.mul_pow 5 2 n).symm
  rw [unitsPerOne, hround]
  exact nearest_units hnan (tenPow_pos unitExponent)

/-- What is found on a grid reads back. -/
theorem code_of_onGrid? {x : Binary64} {exponent : Int} {d : Decimal}
    (h : x.onGrid? exponent = some d) : (ofDecimal d).code = x.code := by
  unfold onGrid? at h
  generalize x.inSteps exponent = steps at h
  obtain ⟨num, den⟩ := steps
  simp only at h
  split at h <;> simp_all [isReadFrom]
  split at h <;> simp_all

/-- What the search finds reads back. -/
theorem code_of_search {x : Binary64} {grids : Nat} {exponent : Int} {d : Decimal}
    (h : x.search grids exponent = some d) : (ofDecimal d).code = x.code := by
  induction grids generalizing exponent with
  | zero => simp [search] at h
  | succ grids ih =>
    rw [search, Option.or_eq_some_iff] at h
    rcases h with h | ⟨_, h⟩
    · exact code_of_onGrid? h
    · exact ih h

/-- The shortest decimal of a finite number reads back as its magnitude. -/
theorem code_ofDecimal_shortest {x : Binary64} (hfinite : x.isFinite = true) :
    (ofDecimal x.shortest).code = x.code := by
  unfold shortest
  split
  · rename_i hunits
    rw [unitsOfCode_eq_zero.1 hunits]
    rfl
  · rename_i hunits
    cases hsearch : x.search 19 x.decimalBound with
    | none => simp [ofDecimal_exact hfinite hunits]
    | some d => exact code_of_search hsearch

end Binary64

end PostfixCalc
