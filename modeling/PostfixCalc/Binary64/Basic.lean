/-!
# Double-precision numbers

A double is kept as its sign and its *code*, the other 63 bits read as one natural number.  Codes
grow with the magnitude they stand for, so neighbouring doubles have neighbouring codes; the code of
infinity comes after those of the finite numbers, and the codes after it are not numbers.

The exact magnitude is counted in *units* of the smallest positive double, `2 ^ (-1074)`.

Main results:

- `ofBits_toBits`: the 64-bit pattern determines the number.
- `neg_neg`: changing the sign twice gives the number back.
- `unitsOfCode_lt_succ`: each code stands for more units than the one before it.
-/

namespace PostfixCalc

/-- A double-precision number: its sign, and its magnitude bits read as a natural number. -/
structure Binary64 where
  /-- Whether the sign bit is set; zero and the non-numbers have one too. -/
  negative : Bool
  /-- The exponent and fraction bits as one number. -/
  code : Nat
  /-- Exponent and fraction take 63 bits. -/
  code_lt : code < 0x8000000000000000
  deriving DecidableEq

namespace Binary64

/-! ## Classes -/

/-- The code of infinity: all exponent bits set and a zero fraction. -/
def infinityCode : Nat := 0x7FF0000000000000

/-- Codes after that of infinity stand for no number. -/
def isNaN (x : Binary64) : Bool := decide (infinityCode < x.code)

/-- Positive or negative infinity. -/
def isInfinite (x : Binary64) : Bool := decide (x.code = infinityCode)

/-- Neither infinite nor a non-number. -/
def isFinite (x : Binary64) : Bool := decide (x.code < infinityCode)

/-- Positive or negative zero. -/
def isZero (x : Binary64) : Bool := decide (x.code = 0)

/-- Positive zero. -/
def zero : Binary64 := ⟨false, 0, by decide⟩

/-- The number one. -/
def one : Binary64 := ⟨false, 0x3FF0000000000000, by decide⟩

/-- Positive infinity. -/
def infinity : Binary64 := ⟨false, infinityCode, by decide⟩

/-- The non-number that undefined operations give, with its sign bit clear. -/
def nan : Binary64 := ⟨false, 0x7FF8000000000000, by decide⟩

/-- The same magnitude with the other sign. -/
def neg (x : Binary64) : Binary64 := { x with negative := !x.negative }

/-- Changing the sign twice gives the number back. -/
@[simp] theorem neg_neg (x : Binary64) : x.neg.neg = x := by
  cases x
  simp [neg]

/-- Infinity is a number. -/
theorem not_isNaN_of_isInfinite {x : Binary64} (h : x.isInfinite = true) : ¬x.isNaN = true := by
  simp only [isInfinite, isNaN, decide_eq_true_eq] at h ⊢
  omega

theorem not_isFinite_of_isNaN {x : Binary64} (h : x.isNaN = true) : ¬x.isFinite = true := by
  simp only [isNaN, isFinite, decide_eq_true_eq] at h ⊢
  omega

theorem not_isFinite_of_isInfinite {x : Binary64} (h : x.isInfinite = true) :
    ¬x.isFinite = true := by
  simp only [isInfinite, isFinite, decide_eq_true_eq] at h ⊢
  omega

/-- A number that is not infinite is finite. -/
theorem isFinite_of_not {x : Binary64} (hnan : ¬x.isNaN = true) (hinfinite : ¬x.isInfinite = true) :
    x.isFinite = true := by
  simp only [isNaN, isInfinite, isFinite, decide_eq_true_eq] at hnan hinfinite ⊢
  omega

/-! ## The exact magnitude -/

/-- The magnitude of a finite code in units of the smallest positive number.  The fraction takes 52
bits; from the second exponent on it stands behind a leading one, and each further exponent doubles
the whole. -/
def unitsOfCode (code : Nat) : Nat :=
  if code < 0x10000000000000 then code
  else (0x10000000000000 + code % 0x10000000000000) <<< (code / 0x10000000000000 - 1)

/-- The exact magnitude of a finite number, counted in units of `2 ^ (-1074)`. -/
def units (x : Binary64) : Nat := unitsOfCode x.code

/-- One is two to this power of units. -/
def unitExponent : Nat := 1074

/-- How many units make one. -/
def unitsPerOne : Nat := 1 <<< unitExponent

/-- Each code stands for more units than the one before it. -/
theorem unitsOfCode_lt_succ (code : Nat) : unitsOfCode code < unitsOfCode (code + 1) := by
  unfold unitsOfCode
  by_cases hsmall : code + 1 < 0x10000000000000
  · rw [if_pos (by omega), if_pos hsmall]
    omega
  · rw [if_neg hsmall]
    by_cases hedge : code < 0x10000000000000
    · have hcode : code = 0xFFFFFFFFFFFFF := by omega
      subst hcode
      decide
    · rw [if_neg hedge, Nat.shiftLeft_eq, Nat.shiftLeft_eq]
      have hpos := Nat.two_pow_pos (code / 0x10000000000000 - 1)
      by_cases hcarry : code % 0x10000000000000 = 0xFFFFFFFFFFFFF
      · have hdiv : (code + 1) / 0x10000000000000 - 1 = code / 0x10000000000000 - 1 + 1 := by
          omega
        have hmod : (code + 1) % 0x10000000000000 = 0 := by omega
        have hdouble := Nat.pow_succ 2 (code / 0x10000000000000 - 1)
        rw [hdiv, hmod, hcarry, hdouble]
        omega
      · have hdiv : (code + 1) / 0x10000000000000 = code / 0x10000000000000 := by omega
        have hmod : (code + 1) % 0x10000000000000 = code % 0x10000000000000 + 1 := by omega
        rw [hdiv, hmod]
        exact Nat.mul_lt_mul_of_pos_right (by omega) hpos

/-- Only zero has a magnitude of no units. -/
theorem unitsOfCode_eq_zero {code : Nat} : unitsOfCode code = 0 ↔ code = 0 := by
  constructor
  · intro h
    cases code with
    | zero => rfl
    | succ code =>
      have := unitsOfCode_lt_succ code
      omega
  · rintro rfl
    rfl

/-- A finite number without a fractional part. -/
def isInteger (x : Binary64) : Bool := x.isFinite && decide (x.units % unitsPerOne = 0)

/-! ## Order -/

/-- The position of a number on the line of signed codes; both zeros are at the origin. -/
def position (x : Binary64) : Int := if x.negative then -(x.code : Int) else x.code

/-- Strictly less; false when either side is not a number. -/
def lt (x y : Binary64) : Bool := !x.isNaN && !y.isNaN && decide (x.position < y.position)

/-- Less or equal; false when either side is not a number. -/
def le (x y : Binary64) : Bool := !x.isNaN && !y.isNaN && decide (x.position ≤ y.position)

/-! ## Bit patterns -/

/-- The number with a given 64-bit pattern. -/
def ofBits (bits : UInt64) : Binary64 :=
  ⟨decide (0x8000000000000000 ≤ bits.toNat), bits.toNat % 0x8000000000000000,
    Nat.mod_lt _ (by decide)⟩

/-- The 64-bit pattern of a number. -/
def toBits (x : Binary64) : UInt64 :=
  UInt64.ofNat ((if x.negative then 0x8000000000000000 else 0) + x.code)

/-- The bit pattern determines the number. -/
@[simp] theorem ofBits_toBits (x : Binary64) : ofBits x.toBits = x := by
  obtain ⟨negative, code, hcode⟩ := x
  cases negative <;> simp [ofBits, toBits, UInt64.toNat_ofNat] <;> omega

end Binary64

end PostfixCalc
