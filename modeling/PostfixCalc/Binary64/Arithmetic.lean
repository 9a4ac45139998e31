import PostfixCalc.Binary64.Nearest

/-!
# Arithmetic on doubles

The rounded operations and the elementary functions are those of the machine's double-precision
unit.  The remainder needs no rounding and is computed on exact magnitudes.
-/

namespace PostfixCalc

namespace Binary64

/-! ## Machine operations -/

/-- The machine number with the same bit pattern. -/
def toFloat (x : Binary64) : Float := Float.ofBits x.toBits

/-- The number with the bit pattern of a machine number. -/
def ofFloat (x : Float) : Binary64 := ofBits x.toBits

/-- The rounded sum. -/
def add (x y : Binary64) : Binary64 := ofFloat (x.toFloat + y.toFloat)

/-- The rounded difference `x - y`. -/
def sub (x y : Binary64) : Binary64 := ofFloat (x.toFloat - y.toFloat)

/-- The rounded product. -/
def mul (x y : Binary64) : Binary64 := ofFloat (x.toFloat * y.toFloat)

/-- The rounded quotient `x / y`. -/
def div (x y : Binary64) : Binary64 := ofFloat (x.toFloat / y.toFloat)

/-- The power of `x` with exponent `y`. -/
def pow (x y : Binary64) : Binary64 := ofFloat (x.toFloat.pow y.toFloat)

/-- The rounded square root. -/
def sqrt (x : Binary64) : Binary64 := ofFloat x.toFloat.sqrt

/-- The natural logarithm. -/
def ln (x : Binary64) : Binary64 := ofFloat x.toFloat.log

/-- The logarithm to base ten. -/
def log10 (x : Binary64) : Binary64 := ofFloat x.toFloat.log10

/-- The sine of an angle in radians. -/
def sin (x : Binary64) : Binary64 := ofFloat x.toFloat.sin

/-- The cosine of an angle in radians. -/
def cos (x : Binary64) : Binary64 := ofFloat x.toFloat.cos

/-- The tangent of an angle in radians. -/
def tan (x : Binary64) : Binary64 := ofFloat x.toFloat.tan

/-- The angle between zero and pi with a given cosine. -/
def acos (x : Binary64) : Binary64 := ofFloat x.toFloat.acos

/-- The angle around zero with a given sine. -/
def asin (x : Binary64) : Binary64 := ofFloat x.toFloat.asin

/-- The angle around zero with a given tangent. -/
def atan (x : Binary64) : Binary64 := ofFloat x.toFloat.atan

/-! ## Remainder -/

/-- The remainder of dividing `x` by `y`, with the sign of `x` and a magnitude below that of `y`.
An infinite `x` and a zero `y` have no remainder; an infinite `y` leaves every finite `x` as it is.
The remainder of two magnitudes is a double itself, so finding the nearest one loses nothing. -/
def rem (x y : Binary64) : Binary64 :=
  if x.isNaN || y.isNaN || x.isInfinite || y.isZero then nan
  else if y.isInfinite then x
  else { nearest (x.units % y.units) 1 with negative := x.negative }

end Binary64

end PostfixCalc
