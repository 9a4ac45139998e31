import PostfixCalc.Binary64.Arithmetic
import PostfixCalc.Binary64.Text
import PostfixCalc.Operator.Basic

/-!
# Applying operators

Some operations are undefined for some real operands and end in a `DomainError`.  A remainder by
zero is not one of them: it is the double that is not a number.
-/

namespace PostfixCalc

/-- Why an operation has no result. -/
inductive DomainError where
  | divisionByZero
  /-- The function is not defined for its argument. -/
  | outOfDomain (function : NamedFunction) (argument : Binary64)
  /-- The power of zero with exponent zero, or of a negative number with a fractional exponent. -/
  | invalidPower (base exponent : Binary64)
  deriving DecidableEq

/-- The message of a domain error. -/
def DomainError.message : DomainError → String
  | divisionByZero => "division by zero"
  | outOfDomain function argument =>
    function.label ++ " is undefined for " ++ argument.plainText
  | invalidPower base exponent =>
    base.plainText ++ " ^ " ++ exponent.plainText ++ " is undefined"

/-- The operand with its sign kept or changed. -/
def Sign.apply : Sign → Binary64 → Binary64
  | minus, x => x.neg
  | plus, x => x

namespace NamedFunction

/-- The arguments that a function is defined for; functions of what is not a number are. -/
def isDefinedAt (function : NamedFunction) (x : Binary64) : Bool :=
  match function with
  | sqrt => !x.lt .zero
  | ln | log10 => !x.le .zero
  | acos | asin => !(x.lt Binary64.one.neg || Binary64.one.lt x)
  | sin | cos | tan | atan => true

/-- The value of a function. -/
def value (function : NamedFunction) (x : Binary64) : Binary64 :=
  match function with
  | sqrt => x.sqrt
  | ln => x.ln
  | log10 => x.log10
  | sin => x.sin
  | cos => x.cos
  | tan => x.tan
  | acos => x.acos
  | asin => x.asin
  | atan => x.atan

/-- The value of a function where it is defined. -/
def apply (function : NamedFunction) (x : Binary64) : Except DomainError Binary64 :=
  if function.isDefinedAt x then .ok (function.value x) else .error (.outOfDomain function x)

end NamedFunction

/-- The result of an operator with one operand. -/
def UnaryOp.apply : UnaryOp → Binary64 → Except DomainError Binary64
  | sign s, x => .ok (s.apply x)
  | function f, x => f.apply x

namespace BinaryOp

/-- The powers that are undefined for real numbers. -/
def isInvalidPower (base exponent : Binary64) : Bool :=
  (base.isZero && exponent.isZero) || (base.lt .zero && !exponent.isInteger)

/-- The result of an operator between a left and a right operand. -/
def apply (op : BinaryOp) (left right : Binary64) : Except DomainError Binary64 :=
  match op with
  | plus => .ok (left.add right)
  | minus => .ok (left.sub right)
  | multiply => .ok (left.mul right)
  | divide => if right.isZero then .error .divisionByZero else .ok (left.div right)
  | power =>
    if isInvalidPower left right then .error (.invalidPower left right)
    else .ok (left.pow right)
  | modulo => .ok (left.rem right)

end BinaryOp

end PostfixCalc
