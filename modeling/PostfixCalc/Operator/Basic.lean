/-!
# Operators

Binary operators stand between their operands, signs and functions in front of their single operand.

Main results:

- `BinaryOp.ofSymbol?_symbol`, `Sign.ofSymbol?_symbol` and `NamedFunction.ofName?_name`: each
  operator is found by its own text.
-/

namespace PostfixCalc

/-! ## Binary operators -/

/-- An operator with a left and a right operand. -/
inductive BinaryOp where
  | plus
  | minus
  | multiply
  | divide
  | power
  | modulo
  deriving DecidableEq

namespace BinaryOp

/-- The text of an operator. -/
def symbol : BinaryOp → String
  | plus => "+"
  | minus => "-"
  | multiply => "*"
  | divide => "/"
  | power => "^"
  | modulo => "mod"

/-- The operator that a text stands for; the remainder has two texts. -/
def ofSymbol? (text : String) : Option BinaryOp :=
  match text with
  | "+" => some plus
  | "-" => some minus
  | "*" => some multiply
  | "/" => some divide
  | "^" => some power
  | "%" | "mod" => some modulo
  | _ => none

/-- The name of an operator in the journal. -/
def label : BinaryOp → String
  | plus => "Plus"
  | minus => "Minus"
  | multiply => "Multiply"
  | divide => "Divide"
  | power => "Power"
  | modulo => "Modulo"

/-- An operator is found by its own text. -/
@[simp] theorem ofSymbol?_symbol (op : BinaryOp) : ofSymbol? op.symbol = some op := by
  cases op <;> rfl

end BinaryOp

/-! ## Signs and functions -/

/-- A sign in front of an operand. -/
inductive Sign where
  | minus
  | plus
  deriving DecidableEq

namespace Sign

/-- The text of a sign. -/
def symbol : Sign → String
  | minus => "-"
  | plus => "+"

/-- The sign that a text stands for. -/
def ofSymbol? (text : String) : Option Sign :=
  match text with
  | "-" => some minus
  | "+" => some plus
  | _ => none

/-- The name of a sign in the journal. -/
def label : Sign → String
  | minus => "Minus"
  | plus => "Plus"

/-- A sign is found by its own text. -/
@[simp] theorem ofSymbol?_symbol (sign : Sign) : ofSymbol? sign.symbol = some sign := by
  cases sign <;> rfl

end Sign

/-- A function of one argument. -/
inductive NamedFunction where
  | sqrt
  | ln
  | log10
  | sin
  | cos
  | tan
  | acos
  | asin
  | atan
  deriving DecidableEq

namespace NamedFunction

/-- The word for a function; `log` is the logarithm to base ten. -/
def name : NamedFunction → String
  | sqrt => "sqrt"
  | ln => "ln"
  | log10 => "log"
  | sin => "sin"
  | cos => "cos"
  | tan => "tan"
  | acos => "acos"
  | asin => "asin"
  | atan => "atan"

/-- The function that a word stands for. -/
def ofName? (word : String) : Option NamedFunction :=
  match word with
  | "sqrt" => some sqrt
  | "ln" => some ln
  | "log" => some log10
  | "sin" => some sin
  | "cos" => some cos
  | "tan" => some tan
  | "acos" => some acos
  | "asin" => some asin
  | "atan" => some atan
  | _ => none

/-- The name of a function in messages. -/
def label : NamedFunction → String
  | sqrt => "Sqrt"
  | ln => "Ln"
  | log10 => "Log10"
  | sin => "Sin"
  | cos => "Cos"
  | tan => "Tan"
  | acos => "Acos"
  | asin => "Asin"
  | atan => "Atan"

/-- A function is found by its own word. -/
@[simp] theorem ofName?_name (function : NamedFunction) :
    ofName? function.name = some function := by
  cases function <;> rfl

end NamedFunction

/-- An operator with one operand. -/
inductive UnaryOp where
  | sign (s : Sign)
  | function (f : NamedFunction)
  deriving DecidableEq

namespace UnaryOp

/-- The text of an operator. -/
def symbol : UnaryOp → String
  | sign s => s.symbol
  | function f => f.name

/-- Functions take their operand in parentheses. -/
def isFunction : UnaryOp → Bool
  | sign _ => false
  | function _ => true

/-- The name of an operator in the journal. -/
def label : UnaryOp → String
  | sign s => s.label
  | function f => f.label

end UnaryOp

end PostfixCalc
