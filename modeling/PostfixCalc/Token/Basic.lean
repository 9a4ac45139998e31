import PostfixCalc.Binary64.Basic

/-!
# Tokens

What expressions are made of.  Operators keep the text they were written with, since a sequence of
tokens may also name operators and functions that do not exist.
-/

namespace PostfixCalc

/-- A lexeme of an expression together with its role. -/
inductive Token where
  /-- An unsigned number. -/
  | number (value : Binary64)
  /-- A word that stands for a value. -/
  | name (word : String)
  /-- A word that stands for a function; its argument follows in parentheses. -/
  | function (word : String)
  /-- An operator in front of its operand. -/
  | sign (symbol : String)
  /-- An operator between its operands. -/
  | operator (symbol : String)
  | openParen
  | closeParen
  | comma
  /-- A text that is none of these. -/
  | unknown (text : String)
  deriving DecidableEq

namespace Token

/-- A token that ends an operand, so that a `+` or `-` after it stands between two operands. -/
def endsOperand : Token → Bool
  | number _ | name _ | closeParen => true
  | _ => false

end Token

end PostfixCalc
