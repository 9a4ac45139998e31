/-!
# Syntax errors

What can be wrong with a sequence of tokens.
-/

namespace PostfixCalc

/-- Why a sequence of tokens is not an expression. -/
inductive SyntaxError where
  /-- There is nothing to evaluate. -/
  | empty
  /-- A text that is no token, or an operator that does not exist. -/
  | badToken (text : String)
  | missingOpenParen
  | missingCloseParen
  /-- A comma that is not directly inside the parentheses of a function. -/
  | misplacedComma
  | unknownFunction (word : String)
  /-- A function with a number of arguments other than one. -/
  | wrongArity (word : String) (arguments : Nat)
  | unknownName (word : String)
  /-- An operator without enough operands before it in postfix order. -/
  | missingOperand
  /-- More than one value left in the end. -/
  | tooManyOperands
  deriving DecidableEq

/-- The message of a syntax error. -/
def SyntaxError.message : SyntaxError → String
  | empty => "empty expression"
  | badToken text => "bad token: " ++ text
  | missingOpenParen => "missing opening paren"
  | missingCloseParen => "missing closing paren"
  | misplacedComma => "comma outside of a function call"
  | unknownFunction word => "unknown function: " ++ word
  | wrongArity word arguments =>
    "function " ++ word ++ " takes 1 argument, got " ++ toString arguments
  | unknownName word => "unknown variable: " ++ word
  | missingOperand => "operator is missing an operand"
  | tooManyOperands => "operands without an operator"

end PostfixCalc
