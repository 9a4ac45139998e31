import PostfixCalc.Binary64.Text
import PostfixCalc.Operator.Basic

/-!
# Expressions in postfix order

A postfix expression is a list of nodes, each of which follows its operands.
-/

namespace PostfixCalc

/-- One element of a postfix expression. -/
inductive Node where
  | operand (value : Binary64)
  | unary (op : UnaryOp)
  | binary (op : BinaryOp)
  deriving DecidableEq

namespace Node

/-- How many operands a node takes. -/
def arity : Node → Nat
  | operand _ => 0
  | unary _ => 1
  | binary _ => 2

/-- The number of the kind of a node: zero for operands, up to six for binary operators, up to
seventeen for unary ones. -/
def kind : Node → Nat
  | operand _ => 0
  | binary .plus => 1
  | binary .minus => 2
  | binary .multiply => 3
  | binary .divide => 4
  | binary .power => 5
  | binary .modulo => 6
  | unary (.sign .minus) => 7
  | unary (.sign .plus) => 8
  | unary (.function .sqrt) => 9
  | unary (.function .ln) => 10
  | unary (.function .log10) => 11
  | unary (.function .sin) => 12
  | unary (.function .cos) => 13
  | unary (.function .tan) => 14
  | unary (.function .acos) => 15
  | unary (.function .asin) => 16
  | unary (.function .atan) => 17

/-- The text of a node; a `u` tells a sign from the binary operator of the same symbol. -/
def toText : Node → String
  | operand value => value.plainText
  | unary (.sign s) => "u" ++ s.symbol
  | unary (.function f) => f.name
  | binary op => op.symbol

/-- The text of a node in the journal. -/
def label : Node → String
  | operand value => "Operand(" ++ value.journalText ++ ")"
  | unary op => "Unary(" ++ op.label ++ ")"
  | binary op => "Binary(" ++ op.label ++ ")"

end Node

/-- An expression in which every operator follows its operands. -/
abbrev PostfixExpr := List Node

namespace PostfixExpr

/-- The texts of the nodes with a space between each two. -/
def toText (nodes : PostfixExpr) : String := " ".intercalate (nodes.map Node.toText)

/-- The labels of the nodes in brackets. -/
def label (nodes : PostfixExpr) : String := "[" ++ ", ".intercalate (nodes.map Node.label) ++ "]"

end PostfixExpr

end PostfixCalc
