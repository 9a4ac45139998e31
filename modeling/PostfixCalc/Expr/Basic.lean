import PostfixCalc.Node

/-!
# Expression trees

A postfix expression is read as a stack of trees: an operand is a tree, an operator joins as many
trees as it has operands.

Main results:

- `Expr.build?_postorder`: the postorder of a tree is read as that tree on top of the stack.
-/

namespace PostfixCalc

/-- An expression with its operators at the inner nodes. -/
inductive Expr where
  | operand (value : Binary64)
  | unary (op : UnaryOp) (argument : Expr)
  | binary (op : BinaryOp) (left right : Expr)
  deriving DecidableEq

namespace Expr

/-- The nodes of a tree in postfix order. -/
def postorder : Expr → PostfixExpr
  | operand value => [.operand value]
  | unary op argument => argument.postorder ++ [.unary op]
  | binary op left right => left.postorder ++ right.postorder ++ [.binary op]

/-- Put the tree of one more node on a stack of trees, the latest on top; none if the stack has
fewer trees than the node needs. -/
def push? : List Expr → Node → Option (List Expr)
  | stack, .operand value => some (operand value :: stack)
  | argument :: stack, .unary op => some (unary op argument :: stack)
  | right :: left :: stack, .binary op => some (binary op left right :: stack)
  | _, _ => none

/-- Read the trees of a postfix expression onto a stack. -/
def build? (stack : List Expr) (nodes : PostfixExpr) : Option (List Expr) :=
  nodes.foldlM push? stack

/-- Reading two expressions in a row reads the second onto what the first leaves. -/
theorem build?_append (stack : List Expr) (front back : PostfixExpr) :
    build? stack (front ++ back) = (build? stack front).bind fun stack => build? stack back :=
  List.foldlM_append

/-- The postorder of a tree is read as that tree on top of the stack. -/
@[simp] theorem build?_postorder (e : Expr) (stack : List Expr) :
    build? stack e.postorder = some (e :: stack) := by
  induction e generalizing stack with
  | operand value => rfl
  | unary op argument ih =>
    rw [postorder, build?_append, ih]
    rfl
  | binary op left right ihl ihr =>
    rw [postorder, build?_append, build?_append, ihl, Option.bind_some, ihr]
    rfl

end Expr

end PostfixCalc
