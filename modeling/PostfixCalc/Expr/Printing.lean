import PostfixCalc.Expr.Basic

/-!
# Expressions as text

A tree is written with its operators between or in front of their operands and with parentheses only
where the binding strengths of a node and its operands ask for them.

Main results:

- `PostfixExpr.toInfix_postorder`: the text of a tree's postorder is the text of the tree.
-/

namespace PostfixCalc

/-- How strongly a printed expression holds together, and on which side an operand of the same
strength needs no parentheses. -/
structure Binding where
  /-- Greater strengths hold together more tightly. -/
  strength : Nat
  /-- Operators of one strength in a row group to the left. -/
  groupsLeft : Bool

namespace BinaryOp

/-- The binding of a printed binary operator. -/
def binding : BinaryOp → Binding
  | plus | minus => ⟨2, true⟩
  | multiply | divide | modulo => ⟨3, true⟩
  | power => ⟨5, false⟩

end BinaryOp

namespace Expr

/-- The binding of a printed tree; a negative operand is printed with a sign and binds like one. -/
def binding : Expr → Binding
  | operand value => if value.negative then ⟨5, false⟩ else ⟨99, true⟩
  | unary (.sign _) _ => ⟨5, false⟩
  | unary (.function _) _ => ⟨7, true⟩
  | binary op _ _ => op.binding

/-- A text in parentheses if a condition holds. -/
def parenthesizeIf (condition : Bool) (text : String) : String :=
  if condition then "(" ++ text ++ ")" else text

/-- The text of a tree. -/
def toText : Expr → String
  | operand value => value.plainText
  | unary (.function f) argument => f.name ++ "(" ++ argument.toText ++ ")"
  | unary (.sign s) argument =>
    let text := argument.toText
    s.symbol ++
      parenthesizeIf
        (decide (argument.binding.strength < 5) ||
          (s == .minus && text.toList.head? == some '-')) text
  | binary op left right =>
    let ⟨strength, groupsLeft⟩ := op.binding
    let loosestLeft := if groupsLeft then strength else strength + 1
    let loosestRight := if groupsLeft then strength + 1 else strength
    parenthesizeIf (decide (left.binding.strength < loosestLeft)) left.toText ++
      " " ++ op.symbol ++ " " ++
      parenthesizeIf (decide (right.binding.strength < loosestRight)) right.toText

end Expr

/-- The text of a postfix expression as that of the last tree it denotes; of one that lacks operands
somewhere, the nodes in their order. -/
def PostfixExpr.toInfix (nodes : PostfixExpr) : String :=
  match Expr.build? [] nodes with
  | some (e :: _) => e.toText
  | some [] => ""
  | none => nodes.toText

/-- The text of the postorder of a tree is the text of the tree. -/
@[simp] theorem PostfixExpr.toInfix_postorder (e : Expr) :
    PostfixExpr.toInfix e.postorder = e.toText := by
  simp [PostfixExpr.toInfix]

end PostfixCalc
