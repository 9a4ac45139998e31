import PostfixCalc.Conversion.SyntaxError
import PostfixCalc.Node

/-!
# Operators that wait for their operands

During conversion operators are kept on a stack until everything that binds more tightly has been
put out.  Open parentheses lie between the operators outside and inside them.
-/

namespace PostfixCalc

/-- An entry of the operator stack. -/
inductive Pending where
  | openParen
  /-- A function and the number of arguments begun in its parentheses. -/
  | call (word : String) (arguments : Nat)
  | binary (op : BinaryOp)
  | sign (s : Sign)
  deriving DecidableEq

namespace Pending

/-- How tightly an entry binds.  Signs are on the level of powers, so that `-2 ^ 2` is the negative
of a power and `2 ^ -3` a power with a negative exponent. -/
def precedence : Pending → Nat
  | openParen => 1
  | binary .plus | binary .minus => 2
  | binary .multiply | binary .divide | binary .modulo => 3
  | binary .power | sign _ => 5
  | call _ _ => 7

/-- Powers and signs group to the right, everything else to the left. -/
def groupsRight : Pending → Bool
  | binary .power | sign _ => true
  | _ => false

/-- Whether an entry stays on the stack when an operator is put on top of it. -/
def staysBelow (entry operator : Pending) : Bool :=
  decide (entry.precedence < operator.precedence) ||
    (entry.precedence == operator.precedence && operator.groupsRight)

/-- The node of an entry.  An open parenthesis has none, since it comes here only if it was never
closed; a function has one if it exists and has one argument. -/
def toNode : Pending → Except SyntaxError Node
  | openParen => .error .missingCloseParen
  | call word 1 =>
    match NamedFunction.ofName? word with
    | some f => .ok (.unary (.function f))
    | none => .error (.unknownFunction word)
  | call word arguments => .error (.wrongArity word arguments)
  | binary op => .ok (.binary op)
  | sign s => .ok (.unary (.sign s))

/-! ## Taking entries from the stack -/

/-- Take the entries that do not stay below an operator, as nodes, and the stack without them. -/
def yieldTo (operator : Pending) : List Pending → Except SyntaxError (List Node × List Pending)
  | [] => .ok ([], [])
  | top :: below =>
    if top.staysBelow operator then .ok ([], top :: below)
    else do
      let node ← top.toNode
      let (nodes, rest) ← yieldTo operator below
      .ok (node :: nodes, rest)

/-- Take the entries above the innermost open parenthesis, as nodes, and what lies below it. -/
def unwind : List Pending → Except SyntaxError (List Node × List Pending)
  | [] => .error .missingOpenParen
  | openParen :: below => .ok ([], below)
  | top :: below => do
    let node ← top.toNode
    let (nodes, rest) ← unwind below
    .ok (node :: nodes, rest)

/-- Take all entries as nodes. -/
def drain : List Pending → Except SyntaxError (List Node)
  | [] => .ok []
  | top :: below => do
    let node ← top.toNode
    let nodes ← drain below
    .ok (node :: nodes)

end Pending

end PostfixCalc
