import PostfixCalc.Bindings
import PostfixCalc.Conversion.Pending
import PostfixCalc.Token.Lexer

/-!
# From tokens to postfix order

Tokens are taken one after another.  Operands are put out at once; an operator waits on a stack
until an operator that it does not stay below, a closing parenthesis, a comma or the end takes it
off.  The order of the output does not show whether every operator stood next to its operands; only
their number is checked.

Main results:

- `run_append`: converting tokens in two parts is converting them in one.
-/

namespace PostfixCalc

namespace Conversion

/-- The nodes put out so far and the operators that wait, the innermost first. -/
structure State where
  output : PostfixExpr
  pending : List Pending

namespace State

/-- Nothing put out and nothing waiting. -/
def initial : State := ⟨[], []⟩

/-- Put out a node. -/
def emit (node : Node) (s : State) : State := { s with output := s.output ++ [node] }

/-- Let an entry wait. -/
def push (entry : Pending) (s : State) : State := { s with pending := entry :: s.pending }

/-- Let an operator wait after those that it does not bind more tightly than were put out. -/
def pushOperator (operator : Pending) (s : State) : Except SyntaxError State := do
  let (nodes, rest) ← operator.yieldTo s.pending
  .ok ⟨s.output ++ nodes, operator :: rest⟩

/-- Close the innermost parenthesis, and the call whose argument it holds. -/
def close (s : State) : Except SyntaxError State := do
  let (nodes, below) ← Pending.unwind s.pending
  match below with
  | .call word arguments :: rest =>
    let node ← Pending.toNode (.call word arguments)
    .ok ⟨s.output ++ nodes ++ [node], rest⟩
  | rest => .ok ⟨s.output ++ nodes, rest⟩

/-- Begin another argument of the call whose parenthesis is the innermost. -/
def separate (s : State) : Except SyntaxError State := do
  let (nodes, below) ← Pending.unwind s.pending
  match below with
  | .call word arguments :: rest =>
    .ok ⟨s.output ++ nodes, .openParen :: .call word (arguments + 1) :: rest⟩
  | _ => .error .misplacedComma

/-- Take one token. -/
def step (bindings : Bindings) (s : State) : Token → Except SyntaxError State
  | .number value => .ok (s.emit (.operand value))
  | .name word =>
    match bindings.get? word with
    | some value => .ok (s.emit (.operand value))
    | none => .error (.unknownName word)
  | .function word =>
    match NamedFunction.ofName? word with
    | some _ => .ok (s.push (.call word 1))
    | none => .error (.unknownFunction word)
  | .sign symbol =>
    match Sign.ofSymbol? symbol with
    | some op => s.pushOperator (.sign op)
    | none => .error (.badToken symbol)
  | .operator symbol =>
    match BinaryOp.ofSymbol? symbol with
    | some op => s.pushOperator (.binary op)
    | none => .error (.badToken symbol)
  | .openParen => .ok (s.push .openParen)
  | .closeParen => s.close
  | .comma => s.separate
  | .unknown text => .error (.badToken text)

end State

/-- Take tokens until one is in error, with the tokens after that one. -/
def run (bindings : Bindings) (s : State) : List Token → Except SyntaxError State × List Token
  | [] => (.ok s, [])
  | token :: tokens =>
    match s.step bindings token with
    | .ok s => run bindings s tokens
    | .error e => (.error e, tokens)

/-! ## The number of operands -/

/-- The number of values after a postfix expression on top of `depth` values, if every operator
finds its operands. -/
def depthAfter? (depth : Nat) : PostfixExpr → Option Nat
  | [] => some depth
  | node :: nodes =>
    if depth < node.arity then none else depthAfter? (depth - node.arity + 1) nodes

/-- A postfix expression must find all operands and leave one value. -/
def checkArity (nodes : PostfixExpr) : Except SyntaxError Unit :=
  match depthAfter? 0 nodes with
  | none => .error .missingOperand
  | some 0 => .error .empty
  | some 1 => .ok ()
  | some _ => .error .tooManyOperands

/-- The whole output once no token is left. -/
def State.finish (s : State) : Except SyntaxError PostfixExpr := do
  let nodes ← Pending.drain s.pending
  checkArity (s.output ++ nodes)
  .ok (s.output ++ nodes)

/-- The postfix expression of tokens, with the tokens after the one in error. -/
def ofTokens (bindings : Bindings) (tokens : List Token) :
    Except SyntaxError PostfixExpr × List Token :=
  let (outcome, rest) := run bindings .initial tokens
  (outcome.bind State.finish, rest)

/-- The postfix expression of a text. -/
def ofText (bindings : Bindings) (text : String) : Except SyntaxError PostfixExpr :=
  (ofTokens bindings (Token.tokenize text)).1

/-! ## Composition -/

/-- Taking tokens in two parts is taking them in one. -/
theorem run_append (bindings : Bindings) (s : State) (front back : List Token) :
    run bindings s (front ++ back) =
      match run bindings s front with
      | (.ok s, _) => run bindings s back
      | (.error e, rest) => (.error e, rest ++ back) := by
  induction front generalizing s with
  | nil => rfl
  | cons token front ih =>
    simp only [List.cons_append, run]
    cases s.step bindings token with
    | ok s => exact ih s
    | error e => rfl

end Conversion

end PostfixCalc
