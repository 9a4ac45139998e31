import PostfixCalc.Conversion.Basic
import PostfixCalc.Evaluation
import PostfixCalc.Expr.Printing

/-!
# The calculator

A calculator knows two constants and possibly a value for `x`.  It answers every text with a result
and a status, and records what happens on the way.
-/

namespace PostfixCalc

/-- How a calculation ended. -/
inductive Status where
  | ok
  /-- The text is not an expression. -/
  | syntaxError
  /-- Some operation was undefined for its operands. -/
  | computationError
  deriving DecidableEq

/-- The number of a status. -/
def Status.code : Status → Nat
  | ok => 0
  | syntaxError => 1
  | computationError => 2

/-- The result of a calculation. -/
structure Answer where
  /-- The text of the result, which means something only if the status is `ok`. -/
  result : String
  status : Status
  deriving DecidableEq

/-- The answer that an evaluation gives; an expression without a value has the result zero. -/
def Answer.ofEvaluation : Except StructureError Evaluation → Answer
  | .error _ => ⟨Binary64.zero.resultText, .syntaxError⟩
  | .ok ⟨value, none⟩ => ⟨value.resultText, .ok⟩
  | .ok ⟨value, some _⟩ => ⟨value.resultText, .computationError⟩

/-- The expression that was evaluated, an equals sign and the result. -/
def Answer.echo (answer : Answer) (nodes : PostfixExpr) : String :=
  nodes.toInfix ++ " = " ++ answer.result

/-- The names that texts may use, with their values. -/
structure Calculator where
  bindings : Bindings

namespace Calculator

/-- A calculator that knows the constants only. -/
def new : Calculator := ⟨.constants⟩

/-- Give `x` a value. -/
def setX (c : Calculator) (x : Binary64) : Calculator := ⟨c.bindings.set "x" x⟩

/-- A calculator that may know a value for `x`. -/
def withX? : Option Binary64 → Calculator
  | none => new
  | some x => new.setX x

/-- The postfix expression of a text. -/
def convert (c : Calculator) (text : String) : Except SyntaxError PostfixExpr :=
  Conversion.ofText c.bindings text

/-- Convert a text, and record its nodes. -/
def convertRecorded (c : Calculator) (text : String) :
    ExceptT SyntaxError Recorded PostfixExpr := do
  let nodes ← c.convert text
  record (.converted nodes)
  return nodes

/-- Answer a postfix expression. -/
def evaluateRecorded (nodes : PostfixExpr) : Recorded Answer :=
  Answer.ofEvaluation <$> (Evaluation.ofPostfixRecorded nodes).run

/-- Answer a text; what is no expression has the result zero. -/
def calculateRecorded (c : Calculator) (text : String) : Recorded Answer := do
  match ← (c.convertRecorded text).run with
  | .ok nodes => evaluateRecorded nodes
  | .error e =>
    record (.rejected text e)
    return ⟨Binary64.zero.resultText, .syntaxError⟩

/-- The answer to a postfix expression. -/
def evaluate (nodes : PostfixExpr) : Answer := (evaluateRecorded nodes).result

/-- The answer to a text. -/
def calculate (c : Calculator) (text : String) : Answer := (c.calculateRecorded text).result

/-- What happens while a text is answered. -/
def journal (c : Calculator) (text : String) : List Event := (c.calculateRecorded text).events

/-- What is written down while a text is answered. -/
def records (c : Calculator) (text : String) : List (Level × String) :=
  (c.journal text).map Event.written

/-! ## Answers -/

variable {c : Calculator} {text : String}

theorem evaluate_eq (nodes : PostfixExpr) :
    evaluate nodes = .ofEvaluation (Evaluation.ofPostfix nodes) := rfl

/-- A text that is no expression is answered with zero and recorded as that. -/
theorem calculateRecorded_of_error {e : SyntaxError} (h : c.convert text = .error e) :
    c.calculateRecorded text =
      ⟨[.rejected text e], ⟨Binary64.zero.resultText, .syntaxError⟩⟩ := by
  rw [calculateRecorded, convertRecorded, h]
  rfl

/-- The answer to a text is that to its nodes, which are recorded first. -/
theorem calculateRecorded_of_ok {nodes : PostfixExpr} (h : c.convert text = .ok nodes) :
    c.calculateRecorded text =
      ⟨.converted nodes :: (evaluateRecorded nodes).events, evaluate nodes⟩ := by
  rw [calculateRecorded, convertRecorded, h]
  rfl

/-- The answer to a text depends on the conversion alone. -/
theorem calculate_congr {other : String} (h : c.convert other = c.convert text) :
    c.calculate other = c.calculate text := by
  rw [calculate, calculate]
  cases hconvert : c.convert text with
  | error e =>
    rw [calculateRecorded_of_error hconvert, calculateRecorded_of_error (h.trans hconvert)]
  | ok nodes => rw [calculateRecorded_of_ok hconvert, calculateRecorded_of_ok (h.trans hconvert)]

end Calculator

end PostfixCalc
