import PostfixCalc.Conversion.SyntaxError
import PostfixCalc.Node
import PostfixCalc.Operator.Apply
import PostfixCalc.Text.Quoted

/-!
# The journal of a calculation

A calculation records what it does: the outcome of the conversion, each node before it is taken,
with the values not yet used, and each operation that fails.  What is recorded comes with the result
of the computation that records it.
-/

namespace PostfixCalc

/-- How much an event matters. -/
inductive Level where
  | debug
  | trace
  | warn
  deriving DecidableEq

/-- The name of a level. -/
def Level.name : Level → String
  | debug => "DEBUG"
  | trace => "TRACE"
  | warn => "WARN"

/-- Something that happens during a calculation. -/
inductive Event where
  /-- A text was converted. -/
  | converted (nodes : PostfixExpr)
  /-- A text could not be converted. -/
  | rejected (text : String) (error : SyntaxError)
  /-- A node is about to be taken with these values on the stack, the earliest first. -/
  | visiting (node : Node) (stack : List Binary64)
  /-- The operation of a node failed. -/
  | failed (node : Node) (error : DomainError)
  deriving DecidableEq

namespace Event

/-- The level of an event. -/
def level : Event → Level
  | converted _ | rejected _ _ => .debug
  | visiting _ _ => .trace
  | failed _ _ => .warn

/-- The text of an event. -/
def message : Event → String
  | converted nodes => "postfix: " ++ nodes.label
  | rejected text error => "conversion of " ++ quote text ++ " failed: " ++ error.message
  | visiting node stack =>
    "eval " ++ node.toText ++ " (kind " ++ toString node.kind ++ ") with stack [" ++
      ", ".intercalate (stack.map Binary64.journalText) ++ "]"
  | failed node error => node.toText ++ " failed: " ++ error.message

/-- What is written down of an event. -/
def written (event : Event) : Level × String := (event.level, event.message)

theorem written_converted (nodes : PostfixExpr) :
    (converted nodes).written = (.debug, "postfix: " ++ nodes.label) := rfl

theorem written_failed (node : Node) (error : DomainError) :
    (failed node error).written = (.warn, node.toText ++ " failed: " ++ error.message) := rfl

end Event

/-- The result of a computation, with the events that it recorded. -/
structure Recorded (α : Type) where
  events : List Event
  result : α

namespace Recorded

/-- The events of a computation stand in front of those of the one that goes on with its result. -/
instance : Monad Recorded where
  pure value := ⟨[], value⟩
  bind x next := ⟨x.events ++ (next x.result).events, (next x.result).result⟩

variable {α β : Type}

@[simp]
theorem events_bind (x : Recorded α) (next : α → Recorded β) :
    (x >>= next).events = x.events ++ (next x.result).events := rfl

@[simp]
theorem result_bind (x : Recorded α) (next : α → Recorded β) :
    (x >>= next).result = (next x.result).result := rfl

end Recorded

/-- Record an event. -/
def record (event : Event) : Recorded Unit := ⟨[event], ()⟩

end PostfixCalc
