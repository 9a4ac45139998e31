import PostfixCalc.Journal

/-!
# Evaluation

The nodes of a postfix expression are taken in order, with the values not yet used on a stack.  An
operation that is undefined for its operands leaves zero in place of a result and the walk goes on;
the failure of the last such operation is the one reported.  Each node is recorded before it is
taken, and each failure when it happens.

Main results:

- `walk_append`: walking two expressions in a row walks the second from where the first ends.
-/

namespace PostfixCalc

/-- Why a list of nodes has no value at all. -/
inductive StructureError where
  | empty
  /-- An operator lacks operands, or several values are left in the end. -/
  | wrongNumberOfOperands
  deriving DecidableEq

/-- The message of a structure error. -/
def StructureError.message : StructureError → String
  | empty => "empty expression"
  | wrongNumberOfOperands => "wrong number of operands"

namespace Evaluation

/-- The values not yet used, the latest first, and the last failure. -/
structure State where
  stack : List Binary64
  failure : Option DomainError
  deriving DecidableEq

/-- No value and no failure. -/
def State.initial : State := ⟨[], none⟩

/-- What a node makes of its operands, and the values below these; none if it lacks operands. -/
def operate? : List Binary64 → Node → Option (Except DomainError Binary64 × List Binary64)
  | stack, .operand value => some (.ok value, stack)
  | argument :: below, .unary op => some (op.apply argument, below)
  | right :: left :: below, .binary op => some (op.apply left right, below)
  | _, _ => none

/-- Take one node. -/
def State.step (s : State) (node : Node) : ExceptT StructureError Recorded State := do
  record (.visiting node s.stack.reverse)
  match operate? s.stack node with
  | none => throw .wrongNumberOfOperands
  | some (.ok value, below) => return ⟨value :: below, s.failure⟩
  | some (.error e, below) =>
    record (.failed node e)
    return ⟨Binary64.zero :: below, some e⟩

/-- Take nodes one after another. -/
def walkRecorded (s : State) : PostfixExpr → ExceptT StructureError Recorded State
  | [] => return s
  | node :: nodes => do walkRecorded (← s.step node) nodes

/-- The state in which a walk over nodes ends. -/
def walk (s : State) (nodes : PostfixExpr) : Except StructureError State :=
  (walkRecorded s nodes).run.result

end Evaluation

/-- The value of an expression, which means something only without a failure. -/
structure Evaluation where
  value : Binary64
  /-- The failure of the last operation that failed. -/
  failure : Option DomainError
  deriving DecidableEq

namespace Evaluation

/-- The only value left in the end. -/
def State.finish (s : State) : Except StructureError Evaluation :=
  match s.stack with
  | [] => .error .empty
  | [value] => .ok ⟨value, s.failure⟩
  | _ => .error .wrongNumberOfOperands

/-- Evaluate a postfix expression. -/
def ofPostfixRecorded (nodes : PostfixExpr) : ExceptT StructureError Recorded Evaluation := do
  (← walkRecorded .initial nodes).finish

/-- The value of a postfix expression. -/
def ofPostfix (nodes : PostfixExpr) : Except StructureError Evaluation :=
  (ofPostfixRecorded nodes).run.result

/-! ## Walks -/

theorem walk_nil (s : State) : walk s [] = .ok s := rfl

/-- A walk goes on from where its first node leads. -/
theorem walk_cons (s : State) (node : Node) (nodes : PostfixExpr) :
    walk s (node :: nodes) = (s.step node).run.result.bind fun t => walk t nodes := by
  rw [walk, walkRecorded, ExceptT.run_bind, Recorded.result_bind]
  cases (s.step node).run.result <;> rfl

/-- An evaluation is a walk and what it leaves. -/
theorem ofPostfix_eq (nodes : PostfixExpr) :
    ofPostfix nodes = (walk .initial nodes).bind State.finish := by
  rw [ofPostfix, ofPostfixRecorded, ExceptT.run_bind, Recorded.result_bind, walk]
  cases (walkRecorded .initial nodes).run.result <;> rfl

/-- Walking two expressions in a row walks the second from where the first ends. -/
theorem walk_append (s : State) (front back : PostfixExpr) :
    walk s (front ++ back) = (walk s front).bind fun s => walk s back := by
  induction front generalizing s with
  | nil => rfl
  | cons node front ih =>
    rw [List.cons_append, walk_cons, walk_cons]
    cases (s.step node).run.result with
    | error e => rfl
    | ok t => exact ih t

end Evaluation

end PostfixCalc
