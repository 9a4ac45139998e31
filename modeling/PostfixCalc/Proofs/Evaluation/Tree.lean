import PostfixCalc.Evaluation
import PostfixCalc.Expr.Basic

/-!
# The value of a tree

A tree is evaluated from its leaves to its root, the left operand of an operation before the right
one.  An operation that fails hands zero to the operation above it, so every operation is carried
out whatever happened before it.  Walking over the nodes of the tree in postfix order does the same
with a stack.

Main results:

- `Expr.walk_postorder`: walking over a tree leaves its value on top of the stack, whatever lies
  below it and whatever failed before.
- `Expr.ofPostfix_postorder`: evaluating the postorder of a tree gives the value of the tree and the
  failure of its last operation that failed.
-/

namespace PostfixCalc

/-! ## Operations -/

/-- What an operation hands on: its result, or zero if it failed. -/
def handedOn : Except DomainError Binary64 → Binary64
  | .ok value => value
  | .error _ => .zero

/-- The failure of an operation, if it failed. -/
def failureOf : Except DomainError Binary64 → Option DomainError
  | .ok _ => none
  | .error e => some e

namespace Evaluation

/-- A node that finds its operands is recorded, with the failure of its operation behind it, and
replaces them by what its operation hands on. -/
theorem State.step_of_operate? {s : State} {node : Node} {below : List Binary64}
    {result : Except DomainError Binary64} (h : operate? s.stack node = some (result, below)) :
    (s.step node).run =
      ⟨.visiting node s.stack.reverse :: ((failureOf result).map (Event.failed node)).toList,
        .ok ⟨handedOn result :: below, (failureOf result).or s.failure⟩⟩ := by
  rw [State.step, h]
  cases result <;> rfl

/-- A node that lacks operands is the last one recorded. -/
theorem State.step_of_operate?_eq_none {s : State} {node : Node}
    (h : operate? s.stack node = none) :
    (s.step node).run = ⟨[.visiting node s.stack.reverse], .error .wrongNumberOfOperands⟩ := by
  rw [State.step, h]
  rfl

/-- A walk goes on with what a node that finds its operands hands on. -/
theorem walk_cons_of_operate? {s : State} {node : Node} {below : List Binary64}
    {result : Except DomainError Binary64} (h : operate? s.stack node = some (result, below))
    (nodes : PostfixExpr) :
    walk s (node :: nodes) =
      walk ⟨handedOn result :: below, (failureOf result).or s.failure⟩ nodes := by
  rw [walk_cons, State.step_of_operate? h]
  rfl

end Evaluation

namespace Expr

/-! ## Trees -/

/-- The value of a tree, in which zero takes the place of results that are undefined. -/
def value : Expr → Binary64
  | operand value => value
  | unary op argument => handedOn (op.apply argument.value)
  | binary op left right => handedOn (op.apply left.value right.value)

/-- The outcome of the operation at the root of a tree. -/
def outcome : Expr → Except DomainError Binary64
  | operand value => .ok value
  | unary op argument => op.apply argument.value
  | binary op left right => op.apply left.value right.value

/-- A tree and all trees in it, in the order in which they are evaluated. -/
def subtrees : Expr → List Expr
  | operand value => [operand value]
  | unary op argument => argument.subtrees ++ [unary op argument]
  | binary op left right => left.subtrees ++ right.subtrees ++ [binary op left right]

/-- The operation at the root of a tree fails with an error. -/
def FailsWith (e : Expr) (error : DomainError) : Prop := e.outcome = .error error

/-- The failure of the last operation of a tree that failed. -/
def lastFailure? (e : Expr) : Option DomainError :=
  (e.subtrees.filterMap fun t => failureOf t.outcome).getLast?

theorem lastFailure?_unary (op : UnaryOp) (argument : Expr) :
    (unary op argument).lastFailure? =
      (failureOf (op.apply argument.value)).or argument.lastFailure? := by
  simp only [lastFailure?, subtrees, List.filterMap_append, List.getLast?_append]
  cases h : failureOf (op.apply argument.value) <;> simp [outcome, h]

theorem lastFailure?_binary (op : BinaryOp) (left right : Expr) :
    (binary op left right).lastFailure? =
      (failureOf (op.apply left.value right.value)).or
        (right.lastFailure?.or left.lastFailure?) := by
  simp only [lastFailure?, subtrees, List.filterMap_append, List.getLast?_append]
  cases h : failureOf (op.apply left.value right.value) <;> simp [outcome, h]

theorem failureOf_outcome_eq_some_iff {e : Expr} {error : DomainError} :
    failureOf e.outcome = some error ↔ e.FailsWith error := by
  unfold FailsWith
  cases e.outcome <;> simp [failureOf]

theorem failureOf_outcome_eq_none_iff {e : Expr} :
    failureOf e.outcome = none ↔ ∀ error, ¬e.FailsWith error := by
  unfold FailsWith
  cases e.outcome <;> simp [failureOf]

/-- The last failure is that of a tree after which no other tree fails. -/
theorem lastFailure?_eq_some_iff {e : Expr} {error : DomainError} :
    e.lastFailure? = some error ↔
      ∃ before t after, e.subtrees = before ++ t :: after ∧ t.FailsWith error ∧
        ∀ u ∈ after, ∀ error', ¬u.FailsWith error' := by
  rw [lastFailure?, List.getLast?_filterMap, List.findSome?_eq_some_iff]
  constructor
  · rintro ⟨after, t, before, hsplit, hfails, hafter⟩
    refine ⟨before.reverse, t, after.reverse, ?_, failureOf_outcome_eq_some_iff.1 hfails, ?_⟩
    · simpa using congrArg List.reverse hsplit
    · intro u hu
      exact failureOf_outcome_eq_none_iff.1 (hafter u (List.mem_reverse.1 hu))
  · rintro ⟨before, t, after, hsplit, hfails, hafter⟩
    refine ⟨after.reverse, t, before.reverse, ?_, failureOf_outcome_eq_some_iff.2 hfails, ?_⟩
    · simp [hsplit]
    · intro u hu
      exact failureOf_outcome_eq_none_iff.2 (hafter u (List.mem_reverse.1 hu))

/-- There is no last failure if no tree fails. -/
theorem lastFailure?_eq_none_iff {e : Expr} :
    e.lastFailure? = none ↔ ∀ t ∈ e.subtrees, ∀ error, ¬t.FailsWith error := by
  rw [lastFailure?, List.getLast?_eq_none_iff, List.filterMap_eq_nil_iff]
  constructor
  · intro h t ht
    exact failureOf_outcome_eq_none_iff.1 (h t ht)
  · intro h t ht
    exact failureOf_outcome_eq_none_iff.2 (h t ht)

/-! ## Walking over a tree -/

/-- Walking over the nodes of a tree leaves its value on top of the stack and records its last
failure; the nodes that follow start from there. -/
theorem walk_postorder (e : Expr) (s : Evaluation.State) (rest : PostfixExpr) :
    Evaluation.walk s (e.postorder ++ rest) =
      Evaluation.walk ⟨e.value :: s.stack, e.lastFailure?.or s.failure⟩ rest := by
  induction e generalizing s rest with
  | operand value => rfl
  | unary op argument ih =>
    rw [postorder, List.append_assoc, ih, List.singleton_append,
      Evaluation.walk_cons_of_operate? rfl, lastFailure?_unary, Option.or_assoc]
    rfl
  | binary op left right ihl ihr =>
    rw [postorder, List.append_assoc, List.append_assoc, ihl, ihr, List.singleton_append,
      Evaluation.walk_cons_of_operate? rfl, lastFailure?_binary, Option.or_assoc, Option.or_assoc]
    rfl

/-- Evaluating the postorder of a tree evaluates the tree. -/
theorem ofPostfix_postorder (e : Expr) :
    Evaluation.ofPostfix e.postorder = .ok ⟨e.value, e.lastFailure?⟩ := by
  have hwalk := walk_postorder e .initial []
  rw [List.append_nil] at hwalk
  rw [Evaluation.ofPostfix_eq, hwalk, Evaluation.walk_nil, Evaluation.State.initial,
    Option.or_none]
  rfl

/-- The evaluation of a postfix expression made from a tree always succeeds.  It gives the value of
the tree, and the failure of the last operation in it that failed if there is one. -/
theorem evaluation_refines_tree (e : Expr) :
    ∃ failure,
      Evaluation.ofPostfix e.postorder = .ok ⟨e.value, failure⟩ ∧
      (∀ error, failure = some error ↔
        ∃ before t after, e.subtrees = before ++ t :: after ∧ t.FailsWith error ∧
          ∀ u ∈ after, ∀ error', ¬u.FailsWith error') ∧
      (failure = none ↔ ∀ t ∈ e.subtrees, ∀ error, ¬t.FailsWith error) :=
  ⟨e.lastFailure?, ofPostfix_postorder e, fun _ => lastFailure?_eq_some_iff,
    lastFailure?_eq_none_iff⟩

end Expr

end PostfixCalc
