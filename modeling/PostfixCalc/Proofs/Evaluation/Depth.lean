import PostfixCalc.Conversion.Basic
import PostfixCalc.Proofs.Evaluation.Tree

/-!
# Counting operands and walking

The conversion only counts how many values there are; the evaluation has the values themselves.
Whatever the values are, and whether or not an operation is undefined for them, the stack of a walk
is always as high as the count.  So both accept the same postfix expressions, and what is wrong with
one that they do not accept is the same for both.

Main results:

- `Evaluation.step_depth`: a node changes the height of the stack as it changes the count.
- `Evaluation.walk_depth`: a walk ends at the height that is counted, or lacks operands where the
  count does.
- `Conversion.checkArity_agrees`: the outcomes of the count are those of the evaluation.
-/

namespace PostfixCalc

namespace Evaluation

/-! ## One node -/

/-- A node lacks operands exactly if the stack is lower than its arity. -/
theorem operate?_eq_none_iff {stack : List Binary64} {node : Node} :
    operate? stack node = none ↔ stack.length < node.arity := by
  cases node with
  | operand value => simp [operate?, Node.arity]
  | unary op =>
    cases stack with
    | nil => simp [operate?, Node.arity]
    | cons argument below => simp [operate?, Node.arity]
  | binary op =>
    rcases stack with _ | ⟨right, _ | ⟨left, below⟩⟩
    · simp [operate?, Node.arity]
    · simp [operate?, Node.arity]
    · simp only [operate?, Node.arity, List.length_cons, reduceCtorEq, false_iff]
      omega

/-- A node takes as many values as its arity says. -/
theorem length_of_operate? {stack below : List Binary64} {node : Node}
    {result : Except DomainError Binary64} (h : operate? stack node = some (result, below)) :
    below.length = stack.length - node.arity := by
  cases node with
  | operand value =>
    simp only [operate?, Option.some.injEq, Prod.mk.injEq] at h
    rw [← h.2]
    rfl
  | unary op =>
    cases stack with
    | nil => simp [operate?] at h
    | cons argument rest =>
      simp only [operate?, Option.some.injEq, Prod.mk.injEq] at h
      rw [← h.2]
      rfl
  | binary op =>
    rcases stack with _ | ⟨right, _ | ⟨left, rest⟩⟩
    · simp [operate?] at h
    · simp [operate?] at h
    · simp only [operate?, Option.some.injEq, Prod.mk.injEq] at h
      rw [← h.2]
      rfl

/-- A node changes the height of the stack as it changes the count. -/
theorem step_depth (s : State) (node : Node) :
    match (s.step node).run.result with
    | .ok t => node.arity ≤ s.stack.length ∧ t.stack.length = s.stack.length - node.arity + 1
    | .error e => s.stack.length < node.arity ∧ e = .wrongNumberOfOperands := by
  cases hoperate : operate? s.stack node with
  | none =>
    rw [State.step_of_operate?_eq_none hoperate]
    exact ⟨operate?_eq_none_iff.1 hoperate, rfl⟩
  | some found =>
    obtain ⟨result, below⟩ := found
    have henough : ¬s.stack.length < node.arity := by
      intro hshort
      rw [operate?_eq_none_iff.2 hshort] at hoperate
      exact Option.some_ne_none _ hoperate.symm
    rw [State.step_of_operate? hoperate]
    constructor
    · exact Nat.le_of_not_lt henough
    · rw [List.length_cons, length_of_operate? hoperate]

/-! ## Walks -/

/-- A walk comes to a node for which there are too few values. -/
def LacksOperands (s : State) (nodes : PostfixExpr) : Prop :=
  ∃ front node back t,
    nodes = front ++ node :: back ∧ walk s front = .ok t ∧ t.stack.length < node.arity

/-- A walk ends at the height that is counted, or lacks operands where the count does. -/
theorem walk_depth (s : State) (nodes : PostfixExpr) :
    match walk s nodes with
    | .ok t => Conversion.depthAfter? s.stack.length nodes = some t.stack.length
    | .error e =>
      Conversion.depthAfter? s.stack.length nodes = none ∧ e = .wrongNumberOfOperands ∧
        LacksOperands s nodes := by
  induction nodes generalizing s with
  | nil => rfl
  | cons node nodes ih =>
    have hdepth := step_depth s node
    rw [Conversion.depthAfter?]
    cases hstep : (s.step node).run.result with
    | error e =>
      rw [hstep] at hdepth
      obtain ⟨hshort, rfl⟩ := hdepth
      have hwalk : walk s (node :: nodes) = .error .wrongNumberOfOperands := by
        rw [walk_cons, hstep, Except.bind]
      rw [hwalk, if_pos hshort]
      exact ⟨rfl, rfl, [], node, nodes, s, rfl, rfl, hshort⟩
    | ok t =>
      rw [hstep] at hdepth
      have hwalk : ∀ rest, walk s (node :: rest) = walk t rest := by
        intro rest
        rw [walk_cons, hstep, Except.bind]
      have hrest := ih t
      rw [hdepth.2] at hrest
      rw [hwalk, if_neg (Nat.not_lt_of_le hdepth.1)]
      cases hnext : walk t nodes with
      | ok u =>
        rw [hnext] at hrest
        exact hrest
      | error e =>
        rw [hnext] at hrest
        obtain ⟨hnone, he, front, node', back, u, hsplit, hfront, hshort⟩ := hrest
        refine ⟨hnone, he, node :: front, node', back, u, ?_, ?_, hshort⟩
        · rw [hsplit, List.cons_append]
        · rw [hwalk, hfront]

/-- A walk that ends did not lack operands. -/
theorem not_lacksOperands_of_walk {s t : State} {nodes : PostfixExpr} (h : walk s nodes = .ok t) :
    ¬LacksOperands s nodes := by
  rintro ⟨front, node, back, u, rfl, hfront, hshort⟩
  have hstep := step_depth u node
  rw [walk_append, hfront, Except.bind, walk_cons] at h
  cases hnext : (u.step node).run.result with
  | error e => simp [hnext, Except.bind] at h
  | ok t =>
    rw [hnext] at hstep
    exact absurd hshort (Nat.not_lt_of_le hstep.1)

/-- The count depends on the arities alone. -/
theorem depthAfter?_congr {nodes others : PostfixExpr}
    (h : others.map Node.arity = nodes.map Node.arity) (depth : Nat) :
    Conversion.depthAfter? depth others = Conversion.depthAfter? depth nodes := by
  induction nodes generalizing others depth with
  | nil =>
    rw [List.map_nil, List.map_eq_nil_iff] at h
    rw [h]
  | cons node nodes ih =>
    cases others with
    | nil => simp at h
    | cons other others =>
      simp only [List.map_cons, List.cons.injEq] at h
      simp only [Conversion.depthAfter?, h.1, ih h.2]

/-- How an evaluation ends is told by the count. -/
theorem ofPostfix_depth (nodes : PostfixExpr) :
    (ofPostfix nodes).map (fun _ => ()) =
      match Conversion.depthAfter? 0 nodes with
      | none => .error .wrongNumberOfOperands
      | some 0 => .error .empty
      | some 1 => .ok ()
      | some _ => .error .wrongNumberOfOperands := by
  have hwalk := walk_depth .initial nodes
  have hinitial : State.initial.stack.length = 0 := rfl
  rw [hinitial] at hwalk
  rw [ofPostfix_eq]
  cases hend : walk .initial nodes with
  | error e =>
    rw [hend] at hwalk
    rw [hwalk.1, hwalk.2.1]
    rfl
  | ok t =>
    obtain ⟨stack, failure⟩ := t
    rw [hend] at hwalk
    rw [hwalk]
    rcases stack with _ | ⟨value, _ | ⟨other, below⟩⟩
    · rfl
    · rfl
    · rfl

end Evaluation

/-! ## Outcomes -/

namespace Conversion

open Evaluation

/-- Every node leaves a value, so only an empty expression leaves none. -/
theorem depthAfter?_eq_zero_iff {nodes : PostfixExpr} {depth : Nat} :
    depthAfter? depth nodes = some 0 ↔ depth = 0 ∧ nodes = [] := by
  induction nodes generalizing depth with
  | nil => simp [depthAfter?]
  | cons node nodes ih =>
    rw [depthAfter?]
    by_cases hshort : depth < node.arity
    · simp [hshort]
    · simp [hshort, ih]

/-- An evaluation finds no value exactly if there is no node. -/
theorem ofPostfix_eq_empty_iff {nodes : PostfixExpr} :
    ofPostfix nodes = .error .empty ↔ nodes = [] := by
  constructor
  · intro h
    have hdepth := ofPostfix_depth nodes
    rw [h] at hdepth
    cases hcount : depthAfter? 0 nodes with
    | none => simp [hcount, Except.map] at hdepth
    | some depth =>
      rcases depth with _ | _ | depth
      · exact (depthAfter?_eq_zero_iff.1 hcount).2
      · simp [hcount, Except.map] at hdepth
      · simp [hcount, Except.map] at hdepth
  · intro h
    rw [h]
    rfl

/-- A postfix expression is accepted exactly if it has a value.  It is empty for the count exactly
if it is for the evaluation.  It lacks operands, or has too many, for the count exactly if the walk
comes to a node for which there are too few values, or ends with several values.  None of this
depends on the values or on operations that are undefined for them, but only on the arities. -/
theorem checkArity_agrees (nodes : PostfixExpr) :
    (checkArity nodes = .ok () ↔ ∃ evaluation, ofPostfix nodes = .ok evaluation) ∧
    (checkArity nodes = .error .empty ↔ ofPostfix nodes = .error .empty) ∧
    (ofPostfix nodes = .error .empty ↔ nodes = []) ∧
    (checkArity nodes = .error .missingOperand ↔
      ofPostfix nodes = .error .wrongNumberOfOperands ∧ LacksOperands .initial nodes) ∧
    (checkArity nodes = .error .tooManyOperands ↔
      ofPostfix nodes = .error .wrongNumberOfOperands ∧
        ∃ s, walk .initial nodes = .ok s ∧ 1 < s.stack.length) ∧
    ∀ others : PostfixExpr, others.map Node.arity = nodes.map Node.arity →
      checkArity others = checkArity nodes ∧
        (ofPostfix others).map (fun _ => ()) = (ofPostfix nodes).map fun _ => () := by
  have harities : ∀ others : PostfixExpr, others.map Node.arity = nodes.map Node.arity →
      checkArity others = checkArity nodes ∧
        (ofPostfix others).map (fun _ => ()) = (ofPostfix nodes).map fun _ => () := by
    intro others hothers
    constructor
    · rw [checkArity, checkArity, depthAfter?_congr hothers]
    · rw [ofPostfix_depth, ofPostfix_depth, depthAfter?_congr hothers]
  have hwalk := walk_depth .initial nodes
  have hinitial : Evaluation.State.initial.stack.length = 0 := rfl
  rw [hinitial] at hwalk
  cases hend : walk .initial nodes with
  | error e =>
    rw [hend] at hwalk
    obtain ⟨hcount, rfl, hlacks⟩ := hwalk
    have harity : checkArity nodes = .error .missingOperand := by
      rw [checkArity, hcount]
    have hvalue : ofPostfix nodes = .error .wrongNumberOfOperands := by
      rw [ofPostfix_eq, hend]
      rfl
    refine ⟨?_, ?_, ofPostfix_eq_empty_iff, ?_, ?_, harities⟩ <;> simp [harity, hvalue, hlacks]
  | ok t =>
    rw [hend] at hwalk
    have hlacks : ¬LacksOperands .initial nodes := not_lacksOperands_of_walk hend
    -- What is left in the end decides: no value, one value or several.
    obtain ⟨stack, failure⟩ := t
    rcases stack with _ | ⟨value, _ | ⟨other, below⟩⟩
    · have harity : checkArity nodes = .error .empty := by
        rw [checkArity, hwalk]
        rfl
      have hvalue : ofPostfix nodes = .error .empty := by
        rw [ofPostfix_eq, hend]
        rfl
      refine ⟨?_, ?_, ofPostfix_eq_empty_iff, ?_, ?_, harities⟩ <;> simp [harity, hvalue]
    · have harity : checkArity nodes = .ok () := by
        rw [checkArity, hwalk]
        rfl
      have hvalue : ofPostfix nodes = .ok ⟨value, failure⟩ := by
        rw [ofPostfix_eq, hend]
        rfl
      refine ⟨?_, ?_, ofPostfix_eq_empty_iff, ?_, ?_, harities⟩ <;> simp [harity, hvalue]
    · have harity : checkArity nodes = .error .tooManyOperands := by
        rw [checkArity, hwalk]
        rfl
      have hvalue : ofPostfix nodes = .error .wrongNumberOfOperands := by
        rw [ofPostfix_eq, hend]
        rfl
      refine ⟨?_, ?_, ofPostfix_eq_empty_iff, ?_, ?_, harities⟩ <;> simp [harity, hvalue, hlacks]

end Conversion

end PostfixCalc
