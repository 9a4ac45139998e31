import Mathlib.Algebra.GroupWithZero.Nat
import Mathlib.Data.List.Induction
import PostfixCalc.Proofs.Arity

/-!
# Postfix expressions as rows of trees

Every node takes as many values as it has operands and leaves one.  So how many values there are
before a node can be told from the nodes in front of it alone.  If no node finds too few, the nodes
are the postorders of trees one after another, and in one way only.

Main results:

- `Expr.build?_eq_none_iff`: reading trees fails exactly if some node falls short of operands.
- `Expr.build?_flatMap_postorder`: the postorders of trees are read as these trees.
- `Expr.build?_eq_some_iff`: the trees that are read are the only ones with these postorders.
-/

namespace PostfixCalc

/-- Some node finds fewer values before it than it has operands: of the nodes in front of it, each
has left one value and taken as many as it has operands. -/
def PostfixExpr.FallsShort (nodes : PostfixExpr) : Prop :=
  ∃ front node back, nodes = front ++ node :: back ∧
    front.length < (front.map Node.arity).sum + node.arity

namespace Expr

/-! ## Counting values -/

/-- A node that finds its operands takes them from the stack and leaves one tree. -/
theorem length_of_push? {stack grown : List Expr} {node : Node}
    (h : push? stack node = some grown) : grown.length + node.arity = stack.length + 1 := by
  have hlength := length_push? stack node
  rw [h, Option.map_some] at hlength
  split at hlength
  · exact absurd hlength (Option.some_ne_none _)
  · rw [Option.some.injEq] at hlength
    omega

/-- A node for which there are too few trees is not read. -/
theorem push?_eq_none_iff {stack : List Expr} {node : Node} :
    push? stack node = none ↔ stack.length < node.arity := by
  have hlength := length_push? stack node
  cases hpush : push? stack node with
  | none =>
    rw [hpush, Option.map_none] at hlength
    split at hlength
    · simpa
    · exact absurd hlength.symm (Option.some_ne_none _)
  | some grown =>
    rw [hpush, Option.map_some] at hlength
    split at hlength
    · exact absurd hlength (Option.some_ne_none _)
    · simpa using Nat.le_of_not_lt ‹_›

/-- Reading one more node at the end puts it on the trees that were read before. -/
theorem build?_concat (stack : List Expr) (front : PostfixExpr) (node : Node) :
    build? stack (front ++ [node]) = (build? stack front).bind fun grown => push? grown node := by
  rw [build?_append]
  refine congrArg (Option.bind (build? stack front)) (funext fun grown => ?_)
  simp [build?]

/-- Of the nodes that were read, each has left one tree and taken as many as it has operands. -/
theorem length_of_build? {stack : List Expr} {nodes : PostfixExpr}
    (h : build? [] nodes = some stack) :
    stack.length + (nodes.map Node.arity).sum = nodes.length := by
  induction nodes using List.reverseRecOn generalizing stack with
  | nil =>
    cases h
    rfl
  | append_singleton front node ih =>
    rw [build?_concat, Option.bind_eq_some_iff] at h
    obtain ⟨below, hfront, hpush⟩ := h
    have hbelow := ih hfront
    have hnode := length_of_push? hpush
    simp only [List.map_append, List.sum_append, List.length_append, List.map_cons, List.map_nil,
      List.sum_cons, List.sum_nil, List.length_cons, List.length_nil]
    omega

/-- Reading trees fails exactly if some node falls short of operands. -/
theorem build?_eq_none_iff {nodes : PostfixExpr} :
    build? [] nodes = none ↔ nodes.FallsShort := by
  constructor
  · intro h
    induction nodes using List.reverseRecOn with
    | nil => exact absurd h (Option.some_ne_none _)
    | append_singleton front node ih =>
      cases hfront : build? [] front with
      | none =>
        -- The node that falls short is one of those in front.
        obtain ⟨before, short, back, hsplit, hshort⟩ := ih hfront
        refine ⟨before, short, back ++ [node], ?_, hshort⟩
        rw [hsplit, List.append_assoc, List.cons_append]
      | some stack =>
        rw [build?_concat, hfront, Option.bind_some, push?_eq_none_iff] at h
        have hlength := length_of_build? hfront
        exact ⟨front, node, [], rfl, by omega⟩
  · rintro ⟨front, node, back, rfl, hshort⟩
    rw [List.append_cons, build?_append, build?_concat]
    cases hfront : build? [] front with
    | none => rfl
    | some stack =>
      have hlength := length_of_build? hfront
      have hnone : push? stack node = none := push?_eq_none_iff.2 (by omega)
      rw [Option.bind_some, hnone]
      rfl

/-! ## Rows of trees -/

/-- The postorders of trees one after another are read as these trees, the last one on top. -/
theorem build?_flatMap_postorder (trees stack : List Expr) :
    build? stack (trees.flatMap postorder) = some (trees.reverse ++ stack) := by
  induction trees generalizing stack with
  | nil => rfl
  | cons e trees ih =>
    rw [List.flatMap_cons, build?_append, build?_postorder, Option.bind_some, ih,
      List.reverse_cons, List.append_assoc, List.singleton_append]

/-- The trees that are read are the only ones with these postorders. -/
theorem build?_eq_some_iff {nodes : PostfixExpr} {stack : List Expr} :
    build? [] nodes = some stack ↔ nodes = stack.reverse.flatMap postorder := by
  constructor
  · intro h
    have hnodes := stackNodes_of_build? h
    rw [stackNodes_nil, List.nil_append] at hnodes
    exact hnodes.symm
  · rintro rfl
    rw [build?_flatMap_postorder, List.reverse_reverse, List.append_nil]

/-- Nodes that are read as trees are a row of these trees and of no others. -/
theorem eq_flatMap_postorder_iff {nodes : PostfixExpr} {stack : List Expr}
    (h : build? [] nodes = some stack) (others : List Expr) :
    nodes = others.flatMap postorder ↔ others = stack.reverse := by
  rw [← List.reverse_reverse others, ← build?_eq_some_iff, h, Option.some.injEq, List.reverse_inj,
    eq_comm]

/-- If no node falls short of operands, the nodes are a row of trees. -/
theorem exists_build? {nodes : PostfixExpr} (h : ¬nodes.FallsShort) :
    ∃ stack, build? [] nodes = some stack :=
  Option.ne_none_iff_exists'.1 (mt build?_eq_none_iff.1 h)

end Expr

end PostfixCalc
