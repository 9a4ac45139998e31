import PostfixCalc.Conversion.Basic
import PostfixCalc.Expr.Basic

/-!
# Accepted postfix expressions

The converter accepts a postfix expression if every operator finds its operands and one value is
left.  Counting values is the same as reading trees onto a stack and looking at its height, and the
trees on the stack spell out the nodes that were read.  So the accepted expressions are the
postorders of trees.

Main results:

- `Expr.stackNodes_of_build?`: the trees that were read are made of the nodes that were read.
- `Expr.length_build?`: the number of values is the number of trees.
- `Conversion.checkArity_eq_ok_iff`: the accepted expressions are the postorders of trees.
-/

namespace PostfixCalc

namespace Expr

/-- The nodes of a stack of trees in postfix order, those of the latest tree last. -/
def stackNodes (stack : List Expr) : PostfixExpr := stack.reverse.flatMap postorder

@[simp] theorem stackNodes_nil : stackNodes [] = [] := rfl

@[simp] theorem stackNodes_cons (e : Expr) (stack : List Expr) :
    stackNodes (e :: stack) = stackNodes stack ++ e.postorder := by
  simp [stackNodes]

/-- Taking a node appends it to the nodes of the stack. -/
theorem stackNodes_of_push? {stack grown : List Expr} {node : Node}
    (h : push? stack node = some grown) : stackNodes grown = stackNodes stack ++ [node] := by
  cases node with
  | operand value =>
    simp only [push?, Option.some.injEq] at h
    subst h
    simp [postorder]
  | unary op =>
    rcases stack with _ | ⟨argument, below⟩
    · simp [push?] at h
    · simp only [push?, Option.some.injEq] at h
      subst h
      simp [postorder]
  | binary op =>
    rcases stack with _ | ⟨right, _ | ⟨left, below⟩⟩
    · simp [push?] at h
    · simp [push?] at h
    · simp only [push?, Option.some.injEq] at h
      subst h
      simp [postorder]

/-- Reading an expression appends its nodes to those of the stack. -/
theorem stackNodes_of_build? {stack grown : List Expr} {nodes : PostfixExpr}
    (h : build? stack nodes = some grown) : stackNodes grown = stackNodes stack ++ nodes := by
  induction nodes generalizing stack with
  | nil =>
    simp only [build?, List.foldlM_nil, Option.pure_def, Option.some.injEq] at h
    simp [h]
  | cons node nodes ih =>
    simp only [build?, List.foldlM_cons, Option.bind_eq_bind, Option.bind_eq_some_iff] at h
    obtain ⟨next, hpush, hrest⟩ := h
    rw [ih hrest, stackNodes_of_push? hpush, List.append_assoc]
    rfl

/-- A node takes as many trees as it has operands and leaves one. -/
theorem length_push? (stack : List Expr) (node : Node) :
    (push? stack node).map List.length =
      if stack.length < node.arity then none else some (stack.length - node.arity + 1) := by
  cases node with
  | operand value => simp [push?, Node.arity]
  | unary op => rcases stack with _ | ⟨argument, below⟩ <;> simp [push?, Node.arity]
  | binary op =>
    rcases stack with _ | ⟨right, _ | ⟨left, below⟩⟩
    · simp [push?, Node.arity]
    · simp [push?, Node.arity]
    · have henough : ¬(right :: left :: below).length < (Node.binary op).arity := by
        simp [Node.arity]
      rw [if_neg henough]
      rfl

/-- Reading trees succeeds if counting values does, and leaves that many trees. -/
theorem length_build? (stack : List Expr) (nodes : PostfixExpr) :
    (build? stack nodes).map List.length = Conversion.depthAfter? stack.length nodes := by
  induction nodes generalizing stack with
  | nil => rfl
  | cons node nodes ih =>
    have hstep := length_push? stack node
    simp only [build?, List.foldlM_cons, Option.bind_eq_bind, Conversion.depthAfter?] at ih ⊢
    cases hpush : push? stack node with
    | none =>
      rw [hpush] at hstep
      split at hstep
      · rename_i hshort
        simp [hshort]
      · simp at hstep
    | some next =>
      rw [hpush] at hstep
      split at hstep
      · simp at hstep
      · rename_i henough
        simp only [Option.map_some, Option.some.injEq] at hstep
        rw [if_neg henough, Option.bind_some, ih next, hstep]

/-- Different trees have different postorders. -/
theorem postorder_injective : Function.Injective postorder := by
  intro e e' h
  have hbuild := congrArg (build? []) h
  rw [build?_postorder, build?_postorder, Option.some.injEq] at hbuild
  exact List.head_eq_of_cons_eq hbuild

end Expr

namespace Conversion

/-- The postorder of a tree is accepted. -/
theorem checkArity_postorder (e : Expr) : checkArity e.postorder = .ok () := by
  have hlength := Expr.length_build? [] e.postorder
  rw [Expr.build?_postorder] at hlength
  rw [checkArity, ← @List.length_nil Expr, ← hlength]
  rfl

/-- The accepted expressions are the postorders of trees. -/
theorem checkArity_eq_ok_iff {nodes : PostfixExpr} :
    checkArity nodes = .ok () ↔ ∃ e : Expr, nodes = e.postorder := by
  constructor
  · intro h
    have hlength := Expr.length_build? [] nodes
    rw [List.length_nil] at hlength
    unfold checkArity at h
    rw [← hlength] at h
    cases hbuild : Expr.build? [] nodes with
    | none => simp [hbuild] at h
    | some stack =>
      rcases stack with _ | ⟨e, _ | ⟨e', below⟩⟩
      · simp [hbuild] at h
      · have hnodes := Expr.stackNodes_of_build? hbuild
        exact ⟨e, by simpa using hnodes.symm⟩
      · simp [hbuild] at h
  · rintro ⟨e, rfl⟩
    exact checkArity_postorder e

end Conversion

end PostfixCalc
