import PostfixCalc.Expr.Printing
import PostfixCalc.Proofs.Printing.Decomposition

/-!
# Printing without knowing the arities

The text of a tree can be had from a tree that may have any number of operands at any node.  Such a
tree has no text if an operand that the text asks for is not there, or if a value has operands.
Cutting the operands of a node off the end of the stack never builds such a tree: what is built are
the trees in which every node has its operands.

Main results:

- `LooseExpr.build?_loosen`: cutting operands off a stack builds the trees that reading builds.
- `LooseExpr.print?_loosen`: a tree in which every node has its operands has a text.
- `PostfixExpr.display?_eq`: every postfix expression has a text.
- `PostfixExpr.toInfix_prints_last`: this is the text of the last of its trees.
-/

namespace PostfixCalc

/-- The binding of a node in a printed expression; a negative operand is printed with a sign and
binds like one. -/
def Node.binding : Node → Binding
  | operand value => if value.negative then ⟨5, false⟩ else ⟨99, true⟩
  | unary (.sign _) => ⟨5, false⟩
  | unary (.function _) => ⟨7, true⟩
  | binary op => op.binding

/-- An expression with any node at a leaf and any number of operands at an inner node. -/
inductive LooseExpr where
  | leaf (node : Node)
  | join (node : Node) (operands : List LooseExpr)

namespace LooseExpr

/-- Put the tree of one more node at the end of a stack of trees, the latest last.  The operands of
the node are cut off where as many are left as it needs; none if there are too few. -/
def push? (stack : List LooseExpr) (node : Node) : Option (List LooseExpr) :=
  if stack.length < node.arity then none
  else if node.arity = 0 then some (stack ++ [leaf node])
  else
    let rest := stack.length - node.arity
    some (stack.take rest ++ [join node (stack.drop rest)])

/-- Read the trees of a postfix expression onto a stack. -/
def build? (stack : List LooseExpr) (nodes : PostfixExpr) : Option (List LooseExpr) :=
  nodes.foldlM push? stack

/-- The last tree of a postfix expression; none if there is no tree, or a node lacks operands. -/
def ofPostfix? (nodes : PostfixExpr) : Option LooseExpr :=
  (build? [] nodes).bind List.getLast?

/-- The text of a tree and how it binds; none if a node has fewer operands than its text shows, or a
value has operands. -/
def print? : LooseExpr → Option (String × Binding)
  | leaf node => some (node.toText, node.binding)
  | join (.unary (.function f)) (argument :: _) => do
    let (text, _) ← argument.print?
    return (f.name ++ "(" ++ text ++ ")", (Node.unary (.function f)).binding)
  | join (.unary (.sign s)) (argument :: _) => do
    let (text, inner) ← argument.print?
    let own := (Node.unary (.sign s)).binding
    let enclosed :=
      own.strength > inner.strength || (s == .minus && text.toList.head? == some '-')
    return (s.symbol ++ Expr.parenthesizeIf enclosed text, own)
  | join (.binary op) (left :: right :: _) => do
    let (leftText, leftOwn) ← left.print?
    let (rightText, rightOwn) ← right.print?
    let ⟨strength, groupsLeft⟩ := (Node.binary op).binding
    let leftEnclosed :=
      strength > leftOwn.strength || (strength == leftOwn.strength && !groupsLeft)
    let rightEnclosed :=
      strength > rightOwn.strength || (strength == rightOwn.strength && groupsLeft)
    return (Expr.parenthesizeIf leftEnclosed leftText ++ " " ++ op.symbol ++ " " ++
      Expr.parenthesizeIf rightEnclosed rightText, ⟨strength, groupsLeft⟩)
  | join _ _ => none

end LooseExpr

/-- The text of a postfix expression from its last loose tree; without one, the nodes in their
order.  None if that tree has no text. -/
def PostfixExpr.display? (nodes : PostfixExpr) : Option String :=
  match LooseExpr.ofPostfix? nodes with
  | some tree => tree.print?.map Prod.fst
  | none => some nodes.toText

/-- The loose tree with the same nodes. -/
def Expr.loosen : Expr → LooseExpr
  | operand value => .leaf (.operand value)
  | unary op argument => .join (.unary op) [argument.loosen]
  | binary op left right => .join (.binary op) [left.loosen, right.loosen]

/-- Different trees are different as loose trees. -/
theorem Expr.loosen_injective : Function.Injective loosen := by
  intro e e' h
  induction e generalizing e' with
  | operand value => cases e' <;> simp_all [loosen]
  | unary op argument ih =>
    cases e' with
    | unary op' argument' =>
      simp only [loosen, LooseExpr.join.injEq, Node.unary.injEq, List.cons.injEq, and_true] at h
      rw [h.1, ih h.2]
    | operand | binary => simp [loosen] at h
  | binary op left right ihl ihr =>
    cases e' with
    | binary op' left' right' =>
      simp only [loosen, LooseExpr.join.injEq, Node.binary.injEq, List.cons.injEq, and_true] at h
      rw [h.1, ihl h.2.1, ihr h.2.2]
    | operand | unary => simp [loosen] at h

namespace LooseExpr

/-! ## Reading loose trees -/

/-- An operand goes to the end of the stack. -/
theorem push?_operand (stack : List LooseExpr) (value : Binary64) :
    push? stack (.operand value) = some (stack ++ [leaf (.operand value)]) := by
  simp [push?, Node.arity]

/-- An operator joins as many trees from the end of the stack as it has operands. -/
theorem push?_append (stack operands : List LooseExpr) {node : Node}
    (hlength : operands.length = node.arity) (hpos : 0 < node.arity) :
    push? (stack ++ operands) node = some (stack ++ [join node operands]) := by
  have hrest : (stack ++ operands).length - node.arity = stack.length := by
    rw [List.length_append]
    omega
  have henough : ¬(stack ++ operands).length < node.arity := by
    rw [List.length_append]
    omega
  rw [push?, if_neg henough, if_neg (Nat.ne_of_gt hpos)]
  simp only [hrest, List.take_left, List.drop_left]

/-- A node cuts off the loose trees of those that it takes from the top. -/
theorem push?_loosen (stack : List Expr) (node : Node) :
    push? (stack.reverse.map Expr.loosen) node =
      (Expr.push? stack node).map fun grown => grown.reverse.map Expr.loosen := by
  cases node with
  | operand value => simp [push?_operand, Expr.push?, Expr.loosen]
  | unary op =>
    rcases stack with _ | ⟨argument, below⟩
    · rfl
    · have hpush := push?_append (below.reverse.map Expr.loosen) [argument.loosen]
        (show _ = (Node.unary op).arity from rfl) Nat.one_pos
      simpa [Expr.push?, Expr.loosen] using hpush
  | binary op =>
    rcases stack with _ | ⟨right, _ | ⟨left, below⟩⟩
    · rfl
    · rfl
    · have hpush := push?_append (below.reverse.map Expr.loosen) [left.loosen, right.loosen]
        (show _ = (Node.binary op).arity from rfl) Nat.two_pos
      simpa [Expr.push?, Expr.loosen] using hpush

/-- Cutting operands off a stack builds the loose trees of those that reading builds. -/
theorem build?_loosen (stack : List Expr) (nodes : PostfixExpr) :
    build? (stack.reverse.map Expr.loosen) nodes =
      (Expr.build? stack nodes).map fun grown => grown.reverse.map Expr.loosen := by
  induction nodes generalizing stack with
  | nil => rfl
  | cons node nodes ih =>
    simp only [build?, Expr.build?, List.foldlM_cons, Option.bind_eq_bind] at ih ⊢
    rw [push?_loosen]
    cases Expr.push? stack node with
    | none => rfl
    | some grown => exact ih grown

/-- The last loose tree is that of the tree on top. -/
theorem ofPostfix?_eq (nodes : PostfixExpr) :
    ofPostfix? nodes = ((Expr.build? [] nodes).bind List.head?).map Expr.loosen := by
  have hbuild := build?_loosen [] nodes
  rw [List.reverse_nil, List.map_nil] at hbuild
  rw [ofPostfix?, hbuild]
  cases Expr.build? [] nodes with
  | none => rfl
  | some stack => simp [List.getLast?_reverse]

/-! ## Printing loose trees -/

/-- An operand that binds less tightly is in parentheses, and one that binds as tightly if the
operator asks for it on this side. -/
theorem enclosed_eq (strength inner : Nat) (alike : Bool) :
    (decide (strength > inner) || (strength == inner && alike)) =
      decide (inner < if alike then strength + 1 else strength) := by
  cases alike with
  | false => simp
  | true =>
    rw [Bool.eq_iff_iff]
    simp only [Bool.and_true, Bool.or_eq_true, decide_eq_true_eq, beq_iff_eq, if_true]
    omega

/-- A tree in which every node has its operands has a text. -/
theorem print?_loosen (e : Expr) : e.loosen.print? = some (e.toText, e.binding) := by
  induction e with
  | operand value => rfl
  | unary op argument ih =>
    cases op with
    | function f =>
      rw [Expr.loosen, print?, ih]
      rfl
    | sign s =>
      rw [Expr.loosen, print?, ih]
      rfl
  | binary op left right ihl ihr =>
    rw [Expr.loosen, print?, ihl, ihr]
    simp only [Option.bind_eq_bind, Option.bind_some, enclosed_eq]
    cases op <;> rfl

end LooseExpr

namespace PostfixExpr

/-- Every postfix expression has a text. -/
theorem display?_eq (nodes : PostfixExpr) : nodes.display? = some nodes.toInfix := by
  rw [display?, LooseExpr.ofPostfix?_eq, toInfix]
  cases hbuild : Expr.build? [] nodes with
  | none => rfl
  | some stack =>
    cases stack with
    | nil =>
      -- Without a tree there are no nodes, and their texts in a row are the empty text.
      obtain rfl : nodes = [] := Expr.build?_eq_some_iff.1 hbuild
      rfl
    | cons e below => exact congrArg (Option.map Prod.fst) (LooseExpr.print?_loosen e)

/-- If no node falls short of operands, the text is that of the last tree. -/
theorem toInfix_of_build? {nodes : PostfixExpr} {stack : List Expr}
    (h : Expr.build? [] nodes = some stack) :
    nodes.toInfix = (stack.reverse.getLast?.map Expr.toText).getD "" := by
  rw [toInfix, h, List.getLast?_reverse]
  cases stack <;> rfl

/-- Every postfix expression has a text.  If some node falls short of operands, this is the row of
the nodes.  Otherwise the nodes are a row of trees in one way only, and the text is that of the last
of them alone; without a tree it is empty.  If the count of values accepts the nodes, they are one
tree, and the tree that is read and the postorder of a tree lead to each other. -/
theorem toInfix_prints_last (nodes : PostfixExpr) :
    nodes.display? = some nodes.toInfix ∧
    (nodes.FallsShort → nodes.toInfix = nodes.toText) ∧
    (¬nodes.FallsShort → ∃ trees : List Expr,
      (∀ others : List Expr, nodes = others.flatMap Expr.postorder ↔ others = trees) ∧
      nodes.toInfix = (trees.getLast?.map Expr.toText).getD "") ∧
    (Conversion.checkArity nodes = .ok () → ∃ e : Expr,
      (∀ others : List Expr, nodes = others.flatMap Expr.postorder ↔ others = [e]) ∧
      LooseExpr.ofPostfix? nodes = some e.loosen ∧ e.postorder = nodes) ∧
    (∀ e : Expr, Conversion.checkArity e.postorder = .ok () ∧
      ∀ e' : Expr, LooseExpr.ofPostfix? e.postorder = some e'.loosen ↔ e' = e) := by
  have hread : ∀ e : Expr, LooseExpr.ofPostfix? e.postorder = some e.loosen := fun e => by
    rw [LooseExpr.ofPostfix?_eq, Expr.build?_postorder]
    rfl
  refine ⟨display?_eq nodes, fun hshort => ?_, fun henough => ?_, fun haccepted => ?_,
    fun e => ⟨Conversion.checkArity_postorder e, fun e' => ?_⟩⟩
  · rw [toInfix, Expr.build?_eq_none_iff.2 hshort]
  · obtain ⟨stack, hbuild⟩ := Expr.exists_build? henough
    exact ⟨stack.reverse, Expr.eq_flatMap_postorder_iff hbuild, toInfix_of_build? hbuild⟩
  · obtain ⟨e, rfl⟩ := Conversion.checkArity_eq_ok_iff.1 haccepted
    exact ⟨e, Expr.eq_flatMap_postorder_iff (Expr.build?_postorder e []), hread e, rfl⟩
  · rw [hread, Option.some.injEq, Expr.loosen_injective.eq_iff, eq_comm]

end PostfixExpr

end PostfixCalc
