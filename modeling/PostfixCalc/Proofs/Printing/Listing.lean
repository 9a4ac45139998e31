import PostfixCalc.Node
import PostfixCalc.Proofs.Printing.Numbers

/-!
# Postfix expressions as text

A postfix expression is written as the texts of its nodes with a space between each two.  No node
has a space in its text or none at all, and no two nodes have the same text, as long as operands are
numbers.  So the text can be cut at its spaces and read back.

Main results:

- `Node.ofText?_toText`: a node is read back from its text.
- `PostfixExpr.ofText?_toText`: a list of nodes is read back from its text.
- `PostfixExpr.toText_eq_iff`: different lists of nodes have different texts.
-/

namespace PostfixCalc

/-! ## Nodes -/

namespace Node

/-- The operation that a text stands for. -/
def operationOfText? (text : String) : Option Node :=
  ((BinaryOp.ofSymbol? text).map binary).or
    (((NamedFunction.ofName? text).map fun f => unary (.function f)).or
      (match text.toList with
        | 'u' :: symbol => (Sign.ofSymbol? (String.ofList symbol)).map fun s => unary (.sign s)
        | _ => none))

/-- The node that a text stands for. -/
def ofText? (text : String) : Option Node :=
  match Binary64.read? text with
  | some value => some (operand value)
  | none => operationOfText? text

/-- A node is read back from its text, unless it is an operand that is no number. -/
theorem ofText?_toText {node : Node}
    (h : ∀ value, node = operand value → value.isNaN = false) :
    ofText? node.toText = some node := by
  cases node with
  | operand value =>
    rw [ofText?, toText, Binary64.read?_plainText, Binary64.shown_eq_self (h value rfl)]
  | unary op =>
    cases op with
    | sign s => cases s <;> rfl
    | function f => cases f <;> rfl
  | binary op => cases op <;> rfl

/-- No node is written as nothing. -/
theorem toText_ne_empty {node : Node} (h : ∀ value, node = operand value → value.isNaN = false) :
    node.toText ≠ "" := by
  intro hempty
  have hread := ofText?_toText h
  rw [hempty] at hread
  exact Option.some_ne_none node (hread.symm.trans rfl)

/-- No node has a space in its text. -/
theorem space_not_mem_toText (node : Node) : ' ' ∉ node.toText.toList := by
  cases node with
  | operand value => exact value.not_mem_plainText rfl (by decide)
  | unary op =>
    cases op with
    | sign s => cases s <;> decide
    | function f => cases f <;> decide
  | binary op => cases op <;> decide

end Node

/-! ## Lists of nodes -/

namespace PostfixExpr

/-- The nodes that the pieces of a text between its spaces stand for. -/
def ofText? (text : String) : Option PostfixExpr :=
  if text = "" then some []
  else (text.toList.splitOn ' ').mapM fun piece => Node.ofText? (String.ofList piece)

variable {nodes others : PostfixExpr}

/-- Cut at its spaces, the text of nodes gives the texts of the nodes. -/
theorem splitOn_toText (h : nodes ≠ []) :
    nodes.toText.toList.splitOn ' ' = nodes.map fun node => node.toText.toList := by
  have hspaces : ∀ text ∈ (nodes.map Node.toText).map String.toList, ' ' ∉ text := by
    intro text htext
    rw [List.map_map] at htext
    obtain ⟨node, -, rfl⟩ := List.mem_map.1 htext
    exact node.space_not_mem_toText
  have hne : (nodes.map Node.toText).map String.toList ≠ [] := by simpa using h
  rw [toText, String.toList_intercalate]
  exact (List.splitOn_intercalate ' ' hspaces hne).trans (List.map_map ..)

/-- Only the empty list of nodes is written as nothing. -/
theorem toText_eq_empty_iff (h : ∀ value, .operand value ∈ nodes → value.isNaN = false) :
    nodes.toText = "" ↔ nodes = [] := by
  constructor
  · intro hempty
    cases nodes with
    | nil => rfl
    | cons node nodes =>
      -- The only piece of an empty text is empty, but the first node is not.
      have hpieces := splitOn_toText (List.cons_ne_nil node nodes)
      rw [hempty] at hpieces
      have hnode : node.toText.toList = [] := (List.head_eq_of_cons_eq hpieces).symm
      refine absurd (String.toList_eq_nil_iff.1 hnode) (Node.toText_ne_empty fun value heq => ?_)
      exact h value (heq ▸ List.mem_cons_self)
  · rintro rfl
    rfl

/-- A list of nodes is read back from its text. -/
theorem ofText?_toText (h : ∀ value, .operand value ∈ nodes → value.isNaN = false) :
    ofText? nodes.toText = some nodes := by
  by_cases hne : nodes = []
  · subst hne
    rfl
  · rw [ofText?, if_neg (mt (toText_eq_empty_iff h).1 hne), splitOn_toText hne, List.mapM_map]
    clear hne
    induction nodes with
    | nil => rfl
    | cons node nodes ih =>
      have hnode := Node.ofText?_toText fun value heq => h value (heq ▸ List.mem_cons_self)
      have hnodes := ih fun value hvalue => h value (List.mem_cons_of_mem node hvalue)
      rw [List.mapM_cons, hnodes]
      simp [String.ofList_toList, hnode]

/-- Lists of nodes whose operands are numbers have the same text only if they are the same, and the
text is cut at its spaces into the texts of the nodes. -/
theorem toText_eq_iff (h : ∀ value, .operand value ∈ nodes → value.isNaN = false)
    (hothers : ∀ value, .operand value ∈ others → value.isNaN = false) :
    (nodes.toText = others.toText ↔ nodes = others) ∧
      (nodes ≠ [] →
        nodes.toText.toList.splitOn ' ' = nodes.map fun node => node.toText.toList) := by
  refine ⟨⟨fun htext => ?_, congrArg toText⟩, splitOn_toText⟩
  have hread := ofText?_toText h
  rw [htext, ofText?_toText hothers] at hread
  exact (Option.some.inj hread).symm

/-- The zero of either sign and the two readings of a minus stay apart in a text. -/
theorem toText_eq_iff_signs :
    let nodes : PostfixExpr := [.operand .zero, .operand Binary64.zero.neg, .unary (.sign .minus)]
    let others : PostfixExpr := [.operand Binary64.zero.neg, .operand .zero, .binary .minus]
    (∀ value, .operand value ∈ nodes → value.isNaN = false) ∧
      (∀ value, .operand value ∈ others → value.isNaN = false) ∧
      (nodes.toText = others.toText ↔ nodes = others) ∧
      (nodes ≠ [] →
        nodes.toText.toList.splitOn ' ' = nodes.map fun node => node.toText.toList) := by
  intro nodes others
  have hnodes : ∀ value, .operand value ∈ nodes → value.isNaN = false := by
    intro value hvalue
    simp only [nodes, List.mem_cons, Node.operand.injEq, List.not_mem_nil, or_false,
      reduceCtorEq] at hvalue
    rcases hvalue with rfl | rfl <;> rfl
  have hothers : ∀ value, .operand value ∈ others → value.isNaN = false := by
    intro value hvalue
    simp only [others, List.mem_cons, Node.operand.injEq, List.not_mem_nil, or_false,
      reduceCtorEq] at hvalue
    rcases hvalue with rfl | rfl <;> rfl
  exact ⟨hnodes, hothers, toText_eq_iff hnodes hothers⟩

end PostfixExpr

end PostfixCalc
