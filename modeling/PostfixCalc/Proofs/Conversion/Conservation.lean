import Mathlib.Data.List.Perm.Basic
import PostfixCalc.Proofs.Conversion.Steps

/-!
# Nothing is lost, nothing is doubled

While tokens are taken, every operand has been put out, and every operation has been put out or is
on the stack.  So the nodes in the end are those of the tokens: the operands in the order of the
tokens, the operations in some order.  A comma leaves a call with too many arguments on the stack,
which never becomes a node, so a token list with a comma is not converted at all.

Main results:

- `Conversion.State.Conserves.step`: the operands and operations that one token adds.
- `Conversion.State.CountsCommas.step`: once a comma was taken, a call has too many arguments.
- `Conversion.ofTokens_conserves`: the nodes of a converted token list are those of its tokens.
-/

namespace PostfixCalc

namespace Node

/-- The value of a node that is an operand. -/
def value? : Node → Option Binary64
  | operand value => some value
  | unary _ | binary _ => none

/-- A node that is an operation. -/
def isOperation : Node → Bool
  | operand _ => false
  | unary _ | binary _ => true

/-- Every node is an operand or an operation. -/
theorem length_eq (nodes : List Node) :
    nodes.length = (nodes.filterMap value?).length + (nodes.filter isOperation).length := by
  induction nodes with
  | nil => rfl
  | cons node nodes ih =>
    cases node with
    | operand value =>
      simp [value?, isOperation, ih, Nat.add_right_comm]
    | unary op | binary op =>
      simp [List.filterMap_cons, value?, List.filter_cons, isOperation, ih, Nat.add_assoc]

end Node

namespace Token

/-- A token that is a parenthesis. -/
def isParen : Token → Bool
  | openParen | closeParen => true
  | number _ | name _ | function _ | sign _ | operator _ | comma | unknown _ => false

/-- A token with a node of its own: an operand with a value, or an operation that exists. -/
def HasNode (bindings : Bindings) (token : Token) : Prop :=
  (token.value? bindings).isSome ∨ token.operation?.isSome

/-- A token that goes on the stack is a parenthesis or has a node. -/
theorem isParen_or_hasNode_of_toPending? {token : Token} {entry : Pending}
    (h : token.toPending? = some entry) (bindings : Bindings) :
    token.isParen = true ∨ token.HasNode bindings := by
  cases token with
  | function | sign | operator =>
    obtain ⟨op, hop, -⟩ := Option.map_eq_some_iff.1 h
    right
    right
    rw [operation?, hop]
    rfl
  | openParen => exact Or.inl rfl
  | number | name | closeParen | comma | unknown => cases h

/-- If every token is a parenthesis or has a node, there are as many values and operations as tokens
that are no parentheses. -/
theorem length_eq_of_hasNode {bindings : Bindings} {tokens : List Token}
    (h : ∀ token ∈ tokens, token.isParen = true ∨ token.HasNode bindings) :
    (tokens.filterMap (value? bindings)).length + (tokens.filterMap operation?).length =
      (tokens.filter fun token => !token.isParen).length := by
  induction tokens with
  | nil => rfl
  | cons token tokens ih =>
    obtain ⟨htoken, hrest⟩ := List.forall_mem_cons.1 h
    have hlength := ih hrest
    cases hvalue : token.value? bindings with
    | some value =>
      have hoperation := operation?_of_value? hvalue
      have hparen : token.isParen = false := by
        cases token with
        | number | name => rfl
        | function | sign | operator | openParen | closeParen | comma | unknown =>
          cases hvalue
      simp [hvalue, hoperation, hparen, ← hlength, Nat.add_right_comm]
    | none =>
      cases hoperation : token.operation? with
      | some node =>
        have hparen : token.isParen = false := by
          cases token with
          | function | sign | operator => rfl
          | number | name | openParen | closeParen | comma | unknown =>
            cases hoperation
        simp [hvalue, hoperation, hparen, ← hlength, Nat.add_assoc]
      | none =>
        have hparen : token.isParen = true := by
          simpa [HasNode, hvalue, hoperation] using htoken
        simp [hvalue, hoperation, hparen, hlength]

end Token

/-- Entries become operations only. -/
theorem Pending.Becomes.isOperation {popped : List Pending} {nodes : List Node}
    (h : Becomes popped nodes) : ∀ node ∈ nodes, node.isOperation = true := by
  intro node hnode
  rw [← h.filterMap_operation?, List.mem_filterMap] at hnode
  obtain ⟨entry, -, hentry⟩ := hnode
  cases entry with
  | openParen => cases hentry
  | call word arguments =>
    obtain ⟨f, -, rfl⟩ := Option.map_eq_some_iff.1 hentry
    rfl
  | binary op =>
    cases hentry
    rfl
  | sign s =>
    cases hentry
    rfl

namespace Conversion

variable {bindings : Bindings}

namespace State

/-! ## Operands and operations -/

/-- The operations that were put out or are on the stack. -/
def operations (s : State) : List Node :=
  s.output.filter Node.isOperation ++ s.pending.filterMap Pending.operation?

/-- The operands put out are those of the tokens taken, in the same order, and the operations put
out or on the stack are those that the tokens name. -/
structure Conserves (bindings : Bindings) (taken : List Token) (s : State) : Prop where
  values : s.output.filterMap Node.value? = taken.filterMap (Token.value? bindings)
  operations : s.operations.Perm (taken.filterMap Token.operation?)

variable {taken : List Token} {s t : State}

/-- Putting entries out keeps the operands and operations. -/
theorem Conserves.emit_becomes {popped rest : List Pending} {nodes : List Node}
    (h : Conserves bindings taken s) (hpending : s.pending = popped ++ rest)
    (hpopped : Pending.Becomes popped nodes) :
    Conserves bindings taken ⟨s.output ++ nodes, rest⟩ := by
  have hnone : nodes.filterMap Node.value? = [] := by
    rw [List.filterMap_eq_nil_iff]
    intro node hnode
    have hoperation := hpopped.isOperation node hnode
    cases node with
    | operand value => cases hoperation
    | unary | binary => rfl
  have hall : nodes.filter Node.isOperation = nodes :=
    List.filter_eq_self.2 hpopped.isOperation
  constructor
  · rw [List.filterMap_append, hnone, List.append_nil]
    exact h.values
  · have hsame : State.operations ⟨s.output ++ nodes, rest⟩ = s.operations := by
      simp only [State.operations, hpending, List.filter_append, List.filterMap_append, hall,
        hpopped.filterMap_operation?, List.append_assoc]
    rw [hsame]
    exact h.operations

/-- A token adds its operand to those put out, or its operation to those put out or waiting. -/
theorem Conserves.step (h : Conserves bindings taken s) {token : Token}
    (hstep : s.step bindings token = .ok t) : Conserves bindings (taken ++ [token]) t := by
  cases takes_of_step hstep with
  | @value _ value hvalue =>
    have hnone : token.operation? = none := Token.operation?_of_value? hvalue
    constructor
    · simp [emit, h.values, hvalue, Node.value?]
    · simpa [emit, State.operations, hnone, Node.isOperation] using h.operations
  | @entry _ entry popped rest nodes hentry hpending hpopped =>
    obtain ⟨hvalues, hoperations⟩ := h.emit_becomes hpending hpopped
    have hnone : token.value? bindings = none := Token.value?_of_toPending? hentry bindings
    constructor
    · simpa [hnone] using hvalues
    · have hsplit : State.operations ⟨s.output ++ nodes, entry :: rest⟩ =
          (s.output ++ nodes).filter Node.isOperation ++
            (token.operation?.toList ++ rest.filterMap Pending.operation?) := by
        rw [← Pending.operation?_of_toPending? hentry]
        cases hoperation : entry.operation? with
        | none => simp [State.operations, hoperation]
        | some node => simp [State.operations, hoperation]
      have htaken : (taken ++ [token]).filterMap Token.operation? =
          taken.filterMap Token.operation? ++ token.operation?.toList := by
        cases hoperation : token.operation? with
        | none => simp [hoperation]
        | some node => simp [hoperation]
      rw [hsplit, htaken]
      -- The new operation is moved behind those that were waiting before.
      refine (List.perm_append_comm.append_left _).trans ?_
      rw [← List.append_assoc]
      exact hoperations.append_right _
  | close hpending hpopped =>
    obtain ⟨hvalues, hoperations⟩ := h.emit_becomes hpending hpopped
    constructor
    · simpa [List.filterMap_cons, Token.value?] using hvalues
    · simpa [List.filterMap_cons, Token.operation?] using hoperations
  | separate hpending hpopped =>
    obtain ⟨hvalues, hoperations⟩ := h.emit_becomes hpending hpopped
    constructor
    · simpa [List.filterMap_cons, Token.value?] using hvalues
    · simpa [List.filterMap_cons, Token.operation?, State.operations, Pending.operation?]
        using hoperations

theorem conserves_initial (bindings : Bindings) : Conserves bindings [] initial :=
  ⟨rfl, List.Perm.nil⟩

/-! ## Commas -/

/-- Every call has an argument, and a comma has given some call more than one.  Every other token is
a parenthesis or has a node. -/
structure CountsCommas (bindings : Bindings) (taken : List Token) (s : State) : Prop where
  begun (word : String) (arguments : Nat) (h : .call word arguments ∈ s.pending) : 0 < arguments
  surplus (h : .comma ∈ taken) : ∃ word arguments, .call word arguments ∈ s.pending ∧ 1 < arguments
  others : ∀ token ∈ taken, token = .comma ∨ token.isParen = true ∨ token.HasNode bindings

/-- Taking entries off leaves the calls with too many arguments. -/
theorem CountsCommas.emit_becomes {popped rest : List Pending} {nodes : List Node}
    (h : CountsCommas bindings taken s) (hpending : s.pending = popped ++ rest)
    (hpopped : Pending.Becomes popped nodes) (output : PostfixExpr) :
    CountsCommas bindings taken ⟨output, rest⟩ := by
  constructor
  · intro word arguments hmem
    apply h.begun
    rw [hpending]
    exact List.mem_append_right popped hmem
  · intro hcomma
    obtain ⟨word, arguments, hmem, hsurplus⟩ := h.surplus hcomma
    rw [hpending] at hmem
    cases List.mem_append.1 hmem with
    | inl hmem => exact absurd (hpopped.eq_one_of_mem hmem) (Nat.ne_of_gt hsurplus)
    | inr hmem => exact ⟨word, arguments, hmem, hsurplus⟩
  · exact h.others

/-- A token that is no comma may be taken in addition. -/
theorem CountsCommas.add (h : CountsCommas bindings taken s) {token : Token}
    (htoken : token.isParen = true ∨ token.HasNode bindings) :
    CountsCommas bindings (taken ++ [token]) s := by
  have hne : token ≠ .comma := by
    rintro rfl
    simp [Token.isParen, Token.HasNode, Token.value?, Token.operation?] at htoken
  constructor
  · exact h.begun
  · intro hcomma
    apply h.surplus
    simpa [hne.symm] using hcomma
  · intro other hother
    cases List.mem_append.1 hother with
    | inl hother => exact h.others other hother
    | inr hother =>
      rw [List.mem_singleton.1 hother]
      exact Or.inr htoken

/-- Once a comma was taken, a call has too many arguments. -/
theorem CountsCommas.step (h : CountsCommas bindings taken s) {token : Token}
    (hstep : s.step bindings token = .ok t) : CountsCommas bindings (taken ++ [token]) t := by
  cases takes_of_step hstep with
  | @value _ value hvalue =>
    have hnode : token.HasNode bindings := by
      left
      rw [hvalue]
      rfl
    exact ⟨h.begun, (h.add (.inr hnode)).surplus, (h.add (.inr hnode)).others⟩
  | @entry _ entry popped rest nodes hentry hpending hpopped =>
    have hrest := (h.emit_becomes hpending hpopped (s.output ++ nodes)).add
      (Token.isParen_or_hasNode_of_toPending? hentry bindings)
    constructor
    · intro word arguments hmem
      cases List.mem_cons.1 hmem with
      | inl heq =>
        subst heq
        rw [Token.eq_one_of_toPending? hentry]
        exact Nat.one_pos
      | inr hmem => exact hrest.begun word arguments hmem
    · intro hcomma
      obtain ⟨word, arguments, hmem, hsurplus⟩ := hrest.surplus hcomma
      exact ⟨word, arguments, List.mem_cons_of_mem entry hmem, hsurplus⟩
    · exact hrest.others
  | close hpending hpopped => exact (h.emit_becomes hpending hpopped _).add (.inl rfl)
  | @separate popped rest nodes word arguments hpending hpopped =>
    have hrest := h.emit_becomes hpending hpopped (s.output ++ nodes)
    have hbegun : 0 < arguments :=
      hrest.begun word arguments (List.mem_cons_of_mem _ List.mem_cons_self)
    constructor
    · intro word' arguments' hmem
      simp only [List.mem_cons, reduceCtorEq, false_or, Pending.call.injEq] at hmem
      cases hmem with
      | inl heq =>
        rw [heq.2]
        exact Nat.succ_pos arguments
      | inr hmem => exact hrest.begun word' arguments' (by simp [hmem])
    · intro _
      exact ⟨word, arguments + 1, by simp, Nat.succ_lt_succ hbegun⟩
    · intro other hother
      cases List.mem_append.1 hother with
      | inl hother => exact h.others other hother
      | inr hother => exact Or.inl (List.mem_singleton.1 hother)

theorem countsCommas_initial (bindings : Bindings) : CountsCommas bindings [] initial :=
  ⟨nofun, nofun, nofun⟩

end State

/-! ## Converted token lists -/

/-- Of a converted token list, every token is a parenthesis or has a node. -/
theorem hasNode_of_ofTokens {tokens : List Token} {nodes : PostfixExpr}
    (h : (ofTokens bindings tokens).1 = .ok nodes) :
    ∀ token ∈ tokens, token.isParen = true ∨ token.HasNode bindings := by
  obtain ⟨s, waiting, hrun, hwaiting, -, -⟩ := exists_run_of_ofTokens h
  have hcommas : State.CountsCommas bindings tokens s :=
    run_keeps (fun h hstep => h.step hstep) (State.countsCommas_initial bindings) hrun
  intro token htoken
  cases hcommas.others token htoken with
  | inl hcomma =>
    -- The call with too many arguments would have become a node in the end.
    obtain ⟨word, arguments, hmem, hsurplus⟩ := hcommas.surplus (hcomma ▸ htoken)
    exact absurd (hwaiting.eq_one_of_mem hmem) (Nat.ne_of_gt hsurplus)
  | inr hother => exact hother

/-- The nodes of a converted token list are those of its tokens.  Its operands are the values of the
numbers and names in their order, its operations those that signs, operators and functions name in
some order, and no token but the parentheses is without a node. -/
theorem ofTokens_conserves {tokens : List Token} {nodes : PostfixExpr}
    (h : (ofTokens bindings tokens).1 = .ok nodes) :
    nodes.filterMap Node.value? = tokens.filterMap (Token.value? bindings) ∧
    (nodes.filter Node.isOperation).Perm (tokens.filterMap Token.operation?) ∧
    (∀ token ∈ tokens, token.isParen = true ∨ token.HasNode bindings) ∧
    nodes.length = (tokens.filter fun token => !token.isParen).length := by
  have hnodes := hasNode_of_ofTokens h
  obtain ⟨s, waiting, hrun, hwaiting, rfl, -⟩ := exists_run_of_ofTokens h
  have hconserves : State.Conserves bindings tokens s :=
    run_keeps (fun h hstep => h.step hstep) (State.conserves_initial bindings) hrun
  have hpending : s.pending = s.pending ++ [] := (List.append_nil s.pending).symm
  obtain ⟨hvalues, hoperations⟩ := hconserves.emit_becomes hpending hwaiting
  rw [State.operations, List.filterMap_nil, List.append_nil] at hoperations
  refine ⟨hvalues, hoperations, hnodes, ?_⟩
  rw [Node.length_eq, hvalues, hoperations.length_eq, Token.length_eq_of_hasNode hnodes]

/-- The tokens `sin pi e -`, a function without parentheses and two operands side by side. -/
theorem ofTokens_conserves_bare :
    let tokens : List Token := [.function "sin", .name "pi", .name "e", .operator "-"]
    let nodes : PostfixExpr :=
      [.operand (.ofBits 0x400921FB54442D18), .operand (.ofBits 0x4005BF0A8B145769),
        .unary (.function .sin), .binary .minus]
    (ofTokens .constants tokens).1 = .ok nodes ∧
      nodes.filterMap Node.value? = tokens.filterMap (Token.value? .constants) ∧
      (nodes.filter Node.isOperation).Perm (tokens.filterMap Token.operation?) ∧
      (∀ token ∈ tokens, token.isParen = true ∨ token.HasNode .constants) ∧
      nodes.length = (tokens.filter fun token => !token.isParen).length := by
  intro tokens nodes
  have h : (ofTokens .constants tokens).1 = .ok nodes := by decide
  exact ⟨h, ofTokens_conserves h⟩

end Conversion

end PostfixCalc
