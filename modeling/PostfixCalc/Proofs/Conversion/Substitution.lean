import PostfixCalc.Calculator
import PostfixCalc.Proofs.Arity
import PostfixCalc.Proofs.Conversion.Conservation
import PostfixCalc.Proofs.Evaluation.Depth

/-!
# Values in the places of names

What a name stands for is put out as an operand and never looked at again.  So two conversions of
the same tokens with bindings for the same names go the same way: the same entries wait on the
stack, and the same places are filled in the output, each conversion filling the places of names
with its own values.

Main results:

- `Conversion.State.step_onEmpty`: what was put out has no influence on what a token does.
- `Conversion.State.Lockstep.step`, `Conversion.run_lockstep`: two conversions stay in lockstep.
- `Calculator.convert_substitutes`: conversions of a text differ at most in the values of its names.
-/

namespace PostfixCalc

/-- Bindings that know the same names, whatever values they give them. -/
def Bindings.SameNames (bindings bindings' : Bindings) : Prop :=
  ∀ word, (bindings.get? word).isSome = (bindings'.get? word).isSome

/-- Whatever values a name is given, the same names are known. -/
theorem Bindings.sameNames_set (bindings : Bindings) (name : String) (x y : Binary64) :
    (bindings.set name x).SameNames (bindings.set name y) := by
  intro word
  by_cases hword : word = name
  · rw [hword, get?_set_self, get?_set_self]
    rfl
  · rw [get?_set_of_ne hword, get?_set_of_ne hword]

/-! ## Grouping -/

/-- A node without the value that it may have. -/
def Node.withoutValue : Node → Node
  | operand _ => operand .zero
  | unary op => unary op
  | binary op => binary op

@[simp] theorem Node.arity_withoutValue (node : Node) : node.withoutValue.arity = node.arity := by
  cases node <;> rfl

namespace Expr

/-- A tree without its values, which shows how it is grouped and where its operators stand. -/
def withoutValues : Expr → Expr
  | operand _ => operand .zero
  | unary op argument => unary op argument.withoutValues
  | binary op left right => binary op left.withoutValues right.withoutValues

theorem postorder_withoutValues (e : Expr) :
    e.withoutValues.postorder = e.postorder.map Node.withoutValue := by
  induction e with
  | operand value => rfl
  | unary op argument ih =>
    rw [withoutValues, postorder, postorder, ih, List.map_append]
    rfl
  | binary op left right ihl ihr =>
    rw [withoutValues, postorder, postorder, ihl, ihr, List.map_append, List.map_append]
    rfl

/-- Nodes that differ in values only are grouped alike. -/
theorem withoutValues_eq_of_postorder {e e' : Expr}
    (h : e.postorder.map Node.withoutValue = e'.postorder.map Node.withoutValue) :
    e.withoutValues = e'.withoutValues := by
  rw [← postorder_withoutValues, ← postorder_withoutValues] at h
  exact postorder_injective h

end Expr

/-! ## Places -/

/-- A place in a postfix expression: a node that is there in any case, or the value of a name. -/
inductive Slot where
  | fixed (node : Node)
  | named (word : String)
  deriving DecidableEq

namespace Slot

/-- The node at a place. -/
def fill? (bindings : Bindings) : Slot → Option Node
  | fixed node => some node
  | named word => (bindings.get? word).map .operand

/-- A place of an operand. -/
def isOperand : Slot → Bool
  | fixed node => !node.isOperation
  | named _ => true

/-- Whether a place can be filled, and with which kind of node, is the same for the same names. -/
theorem map_withoutValue_fill? {bindings bindings' : Bindings}
    (h : bindings.SameNames bindings') (slot : Slot) :
    (slot.fill? bindings).map Node.withoutValue = (slot.fill? bindings').map Node.withoutValue := by
  cases slot with
  | fixed node => rfl
  | named word =>
    have hword := h word
    cases hvalue : bindings.get? word <;> cases hvalue' : bindings'.get? word <;>
      simp_all [fill?, Node.withoutValue]

end Slot

/-- The place of a token that is an operand. -/
def Token.slot? : Token → Option Slot
  | number value => some (.fixed (.operand value))
  | name word => some (.named word)
  | function _ | sign _ | operator _ | openParen | closeParen | comma | unknown _ => none

namespace Conversion

/-- Two node lists fill the same places with the values of different bindings.  The places of
operands are those of the tokens, in the same order. -/
structure Fills (bindings bindings' : Bindings) (tokens : List Token) (slots : List Slot)
    (nodes nodes' : List Node) : Prop where
  left : nodes.map some = slots.map (Slot.fill? bindings)
  right : nodes'.map some = slots.map (Slot.fill? bindings')
  operands : slots.filter Slot.isOperand = tokens.filterMap Token.slot?

/-- Two outcomes of a conversion that differ at most in the values of names: the same error, or
nodes in the same places and grouped in the same way. -/
inductive Alike (bindings bindings' : Bindings) (tokens : List Token) :
    Except SyntaxError PostfixExpr → Except SyntaxError PostfixExpr → Prop
  | error (e : SyntaxError) : Alike bindings bindings' tokens (.error e) (.error e)
  | ok {slots : List Slot} {e e' : Expr}
      (hfills : Fills bindings bindings' tokens slots e.postorder e'.postorder)
      (hgrouped : e.withoutValues = e'.withoutValues) :
      Alike bindings bindings' tokens (.ok e.postorder) (.ok e'.postorder)

variable {bindings bindings' : Bindings} {tokens tokens' : List Token} {slots slots' : List Slot}
  {nodes nodes' later later' : List Node}

namespace Fills

theorem nil : Fills bindings bindings' [] [] [] [] := ⟨rfl, rfl, rfl⟩

theorem append (h : Fills bindings bindings' tokens slots nodes nodes')
    (hlater : Fills bindings bindings' tokens' slots' later later') :
    Fills bindings bindings' (tokens ++ tokens') (slots ++ slots') (nodes ++ later)
      (nodes' ++ later') where
  left := by rw [List.map_append, List.map_append, h.left, hlater.left]
  right := by rw [List.map_append, List.map_append, h.right, hlater.right]
  operands := by rw [List.filter_append, List.filterMap_append, h.operands, hlater.operands]

/-- Operations fill the same places for all bindings, whichever tokens without operands they are
put out for. -/
theorem of_isOperation (hnodes : ∀ node ∈ nodes, node.isOperation = true)
    (htokens : tokens.filterMap Token.slot? = []) :
    Fills bindings bindings' tokens (nodes.map .fixed) nodes nodes where
  left := by rw [List.map_map]; rfl
  right := by rw [List.map_map]; rfl
  operands := by
    rw [htokens, List.filter_eq_nil_iff]
    intro slot hslot
    obtain ⟨node, hnode, rfl⟩ := List.mem_map.1 hslot
    simp [Slot.isOperand, hnodes node hnode]

/-- The nodes in the same place differ in values only. -/
theorem map_withoutValue (hnames : bindings.SameNames bindings')
    (h : Fills bindings bindings' tokens slots nodes nodes') :
    nodes.map Node.withoutValue = nodes'.map Node.withoutValue := by
  have hfilled : (nodes.map some).map (Option.map Node.withoutValue) =
      (nodes'.map some).map (Option.map Node.withoutValue) := by
    rw [h.left, h.right, List.map_map, List.map_map]
    exact List.map_congr_left fun slot _ => slot.map_withoutValue_fill? hnames
  rw [List.map_map, List.map_map] at hfilled
  apply List.map_injective_iff.2 (fun _ _ => Option.some.inj)
  rwa [List.map_map, List.map_map]

end Fills

/-! ## One token -/

namespace State

/-- What was put out before has no influence on what a token does. -/
theorem step_onEmpty (bindings : Bindings) (s : State) (token : Token) :
    s.step bindings token =
      ((State.mk [] s.pending).step bindings token).map fun t =>
        ⟨s.output ++ t.output, t.pending⟩ := by
  have hoperator : ∀ operator, s.pushOperator operator =
      ((State.mk [] s.pending).pushOperator operator).map fun t =>
        ⟨s.output ++ t.output, t.pending⟩ := by
    intro operator
    unfold pushOperator
    cases operator.yieldTo s.pending <;> rfl
  cases token with
  | number value => rfl
  | name word =>
    simp only [step]
    cases bindings.get? word <;> rfl
  | function word =>
    simp only [step]
    cases NamedFunction.ofName? word with
    | none => rfl
    | some f => simp [push, Except.map]
  | sign symbol =>
    simp only [step]
    cases Sign.ofSymbol? symbol with
    | none => rfl
    | some op => exact hoperator (.sign op)
  | operator symbol =>
    simp only [step]
    cases BinaryOp.ofSymbol? symbol with
    | none => rfl
    | some op => exact hoperator (.binary op)
  | openParen => simp [step, push, Except.map]
  | closeParen =>
    simp only [step, close]
    cases Pending.unwind s.pending with
    | error e => rfl
    | ok found =>
      obtain ⟨popped, below⟩ := found
      simp only [bind, Except.bind]
      split
      · cases Pending.toNode _ <;> simp [Except.map]
      · simp [Except.map]
  | comma =>
    simp only [step, separate]
    cases Pending.unwind s.pending with
    | error e => rfl
    | ok found =>
      obtain ⟨popped, below⟩ := found
      simp only [bind, Except.bind]
      split <;> rfl
  | unknown text => rfl

/-- The same entries wait in two conversions with different bindings, and the same places were
filled in the output. -/
structure Lockstep (bindings bindings' : Bindings) (taken : List Token) (s s' : State) : Prop where
  pending : s.pending = s'.pending
  output : ∃ slots, Fills bindings bindings' taken slots s.output s'.output

/-- A token that is no name fills the same places with any bindings. -/
theorem fills_of_step {pending : List Pending} {token : Token} {t : State}
    (hname : ∀ word, token ≠ .name word)
    (h : (State.mk [] pending).step bindings token = .ok t) :
    Fills bindings bindings' [token] (t.output.map .fixed) t.output t.output := by
  cases takes_of_step h with
  | value hvalue =>
    cases token with
    | number =>
      cases hvalue
      exact ⟨rfl, rfl, rfl⟩
    | name word => exact absurd rfl (hname word)
    | function | sign | operator | openParen | closeParen | comma | unknown =>
      cases hvalue
  | entry hentry _ hpopped =>
    refine Fills.of_isOperation hpopped.isOperation ?_
    cases token with
    | function | sign | operator | openParen => rfl
    | number | name | closeParen | comma | unknown => cases hentry
  | close _ hpopped => exact Fills.of_isOperation hpopped.isOperation rfl
  | separate _ hpopped => exact Fills.of_isOperation hpopped.isOperation rfl

/-- A token is in error in two conversions that are in lockstep, or they stay in lockstep. -/
theorem Lockstep.step (hnames : bindings.SameNames bindings') {taken : List Token} {s s' : State}
    (h : Lockstep bindings bindings' taken s s') (token : Token) :
    (∃ e, s.step bindings token = .error e ∧ s'.step bindings' token = .error e) ∨
    ∃ t t', s.step bindings token = .ok t ∧ s'.step bindings' token = .ok t' ∧
      Lockstep bindings bindings' (taken ++ [token]) t t' := by
  obtain ⟨slots, hfills⟩ := h.output
  by_cases hname : ∃ word, token = .name word
  · obtain ⟨word, rfl⟩ := hname
    have hword := hnames word
    cases hvalue : bindings.get? word with
    | none =>
      have hnone : bindings'.get? word = none := by simpa [hvalue] using hword.symm
      exact Or.inl ⟨.unknownName word, by simp [State.step, hvalue], by simp [State.step, hnone]⟩
    | some value =>
      obtain ⟨value', hvalue'⟩ : ∃ value', bindings'.get? word = some value' := by
        rw [hvalue] at hword
        exact Option.isSome_iff_exists.1 hword.symm
      have hfill : Fills bindings bindings' [.name word] [.named word] [.operand value]
          [.operand value'] :=
        ⟨by simp [Slot.fill?, hvalue], by simp [Slot.fill?, hvalue'], rfl⟩
      exact Or.inr ⟨s.emit (.operand value), s'.emit (.operand value'),
        by simp [State.step, hvalue], by simp [State.step, hvalue'],
        h.pending, _, hfills.append hfill⟩
  · -- Both conversions do the same with the token, each behind what it has put out.
    have hsame : (State.mk [] s'.pending).step bindings' token =
        (State.mk [] s.pending).step bindings token := by
      rw [h.pending]
      exact step_congr (fun word hword => absurd ⟨word, hword⟩ hname) _
    rw [step_onEmpty bindings s, step_onEmpty bindings' s', hsame]
    cases hstep : (State.mk [] s.pending).step bindings token with
    | error e => exact Or.inl ⟨e, rfl, rfl⟩
    | ok t =>
      have hfill := @fills_of_step _ bindings' _ _ _ (fun word hword => hname ⟨word, hword⟩) hstep
      exact Or.inr ⟨_, _, rfl, rfl, rfl, _, hfills.append hfill⟩

end State

/-! ## All tokens -/

/-- Two conversions that are in lockstep come to the same error, with the same tokens left over, or
are in lockstep in the end. -/
theorem run_lockstep (hnames : bindings.SameNames bindings') {taken : List Token} {s s' : State}
    (h : State.Lockstep bindings bindings' taken s s') (tokens : List Token) :
    (∃ e rest, run bindings s tokens = (.error e, rest) ∧
      run bindings' s' tokens = (.error e, rest)) ∨
    ∃ t t', run bindings s tokens = (.ok t, []) ∧ run bindings' s' tokens = (.ok t', []) ∧
      State.Lockstep bindings bindings' (taken ++ tokens) t t' := by
  induction tokens generalizing taken s s' with
  | nil => exact Or.inr ⟨s, s', rfl, rfl, by rwa [List.append_nil]⟩
  | cons token tokens ih =>
    rcases h.step hnames token with ⟨e, hstep, hstep'⟩ | ⟨t, t', hstep, hstep', hnext⟩
    · exact Or.inl ⟨e, tokens, by rw [run, hstep], by rw [run, hstep']⟩
    · have hrest := ih hnext
      rw [List.append_assoc, List.singleton_append] at hrest
      simp only [run, hstep, hstep']
      exact hrest

/-- Nodes that differ in values only have the same number of operands. -/
theorem checkArity_congr (h : nodes.map Node.withoutValue = nodes'.map Node.withoutValue) :
    checkArity nodes = checkArity nodes' := by
  have harity : nodes.map Node.arity = nodes'.map Node.arity := by
    have hmap := congrArg (List.map Node.arity) h
    rw [List.map_map, List.map_map] at hmap
    simpa [Function.comp_def] using hmap
  rw [checkArity, checkArity, Evaluation.depthAfter?_congr harity]

/-- What is put out in the end fills the same places. -/
theorem State.Lockstep.finish (hnames : bindings.SameNames bindings') {s s' : State}
    (h : Lockstep bindings bindings' tokens s s') :
    Alike bindings bindings' tokens s.finish s'.finish := by
  obtain ⟨slots, hfills⟩ := h.output
  unfold State.finish
  rw [← h.pending]
  cases hdrain : Pending.drain s.pending with
  | error e => exact .error e
  | ok waiting =>
    have hwaiting : Fills bindings bindings' [] (waiting.map .fixed) waiting waiting :=
      Fills.of_isOperation (Pending.drain_becomes hdrain).isOperation rfl
    have hall := hfills.append hwaiting
    rw [List.append_nil] at hall
    have hvalues := hall.map_withoutValue hnames
    have hchecked := checkArity_congr hvalues
    simp only [bind, Except.bind, ← hchecked]
    cases harity : checkArity (s.output ++ waiting) with
    | error e => exact .error e
    | ok _ =>
      obtain ⟨e, he⟩ := checkArity_eq_ok_iff.1 harity
      obtain ⟨e', he'⟩ := checkArity_eq_ok_iff.1 (hchecked ▸ harity)
      rw [he, he'] at hall hvalues ⊢
      exact .ok hall (Expr.withoutValues_eq_of_postorder hvalues)

/-- Conversions of the same tokens differ at most in the values of names. -/
theorem ofTokens_alike (hnames : bindings.SameNames bindings') (tokens : List Token) :
    Alike bindings bindings' tokens (ofTokens bindings tokens).1 (ofTokens bindings' tokens).1 := by
  have hinitial : State.Lockstep bindings bindings' [] .initial .initial := ⟨rfl, [], .nil⟩
  unfold ofTokens
  rcases run_lockstep hnames hinitial tokens with ⟨e, rest, hrun, hrun'⟩ | ⟨t, t', hrun, hrun', h⟩
  · rw [hrun, hrun']
    exact .error e
  · rw [hrun, hrun']
    exact h.finish hnames

end Conversion

open Conversion in
/-- Conversion commutes with substitution.  With bindings for the same names a text is in error in
the same way, or has the same nodes grouped in the same way, except that each name has its own
value.  So the value of `x` changes nothing else. -/
theorem Calculator.convert_substitutes (text : String) :
    (∀ bindings bindings' : Bindings, bindings.SameNames bindings' →
      Alike bindings bindings' (Token.tokenize text) (ofText bindings text)
        (ofText bindings' text)) ∧
    ∀ (c : Calculator) (x y : Binary64),
      Alike (c.setX x).bindings (c.setX y).bindings (Token.tokenize text)
        ((c.setX x).convert text) ((c.setX y).convert text) := by
  constructor
  · intro bindings bindings' hnames
    exact ofTokens_alike hnames (Token.tokenize text)
  · intro c x y
    exact ofTokens_alike (c.bindings.sameNames_set "x" x y) (Token.tokenize text)

open Conversion in
/-- The text `2 ^ -x`, with a number that is none and with an infinite one. -/
theorem Calculator.convert_substitutes_power :
    let bindings := Bindings.constants.set "x" .nan
    let bindings' := Bindings.constants.set "x" .infinity
    let nodes (x : Binary64) : PostfixExpr :=
      [.operand (.ofBits 0x4000000000000000), .operand x, .unary (.sign .minus), .binary .power]
    bindings.SameNames bindings' ∧ ofText bindings "2 ^ -x" = .ok (nodes .nan) ∧
      Alike bindings bindings' (Token.tokenize "2 ^ -x") (.ok (nodes .nan))
        (.ok (nodes .infinity)) := by
  intro bindings bindings' nodes
  have hnames : bindings.SameNames bindings' := Bindings.sameNames_set _ _ _ _
  have hnan : ofText bindings "2 ^ -x" = .ok (nodes .nan) := by decide +kernel
  have hinfinity : ofText bindings' "2 ^ -x" = .ok (nodes .infinity) := by decide +kernel
  have halike := (convert_substitutes "2 ^ -x").1 bindings bindings' hnames
  rw [hnan, hinfinity] at halike
  exact ⟨hnames, hnan, halike⟩

end PostfixCalc
