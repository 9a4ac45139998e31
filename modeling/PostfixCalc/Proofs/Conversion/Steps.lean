import PostfixCalc.Conversion.Basic

/-!
# What a token does

A token that is no error does one of four things.  An operand is put out.  A function, an operator
or an opening parenthesis goes on the stack, after some entries were put out.  A closing parenthesis
puts out what is above its opening parenthesis, and the call in front of it.  A comma puts out what
is above the opening parenthesis of a call and counts one more argument of it.

Main results:

- `Pending.yieldTo_becomes`, `Pending.unwind_becomes`, `Pending.drain_becomes`: the entries that are
  taken off become the nodes that are put out.
- `Conversion.State.takes_of_step`: the four things that a token does.
- `Conversion.run_congr`: bindings matter only for the names among the tokens.
- `Conversion.run_keeps`: what every token keeps, a run keeps.
-/

namespace PostfixCalc

namespace Token

/-- The value of a token that is an operand, if it has one. -/
def value? (bindings : Bindings) : Token → Option Binary64
  | number value => some value
  | name word => bindings.get? word
  | function _ | sign _ | operator _ | openParen | closeParen | comma | unknown _ => none

/-- The node of the operator or function that a token names, if it exists. -/
def operation? : Token → Option Node
  | function word => (NamedFunction.ofName? word).map fun f => .unary (.function f)
  | sign symbol => (Sign.ofSymbol? symbol).map fun s => .unary (.sign s)
  | operator symbol => (BinaryOp.ofSymbol? symbol).map .binary
  | number _ | name _ | openParen | closeParen | comma | unknown _ => none

/-- The entry that a token puts on the stack. -/
def toPending? : Token → Option Pending
  | function word => (NamedFunction.ofName? word).map fun _ => .call word 1
  | sign symbol => (Sign.ofSymbol? symbol).map .sign
  | operator symbol => (BinaryOp.ofSymbol? symbol).map .binary
  | openParen => some .openParen
  | number _ | name _ | closeParen | comma | unknown _ => none

/-- A sign goes on the stack. -/
@[simp] theorem toPending?_sign (s : Sign) : (sign s.symbol).toPending? = some (.sign s) := by
  rw [toPending?, Sign.ofSymbol?_symbol]
  rfl

/-- An operator goes on the stack. -/
@[simp] theorem toPending?_operator (op : BinaryOp) :
    (operator op.symbol).toPending? = some (.binary op) := by
  rw [toPending?, BinaryOp.ofSymbol?_symbol]
  rfl

/-- An operand is no operation. -/
theorem operation?_of_value? {bindings : Bindings} {token : Token} {value : Binary64}
    (h : token.value? bindings = some value) : token.operation? = none := by
  cases token with
  | number | name => rfl
  | function | sign | operator | openParen | closeParen | comma | unknown =>
    cases h

/-- What is put on the stack is no operand. -/
theorem value?_of_toPending? {token : Token} {entry : Pending} (h : token.toPending? = some entry)
    (bindings : Bindings) : token.value? bindings = none := by
  cases token with
  | number | name => cases h
  | function | sign | operator | openParen | closeParen | comma | unknown => rfl

/-- A call begins with one argument. -/
theorem eq_one_of_toPending? {token : Token} {word : String} {arguments : Nat}
    (h : token.toPending? = some (.call word arguments)) : arguments = 1 := by
  cases token with
  | function =>
    obtain ⟨f, -, heq⟩ := Option.map_eq_some_iff.1 h
    exact (Pending.call.inj heq).2.symm
  | sign | operator =>
    obtain ⟨op, -, heq⟩ := Option.map_eq_some_iff.1 h
    cases heq
  | openParen =>
    rw [toPending?, Option.some.injEq] at h
    cases h
  | number | name | closeParen | comma | unknown => cases h

end Token

namespace Pending

/-- The node of the operator or function that an entry stands for. -/
def operation? : Pending → Option Node
  | openParen => none
  | call word _ => (NamedFunction.ofName? word).map fun f => .unary (.function f)
  | binary op => some (.binary op)
  | sign s => some (.unary (.sign s))

/-- An entry stands for the operation that its token names. -/
theorem operation?_of_toPending? {token : Token} {entry : Pending}
    (h : token.toPending? = some entry) : entry.operation? = token.operation? := by
  cases token with
  | function | sign | operator =>
    obtain ⟨op, hop, rfl⟩ := Option.map_eq_some_iff.1 h
    simp [Token.operation?, hop, operation?]
  | openParen =>
    rw [Token.toPending?, Option.some.injEq] at h
    rw [← h]
    rfl
  | number | name | closeParen | comma | unknown => cases h

/-- An entry becomes the node of its operation, and a call does so only with one argument. -/
theorem operation?_of_toNode {entry : Pending} {node : Node} (h : entry.toNode = .ok node) :
    entry.operation? = some node ∧
      ∀ word arguments, entry = call word arguments → arguments = 1 := by
  unfold toNode at h
  split at h
  · cases h
  · rename_i word
    split at h
    · rename_i f hf
      cases h
      constructor
      · rw [operation?, hf, Option.map_some]
      · intro word' arguments heq
        cases heq
        rfl
    · cases h
  · cases h
  · cases h
    exact ⟨rfl, nofun⟩
  · cases h
    exact ⟨rfl, nofun⟩

/-! ## Entries that are taken off -/

/-- Entries become nodes in their order, parentheses being dropped. -/
inductive Becomes : List Pending → List Node → Prop
  | nil : Becomes [] []
  | entry {top : Pending} {node : Node} {popped : List Pending} {nodes : List Node}
      (h : top.toNode = .ok node) (later : Becomes popped nodes) :
      Becomes (top :: popped) (node :: nodes)
  | paren {popped : List Pending} {nodes : List Node} (later : Becomes popped nodes) :
      Becomes (openParen :: popped) nodes

namespace Becomes

variable {popped popped' : List Pending} {nodes nodes' : List Node}

theorem append (h : Becomes popped nodes) (h' : Becomes popped' nodes') :
    Becomes (popped ++ popped') (nodes ++ nodes') := by
  induction h with
  | nil => exact h'
  | entry htop _ ih => exact .entry htop ih
  | paren _ ih => exact .paren ih

/-- The nodes are the operations of the entries. -/
theorem filterMap_operation? (h : Becomes popped nodes) : popped.filterMap operation? = nodes := by
  induction h with
  | nil => rfl
  | entry htop _ ih => rw [List.filterMap_cons, (operation?_of_toNode htop).1, ih]
  | paren _ ih => rw [List.filterMap_cons, operation?, ih]

/-- A call becomes a node only with one argument. -/
theorem eq_one_of_mem (h : Becomes popped nodes) {word : String} {arguments : Nat}
    (hmem : call word arguments ∈ popped) : arguments = 1 := by
  induction h with
  | nil => exact absurd hmem List.not_mem_nil
  | entry htop _ ih =>
    cases List.mem_cons.1 hmem with
    | inl heq => exact (operation?_of_toNode htop).2 word arguments heq.symm
    | inr hmem => exact ih hmem
  | paren _ ih =>
    cases List.mem_cons.1 hmem with
    | inl heq => cases heq
    | inr hmem => exact ih hmem

end Becomes

/-- An operator takes off an entry that does not stay below it, and goes on with the others. -/
theorem exists_of_yieldTo_cons {operator top : Pending} {below rest : List Pending}
    {nodes : List Node} (h : operator.yieldTo (top :: below) = .ok (nodes, rest)) :
    (top.staysBelow operator = true ∧ nodes = [] ∧ rest = top :: below) ∨
    (¬top.staysBelow operator = true ∧ ∃ node nodes', top.toNode = .ok node ∧
      operator.yieldTo below = .ok (nodes', rest) ∧ nodes = node :: nodes') := by
  rw [yieldTo] at h
  split at h
  · rename_i hstays
    rw [Except.ok.injEq, Prod.mk.injEq] at h
    exact Or.inl ⟨hstays, h.1.symm, h.2.symm⟩
  · rename_i hyields
    cases hnode : top.toNode with
    | error e => simp [hnode, bind, Except.bind] at h
    | ok node =>
      cases hbelow : operator.yieldTo below with
      | error e => simp [hnode, hbelow, bind, Except.bind] at h
      | ok found =>
        simp only [hnode, hbelow, bind, Except.bind, Except.ok.injEq, Prod.mk.injEq] at h
        refine Or.inr ⟨hyields, node, found.1, rfl, ?_, h.1.symm⟩
        rw [← h.2]

/-- An operator takes off the first entries of the stack. -/
theorem yieldTo_becomes {operator : Pending} {pending rest : List Pending} {nodes : List Node}
    (h : operator.yieldTo pending = .ok (nodes, rest)) :
    ∃ popped, pending = popped ++ rest ∧ Becomes popped nodes := by
  induction pending generalizing nodes with
  | nil =>
    rw [yieldTo, Except.ok.injEq, Prod.mk.injEq] at h
    obtain ⟨rfl, rfl⟩ := h
    exact ⟨[], rfl, .nil⟩
  | cons top below ih =>
    rcases exists_of_yieldTo_cons h with ⟨-, rfl, rfl⟩ | ⟨-, node, nodes', hnode, hbelow, rfl⟩
    · exact ⟨[], rfl, .nil⟩
    · obtain ⟨popped, hsplit, hpopped⟩ := ih hbelow
      refine ⟨top :: popped, ?_, .entry hnode hpopped⟩
      rw [hsplit, List.cons_append]

/-- Closing a parenthesis takes off what is above it. -/
theorem exists_of_unwind_cons {top : Pending} {below rest : List Pending} {nodes : List Node}
    (h : unwind (top :: below) = .ok (nodes, rest)) :
    (top = openParen ∧ nodes = [] ∧ rest = below) ∨
    (top ≠ openParen ∧ ∃ node nodes', top.toNode = .ok node ∧
      unwind below = .ok (nodes', rest) ∧ nodes = node :: nodes') := by
  by_cases hopen : top = openParen
  · subst hopen
    rw [unwind, Except.ok.injEq, Prod.mk.injEq] at h
    exact Or.inl ⟨rfl, h.1.symm, h.2.symm⟩
  · rw [unwind] at h
    · cases hnode : top.toNode with
      | error e => simp [hnode, bind, Except.bind] at h
      | ok node =>
        cases hbelow : unwind below with
        | error e => simp [hnode, hbelow, bind, Except.bind] at h
        | ok found =>
          simp only [hnode, hbelow, bind, Except.bind, Except.ok.injEq, Prod.mk.injEq] at h
          refine Or.inr ⟨hopen, node, found.1, rfl, ?_, h.1.symm⟩
          rw [← h.2]
    · exact hopen

/-- Closing a parenthesis takes off what is above it, and the parenthesis itself. -/
theorem unwind_becomes {pending rest : List Pending} {nodes : List Node}
    (h : unwind pending = .ok (nodes, rest)) :
    ∃ popped, pending = popped ++ openParen :: rest ∧ Becomes popped nodes := by
  induction pending generalizing nodes with
  | nil => cases h
  | cons top below ih =>
    rcases exists_of_unwind_cons h with ⟨rfl, rfl, rfl⟩ | ⟨-, node, nodes', hnode, hbelow, rfl⟩
    · exact ⟨[], rfl, .nil⟩
    · obtain ⟨popped, hsplit, hpopped⟩ := ih hbelow
      refine ⟨top :: popped, ?_, .entry hnode hpopped⟩
      rw [hsplit, List.cons_append]

/-- In the end everything is taken off. -/
theorem drain_becomes {pending : List Pending} {nodes : List Node}
    (h : drain pending = .ok nodes) : Becomes pending nodes := by
  induction pending generalizing nodes with
  | nil =>
    rw [drain, Except.ok.injEq] at h
    rw [← h]
    exact .nil
  | cons top below ih =>
    rw [drain] at h
    cases hnode : top.toNode with
    | error e => simp [hnode, bind, Except.bind] at h
    | ok node =>
      cases hbelow : drain below with
      | error e => simp [hnode, hbelow, bind, Except.bind] at h
      | ok found =>
        simp only [hnode, hbelow, bind, Except.bind, Except.ok.injEq] at h
        rw [← h]
        exact .entry hnode (ih hbelow)

end Pending

/-! ## Taking a token -/

namespace Conversion

/-- What taking a token without an error makes of a state. -/
inductive State.Takes (bindings : Bindings) (s : State) : Token → State → Prop
  /-- An operand is put out. -/
  | value {token : Token} {value : Binary64} (h : token.value? bindings = some value) :
      Takes bindings s token (s.emit (.operand value))
  /-- An entry goes on the stack, after those that it takes off were put out. -/
  | entry {token : Token} {entry : Pending} {popped rest : List Pending} {nodes : List Node}
      (h : token.toPending? = some entry) (hpending : s.pending = popped ++ rest)
      (hpopped : Pending.Becomes popped nodes) :
      Takes bindings s token ⟨s.output ++ nodes, entry :: rest⟩
  /-- Everything down to a parenthesis and its call is put out. -/
  | close {popped rest : List Pending} {nodes : List Node} (hpending : s.pending = popped ++ rest)
      (hpopped : Pending.Becomes popped nodes) :
      Takes bindings s .closeParen ⟨s.output ++ nodes, rest⟩
  /-- Everything above the parenthesis of a call is put out, and the call has one more argument. -/
  | separate {popped rest : List Pending} {nodes : List Node} {word : String} {arguments : Nat}
      (hpending : s.pending = popped ++ .openParen :: .call word arguments :: rest)
      (hpopped : Pending.Becomes popped nodes) :
      Takes bindings s .comma
        ⟨s.output ++ nodes, .openParen :: .call word (arguments + 1) :: rest⟩

namespace State

variable {bindings : Bindings} {s t : State}

/-- An operator goes on the stack, after those that it takes off were put out. -/
theorem takes_of_pushOperator {token : Token} {operator : Pending}
    (htoken : token.toPending? = some operator) (h : s.pushOperator operator = .ok t) :
    Takes bindings s token t := by
  unfold pushOperator at h
  cases hyield : operator.yieldTo s.pending with
  | error e => simp [hyield, bind, Except.bind] at h
  | ok found =>
    simp only [hyield, bind, Except.bind, Except.ok.injEq] at h
    obtain ⟨popped, hpending, hpopped⟩ := Pending.yieldTo_becomes hyield
    rw [← h]
    exact .entry htoken hpending hpopped

theorem takes_of_close (h : s.close = .ok t) : Takes bindings s .closeParen t := by
  unfold close at h
  cases hunwind : Pending.unwind s.pending with
  | error e => simp [hunwind, bind, Except.bind] at h
  | ok found =>
    obtain ⟨nodes, below⟩ := found
    obtain ⟨popped, hpending, hpopped⟩ := Pending.unwind_becomes hunwind
    simp only [hunwind, bind, Except.bind] at h
    split at h
    · rename_i word arguments rest
      cases hnode : Pending.toNode (.call word arguments) with
      | error e => simp [hnode] at h
      | ok node =>
        simp only [hnode, Except.ok.injEq] at h
        have hcall : s.pending = popped ++ [.openParen, .call word arguments] ++ rest := by
          rw [hpending, List.append_assoc]
          rfl
        rw [← h, List.append_assoc]
        exact .close hcall (hpopped.append (.paren (.entry hnode .nil)))
    · have hgroup : s.pending = popped ++ [.openParen] ++ below := by
        rw [hpending, List.append_assoc]
        rfl
      rw [Except.ok.injEq] at h
      rw [← h, ← List.append_nil nodes]
      exact .close hgroup (hpopped.append (.paren .nil))

theorem takes_of_separate (h : s.separate = .ok t) : Takes bindings s .comma t := by
  unfold separate at h
  cases hunwind : Pending.unwind s.pending with
  | error e => simp [hunwind, bind, Except.bind] at h
  | ok found =>
    obtain ⟨nodes, below⟩ := found
    obtain ⟨popped, hpending, hpopped⟩ := Pending.unwind_becomes hunwind
    simp only [hunwind, bind, Except.bind] at h
    split at h
    · rw [Except.ok.injEq] at h
      rw [← h]
      exact .separate hpending hpopped
    · cases h

/-- A token that takes nothing off the stack goes on top of it. -/
theorem takes_of_push {token : Token} {entry : Pending} (htoken : token.toPending? = some entry) :
    Takes bindings s token (s.push entry) := by
  have hpending : s.pending = [] ++ s.pending := rfl
  have htakes := @Takes.entry bindings s _ _ _ _ _ htoken hpending .nil
  rwa [List.append_nil] at htakes

/-- The four things that a token does. -/
theorem takes_of_step {token : Token} (h : s.step bindings token = .ok t) :
    Takes bindings s token t := by
  cases token with
  | number value =>
    rw [step, Except.ok.injEq] at h
    rw [← h]
    exact .value rfl
  | name word =>
    rw [step] at h
    split at h
    · rename_i value hvalue
      rw [Except.ok.injEq] at h
      rw [← h]
      exact .value hvalue
    · cases h
  | function word =>
    rw [step] at h
    split at h
    · rename_i f hf
      rw [Except.ok.injEq] at h
      rw [← h]
      apply takes_of_push
      rw [Token.toPending?, hf, Option.map_some]
    · cases h
  | sign symbol =>
    rw [step] at h
    split at h
    · rename_i op hop
      refine takes_of_pushOperator ?_ h
      rw [Token.toPending?, hop, Option.map_some]
    · cases h
  | operator symbol =>
    rw [step] at h
    split at h
    · rename_i op hop
      refine takes_of_pushOperator ?_ h
      rw [Token.toPending?, hop, Option.map_some]
    · cases h
  | openParen =>
    rw [step, Except.ok.injEq] at h
    rw [← h]
    exact takes_of_push rfl
  | closeParen => exact takes_of_close h
  | comma => exact takes_of_separate h
  | unknown text => cases h

/-! ## Bindings -/

/-- Bindings that give a token's name the same value do the same with the token. -/
theorem step_congr {bindings' : Bindings} {token : Token}
    (h : ∀ word, token = .name word → bindings.get? word = bindings'.get? word) (s : State) :
    s.step bindings token = s.step bindings' token := by
  cases token with
  | name word => simp only [State.step, h word rfl]
  | number | function | sign | operator | openParen | closeParen | comma | unknown => rfl

end State

/-! ## Taking all tokens -/

variable {bindings : Bindings} {s t : State} {tokens rest : List Token}

/-- Bindings that give the names among the tokens the same values do the same with the tokens. -/
theorem run_congr {bindings' : Bindings}
    (h : ∀ word, .name word ∈ tokens → bindings.get? word = bindings'.get? word) (s : State) :
    run bindings s tokens = run bindings' s tokens := by
  induction tokens generalizing s with
  | nil => rfl
  | cons token tokens ih =>
    have hstep : s.step bindings token = s.step bindings' token :=
      State.step_congr (fun word hword => h word (hword ▸ List.mem_cons_self)) s
    have hrest : ∀ s, run bindings s tokens = run bindings' s tokens :=
      ih fun word hword => h word (List.mem_cons_of_mem token hword)
    simp only [run, hstep, hrest]

/-- Taking no tokens changes nothing. -/
theorem eq_of_run_nil (h : run bindings s [] = (.ok t, rest)) : s = t := by
  rw [run, Prod.mk.injEq, Except.ok.injEq] at h
  exact h.1

/-- Of a run without an error, the first token has none. -/
theorem exists_step_of_run {token : Token}
    (h : run bindings s (token :: tokens) = (.ok t, rest)) :
    ∃ u, s.step bindings token = .ok u ∧ run bindings u tokens = (.ok t, rest) := by
  rw [run] at h
  cases hstep : s.step bindings token with
  | error e => simp [hstep] at h
  | ok u =>
    rw [hstep] at h
    exact ⟨u, rfl, h⟩

/-- A run without an error takes all tokens. -/
theorem rest_of_run (h : run bindings s tokens = (.ok t, rest)) : rest = [] := by
  induction tokens generalizing s with
  | nil =>
    rw [run, Prod.mk.injEq] at h
    exact h.2.symm
  | cons token tokens ih =>
    obtain ⟨u, -, hrest⟩ := exists_step_of_run h
    exact ih hrest

/-- Of a run without an error, the first tokens have none. -/
theorem exists_run_of_append {front back : List Token}
    (h : run bindings s (front ++ back) = (.ok t, rest)) :
    ∃ u, run bindings s front = (.ok u, []) ∧ run bindings u back = (.ok t, rest) := by
  rw [run_append] at h
  rcases hfront : run bindings s front with ⟨outcome, rest'⟩
  rw [hfront] at h
  cases outcome with
  | error e => cases h
  | ok u =>
    obtain rfl := rest_of_run hfront
    exact ⟨u, rfl, h⟩

/-- What every token keeps, a run keeps. -/
theorem run_keeps {property : List Token → State → Prop}
    (hkeeps : ∀ {taken s token t}, property taken s → s.step bindings token = .ok t →
      property (taken ++ [token]) t)
    {taken : List Token} (h : property taken s) (hrun : run bindings s tokens = (.ok t, rest)) :
    property (taken ++ tokens) t := by
  induction tokens generalizing s taken with
  | nil =>
    rw [List.append_nil, ← eq_of_run_nil hrun]
    exact h
  | cons token tokens ih =>
    obtain ⟨u, hstep, hlater⟩ := exists_step_of_run hrun
    have hrest := ih (hkeeps h hstep) hlater
    rwa [List.append_assoc, List.singleton_append] at hrest

/-- The nodes of a converted token list are those that were put out before its end and those that
its entries become in the end, and they are accepted. -/
theorem exists_run_of_ofTokens {nodes : PostfixExpr}
    (h : (ofTokens bindings tokens).1 = .ok nodes) :
    ∃ s waiting, run bindings .initial tokens = (.ok s, []) ∧
      Pending.Becomes s.pending waiting ∧ nodes = s.output ++ waiting ∧
      checkArity nodes = .ok () := by
  unfold ofTokens at h
  rcases hrun : run bindings .initial tokens with ⟨outcome, rest⟩
  cases outcome with
  | error e => simp [hrun, Except.bind] at h
  | ok s =>
    obtain rfl := rest_of_run hrun
    simp only [hrun, Except.bind, State.finish, bind] at h
    cases hdrain : Pending.drain s.pending with
    | error e => simp [hdrain] at h
    | ok waiting =>
      cases harity : checkArity (s.output ++ waiting) with
      | error e => simp [hdrain, harity] at h
      | ok _ =>
        simp only [hdrain, harity, Except.ok.injEq] at h
        rw [← h]
        exact ⟨s, waiting, rfl, Pending.drain_becomes hdrain, rfl, harity⟩

end Conversion

end PostfixCalc
