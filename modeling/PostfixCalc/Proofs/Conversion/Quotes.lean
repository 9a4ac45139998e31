import PostfixCalc.Conversion.Basic

/-!
# What syntax errors quote

A syntax error may quote a text.  It is the text of one of the tokens, and of a token of the kind
that the error is about: no other text can come into a message.

Main results:

- `State.step_quotes`: a token leaves only functions waiting that tokens name, or is in error and is
  quoted.
- `ofTokens_quotes`: every error quotes one of the tokens, if anything.
-/

namespace PostfixCalc

/-- A text that an error quotes is that of a token. -/
def SyntaxError.Quotes (tokens : List Token) : SyntaxError → Prop
  | badToken text => .unknown text ∈ tokens ∨ .sign text ∈ tokens ∨ .operator text ∈ tokens
  | unknownFunction word => .function word ∈ tokens
  | wrongArity word _ => .function word ∈ tokens
  | unknownName word => .name word ∈ tokens
  | empty | missingOpenParen | missingCloseParen | misplacedComma | missingOperand
  | tooManyOperands => True

/-- A function that waits is that of a token. -/
def Pending.Quotes (tokens : List Token) : Pending → Prop
  | call word _ => .function word ∈ tokens
  | openParen | binary _ | sign _ => True

namespace Conversion

/-- All functions that wait are those of tokens. -/
def State.Quotes (tokens : List Token) (s : State) : Prop :=
  ∀ entry ∈ s.pending, entry.Quotes tokens

/-- A value has a property, or an error quotes a token. -/
def Quoting {α : Type} (tokens : List Token) (property : α → Prop) :
    Except SyntaxError α → Prop
  | .ok value => property value
  | .error e => e.Quotes tokens

variable {tokens : List Token}

/-- One computation after another, if the second one can rely on the first. -/
theorem Quoting.bind {α β : Type} {property : α → Prop} {property' : β → Prop}
    {outcome : Except SyntaxError α} {next : α → Except SyntaxError β}
    (h : Quoting tokens property outcome)
    (hnext : ∀ value, property value → Quoting tokens property' (next value)) :
    Quoting tokens property' (outcome >>= next) := by
  cases outcome with
  | ok value => exact hnext value h
  | error e => exact h

/-! ## Entries that are taken off -/

theorem toNode_quotes {entry : Pending} (h : entry.Quotes tokens) :
    Quoting tokens (fun _ => True) entry.toNode := by
  unfold Pending.toNode
  split
  · trivial
  · split
    · trivial
    · exact h
  · exact h
  · trivial
  · trivial

/-- Taking off what an operator does not stay on leaves functions of tokens. -/
theorem yieldTo_quotes (operator : Pending) {pending : List Pending}
    (h : ∀ entry ∈ pending, entry.Quotes tokens) :
    Quoting tokens (fun found => ∀ entry ∈ found.2, entry.Quotes tokens)
      (operator.yieldTo pending) := by
  induction pending with
  | nil => exact h
  | cons top below ih =>
    rw [Pending.yieldTo]
    split
    · exact h
    · refine (toNode_quotes (h top List.mem_cons_self)).bind fun node _ => ?_
      have hbelow := ih fun entry hentry => h entry (List.mem_cons_of_mem top hentry)
      exact hbelow.bind fun found hfound => hfound

/-- Taking off what is in the innermost parentheses leaves functions of tokens. -/
theorem unwind_quotes {pending : List Pending} (h : ∀ entry ∈ pending, entry.Quotes tokens) :
    Quoting tokens (fun found => ∀ entry ∈ found.2, entry.Quotes tokens)
      (Pending.unwind pending) := by
  induction pending with
  | nil => trivial
  | cons top below ih =>
    have hbelow : ∀ entry ∈ below, entry.Quotes tokens := fun entry hentry =>
      h entry (List.mem_cons_of_mem top hentry)
    have htop := toNode_quotes (h top List.mem_cons_self)
    cases top with
    | openParen => exact hbelow
    | call | binary | sign =>
      refine htop.bind fun node _ => ?_
      exact (ih hbelow).bind fun found hfound => hfound

theorem drain_quotes {pending : List Pending} (h : ∀ entry ∈ pending, entry.Quotes tokens) :
    Quoting tokens (fun _ => True) (Pending.drain pending) := by
  induction pending with
  | nil => trivial
  | cons top below ih =>
    refine (toNode_quotes (h top List.mem_cons_self)).bind fun node _ => ?_
    have hbelow := ih fun entry hentry => h entry (List.mem_cons_of_mem top hentry)
    exact hbelow.bind fun nodes _ => trivial

/-! ## Tokens -/

theorem State.emit_quotes {s : State} (h : s.Quotes tokens) (node : Node) :
    (s.emit node).Quotes tokens := h

theorem State.push_quotes {s : State} (h : s.Quotes tokens) {entry : Pending}
    (hentry : entry.Quotes tokens) : (s.push entry).Quotes tokens :=
  List.forall_mem_cons.2 ⟨hentry, h⟩

theorem State.pushOperator_quotes {s : State} (h : s.Quotes tokens) {operator : Pending}
    (hoperator : operator.Quotes tokens) :
    Quoting tokens (State.Quotes tokens) (s.pushOperator operator) := by
  refine (yieldTo_quotes operator h).bind fun found hfound => ?_
  exact List.forall_mem_cons.2 ⟨hoperator, hfound⟩

theorem State.close_quotes {s : State} (h : s.Quotes tokens) :
    Quoting tokens (State.Quotes tokens) s.close := by
  refine (unwind_quotes h).bind fun found hfound => ?_
  obtain ⟨nodes, below⟩ := found
  rcases below with _ | ⟨top, below⟩
  · exact hfound
  · obtain ⟨htop, hbelow⟩ := List.forall_mem_cons.1 hfound
    cases top with
    | call word arguments => exact (toNode_quotes htop).bind fun node _ => hbelow
    | openParen | binary | sign => exact hfound

theorem State.separate_quotes {s : State} (h : s.Quotes tokens) :
    Quoting tokens (State.Quotes tokens) s.separate := by
  refine (unwind_quotes h).bind fun found hfound => ?_
  obtain ⟨nodes, below⟩ := found
  rcases below with _ | ⟨top, below⟩
  · trivial
  · obtain ⟨htop, hbelow⟩ := List.forall_mem_cons.1 hfound
    cases top with
    | call word arguments =>
      exact List.forall_mem_cons.2 ⟨trivial, List.forall_mem_cons.2 ⟨htop, hbelow⟩⟩
    | openParen | binary | sign => trivial

/-- A token leaves only functions waiting that tokens name, or is in error and is quoted. -/
theorem State.step_quotes (bindings : Bindings) {s : State} (h : s.Quotes tokens) {token : Token}
    (htoken : token ∈ tokens) :
    Quoting tokens (State.Quotes tokens) (s.step bindings token) := by
  cases token with
  | number value => exact State.emit_quotes h _
  | name word =>
    rw [State.step]
    split
    · exact State.emit_quotes h _
    · exact htoken
  | function word =>
    rw [State.step]
    split
    · exact State.push_quotes h htoken
    · exact htoken
  | sign symbol =>
    rw [State.step]
    split
    · exact State.pushOperator_quotes h trivial
    · exact Or.inr (Or.inl htoken)
  | operator symbol =>
    rw [State.step]
    split
    · exact State.pushOperator_quotes h trivial
    · exact Or.inr (Or.inr htoken)
  | openParen => exact State.push_quotes h trivial
  | closeParen => exact State.close_quotes h
  | comma => exact State.separate_quotes h
  | unknown text => exact Or.inl htoken

/-- The same holds of any number of the tokens. -/
theorem run_quotes (bindings : Bindings) {s : State} (h : s.Quotes tokens) {taken : List Token}
    (htaken : ∀ token ∈ taken, token ∈ tokens) :
    Quoting tokens (State.Quotes tokens) (run bindings s taken).1 := by
  induction taken generalizing s with
  | nil => exact h
  | cons token taken ih =>
    obtain ⟨htoken, hrest⟩ := List.forall_mem_cons.1 htaken
    have hstep := State.step_quotes bindings h htoken
    rw [run]
    cases hnext : s.step bindings token with
    | ok t =>
      rw [hnext] at hstep
      exact ih hstep hrest
    | error e =>
      rw [hnext] at hstep
      exact hstep

theorem checkArity_quotes (nodes : PostfixExpr) :
    Quoting tokens (fun _ => True) (checkArity nodes) := by
  unfold checkArity
  split <;> trivial

/-- Every syntax error quotes one of the tokens, if anything. -/
theorem ofTokens_quotes {bindings : Bindings} {e : SyntaxError}
    (h : (ofTokens bindings tokens).1 = .error e) : e.Quotes tokens := by
  have hrun : Quoting tokens (State.Quotes tokens) (run bindings .initial tokens).1 :=
    run_quotes bindings (fun entry hentry => absurd hentry List.not_mem_nil) fun _ ht => ht
  have hfinish : Quoting tokens (fun _ => True) (ofTokens bindings tokens).1 := by
    refine hrun.bind fun s hs => ?_
    refine (drain_quotes hs).bind fun nodes _ => ?_
    exact (checkArity_quotes _).bind fun _ _ => trivial
  rwa [h] at hfinish

end Conversion

end PostfixCalc
