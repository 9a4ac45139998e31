import PostfixCalc.Proofs.Conversion.Conservation

/-!
# Calls on the stack

A call waits for its closing parenthesis with the opening one directly above it, and only there its
arguments are counted.  A call without parentheses keeps its single argument.  So whatever is taken
off the stack on the way to an open parenthesis becomes a node, for any sequence of tokens: errors
come from the tokens themselves, from parentheses without a partner, and from calls whose
parentheses are closed over several arguments.

Main results:

- `Pending.yieldTo_inOrder`, `Pending.unwind_inOrder`, `Pending.drain_inOrder`: what is taken off a
  stack in order becomes nodes.
- `Conversion.State.step_inOrder`: a token leaves the stack in order, and an unknown function is an
  error of the token that names it.
- `Conversion.run_calls_in_order`: after any tokens without an error the stack is in order.
-/

namespace PostfixCalc

namespace Pending

/-! ## Stacks in order -/

/-- An entry is in order below a given one, or on top of the stack: a call is of a function that
exists, and it has one argument unless an open parenthesis lies directly above it. -/
def IsInOrder (above : Option Pending) : Pending → Prop
  | call word arguments =>
    (NamedFunction.ofName? word).isSome ∧ (arguments = 1 ∨ above = some openParen)
  | openParen | binary _ | sign _ => True

/-- All entries of a stack are in order, the first one below a given entry. -/
def AllInOrder (above : Option Pending) : List Pending → Prop
  | [] => True
  | top :: below => top.IsInOrder above ∧ AllInOrder (some top) below

/-- An open parenthesis alone lets a call have several arguments. -/
theorem IsInOrder.below {entry : Pending} {above : Option Pending} (h : entry.IsInOrder above)
    (habove : above ≠ some openParen) (other : Option Pending) : entry.IsInOrder other := by
  cases entry with
  | call word arguments => exact ⟨h.1, .inl (h.2.resolve_right habove)⟩
  | openParen | binary | sign => trivial

/-- What lies above a stack matters for its first entry only. -/
theorem AllInOrder.below {pending : List Pending} {above : Option Pending}
    (h : AllInOrder above pending) (habove : above ≠ some openParen) (other : Option Pending) :
    AllInOrder other pending := by
  cases pending with
  | nil => trivial
  | cons top below => exact ⟨h.1.below habove other, h.2⟩

/-- The entries further down are in order below the one that lies above them. -/
theorem AllInOrder.of_append {above below : List Pending} {first : Option Pending}
    (h : AllInOrder first (above ++ below)) : AllInOrder (above.getLast?.or first) below := by
  induction above generalizing first with
  | nil => exact h
  | cons top above ih =>
    have hlast := ih h.2
    rw [List.getLast?_cons]
    cases hlast' : above.getLast? with
    | none => rwa [hlast'] at hlast
    | some last => rwa [hlast'] at hlast

/-- An entry in order can be put on a stack in order. -/
theorem AllInOrder.push {entry : Pending} {pending : List Pending} (h : AllInOrder none pending)
    (hentry : entry.IsInOrder none) : AllInOrder none (entry :: pending) :=
  ⟨hentry, h.below nofun _⟩

/-! ## Nodes of entries -/

/-- An entry on top of a stack has a node, unless it is a parenthesis. -/
theorem IsInOrder.exists_toNode {entry : Pending} (h : entry.IsInOrder none)
    (hparen : entry ≠ openParen) : ∃ node, entry.toNode = .ok node := by
  cases entry with
  | openParen => exact absurd rfl hparen
  | call word arguments =>
    obtain ⟨f, hf⟩ := Option.isSome_iff_exists.1 h.1
    obtain rfl := h.2.resolve_right nofun
    exact ⟨.unary (.function f), by rw [toNode, hf]⟩
  | binary op => exact ⟨.binary op, rfl⟩
  | sign s => exact ⟨.unary (.sign s), rfl⟩

/-- The function of an entry in order exists. -/
theorem IsInOrder.toNode_ne {entry : Pending} {above : Option Pending} (h : entry.IsInOrder above)
    (word : String) : entry.toNode ≠ .error (.unknownFunction word) := by
  intro hnode
  unfold toNode at hnode
  split at hnode
  · cases hnode
  · split at hnode
    · cases hnode
    · rename_i hword
      rw [IsInOrder, hword] at h
      exact absurd h.1 (by decide)
  · cases hnode
  · cases hnode
  · cases hnode

/-- An entry that is no parenthesis can be taken off a stack as a node. -/
theorem AllInOrder.pop {top : Pending} {below : List Pending} (h : AllInOrder none (top :: below))
    (hparen : top ≠ openParen) : (∃ node, top.toNode = .ok node) ∧ AllInOrder none below := by
  refine ⟨h.1.exists_toNode hparen, h.2.below ?_ none⟩
  exact fun htop => hparen (Option.some.inj htop)

/-- The entries above the innermost open parenthesis have nodes. -/
theorem AllInOrder.exists_toNode_of_mem {pending : List Pending} (h : AllInOrder none pending) :
    ∀ entry ∈ pending.takeWhile (· != openParen), ∃ node, entry.toNode = .ok node := by
  induction pending with
  | nil => exact nofun
  | cons top below ih =>
    by_cases htop : top = openParen
    · rw [List.takeWhile_cons_of_neg (by simp [htop])]
      exact nofun
    · obtain ⟨hnode, hbelow⟩ := h.pop htop
      rw [List.takeWhile_cons_of_pos (by simpa using htop)]
      exact List.forall_mem_cons.2 ⟨hnode, ih hbelow⟩

/-! ## Entries that are taken off -/

/-- An operator that does not take off parentheses finds nodes, and leaves a stack in order. -/
theorem yieldTo_inOrder {operator : Pending} (hstays : openParen.staysBelow operator = true)
    {pending : List Pending} (h : AllInOrder none pending) :
    ∃ nodes rest, operator.yieldTo pending = .ok (nodes, rest) ∧ AllInOrder none rest := by
  induction pending with
  | nil => exact ⟨[], [], rfl, trivial⟩
  | cons top below ih =>
    by_cases hstaysTop : top.staysBelow operator = true
    · exact ⟨[], top :: below, if_pos hstaysTop, h⟩
    · have hparen : top ≠ openParen := fun htop => hstaysTop (htop ▸ hstays)
      obtain ⟨⟨node, hnode⟩, hbelow⟩ := h.pop hparen
      obtain ⟨nodes, rest, hyield, hrest⟩ := ih hbelow
      refine ⟨node :: nodes, rest, ?_, hrest⟩
      rw [yieldTo, if_neg hstaysTop, hnode, hyield]
      rfl

/-- Closing a parenthesis finds nodes down to it, and is in error only if there is none. -/
theorem unwind_inOrder {pending : List Pending} (h : AllInOrder none pending) :
    match unwind pending with
    | .ok (_, below) => openParen ∈ pending ∧ AllInOrder (some openParen) below
    | .error e => openParen ∉ pending ∧ e = .missingOpenParen := by
  induction pending with
  | nil => exact ⟨List.not_mem_nil, rfl⟩
  | cons top below ih =>
    by_cases htop : top = openParen
    · subst htop
      exact ⟨List.mem_cons_self, h.2⟩
    · obtain ⟨⟨node, hnode⟩, hbelow⟩ := h.pop htop
      have hfurther := ih hbelow
      rw [unwind.eq_3 _ _ htop, hnode]
      cases hunwind : unwind below with
      | ok found =>
        rw [hunwind] at hfurther
        exact ⟨List.mem_cons_of_mem top hfurther.1, hfurther.2⟩
      | error e =>
        rw [hunwind] at hfurther
        refine ⟨fun hmem => ?_, hfurther.2⟩
        exact (List.mem_cons.1 hmem).elim (fun heq => htop heq.symm) hfurther.1

/-- In the end only an open parenthesis is without a node. -/
theorem drain_inOrder {pending : List Pending} (h : AllInOrder none pending) :
    match drain pending with
    | .ok _ => openParen ∉ pending
    | .error e => openParen ∈ pending ∧ e = .missingCloseParen := by
  induction pending with
  | nil => exact List.not_mem_nil
  | cons top below ih =>
    rw [drain]
    by_cases htop : top = openParen
    · subst htop
      exact ⟨List.mem_cons_self, rfl⟩
    · obtain ⟨⟨node, hnode⟩, hbelow⟩ := h.pop htop
      have hfurther := ih hbelow
      rw [hnode]
      cases hdrain : drain below with
      | ok nodes =>
        rw [hdrain] at hfurther
        refine fun hmem => ?_
        exact (List.mem_cons.1 hmem).elim (fun heq => htop heq.symm) hfurther
      | error e =>
        rw [hdrain] at hfurther
        exact ⟨List.mem_cons_of_mem top hfurther.1, hfurther.2⟩

/-! ## What a stack in order tells -/

variable {pending : List Pending}

/-- Every entry of a stack in order is in order below some other one. -/
theorem AllInOrder.exists_isInOrder (h : AllInOrder none pending) {entry : Pending}
    (hentry : entry ∈ pending) : ∃ above, entry.IsInOrder above := by
  obtain ⟨before, after, rfl⟩ := List.append_of_mem hentry
  exact ⟨_, h.of_append.1⟩

/-- An open parenthesis on the stack can be closed. -/
theorem AllInOrder.exists_unwind (h : AllInOrder none pending) (hopen : openParen ∈ pending) :
    ∃ found, unwind pending = .ok found := by
  have hunwind := unwind_inOrder h
  cases hfound : unwind pending with
  | ok found => exact ⟨found, rfl⟩
  | error e =>
    rw [hfound] at hunwind
    exact absurd hopen hunwind.1

/-- Without an open parenthesis on the stack, a closing one is in error. -/
theorem AllInOrder.unwind_eq_error (h : AllInOrder none pending) (hopen : openParen ∉ pending) :
    unwind pending = .error .missingOpenParen := by
  have hunwind := unwind_inOrder h
  cases hfound : unwind pending with
  | ok found =>
    rw [hfound] at hunwind
    exact absurd hunwind.1 hopen
  | error e =>
    rw [hfound] at hunwind
    rw [hunwind.2]

/-- The only error in the end is an open parenthesis. -/
theorem AllInOrder.eq_of_drain (h : AllInOrder none pending) {e : SyntaxError}
    (hdrain : drain pending = .error e) : e = .missingCloseParen := by
  have hend := drain_inOrder h
  rw [hdrain] at hend
  exact hend.2

end Pending

namespace Conversion

variable {bindings : Bindings} {s : State}

/-! ## Tokens -/

/-- An operator is put on a stack in order without an error, and leaves it in order. -/
theorem State.pushOperator_inOrder {operator : Pending} (h : Pending.AllInOrder none s.pending)
    (hoperator : operator.IsInOrder none)
    (hstays : Pending.openParen.staysBelow operator = true) :
    ∃ t, s.pushOperator operator = .ok t ∧ Pending.AllInOrder none t.pending := by
  obtain ⟨nodes, rest, hyield, hrest⟩ := Pending.yieldTo_inOrder hstays h
  refine ⟨⟨s.output ++ nodes, operator :: rest⟩, ?_, hrest.push hoperator⟩
  rw [pushOperator, hyield]
  rfl

theorem State.pushOperator_binary (h : Pending.AllInOrder none s.pending) (op : BinaryOp) :
    ∃ t, s.pushOperator (.binary op) = .ok t ∧ Pending.AllInOrder none t.pending :=
  State.pushOperator_inOrder h trivial (by cases op <;> decide)

theorem State.pushOperator_sign (h : Pending.AllInOrder none s.pending) (sign : Sign) :
    ∃ t, s.pushOperator (.sign sign) = .ok t ∧ Pending.AllInOrder none t.pending :=
  State.pushOperator_inOrder h trivial rfl

/-- Closing a parenthesis peels it off, together with the call below it, whose arguments are no
longer counted then. -/
theorem State.close_inOrder (h : Pending.AllInOrder none s.pending) :
    match s.close with
    | .ok t => Pending.AllInOrder none t.pending
    | .error e => ∀ word, e ≠ .unknownFunction word := by
  have hunwind := Pending.unwind_inOrder h
  unfold close
  cases hfound : Pending.unwind s.pending with
  | error e =>
    rw [hfound] at hunwind
    rw [hunwind.2]
    exact nofun
  | ok found =>
    obtain ⟨nodes, below⟩ := found
    rw [hfound] at hunwind
    obtain ⟨-, hbelow⟩ := hunwind
    rcases below with _ | ⟨top, rest⟩
    · trivial
    · cases top with
      | call word arguments =>
        simp only [bind, Except.bind]
        cases hnode : Pending.toNode (.call word arguments) with
        | error e => exact fun word' he => hbelow.1.toNode_ne word' (he ▸ hnode)
        | ok node => exact hbelow.2.below nofun none
      | openParen | binary | sign => exact ⟨trivial, hbelow.2⟩

/-- A comma leaves the parenthesis above the call whose arguments it counts. -/
theorem State.separate_inOrder (h : Pending.AllInOrder none s.pending) :
    match s.separate with
    | .ok t => Pending.AllInOrder none t.pending
    | .error e => ∀ word, e ≠ .unknownFunction word := by
  have hunwind := Pending.unwind_inOrder h
  unfold separate
  cases hfound : Pending.unwind s.pending with
  | error e =>
    rw [hfound] at hunwind
    rw [hunwind.2]
    exact nofun
  | ok found =>
    obtain ⟨nodes, below⟩ := found
    rw [hfound] at hunwind
    obtain ⟨-, hbelow⟩ := hunwind
    rcases below with _ | ⟨top, rest⟩
    · exact nofun
    · cases top with
      | call word arguments => exact ⟨trivial, ⟨hbelow.1.1, .inr rfl⟩, hbelow.2.below nofun _⟩
      | openParen | binary | sign => exact nofun

/-- A token leaves the stack in order, and an unknown function is an error of the token that names
it, never of an entry of the stack. -/
theorem State.step_inOrder (bindings : Bindings) (h : Pending.AllInOrder none s.pending)
    (token : Token) :
    match s.step bindings token with
    | .ok t => Pending.AllInOrder none t.pending
    | .error e => ∀ word, e = .unknownFunction word →
        token = .function word ∧ NamedFunction.ofName? word = none := by
  cases token with
  | number value => exact h
  | name word =>
    rw [step]
    cases bindings.get? word with
    | some value => exact h
    | none =>
      intro word' he
      cases he
  | function word =>
    rw [step]
    cases hword : NamedFunction.ofName? word with
    | some f => exact h.push ⟨Option.isSome_of_eq_some hword, .inl rfl⟩
    | none =>
      intro word' he
      obtain rfl := SyntaxError.unknownFunction.inj he
      exact ⟨rfl, hword⟩
  | sign symbol =>
    rw [step]
    cases Sign.ofSymbol? symbol with
    | some op =>
      obtain ⟨t, hpush, ht⟩ := pushOperator_sign h op
      simpa only [hpush] using ht
    | none =>
      intro word he
      cases he
  | operator symbol =>
    rw [step]
    cases BinaryOp.ofSymbol? symbol with
    | some op =>
      obtain ⟨t, hpush, ht⟩ := pushOperator_binary h op
      simpa only [hpush] using ht
    | none =>
      intro word he
      cases he
  | openParen => exact h.push trivial
  | closeParen =>
    have hclose := close_inOrder h
    rw [step]
    cases hnext : s.close with
    | ok t => simpa only [hnext] using hclose
    | error e =>
      rw [hnext] at hclose
      exact fun word he => absurd he (hclose word)
  | comma =>
    have hseparate := separate_inOrder h
    rw [step]
    cases hnext : s.separate with
    | ok t => simpa only [hnext] using hseparate
    | error e =>
      rw [hnext] at hseparate
      exact fun word he => absurd he (hseparate word)
  | unknown text =>
    intro word he
    cases he

/-! ## Runs -/

/-- A run without an error leaves the stack in order. -/
theorem run_allInOrder {t : State} {tokens rest : List Token}
    (h : Pending.AllInOrder none s.pending) (hrun : run bindings s tokens = (.ok t, rest)) :
    Pending.AllInOrder none t.pending := by
  refine @run_keeps bindings s t tokens rest (fun _ s => Pending.AllInOrder none s.pending)
    ?_ [] h hrun
  intro _ s token t h hstep
  have hnext := State.step_inOrder bindings h token
  rwa [hstep] at hnext

/-- A comma has no node, so no tokens with a comma are converted. -/
theorem exists_error_of_comma {tokens : List Token} (h : .comma ∈ tokens) :
    ∃ e, (ofTokens bindings tokens).1 = .error e := by
  cases hconvert : (ofTokens bindings tokens).1 with
  | error e => exact ⟨e, rfl⟩
  | ok nodes =>
    rcases hasNode_of_ofTokens hconvert .comma h with hparen | hnode
    · exact absurd hparen (by decide)
    · simp [Token.HasNode, Token.value?, Token.operation?] at hnode

/-- After any tokens without an error, every call on the stack is of a function that exists, and one
whose number of arguments is not one has an open parenthesis directly above it.  So operators are
put on the stack without an error, the entries above the innermost open parenthesis all have nodes,
an unknown function is an error of the token that names it and of no entry of the stack, and in the
end only an open parenthesis is in error.  No sequence of tokens with a comma is converted. -/
theorem run_calls_in_order (bindings : Bindings) (tokens : List Token) :
    (∀ s, (run bindings .initial tokens).1 = .ok s →
      (∀ above word arguments below, s.pending = above ++ .call word arguments :: below →
        (NamedFunction.ofName? word).isSome ∧
          (arguments ≠ 1 → above.getLast? = some .openParen)) ∧
      (∀ op, ∃ t, s.pushOperator (.binary op) = .ok t) ∧
      (∀ sign, ∃ t, s.pushOperator (.sign sign) = .ok t) ∧
      (∀ entry ∈ s.pending.takeWhile (· != .openParen), ∃ node, entry.toNode = .ok node) ∧
      (.openParen ∈ s.pending → ∃ found, Pending.unwind s.pending = .ok found) ∧
      (.openParen ∉ s.pending → Pending.unwind s.pending = .error .missingOpenParen) ∧
      (∀ entry ∈ s.pending, ∀ word, entry.toNode ≠ .error (.unknownFunction word)) ∧
      (∀ token word, s.step bindings token = .error (.unknownFunction word) →
        token = .function word ∧ NamedFunction.ofName? word = none) ∧
      (∀ e, Pending.drain s.pending = .error e → e = .missingCloseParen)) ∧
    (.comma ∈ tokens → ∃ e, (ofTokens bindings tokens).1 = .error e) := by
  refine ⟨fun s hrun => ?_, exists_error_of_comma⟩
  have hinitial : Pending.AllInOrder none State.initial.pending := trivial
  have h : Pending.AllInOrder none s.pending := run_allInOrder hinitial (Prod.ext hrun rfl)
  refine ⟨?_, ?_, ?_, h.exists_toNode_of_mem, h.exists_unwind, h.unwind_eq_error, ?_, ?_,
    fun e => h.eq_of_drain⟩
  · intro above word arguments below hsplit
    rw [hsplit] at h
    have hcall := h.of_append.1
    rw [Option.or_none] at hcall
    exact ⟨hcall.1, hcall.2.resolve_left⟩
  · intro op
    obtain ⟨t, ht, -⟩ := State.pushOperator_binary h op
    exact ⟨t, ht⟩
  · intro sign
    obtain ⟨t, ht, -⟩ := State.pushOperator_sign h sign
    exact ⟨t, ht⟩
  · intro entry hentry word
    obtain ⟨above, hentry⟩ := h.exists_isInOrder hentry
    exact hentry.toNode_ne word
  · intro token word hstep
    have hnext := State.step_inOrder bindings h token
    rw [hstep] at hnext
    exact hnext word rfl

/-- The tokens `sin ( 1 ,`, after which a call with two arguments waits below its parenthesis. -/
theorem run_calls_in_order_two_arguments :
    let tokens : List Token := [.function "sin", .openParen, .number .one, .comma]
    let s : State := ⟨[.operand .one], [.openParen, .call "sin" 2]⟩
    (run .constants .initial tokens).1 = .ok s ∧
      ((NamedFunction.ofName? "sin").isSome ∧
        (2 ≠ 1 → [Pending.openParen].getLast? = some .openParen)) ∧
      (∀ e, Pending.drain s.pending = .error e → e = .missingCloseParen) ∧
      ∃ e, (ofTokens .constants tokens).1 = .error e := by
  intro tokens s
  have hrun : (run .constants .initial tokens).1 = .ok s := rfl
  obtain ⟨hstates, hcomma⟩ := run_calls_in_order .constants tokens
  obtain ⟨hcalls, -, -, -, -, -, -, -, hdrain⟩ := hstates s hrun
  exact ⟨hrun, hcalls [.openParen] "sin" 2 [] rfl, hdrain, hcomma (by decide)⟩

end Conversion

end PostfixCalc
