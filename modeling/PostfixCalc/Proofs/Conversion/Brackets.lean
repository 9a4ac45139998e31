import PostfixCalc.Proofs.Grammar.Conversion
import PostfixCalc.Proofs.Lexing.Reference

/-!
# Parentheses, commas and functions

Which token the conversion stops at is decided by the parentheses, commas, functions and names
alone.  They can be followed with a stack of the parentheses that are open, on which no operator
ever lies.  The stack of the conversion holds the same parentheses, each on top of the function in
front of it, with operators between them that are taken off without an error.

Main results:

- `Brackets.Holds.exists_waiting`: the operators inside the innermost parenthesis may be any.
- `Brackets.step_holds`: a token is in error for the conversion exactly if the parentheses say so.
- `Brackets.run_holds`: the same for any number of tokens.
- `Brackets.scan_filter`: operands and operators can be left out.
- `Brackets.ofTokens_tokenize`: what the conversion of a text ends in.
-/

namespace PostfixCalc

open Conversion

/-- An open parenthesis with the function directly in front of it, if there is one, and the number
of commas directly inside it. -/
structure OpenParen where
  callee : Option String
  commas : Nat
  deriving DecidableEq

/-- The word of a token that is a function. -/
def Token.function? : Token → Option String
  | .function word => some word
  | _ => none

theorem Token.bind_function?_eq_none {previous : Option Token}
    (h : ∀ word, previous ≠ some (.function word)) : previous.bind Token.function? = none := by
  rcases previous with _ | token
  · rfl
  · cases token with
    | function word => exact absurd rfl (h word)
    | number _ | name _ | sign _ | operator _ | openParen | closeParen | comma | unknown _ => rfl

namespace Brackets

/-! ## Following the parentheses -/

/-- What is wrong with a token if the given parentheses are open, the innermost first. -/
def fault? (bindings : Bindings) (opens : List OpenParen) : Token → Option SyntaxError
  | .unknown text => some (.badToken text)
  | .name word => if (bindings.get? word).isSome then none else some (.unknownName word)
  | .function word =>
    if (NamedFunction.ofName? word).isSome then none else some (.unknownFunction word)
  | .closeParen =>
    match opens with
    | [] => some .missingOpenParen
    | ⟨some word, commas⟩ :: _ => if commas = 0 then none else some (.wrongArity word (commas + 1))
    | ⟨none, _⟩ :: _ => none
  | .comma =>
    match opens with
    | [] => some .missingOpenParen
    | ⟨some _, _⟩ :: _ => none
    | ⟨none, _⟩ :: _ => some .misplacedComma
  | .number _ | .sign _ | .operator _ | .openParen => none

/-- A name that is no error has a value. -/
theorem isSome_of_name {bindings : Bindings} {opens : List OpenParen} {word : String}
    (h : fault? bindings opens (.name word) = none) : (bindings.get? word).isSome := by
  by_contra hnone
  exact absurd h (by simp [fault?, hnone])

/-- A function that is no error exists. -/
theorem isSome_of_function {bindings : Bindings} {opens : List OpenParen} {word : String}
    (h : fault? bindings opens (.function word) = none) :
    (NamedFunction.ofName? word).isSome := by
  by_contra hnone
  exact absurd h (by simp [fault?, hnone])

/-- The parentheses that are open after a token, which follows a given one. -/
def after (previous : Option Token) (opens : List OpenParen) : Token → List OpenParen
  | .openParen => ⟨previous.bind Token.function?, 0⟩ :: opens
  | .closeParen => opens.tail
  | .comma =>
    match opens with
    | [] => []
    | paren :: outer => { paren with commas := paren.commas + 1 } :: outer
  | .number _ | .name _ | .function _ | .sign _ | .operator _ | .unknown _ => opens

/-- Follow the parentheses up to the first token in error, with the tokens after that one. -/
def scan (bindings : Bindings) (previous : Option Token) (opens : List OpenParen) :
    List Token → Except SyntaxError (List OpenParen) × List Token
  | [] => (.ok opens, [])
  | token :: tokens =>
    match fault? bindings opens token with
    | some e => (.error e, tokens)
    | none => scan bindings (some token) (after previous opens token) tokens

/-! ## The parentheses on the stack -/

/-- A stack holds the given open parentheses, with operators on top of each and at the bottom. -/
inductive Holds : List OpenParen → List Pending → Prop
  | bottom (waiting : List Waiting) : Holds [] (waiting.map Waiting.entry)
  | group (waiting : List Waiting) (commas : Nat) {opens : List OpenParen}
      {pending : List Pending} (h : Holds opens pending) :
      Holds (⟨none, commas⟩ :: opens) (waiting.map Waiting.entry ++ .openParen :: pending)
  | call (waiting : List Waiting) {word : String} {f : NamedFunction}
      (hword : NamedFunction.ofName? word = some f) (commas : Nat) {opens : List OpenParen}
      {pending : List Pending} (h : Holds opens pending) :
      Holds (⟨some word, commas⟩ :: opens)
        (waiting.map Waiting.entry ++ .openParen :: .call word (commas + 1) :: pending)

/-- The operators inside the innermost parenthesis may be any. -/
theorem Holds.exists_waiting {opens : List OpenParen} {pending : List Pending}
    (h : Holds opens pending) :
    ∃ (waiting : List Waiting) (below : List Pending),
      pending = waiting.map Waiting.entry ++ below ∧
      (∀ top ∈ below.head?, top = .openParen) ∧
      ∀ others : List Waiting, Holds opens (others.map Waiting.entry ++ below) := by
  cases h with
  | bottom waiting =>
    refine ⟨waiting, [], (List.append_nil _).symm, by simp, fun others => ?_⟩
    rw [List.append_nil]
    exact .bottom others
  | group waiting commas h =>
    exact ⟨waiting, _, rfl, by simp, fun others => .group others commas h⟩
  | call waiting hword commas h =>
    exact ⟨waiting, _, rfl, by simp, fun others => .call others hword commas h⟩

/-- No function lies on top of a stack, since its parenthesis does. -/
theorem Holds.head?_ne_call {opens : List OpenParen} {pending : List Pending}
    (h : Holds opens pending) (word : String) (arguments : Nat) :
    pending.head? ≠ some (.call word arguments) := by
  obtain ⟨waiting, below, rfl, hbelow, -⟩ := h.exists_waiting
  rcases waiting with _ | ⟨w, waiting⟩
  · intro hhead
    exact absurd (hbelow _ hhead) (by simp)
  · cases w <;> simp [Waiting.entry]

/-! ## Entries that are taken off -/

/-- An operator puts out some of the operators inside the innermost parenthesis and goes on top of
the others. -/
theorem yieldTo_eq (operator : Waiting) (waiting : List Waiting) {below : List Pending}
    (hbelow : ∀ top ∈ below.head?, top = .openParen) :
    ∃ (nodes : List Node) (left : List Waiting),
      operator.entry.yieldTo (waiting.map Waiting.entry ++ below) =
        .ok (nodes, left.map Waiting.entry ++ below) := by
  induction waiting with
  | nil =>
    refine ⟨[], [], Pending.yieldTo_waiting (fun w hw => absurd hw List.not_mem_nil) ?_⟩
    intro top htop
    rw [hbelow top htop, Pending.staysBelow_eq_true_iff]
    left
    rcases operator with op | s
    · cases op <;> decide
    · exact show 1 < 5 by decide
  | cons w waiting ih =>
    by_cases hstays : w.entry.staysBelow operator.entry = true
    · refine ⟨[], w :: waiting, ?_⟩
      rw [List.map_cons, List.cons_append, Pending.yieldTo, if_pos hstays]
    · obtain ⟨nodes, left, hyield⟩ := ih
      refine ⟨w.node :: nodes, left, ?_⟩
      rw [List.map_cons, List.cons_append, Pending.yieldTo, if_neg hstays, hyield,
        Waiting.toNode_entry]
      rfl

/-- Without an open parenthesis nothing can be closed. -/
theorem unwind_bottom (waiting : List Waiting) :
    Pending.unwind (waiting.map Waiting.entry) = .error .missingOpenParen := by
  induction waiting with
  | nil => rfl
  | cons w waiting ih =>
    cases w <;> simp only [List.map_cons, Waiting.entry, Pending.unwind, ih] <;> rfl

/-- In the end a parenthesis that is still open is an error. -/
theorem drain_openParen (waiting : List Waiting) (below : List Pending) :
    Pending.drain (waiting.map Waiting.entry ++ .openParen :: below) =
      .error .missingCloseParen := by
  induction waiting with
  | nil => rfl
  | cons w waiting ih =>
    rw [List.map_cons, List.cons_append, Pending.drain, ih, Waiting.toNode_entry]
    rfl

variable {bindings : Bindings} {opens : List OpenParen} {s : State}

/-- An operator keeps the parentheses on the stack. -/
theorem pushOperator_holds (h : Holds opens s.pending) (operator : Waiting) :
    ∃ t, s.pushOperator operator.entry = .ok t ∧ Holds opens t.pending := by
  obtain ⟨waiting, below, hpending, hbelow, hothers⟩ := h.exists_waiting
  obtain ⟨nodes, left, hyield⟩ := yieldTo_eq operator waiting hbelow
  refine ⟨⟨s.output ++ nodes, operator.entry :: (left.map Waiting.entry ++ below)⟩, ?_, ?_⟩
  · rw [State.pushOperator, hpending, hyield]
    rfl
  · exact hothers (operator :: left)

/-- A closing parenthesis is in error if nothing is open, or if a call has more than one argument;
otherwise it closes the innermost parenthesis. -/
theorem close_holds (h : Holds opens s.pending) :
    match fault? bindings opens .closeParen with
    | some e => s.step bindings .closeParen = .error e
    | none => ∃ t, s.step bindings .closeParen = .ok t ∧ Holds opens.tail t.pending := by
  obtain ⟨output, pending⟩ := s
  change Holds opens pending at h
  cases h with
  | bottom waiting => simp only [fault?, State.step, State.close, unwind_bottom, bind, Except.bind]
  | group waiting commas h =>
    exact ⟨_, State.step_closeGroup h.head?_ne_call, h⟩
  | @call waiting word f hword commas opens below h =>
    rcases commas with _ | commas
    · exact ⟨_, State.step_closeCall hword output waiting below, h⟩
    · have hnode : (Pending.call word (commas + 1 + 1)).toNode =
          .error (.wrongArity word (commas + 1 + 1)) := rfl
      simp only [fault?, State.step, State.close, Pending.unwind_waiting, bind, Except.bind, hnode,
        Nat.add_eq_zero_iff, Nat.one_ne_zero, and_false, if_false]

/-- A comma is in error if nothing is open, or if the innermost parenthesis is not that of a call;
otherwise it begins another argument of the call. -/
theorem comma_holds (previous : Option Token) (h : Holds opens s.pending) :
    match fault? bindings opens .comma with
    | some e => s.step bindings .comma = .error e
    | none =>
      ∃ t, s.step bindings .comma = .ok t ∧ Holds (after previous opens .comma) t.pending := by
  obtain ⟨output, pending⟩ := s
  change Holds opens pending at h
  cases h with
  | bottom waiting =>
    simp only [fault?, State.step, State.separate, unwind_bottom, bind, Except.bind]
  | group waiting commas h =>
    simp only [fault?, State.step, State.separate, Pending.unwind_waiting, bind, Except.bind]
    split
    · exact absurd rfl (h.head?_ne_call _ _)
    · rfl
  | @call waiting word f hword commas opens below h =>
    refine ⟨⟨output ++ waiting.map Waiting.node, .openParen :: .call word (commas + 2) :: below⟩,
      ?_, .call [] hword (commas + 1) h⟩
    simp only [State.step, State.separate, Pending.unwind_waiting, bind, Except.bind]

/-! ## Following a run -/

/-- A stack holds the given open parentheses behind a given token.  A function lies on top of the
stack until its parenthesis comes. -/
def HoldsAfter (previous : Option Token) (opens : List OpenParen) (pending : List Pending) : Prop :=
  match previous.bind Token.function? with
  | none => Holds opens pending
  | some word =>
    ∃ f below, NamedFunction.ofName? word = some f ∧ pending = .call word 1 :: below ∧
      Holds opens below

/-- An opening parenthesis belongs to the function in front of it. -/
theorem openParen_holds {previous : Option Token} (h : HoldsAfter previous opens s.pending) :
    Holds (after previous opens .openParen) (s.push .openParen).pending := by
  unfold HoldsAfter at h
  unfold after
  split at h
  · rename_i hprevious
    rw [hprevious]
    exact .group [] 0 h
  · rename_i word hprevious
    obtain ⟨f, below, hword, hpending, h⟩ := h
    rw [hprevious, State.push, hpending]
    exact .call [] hword 0 h

/-- Symbols of operators name operators, so an operator is no error. -/
theorem operator_holds (h : Holds opens s.pending) {token : Token} (hform : token.WellFormed)
    (hoperator : ∃ symbol, token = .sign symbol ∨ token = .operator symbol) :
    ∃ t, s.step bindings token = .ok t ∧ Holds opens t.pending := by
  obtain ⟨symbol, rfl | rfl⟩ := hoperator
  · obtain ⟨op, hop⟩ : ∃ op, Sign.ofSymbol? symbol = some op := by
      simp only [Token.WellFormed, List.mem_cons, List.not_mem_nil, or_false] at hform
      rcases hform with rfl | rfl <;> exact ⟨_, rfl⟩
    simpa only [State.step, hop, Waiting.entry] using pushOperator_holds h (.sign op)
  · obtain ⟨op, hop⟩ : ∃ op, BinaryOp.ofSymbol? symbol = some op := by
      simp only [Token.WellFormed, List.mem_cons, List.not_mem_nil, or_false] at hform
      rcases hform with rfl | rfl | rfl | rfl | rfl | rfl | rfl <;> exact ⟨_, rfl⟩
    simpa only [State.step, hop, Waiting.entry] using pushOperator_holds h (.binary op)

/-- A token is in error for the conversion exactly if it is for the parentheses, with the same
error, and otherwise both go on. -/
theorem step_holds {previous : Option Token} {token : Token}
    (h : HoldsAfter previous opens s.pending) (hform : token.WellFormed)
    (hcalled : ∀ word, previous = some (.function word) → token = .openParen) :
    match fault? bindings opens token with
    | some e => s.step bindings token = .error e
    | none =>
      ∃ t, s.step bindings token = .ok t ∧
        HoldsAfter (some token) (after previous opens token) t.pending := by
  by_cases hopen : token = .openParen
  · subst hopen
    exact ⟨_, rfl, openParen_holds h⟩
  -- Only an opening parenthesis comes behind a function.
  have hholds : Holds opens s.pending := by
    have hprevious : previous.bind Token.function? = none :=
      Token.bind_function?_eq_none fun word hword => hopen (hcalled word hword)
    simpa only [HoldsAfter, hprevious] using h
  cases token with
  | number value => exact ⟨_, rfl, hholds⟩
  | name word =>
    simp only [fault?, State.step]
    cases hvalue : bindings.get? word with
    | none => rfl
    | some value => exact ⟨_, rfl, hholds⟩
  | function word =>
    simp only [fault?, State.step]
    cases hword : NamedFunction.ofName? word with
    | none => rfl
    | some f => exact ⟨_, rfl, f, _, hword, rfl, hholds⟩
  | sign symbol => exact operator_holds hholds hform ⟨symbol, .inl rfl⟩
  | operator symbol => exact operator_holds hholds hform ⟨symbol, .inr rfl⟩
  | openParen => exact absurd rfl hopen
  | closeParen => exact close_holds hholds
  | comma => exact comma_holds previous hholds
  | unknown text => rfl

/-- What follows a token begins with a parenthesis if the token is a function. -/
theorem functionsCalled_tail {previous : Option Token} {token : Token} {tokens : List Token}
    (h : Lexing.FunctionsCalled (previous.toList ++ token :: tokens)) :
    (∀ word, previous = some (.function word) → token = .openParen) ∧
      Lexing.FunctionsCalled ((some token).toList ++ tokens) := by
  rcases previous with _ | token'
  · exact ⟨fun word hword => absurd hword nofun, h⟩
  · obtain ⟨hfirst, h⟩ := Lexing.functionsCalled_cons.1 h
    refine ⟨fun word hword => ?_, h⟩
    exact Option.some.inj (hfirst word (Option.some.inj hword))

/-- A run goes on as long as the parentheses are without error, and stops with their first error. -/
theorem run_holds {previous : Option Token} {tokens : List Token}
    (h : HoldsAfter previous opens s.pending) (hform : ∀ token ∈ tokens, token.WellFormed)
    (hcalled : Lexing.FunctionsCalled (previous.toList ++ tokens)) :
    match scan bindings previous opens tokens with
    | (.error e, rest) => run bindings s tokens = (.error e, rest)
    | (.ok opens, rest) =>
      rest = [] ∧ ∃ t, run bindings s tokens = (.ok t, []) ∧ Holds opens t.pending := by
  induction tokens generalizing s previous opens with
  | nil =>
    -- A function at the end would not be followed by its parenthesis.
    have hprevious : previous.bind Token.function? = none := by
      refine Token.bind_function?_eq_none fun word hword => ?_
      subst hword
      exact absurd (hcalled [] word [] rfl) (Option.some_ne_none _).symm
    refine ⟨rfl, s, rfl, ?_⟩
    simpa only [HoldsAfter, hprevious] using h
  | cons token tokens ih =>
    obtain ⟨hnext, hcalled⟩ := functionsCalled_tail hcalled
    have hstep := @step_holds bindings _ _ _ _ h (hform token List.mem_cons_self) hnext
    cases hfault : fault? bindings opens token with
    | some e =>
      rw [hfault] at hstep
      simp only [scan, hfault, run, hstep]
    | none =>
      rw [hfault] at hstep
      obtain ⟨t, hstep, ht⟩ := hstep
      have hrest := ih ht (fun other hother => hform other (List.mem_cons_of_mem _ hother)) hcalled
      simpa only [scan, hfault, run_cons_of_step hstep] using hrest

/-! ## The end of a run -/

/-- What the conversion ends in is decided by the parentheses as long as they are in error or open,
and by the number of operands if they are not. -/
theorem ofTokens_eq_scan (bindings : Bindings) {tokens : List Token}
    (hform : ∀ token ∈ tokens, token.WellFormed) (hcalled : Lexing.FunctionsCalled tokens) :
    match scan bindings none [] tokens with
    | (.error e, rest) => ofTokens bindings tokens = (.error e, rest)
    | (.ok (_ :: _), _) => ofTokens bindings tokens = (.error .missingCloseParen, [])
    | (.ok [], _) =>
      ∃ t nodes, run bindings .initial tokens = (.ok t, []) ∧ Pending.drain t.pending = .ok nodes ∧
        ofTokens bindings tokens =
          ((checkArity (t.output ++ nodes)).map fun _ => t.output ++ nodes, []) := by
  have hinitial : HoldsAfter none [] State.initial.pending := Holds.bottom []
  have hrun := @run_holds bindings _ _ _ _ hinitial hform hcalled
  revert hrun
  rcases scan bindings none [] tokens with ⟨e | opens, rest⟩
  · intro hrun
    simp only [ofTokens, hrun, Except.bind]
  · rintro ⟨-, t, hrun, ht⟩
    obtain ⟨output, pending⟩ := t
    change Holds opens pending at ht
    simp only [ofTokens, hrun, Except.bind, State.finish]
    cases ht with
    | bottom waiting =>
      refine ⟨_, _, rfl, Pending.drain_waiting waiting, ?_⟩
      simp only [Pending.drain_waiting, bind, Except.bind]
      cases checkArity (output ++ waiting.map Waiting.node) <;> rfl
    | group waiting commas h => simp only [drain_openParen, bind, Except.bind]
    | call waiting hword commas h => simp only [drain_openParen, bind, Except.bind]

/-! ## Where operands and operators stand -/

/-- A token that neither is in error nor opens, closes or separates anything. -/
def passes (bindings : Bindings) : Token → Bool
  | .number _ | .sign _ | .operator _ => true
  | .name word => (bindings.get? word).isSome
  | .function _ | .openParen | .closeParen | .comma | .unknown _ => false

/-- A token that passes changes nothing. -/
theorem fault?_of_passes {bindings : Bindings} {token : Token} (h : passes bindings token = true)
    (previous : Option Token) (opens : List OpenParen) :
    fault? bindings opens token = none ∧ after previous opens token = opens ∧
      token.function? = none := by
  cases token with
  | number _ | sign _ | operator _ => exact ⟨rfl, rfl, rfl⟩
  | name word => exact ⟨if_pos h, rfl, rfl⟩
  | function _ | openParen | closeParen | comma | unknown _ => exact absurd h Bool.false_ne_true

/-- Of the token in front, only the function that it may be matters. -/
theorem after_congr {previous previous' : Option Token}
    (h : previous'.bind Token.function? = previous.bind Token.function?) (opens : List OpenParen)
    (token : Token) : after previous' opens token = after previous opens token := by
  cases token with
  | openParen => simp only [after, h]
  | number _ | name _ | function _ | sign _ | operator _ | closeParen | comma | unknown _ => rfl

/-- Tokens that pass can be left out, since none of them stands between a function and its
parenthesis. -/
theorem scan_filter {bindings : Bindings} {previous previous' : Option Token}
    {tokens : List Token} (hcalled : Lexing.FunctionsCalled (previous.toList ++ tokens))
    (hprevious : previous'.bind Token.function? = previous.bind Token.function?)
    (opens : List OpenParen) :
    (scan bindings previous' opens (tokens.filter fun token => !passes bindings token)).1 =
      (scan bindings previous opens tokens).1 := by
  induction tokens generalizing previous previous' opens with
  | nil => rfl
  | cons token tokens ih =>
    obtain ⟨hnext, hcalled⟩ := functionsCalled_tail hcalled
    by_cases hpasses : passes bindings token = true
    · obtain ⟨hfault, hafter, hfunction⟩ := fault?_of_passes hpasses previous opens
      have hnone : previous.bind Token.function? = none := by
        refine Token.bind_function?_eq_none fun word hword => ?_
        rw [hnext word hword] at hpasses
        exact Bool.false_ne_true hpasses
      rw [List.filter_cons_of_neg (by simp [hpasses]), scan, hfault]
      simp only [hafter]
      exact ih hcalled (by rw [hprevious, hnone, Option.bind_some, hfunction]) opens
    · rw [List.filter_cons_of_pos (by simpa using hpasses), scan, scan, after_congr hprevious]
      cases fault? bindings opens token with
      | some e => rfl
      | none => exact ih hcalled rfl _

/-- An error that the number of operands decides. -/
def countsOperands : SyntaxError → Bool
  | .empty | .missingOperand | .tooManyOperands => true
  | .badToken _ | .missingOpenParen | .missingCloseParen | .misplacedComma | .unknownFunction _
  | .wrongArity _ _ | .unknownName _ => false

/-- The number of operands raises no other error. -/
theorem countsOperands_of_checkArity {nodes : PostfixExpr} {e : SyntaxError}
    (h : checkArity nodes = .error e) : countsOperands e = true := by
  unfold checkArity at h
  split at h <;> cases h <;> rfl

/-- The error that the parentheses end in, if there is one. -/
def outcome? (bindings : Bindings) (tokens : List Token) : Option SyntaxError :=
  match (scan bindings none [] tokens).1 with
  | .error e => some e
  | .ok [] => none
  | .ok (_ :: _) => some .missingCloseParen

/-- Errors other than those of the number of operands are those of the parentheses. -/
theorem ofTokens_eq_error_iff {bindings : Bindings} {tokens : List Token}
    (hform : ∀ token ∈ tokens, token.WellFormed) (hcalled : Lexing.FunctionsCalled tokens)
    {e : SyntaxError} (he : countsOperands e = false) :
    (ofTokens bindings tokens).1 = .error e ↔ outcome? bindings tokens = some e := by
  have hscan := ofTokens_eq_scan bindings hform hcalled
  unfold outcome?
  revert hscan
  rcases scan bindings none [] tokens with ⟨found | _ | ⟨paren, opens⟩, rest⟩
  · intro hscan
    simp only [hscan, Except.error.injEq, Option.some.injEq]
  · rintro ⟨t, nodes, -, -, hscan⟩
    simp only [hscan, reduceCtorEq, iff_false]
    cases harity : checkArity (t.output ++ nodes) with
    | ok _ => exact nofun
    | error found =>
      intro heq
      obtain rfl := Except.error.inj heq
      exact Bool.false_ne_true (he ▸ countsOperands_of_checkArity harity)
  · intro hscan
    simp only [hscan, Except.error.injEq, Option.some.injEq]

/-- The conversion of a text stops at the first token that is in error for the parentheses.  If
there is none, a parenthesis that is still open is an error, and otherwise the number of operands
decides.  Tokens that pass may be added, left out or moved without changing any error of the
parentheses. -/
theorem ofTokens_tokenize (bindings : Bindings) (text : String) :
    (match scan bindings none [] (Token.tokenize text) with
      | (.error e, rest) => ofTokens bindings (Token.tokenize text) = (.error e, rest)
      | (.ok (_ :: _), _) =>
        ofTokens bindings (Token.tokenize text) = (.error .missingCloseParen, [])
      | (.ok [], _) =>
        ∃ t nodes, run bindings .initial (Token.tokenize text) = (.ok t, []) ∧
          Pending.drain t.pending = .ok nodes ∧
          ofTokens bindings (Token.tokenize text) =
            ((checkArity (t.output ++ nodes)).map fun _ => t.output ++ nodes, [])) ∧
    ∀ other : String,
      ((Token.tokenize other).filter fun token => !passes bindings token) =
        ((Token.tokenize text).filter fun token => !passes bindings token) →
      ∀ e, countsOperands e = false →
        ((ofTokens bindings (Token.tokenize other)).1 = .error e ↔
          (ofTokens bindings (Token.tokenize text)).1 = .error e) := by
  have hform : ∀ text, ∀ token ∈ Token.tokenize text, token.WellFormed :=
    fun text token => Lexing.wellFormed_of_mem_tokenize
  have hcalled := Lexing.functionsCalled_tokenize
  refine ⟨ofTokens_eq_scan bindings (hform text) (hcalled text), fun other hother e he => ?_⟩
  rw [ofTokens_eq_error_iff (hform other) (hcalled other) he,
    ofTokens_eq_error_iff (hform text) (hcalled text) he, outcome?, outcome?,
    ← scan_filter (hcalled other) rfl, hother, scan_filter (hcalled text) rfl]

end Brackets

end PostfixCalc
