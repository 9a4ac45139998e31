import PostfixCalc.Proofs.Arity
import PostfixCalc.Proofs.Grammar.Arrangement

/-!
# Converting what the grammar derives

While the tokens of an expression are taken, its last operators may stay on the stack.  What is
known of them is the invariant of the conversion: together with the nodes put out they make up the
postorder of the expression, and none of them binds more loosely than the category of the expression
allows.  An open parenthesis keeps the operators outside of it apart from those inside.

Main results:

- `Converts.between`: an operator between two expressions makes one expression of them if it puts
  out what waits of the left one and stays below what comes of the right one.
- `Arranges.converts`: the tokens of the loosened grammar are converted to their nodes, wherever
  they stand.
- `Derives.converts`: the tokens of a derivation are converted to the postorder of its tree.
- `ofTokens_of_derives`: a derived token list is converted as a whole.
-/

namespace PostfixCalc

open Conversion

/-! ## Operators on the stack -/

/-- An operator on the stack that is neither a parenthesis nor a function. -/
inductive Waiting where
  | binary (op : BinaryOp)
  | sign (s : Sign)

namespace Waiting

/-- The entry of an operator on the stack. -/
def entry : Waiting → Pending
  | binary op => .binary op
  | sign s => .sign s

/-- The node that an operator becomes. -/
def node : Waiting → Node
  | binary op => .binary op
  | sign s => .unary (.sign s)

@[simp] theorem toNode_entry (w : Waiting) : w.entry.toNode = .ok w.node := by
  cases w <;> rfl

/-- No operator binds more tightly than a power. -/
theorem precedence_le (w : Waiting) : w.entry.precedence ≤ 5 := by
  rcases w with op | s
  · cases op <;> decide
  · exact Nat.le_refl 5

end Waiting

namespace Pending

/-- An entry stays below what binds more tightly, and below what binds equally but to the right. -/
theorem staysBelow_eq_true_iff {entry operator : Pending} :
    entry.staysBelow operator = true ↔
      entry.precedence < operator.precedence ∨
        (entry.precedence = operator.precedence ∧ operator.groupsRight = true) := by
  simp [staysBelow]

/-- Below an operator that groups to the right everything but a function stays. -/
theorem staysBelow_of_groupsRight {entry operator : Pending} (hentry : entry.precedence < 6)
    (hoperator : operator.precedence = 5) (hgroups : operator.groupsRight = true) :
    entry.staysBelow operator = true := by
  rw [staysBelow_eq_true_iff, hoperator]
  rcases Nat.lt_or_eq_of_le (Nat.le_of_lt_succ hentry) with hlt | heq
  · exact Or.inl hlt
  · exact Or.inr ⟨heq, hgroups⟩

/-- An operator puts out the operators that do not stay below it, down to an entry that does. -/
theorem yieldTo_waiting {operator : Pending} {waiting : List Waiting} {below : List Pending}
    (hwaiting : ∀ w ∈ waiting, ¬w.entry.staysBelow operator = true)
    (hbelow : ∀ top ∈ below.head?, top.staysBelow operator = true) :
    operator.yieldTo (waiting.map Waiting.entry ++ below) =
      .ok (waiting.map Waiting.node, below) := by
  induction waiting with
  | nil =>
    rcases below with _ | ⟨top, below⟩
    · rfl
    · rw [List.map_nil, List.nil_append, yieldTo, if_pos (hbelow top rfl)]
      rfl
  | cons w waiting ih =>
    have hrest := ih fun v hv => hwaiting v (List.mem_cons_of_mem w hv)
    rw [List.map_cons, List.cons_append, yieldTo, if_neg (hwaiting w List.mem_cons_self), hrest,
      Waiting.toNode_entry]
    rfl

/-- The operators inside a parenthesis are put out down to the parenthesis. -/
theorem unwind_waiting (waiting : List Waiting) (below : List Pending) :
    unwind (waiting.map Waiting.entry ++ openParen :: below) =
      .ok (waiting.map Waiting.node, below) := by
  induction waiting with
  | nil => rfl
  | cons w waiting ih => cases w <;> simp [Waiting.entry, unwind, ih, toNode, Waiting.node] <;> rfl

/-- In the end all operators are put out. -/
theorem drain_waiting (waiting : List Waiting) :
    drain (waiting.map Waiting.entry) = .ok (waiting.map Waiting.node) := by
  induction waiting with
  | nil => rfl
  | cons w waiting ih =>
    rw [List.map_cons, drain, ih, Waiting.toNode_entry]
    rfl

end Pending

namespace Conversion

/-! ## Steps of a run -/

variable {bindings : Bindings}

/-- A token that is no error is taken before the others. -/
theorem run_cons_of_step {s t : State} {token : Token} (h : s.step bindings token = .ok t)
    (tokens : List Token) : run bindings s (token :: tokens) = run bindings t tokens := by
  rw [run, h]

/-- Tokens without an error are taken before those that follow. -/
theorem run_append_of_ok {s t : State} {front rest : List Token}
    (h : run bindings s front = (.ok t, rest)) (back : List Token) :
    run bindings s (front ++ back) = run bindings t back := by
  rw [run_append, h]

/-- Closing a parenthesis that belongs to no function puts out the operators inside it. -/
theorem State.step_closeGroup {output : PostfixExpr} {waiting : List Waiting} {below : List Pending}
    (hbelow : ∀ word arguments, below.head? ≠ some (.call word arguments)) :
    State.step bindings ⟨output, waiting.map Waiting.entry ++ .openParen :: below⟩ .closeParen =
      .ok ⟨output ++ waiting.map Waiting.node, below⟩ := by
  simp only [State.step, State.close, Pending.unwind_waiting]
  rcases below with _ | ⟨top, below⟩
  · rfl
  · cases top with
    | call word arguments => exact absurd rfl (hbelow word arguments)
    | openParen | binary op | sign s => rfl

/-- Closing the parenthesis of a function puts out the operators inside it and the function. -/
theorem State.step_closeCall {word : String} {f : NamedFunction}
    (hword : NamedFunction.ofName? word = some f) (output : PostfixExpr) (waiting : List Waiting)
    (below : List Pending) :
    State.step bindings
        ⟨output, waiting.map Waiting.entry ++ .openParen :: .call word 1 :: below⟩ .closeParen =
      .ok ⟨output ++ waiting.map Waiting.node ++ [.unary (.function f)], below⟩ := by
  have hnode : (Pending.call word 1).toNode = .ok (.unary (.function f)) := by
    simp [Pending.toNode, hword]
  simp only [State.step, State.close, Pending.unwind_waiting, bind, Except.bind, hnode]

end Conversion

/-! ## The invariant -/

namespace Category

/-- The operators that an expression leaves on the stack bind at least this tightly. -/
def floor : Category → Nat
  | sum => 2
  | product => 3
  | signed | power => 5
  | atom => 6

/-- The entry on top of which an expression begins binds more loosely than this. -/
def ceiling : Category → Nat
  | sum => 2
  | product => 3
  | signed | power | atom => 6

/-- An expression of this category can begin on top of a stack. -/
def Admits (category : Category) (pending : List Pending) : Prop :=
  ∀ top ∈ pending.head?, top.precedence < category.ceiling

/-- Every expression can begin on an empty stack. -/
theorem admits_nil (category : Category) : category.Admits [] := nofun

/-- Every expression can begin after an open parenthesis. -/
theorem admits_openParen (category : Category) (pending : List Pending) :
    category.Admits (.openParen :: pending) := by
  intro top htop
  rw [List.head?_cons, Option.mem_some_iff] at htop
  subst htop
  cases category <;> decide

/-- A signed expression can begin after a sign. -/
theorem admits_sign (s : Sign) (pending : List Pending) :
    Category.signed.Admits (.sign s :: pending) := by
  intro top htop
  rw [List.head?_cons, Option.mem_some_iff] at htop
  subst htop
  exact Nat.lt_succ_self 5

/-- No expression can begin directly after a function. -/
theorem not_admits_call {category : Category} {pending : List Pending} (h : category.Admits pending)
    (word : String) (arguments : Nat) : pending.head? ≠ some (.call word arguments) := by
  intro hhead
  have hprecedence := h _ hhead
  cases category <;> simp [Pending.precedence, ceiling] at hprecedence

end Category

/-- Where a signed expression can begin, a sign goes on the stack and takes nothing off. -/
theorem Conversion.State.step_sign {bindings : Bindings} {output : PostfixExpr}
    {pending : List Pending} (hpending : Category.signed.Admits pending) (s : Sign) :
    State.step bindings ⟨output, pending⟩ (.sign s.symbol) = .ok ⟨output, .sign s :: pending⟩ := by
  have hyield : (Pending.sign s).yieldTo pending = .ok ([], pending) := by
    refine Pending.yieldTo_waiting (fun w hw => absurd hw List.not_mem_nil) fun top htop => ?_
    exact Pending.staysBelow_of_groupsRight (hpending top htop) rfl rfl
  simp [State.step, State.pushOperator, hyield, bind, Except.bind]

/-- Taking the tokens of an expression puts out nodes and leaves operators waiting, which together
are the given nodes, without touching what was there before. -/
def Converts (bindings : Bindings) (category : Category) (tokens : List Token)
    (nodes : PostfixExpr) : Prop :=
  ∀ (output : PostfixExpr) (pending : List Pending), category.Admits pending →
    ∃ (emitted : PostfixExpr) (waiting : List Waiting),
      run bindings ⟨output, pending⟩ tokens =
        (.ok ⟨output ++ emitted, waiting.map Waiting.entry ++ pending⟩, []) ∧
      (∀ w ∈ waiting, category.floor ≤ w.entry.precedence) ∧
      emitted ++ waiting.map Waiting.node = nodes

namespace Converts

variable {bindings : Bindings} {category : Category} {tokens : List Token} {nodes : PostfixExpr}

/-- A token that puts out a node at once is an atom. -/
theorem emit {token : Token} {node : Node}
    (hstep : ∀ s : State, s.step bindings token = .ok (s.emit node)) :
    Converts bindings .atom [token] [node] := by
  intro output pending _
  refine ⟨[node], [], ?_, by simp, by simp⟩
  rw [run_cons_of_step (hstep ⟨output, pending⟩)]
  rfl

/-- An expression of a category is one of every looser category. -/
theorem weaken {looser : Category} (hfloor : looser.floor ≤ category.floor)
    (hceiling : looser.ceiling ≤ category.ceiling) (h : Converts bindings category tokens nodes) :
    Converts bindings looser tokens nodes := by
  intro output pending hpending
  obtain ⟨emitted, waiting, hrun, hwaiting, hnodes⟩ :=
    h output pending fun top htop => Nat.lt_of_lt_of_le (hpending top htop) hceiling
  exact ⟨emitted, waiting, hrun, fun w hw => Nat.le_trans hfloor (hwaiting w hw), hnodes⟩

/-- An expression in parentheses is an atom. -/
theorem group (h : Converts bindings .sum tokens nodes) :
    Converts bindings .atom (.openParen :: (tokens ++ [.closeParen])) nodes := by
  intro output pending hpending
  obtain ⟨emitted, waiting, hrun, -, hnodes⟩ :=
    h output (.openParen :: pending) (Category.admits_openParen .sum pending)
  have hclose :
      State.step bindings ⟨output ++ emitted, waiting.map Waiting.entry ++ .openParen :: pending⟩
          .closeParen = _ :=
    State.step_closeGroup (Category.not_admits_call hpending)
  refine ⟨nodes, [], ?_, by simp, by simp⟩
  rw [run_cons_of_step (t := ⟨output, .openParen :: pending⟩) rfl, run_append_of_ok hrun,
    run_cons_of_step hclose, List.append_assoc, hnodes]
  rfl

/-- A function and an expression in parentheses are an atom. -/
theorem call {word : String} {f : NamedFunction} (hword : NamedFunction.ofName? word = some f)
    (h : Converts bindings .sum tokens nodes) :
    Converts bindings .atom (.function word :: .openParen :: (tokens ++ [.closeParen]))
      (nodes ++ [.unary (.function f)]) := by
  intro output pending _
  have hfunction :
      State.step bindings ⟨output, pending⟩ (.function word) =
        .ok ⟨output, .call word 1 :: pending⟩ := by
    simp [State.step, hword, State.push]
  obtain ⟨emitted, waiting, hrun, -, hnodes⟩ :=
    h output (.openParen :: .call word 1 :: pending) (Category.admits_openParen .sum _)
  have hclose : State.step bindings _ .closeParen = _ :=
    State.step_closeCall hword (output ++ emitted) waiting pending
  refine ⟨nodes ++ [.unary (.function f)], [], ?_, by simp, by simp⟩
  rw [run_cons_of_step hfunction,
    run_cons_of_step (t := ⟨output, .openParen :: .call word 1 :: pending⟩) rfl,
    run_append_of_ok hrun, run_cons_of_step hclose, List.append_assoc output, hnodes,
    List.append_assoc]
  rfl

/-- A sign and a signed expression are a signed expression. -/
theorem sign (s : Sign) (h : Converts bindings .signed tokens nodes) :
    Converts bindings .signed (.sign s.symbol :: tokens) (nodes ++ [.unary (.sign s)]) := by
  intro output pending hpending
  obtain ⟨emitted, waiting, hrun, hwaiting, hnodes⟩ :=
    h output (.sign s :: pending) (Category.admits_sign s pending)
  refine ⟨emitted, waiting ++ [.sign s], ?_, ?_, ?_⟩
  · rw [run_cons_of_step (State.step_sign hpending s), hrun]
    simp [Waiting.entry]
  · intro w hw
    rcases List.mem_append.1 hw with hw | hw
    · exact hwaiting w hw
    · rw [List.mem_singleton.1 hw]
      exact Nat.le_refl 5
  · simp [← hnodes, Waiting.node]

/-- An operator behind an expression puts out what waits of it, and nothing of what lies below. -/
theorem run_operator {symbol : String} {op : BinaryOp} (h : Converts bindings category tokens nodes)
    (hsymbol : BinaryOp.ofSymbol? symbol = some op)
    (houtput : ∀ w : Waiting, category.floor ≤ w.entry.precedence →
      ¬w.entry.staysBelow (.binary op) = true) {pending : List Pending}
    (hpending : category.Admits pending)
    (hstays : ∀ top ∈ pending.head?, top.staysBelow (.binary op) = true) (output : PostfixExpr) :
    run bindings ⟨output, pending⟩ (tokens ++ [.operator symbol]) =
      (.ok ⟨output ++ nodes, .binary op :: pending⟩, []) := by
  obtain ⟨emitted, waiting, hrun, hwaiting, hnodes⟩ := h output pending hpending
  have hyield :
      (Pending.binary op).yieldTo (waiting.map Waiting.entry ++ pending) =
        .ok (waiting.map Waiting.node, pending) :=
    Pending.yieldTo_waiting (fun w hw => houtput w (hwaiting w hw)) hstays
  have hstep :
      State.step bindings ⟨output ++ emitted, waiting.map Waiting.entry ++ pending⟩
          (.operator symbol) =
        .ok ⟨output ++ nodes, .binary op :: pending⟩ := by
    simp [State.step, hsymbol, State.pushOperator, hyield, bind, Except.bind, ← hnodes]
  rw [run_append_of_ok hrun, run_cons_of_step hstep]
  rfl

/-- An operator between two expressions makes one expression of them.  It puts out what waits of the
left one, and stays on the stack below what waits of the right one. -/
theorem between {left right : Category} {symbol : String} {op : BinaryOp} {front back : List Token}
    {nodes' : PostfixExpr} (hsymbol : BinaryOp.ofSymbol? symbol = some op)
    (hleft : Converts bindings left front nodes) (hright : Converts bindings right back nodes')
    (houtput : ∀ w : Waiting, left.floor ≤ w.entry.precedence →
      ¬w.entry.staysBelow (.binary op) = true)
    (hstays : ∀ top : Pending, top.precedence < category.ceiling →
      top.precedence < left.ceiling ∧ top.staysBelow (.binary op) = true)
    (hbegin : (Pending.binary op).precedence < right.ceiling)
    (hfloor : category.floor ≤ (Pending.binary op).precedence ∧ category.floor ≤ right.floor) :
    Converts bindings category (front ++ .operator symbol :: back)
      (nodes ++ nodes' ++ [.binary op]) := by
  intro output pending hpending
  have hoperator :=
    hleft.run_operator hsymbol houtput (fun top htop => (hstays top (hpending top htop)).1)
      (fun top htop => (hstays top (hpending top htop)).2) output
  have hadmits : right.Admits (.binary op :: pending) := by
    intro top htop
    rw [List.head?_cons, Option.mem_some_iff] at htop
    exact htop ▸ hbegin
  obtain ⟨emitted', waiting', hrun', hwaiting', hnodes'⟩ :=
    hright (output ++ nodes) (.binary op :: pending) hadmits
  refine ⟨nodes ++ emitted', waiting' ++ [.binary op], ?_, ?_, ?_⟩
  · rw [List.append_cons, run_append_of_ok hoperator, hrun']
    simp [Waiting.entry]
  · intro w hw
    rcases List.mem_append.1 hw with hw | hw
    · exact Nat.le_trans hfloor.2 (hwaiting' w hw)
    · rw [List.mem_singleton.1 hw]
      exact hfloor.1
  · simp [← hnodes', Waiting.node]

/-- An operator that groups to the left continues an expression of its own category. -/
theorem continued {right : Category} {symbol : String} {op : BinaryOp} {front back : List Token}
    {nodes' : PostfixExpr} (hsymbol : BinaryOp.ofSymbol? symbol = some op)
    (hfloor : (Pending.binary op).precedence = category.floor)
    (hceiling : (Pending.binary op).precedence = category.ceiling)
    (hgroups : (Pending.binary op).groupsRight = false)
    (hbegin : category.ceiling < right.ceiling) (hright' : category.floor ≤ right.floor)
    (hleft : Converts bindings category front nodes)
    (hright : Converts bindings right back nodes') :
    Converts bindings category (front ++ .operator symbol :: back)
      (nodes ++ nodes' ++ [.binary op]) := by
  refine between hsymbol hleft hright ?_ ?_ (hceiling ▸ hbegin) ⟨Nat.le_of_eq hfloor.symm, hright'⟩
  · intro w hw
    rw [Pending.staysBelow_eq_true_iff, hgroups, hfloor]
    rintro (hlt | ⟨-, hfalse⟩)
    · exact absurd hw (Nat.not_le_of_lt hlt)
    · exact Bool.noConfusion hfalse
  · intro top htop
    rw [Pending.staysBelow_eq_true_iff, hceiling]
    exact ⟨htop, Or.inl htop⟩

/-- A power groups to the right, and nothing waits of the atom at its base. -/
theorem power {front back : List Token} {nodes' : PostfixExpr}
    (hbase : Converts bindings .atom front nodes)
    (hexponent : Converts bindings .signed back nodes') :
    Converts bindings .power (front ++ .operator "^" :: back)
      (nodes ++ nodes' ++ [.binary .power]) := by
  refine between rfl hbase hexponent ?_ ?_ (Nat.lt_succ_self 5) ⟨Nat.le_refl 5, Nat.le_refl 5⟩
  · intro w hw
    exact absurd (Nat.le_trans hw w.precedence_le) (Nat.not_succ_le_self 5)
  · intro top htop
    exact ⟨htop, Pending.staysBelow_of_groupsRight htop rfl rfl⟩

/-- A missing operand puts out nothing. -/
theorem missing : Converts bindings .atom [] [] :=
  fun output _ _ => ⟨[], [], by rw [List.append_nil]; rfl, by simp, rfl⟩

/-- Operands side by side are put out one after another, since nothing waits of the first. -/
theorem beside {left right : List Token} {nodes nodes' : PostfixExpr}
    (hleft : Converts bindings .atom left nodes) (hright : Converts bindings .atom right nodes') :
    Converts bindings .atom (left ++ right) (nodes ++ nodes') := by
  intro output pending hpending
  obtain ⟨emitted, waiting, hrun, hwaiting, hnodes⟩ := hleft output pending hpending
  have hnone : waiting = [] := by
    rw [List.eq_nil_iff_forall_not_mem]
    intro w hw
    exact absurd (Nat.le_trans (hwaiting w hw) w.precedence_le) (Nat.not_succ_le_self 5)
  subst hnone
  obtain ⟨emitted', waiting', hrun', hwaiting', hnodes'⟩ :=
    hright (output ++ emitted) pending hpending
  refine ⟨emitted ++ emitted', waiting', ?_, hwaiting', ?_⟩
  · rw [run_append_of_ok hrun, List.map_nil, List.nil_append, hrun', List.append_assoc]
  · rw [← hnodes, ← hnodes', List.map_nil, List.append_nil, List.append_assoc]

end Converts

/-! ## Derivations -/

/-- The operators of sums are on the second level and group to the left. -/
theorem binding_of_sumOperator {symbol : String} {op : BinaryOp}
    (h : (symbol, op) ∈ sumOperators) :
    BinaryOp.ofSymbol? symbol = some op ∧ (Pending.binary op).precedence = 2 ∧
      (Pending.binary op).groupsRight = false := by
  simp only [sumOperators, List.mem_cons, List.not_mem_nil, or_false, Prod.mk.injEq] at h
  rcases h with ⟨rfl, rfl⟩ | ⟨rfl, rfl⟩ <;> exact ⟨rfl, rfl, rfl⟩

/-- The operators of products are on the third level and group to the left. -/
theorem binding_of_productOperator {symbol : String} {op : BinaryOp}
    (h : (symbol, op) ∈ productOperators) :
    BinaryOp.ofSymbol? symbol = some op ∧ (Pending.binary op).precedence = 3 ∧
      (Pending.binary op).groupsRight = false := by
  simp only [productOperators, List.mem_cons, List.not_mem_nil, or_false, Prod.mk.injEq] at h
  rcases h with ⟨rfl, rfl⟩ | ⟨rfl, rfl⟩ | ⟨rfl, rfl⟩ | ⟨rfl, rfl⟩ <;> exact ⟨rfl, rfl, rfl⟩

/-- The tokens of the loosened grammar are converted to their nodes. -/
theorem Arranges.converts {bindings : Bindings} {category : Category} {tokens : List Token}
    {nodes : PostfixExpr} (h : Arranges bindings category tokens nodes) :
    Converts bindings category tokens nodes := by
  induction h with
  | missing => exact .missing
  | beside _ _ ihl ihr => exact .beside ihl ihr
  | number value => exact .emit fun s => rfl
  | name hword => exact .emit fun s => by simp only [State.step, hword]
  | group _ ih => exact .group ih
  | call hword _ ih => exact .call hword ih
  | powerOfAtom _ ih | signedOfPower _ ih | productOfSigned _ ih | sumOfProduct _ ih =>
    exact .weaken (by decide) (by decide) ih
  | sign s _ ih => exact .sign s ih
  | power _ _ ihl ihr => exact .power ihl ihr
  | product hop _ _ ihl ihr =>
    obtain ⟨hsymbol, hprecedence, hgroups⟩ := binding_of_productOperator hop
    exact .continued hsymbol hprecedence hprecedence hgroups (by decide) (by decide) ihl ihr
  | sum hop _ _ ihl ihr =>
    obtain ⟨hsymbol, hprecedence, hgroups⟩ := binding_of_sumOperator hop
    exact .continued hsymbol hprecedence hprecedence hgroups (by decide) (by decide) ihl ihr

/-- The tokens of a derivation are converted to the postorder of the tree of its formula. -/
theorem Derives.converts {bindings : Bindings} {category : Category} {tokens : List Token}
    {f : Formula} (h : Derives category tokens f) {e : Expr} (he : f.resolve? bindings = some e) :
    Converts bindings category tokens e.postorder :=
  (h.arranges he).converts

/-- Of a whole token list of the loosened grammar, the operands are counted in the end. -/
theorem Arranges.ofTokens_eq {bindings : Bindings} {tokens : List Token} {nodes : PostfixExpr}
    (h : Arranges bindings .sum tokens nodes) :
    ofTokens bindings tokens = ((checkArity nodes).map fun _ => nodes, []) := by
  obtain ⟨emitted, waiting, hrun, -, hnodes⟩ :=
    h.converts [] [] (Category.admits_nil .sum)
  rw [List.nil_append, List.append_nil] at hrun
  simp only [ofTokens, State.initial, hrun, Except.bind, State.finish, Pending.drain_waiting, bind,
    hnodes]
  cases checkArity nodes <;> rfl

/-- A whole token list is converted to the postorder of the tree of its formula. -/
theorem Derives.ofTokens_eq {bindings : Bindings} {tokens : List Token} {f : Formula}
    (h : Derives .sum tokens f) {e : Expr} (he : f.resolve? bindings = some e) :
    ofTokens bindings tokens = (.ok e.postorder, []) := by
  rw [(h.arranges he).ofTokens_eq, checkArity_postorder]
  rfl

/-- A token list that the grammar derives is converted, if its names have values and its functions
exist, to the nodes of its syntax tree in postfix order, and no token is left over. -/
theorem ofTokens_of_derives {bindings : Bindings} {tokens : List Token} {f : Formula}
    (h : Derives .sum tokens f)
    (hnames : ∀ word, .name word ∈ tokens → (bindings.get? word).isSome)
    (hfunctions : ∀ word, .function word ∈ tokens → (NamedFunction.ofName? word).isSome) :
    ∃ e, f.resolve? bindings = some e ∧ ofTokens bindings tokens = (.ok e.postorder, []) := by
  obtain ⟨e, he⟩ := h.exists_resolve? hnames hfunctions
  exact ⟨e, he, h.ofTokens_eq he⟩

/-- The expression `2 ^ -sin(pi)`. -/
theorem ofTokens_of_derives_power :
    ofTokens Bindings.constants
        [.number (.ofBits 0x4000000000000000), .operator "^", .sign "-", .function "sin",
          .openParen, .name "pi", .closeParen] =
      (.ok [.operand (.ofBits 0x4000000000000000), .operand (.ofBits 0x400921FB54442D18),
        .unary (.function .sin), .unary (.sign .minus), .binary .power], []) := by
  have hname : Derives .sum [.name "pi"] (.name "pi") :=
    .sumOfProduct (.productOfSigned (.signedOfPower (.powerOfAtom (.name "pi"))))
  have hexponent :
      Derives .signed [.sign "-", .function "sin", .openParen, .name "pi", .closeParen]
        (.sign .minus (.call "sin" (.name "pi"))) :=
    .sign .minus (.signedOfPower (.powerOfAtom (.call "sin" hname)))
  have hpower := Derives.power (.number (.ofBits 0x4000000000000000)) hexponent
  have hsum := Derives.sumOfProduct (.productOfSigned (.signedOfPower hpower))
  obtain ⟨e, he, htokens⟩ :=
    @ofTokens_of_derives .constants _ _ hsum (by simp; decide) (by simp; decide)
  obtain rfl := Option.some.inj he
  exact htokens

end PostfixCalc
