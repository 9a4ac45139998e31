import PostfixCalc.Proofs.Conversion.Conservation
import PostfixCalc.Proofs.Grammar.Conversion
import PostfixCalc.Proofs.Grammar.Sequences

/-!
# What parentheses keep apart

Without the parentheses around them, tokens are taken on top of the entries in front.  They do the
same there as by themselves, until an operator takes off an entry that was there before: it
intrudes.  If none does, some operators may be left at the end that the closing parenthesis would
have put out.  Either way one conversion puts out an operator in front of an operand and the other
one behind it, and what is put out is never moved again.

Main results:

- `Conversion.run_onTop`: on top of other entries tokens do the same as by themselves, or intrude.
- `Conversion.length_output_le`: in front of an operand no other conversion to the same nodes has
  put out more.
- `Conversion.ne_of_intrudes`: parentheses are needed around tokens that intrude.
- `Conversion.ne_of_stays`: parentheses are needed around tokens of which an operator stays below
  the one that follows.
-/

namespace PostfixCalc

namespace Pending

variable {operator : Pending} {front rest : List Pending} {nodes : List Node}

/-- An operator takes the same entries off when there are others below, as long as one of them stays
below it. -/
theorem yieldTo_append (h : operator.yieldTo front = .ok (nodes, rest)) (hrest : rest ≠ [])
    (below : List Pending) :
    operator.yieldTo (front ++ below) = .ok (nodes, rest ++ below) := by
  induction front generalizing nodes with
  | nil =>
    rw [yieldTo, Except.ok.injEq, Prod.mk.injEq] at h
    exact absurd h.2.symm hrest
  | cons top front ih =>
    rw [List.cons_append, yieldTo]
    rcases exists_of_yieldTo_cons h with ⟨hstays, rfl, rfl⟩ | ⟨hyields, node, _, hnode, hfront, rfl⟩
    · rw [if_pos hstays]
      rfl
    · rw [if_neg hyields, hnode, ih hfront]
      rfl

/-- An operator that takes all entries off goes on with those below. -/
theorem yieldTo_append_of_nil (h : operator.yieldTo front = .ok (nodes, []))
    (below : List Pending) :
    operator.yieldTo (front ++ below) =
      (operator.yieldTo below).map fun found => (nodes ++ found.1, found.2) := by
  induction front generalizing nodes with
  | nil =>
    rw [yieldTo, Except.ok.injEq, Prod.mk.injEq] at h
    rw [← h.1, List.nil_append]
    cases operator.yieldTo below <;> rfl
  | cons top front ih =>
    rw [List.cons_append, yieldTo]
    rcases exists_of_yieldTo_cons h with ⟨-, -, hnil⟩ | ⟨hyields, node, _, hnode, hfront, rfl⟩
    · cases hnil
    · rw [if_neg hyields, hnode, ih hfront]
      cases operator.yieldTo below <;> rfl

/-- An entry that stays below an operator is not taken off, and nothing below it is. -/
theorem length_lt_of_yieldTo {below : List Pending}
    (h : operator.yieldTo (front ++ below) = .ok (nodes, rest)) {entry : Pending}
    (hentry : entry ∈ front) (hstays : entry.staysBelow operator = true) :
    nodes.length < front.length := by
  induction front generalizing nodes with
  | nil => exact absurd hentry List.not_mem_nil
  | cons top front ih =>
    rcases exists_of_yieldTo_cons h with ⟨-, rfl, -⟩ | ⟨hyields, _, nodes', -, hfront, rfl⟩
    · exact Nat.succ_pos _
    · cases List.mem_cons.1 hentry with
      | inl heq => exact absurd (heq ▸ hstays) hyields
      | inr hlater => exact Nat.succ_lt_succ (ih hfront hlater)

/-- A parenthesis is closed in the same way when there are other entries below. -/
theorem unwind_append (h : unwind front = .ok (nodes, rest)) (below : List Pending) :
    unwind (front ++ below) = .ok (nodes, rest ++ below) := by
  induction front generalizing nodes with
  | nil => cases h
  | cons top front ih =>
    rcases exists_of_unwind_cons h with ⟨rfl, rfl, rfl⟩ | ⟨hopen, node, _, hnode, hfront, rfl⟩
    · rfl
    · rw [List.cons_append, unwind]
      · rw [hnode, ih hfront]
        rfl
      · exact hopen

end Pending

namespace Conversion

variable {bindings : Bindings}

/-! ## On top of other entries -/

namespace State

variable {s t u : State} {below : List Pending}

/-- A state with other entries below its own. -/
def onTop (below : List Pending) (s : State) : State := { s with pending := s.pending ++ below }

/-- An operator that takes all entries off, and also one of those below, puts out more. -/
theorem length_lt_of_pushOperator {operator top : Pending} {nodes : List Node}
    (hyield : operator.yieldTo s.pending = .ok (nodes, [])) (htop : top ∈ below.head?)
    (hyields : ¬top.staysBelow operator = true) (h : s.pushOperator operator = .ok t)
    (hu : (s.onTop below).pushOperator operator = .ok u) : t.output.length < u.output.length := by
  rcases below with _ | ⟨first, below⟩
  · cases htop
  · obtain rfl := Option.some.inj htop
    simp only [pushOperator, hyield, bind, Except.bind, Except.ok.injEq] at h
    simp only [pushOperator, onTop, Pending.yieldTo_append_of_nil hyield, bind, Except.bind] at hu
    cases hbelow : operator.yieldTo (first :: below) with
    | error e => simp [hbelow, Except.map] at hu
    | ok found =>
      rcases Pending.exists_of_yieldTo_cons hbelow with ⟨hstays, -⟩ | ⟨-, node, _, -, -, hnodes⟩
      · exact absurd hstays hyields
      · simp only [hbelow, Except.map, Except.ok.injEq] at hu
        simp [← h, ← hu, hnodes]

/-- An operator does the same when there are other entries below, or takes one of them off. -/
theorem pushOperator_onTop {operator : Pending} (h : s.pushOperator operator = .ok t)
    (below : List Pending) :
    (s.onTop below).pushOperator operator = .ok (t.onTop below) ∨
    ∃ top ∈ below.head?, ¬top.staysBelow operator = true ∧
      ∀ u, (s.onTop below).pushOperator operator = .ok u → t.output.length < u.output.length := by
  cases hyield : operator.yieldTo s.pending with
  | error e => simp [pushOperator, hyield, bind, Except.bind] at h
  | ok found =>
    obtain ⟨nodes, rest⟩ := found
    by_cases hrest : rest = []
    · subst hrest
      rcases below with _ | ⟨top, below⟩
      · left
        simpa [onTop] using h
      · by_cases hstays : top.staysBelow operator = true
        · left
          have hnone : operator.yieldTo (top :: below) = .ok ([], top :: below) := by
            rw [Pending.yieldTo, if_pos hstays]
          simp only [pushOperator, hyield, bind, Except.bind, Except.ok.injEq] at h
          simp only [pushOperator, onTop, Pending.yieldTo_append_of_nil hyield, hnone, Except.map,
            bind, Except.bind, ← h, List.append_nil, List.cons_append, List.nil_append]
        · right
          refine ⟨top, rfl, hstays, fun u hu => ?_⟩
          exact length_lt_of_pushOperator hyield rfl hstays h hu
    · left
      simp only [pushOperator, hyield, bind, Except.bind, Except.ok.injEq] at h
      simp [pushOperator, onTop, Pending.yieldTo_append hyield hrest, bind, Except.bind, ← h]

theorem close_onTop (h : s.close = .ok t)
    (hbelow : ∀ word arguments, below.head? ≠ some (.call word arguments)) :
    (s.onTop below).close = .ok (t.onTop below) := by
  unfold close at h ⊢
  cases hunwind : Pending.unwind s.pending with
  | error e => simp [hunwind, bind, Except.bind] at h
  | ok found =>
    obtain ⟨nodes, rest⟩ := found
    simp only [hunwind, bind, Except.bind] at h
    simp only [onTop, Pending.unwind_append hunwind, bind, Except.bind]
    rcases rest with _ | ⟨top, rest⟩
    · rw [Except.ok.injEq] at h
      rw [← h]
      rcases below with _ | ⟨first, below⟩
      · rfl
      · cases first with
        | call word arguments => exact absurd rfl (hbelow word arguments)
        | openParen | binary op | sign s => rfl
    · cases top with
      | call word arguments =>
        cases hnode : Pending.toNode (.call word arguments) with
        | error e => simp [hnode] at h
        | ok node =>
          simp only [hnode, Except.ok.injEq] at h
          simp [hnode, ← h]
      | openParen | binary op | sign s =>
        rw [Except.ok.injEq] at h
        rw [← h]
        rfl

theorem separate_onTop (h : s.separate = .ok t) (below : List Pending) :
    (s.onTop below).separate = .ok (t.onTop below) := by
  unfold separate at h ⊢
  cases hunwind : Pending.unwind s.pending with
  | error e => simp [hunwind, bind, Except.bind] at h
  | ok found =>
    obtain ⟨nodes, rest⟩ := found
    simp only [hunwind, bind, Except.bind] at h
    simp only [onTop, Pending.unwind_append hunwind, bind, Except.bind]
    split at h
    · rw [Except.ok.injEq] at h
      rw [← h]
      rfl
    · cases h

/-- A token does the same when there are other entries below, or is an operator that takes one of
them off. -/
theorem step_onTop {token : Token} (h : s.step bindings token = .ok t)
    (hbelow : Category.atom.Admits below) :
    (s.onTop below).step bindings token = .ok (t.onTop below) ∨
    ∃ symbol op top, token = .operator symbol ∧ BinaryOp.ofSymbol? symbol = some op ∧
      top ∈ below.head? ∧ ¬top.staysBelow (.binary op) = true ∧
      ∀ u, (s.onTop below).step bindings token = .ok u → t.output.length < u.output.length := by
  cases token with
  | number value =>
    left
    rw [step, Except.ok.injEq] at h
    rw [← h]
    rfl
  | name word =>
    left
    rw [step] at h ⊢
    split at h
    · rw [Except.ok.injEq] at h
      rw [← h]
      rfl
    · cases h
  | function word =>
    left
    rw [step] at h ⊢
    split at h
    · rw [Except.ok.injEq] at h
      rw [← h]
      rfl
    · cases h
  | sign symbol =>
    rw [step] at h
    split at h
    · rename_i sign hsign
      rcases pushOperator_onTop h below with hsame | ⟨top, htop, hyields, -⟩
      · left
        rw [step, hsign]
        exact hsame
      · -- A sign takes nothing off but functions.
        exact absurd (Pending.staysBelow_of_groupsRight (hbelow top htop) rfl rfl) hyields
    · cases h
  | operator symbol =>
    rw [step] at h
    split at h
    · rename_i op hop
      simp only [step, hop]
      rcases pushOperator_onTop h below with hsame | ⟨top, htop, hyields, hmore⟩
      · exact Or.inl hsame
      · exact Or.inr ⟨symbol, op, top, rfl, hop, htop, hyields, hmore⟩
    · cases h
  | openParen =>
    left
    rw [step, Except.ok.injEq] at h
    rw [← h]
    rfl
  | closeParen => exact Or.inl (close_onTop h (Category.not_admits_call hbelow))
  | comma => exact Or.inl (separate_onTop h below)
  | unknown text => cases h

end State

/-- On top of other entries, one of the operators among the tokens puts out more than it does by
itself. -/
def Intrudes (bindings : Bindings) (s : State) (below : List Pending) (tokens : List Token) :
    Prop :=
  ∃ front symbol back t u, tokens = front ++ .operator symbol :: back ∧
    run bindings s (front ++ [.operator symbol]) = (.ok t, []) ∧
    run bindings (s.onTop below) (front ++ [.operator symbol]) = (.ok u, []) ∧
    t.output.length < u.output.length

variable {s t u : State} {below : List Pending} {tokens front back : List Token}

theorem Intrudes.cons {token : Token} (h : s.step bindings token = .ok t)
    (h' : (s.onTop below).step bindings token = .ok (t.onTop below))
    (hrest : Intrudes bindings t below tokens) : Intrudes bindings s below (token :: tokens) := by
  obtain ⟨front, symbol, back, t', u', rfl, ht, hu, hmore⟩ := hrest
  refine ⟨token :: front, symbol, back, t', u', rfl, ?_, ?_, hmore⟩
  · rw [List.cons_append, run_cons_of_step h, ht]
  · rw [List.cons_append, run_cons_of_step h', hu]

theorem Intrudes.append (h : Intrudes bindings s below front) (back : List Token) :
    Intrudes bindings s below (front ++ back) := by
  obtain ⟨before, symbol, behind, t, u, rfl, hruns⟩ := h
  exact ⟨before, symbol, behind ++ back, t, u, by simp, hruns⟩

/-- On top of other entries tokens do the same as by themselves, or one of them intrudes. -/
theorem run_onTop (h : run bindings s tokens = (.ok t, []))
    (hbelow : Category.atom.Admits below)
    (hu : run bindings (s.onTop below) tokens = (.ok u, [])) :
    u = t.onTop below ∨ Intrudes bindings s below tokens := by
  induction tokens generalizing s with
  | nil =>
    left
    rw [← eq_of_run_nil hu, eq_of_run_nil h]
  | cons token tokens ih =>
    obtain ⟨s', hs', hrest⟩ := exists_step_of_run h
    obtain ⟨v, hv, hvrest⟩ := exists_step_of_run hu
    rcases State.step_onTop hs' hbelow with hsame | ⟨symbol, op, top, rfl, -, -, -, hmore⟩
    · obtain rfl : s'.onTop below = v := Except.ok.inj (hsame.symm.trans hv)
      cases ih hrest hvrest with
      | inl heq => exact Or.inl heq
      | inr hintrudes => exact Or.inr (.cons hs' hsame hintrudes)
    · right
      refine ⟨[], symbol, tokens, s', v, rfl, ?_, ?_, hmore v hv⟩
      · rw [List.nil_append, run_cons_of_step hs']
        rfl
      · rw [List.nil_append, run_cons_of_step hv]
        rfl

/-- No operator takes an open parenthesis off, so inside it tokens do the same as by themselves. -/
theorem run_onTop_openParen (h : run bindings s tokens = (.ok t, [])) (below : List Pending) :
    run bindings (s.onTop (.openParen :: below)) tokens =
      (.ok (t.onTop (.openParen :: below)), []) := by
  induction tokens generalizing s with
  | nil => rw [run, eq_of_run_nil h]
  | cons token tokens ih =>
    obtain ⟨s', hs', hrest⟩ := exists_step_of_run h
    have hadmits : Category.atom.Admits (.openParen :: below) :=
      Category.admits_openParen .atom below
    rcases State.step_onTop hs' hadmits with hsame | ⟨symbol, op, top, -, -, htop, hyields, -⟩
    · rw [run_cons_of_step hsame, ih hrest]
    · obtain rfl := Option.some.inj htop
      have hstays : Pending.openParen.staysBelow (.binary op) = true := by cases op <;> rfl
      exact absurd hstays hyields

/-- An operator intrudes if it takes off everything in front of it and an entry below. -/
theorem intrudes_of_yields {symbol : String} {op : BinaryOp} {top : Pending} {nodes : List Node}
    (hfront : run bindings s front = (.ok t, [])) (hsymbol : BinaryOp.ofSymbol? symbol = some op)
    (hyield : (Pending.binary op).yieldTo t.pending = .ok (nodes, []))
    (hbelow : Category.atom.Admits below) (htop : top ∈ below.head?)
    (hyields : ¬top.staysBelow (.binary op) = true)
    (hu : run bindings (s.onTop below) (front ++ .operator symbol :: back) = (.ok u, [])) :
    Intrudes bindings s below (front ++ .operator symbol :: back) := by
  obtain ⟨v, hv, hvrest⟩ := exists_run_of_append hu
  rcases run_onTop hfront hbelow hv with rfl | hintrudes
  · obtain ⟨w, hw, -⟩ := exists_step_of_run hvrest
    have ht : t.step bindings (.operator symbol) =
        .ok ⟨t.output ++ nodes, [.binary op]⟩ := by
      simp [State.step, hsymbol, State.pushOperator, hyield, bind, Except.bind]
    have hmore : (t.output ++ nodes).length < w.output.length := by
      simp only [State.step, hsymbol] at ht hw
      exact State.length_lt_of_pushOperator hyield htop hyields ht hw
    refine ⟨front, symbol, back, ⟨t.output ++ nodes, [.binary op]⟩, w, rfl, ?_, ?_, hmore⟩
    · rw [run_append_of_ok hfront, run_cons_of_step ht]
      rfl
    · rw [run_append_of_ok hv, run_cons_of_step hw]
      rfl
  · exact hintrudes.append _

/-! ## In front of an operand -/

/-- What is put out is never moved again. -/
theorem output_prefix_of_run (h : run bindings s tokens = (.ok t, [])) :
    s.output <+: t.output := by
  induction tokens generalizing s with
  | nil => exact eq_of_run_nil h ▸ List.prefix_rfl
  | cons token tokens ih =>
    obtain ⟨u, hstep, hrest⟩ := exists_step_of_run h
    refine List.IsPrefix.trans ?_ (ih hrest)
    cases State.takes_of_step hstep with
    | value | entry | close | separate => exact List.prefix_append _ _

/-- Of a converted token list the first tokens are taken without an error. -/
theorem exists_run_of_ofTokens_append {nodes : PostfixExpr}
    (h : (ofTokens bindings (front ++ back)).1 = .ok nodes) :
    ∃ s, run bindings .initial front = (.ok s, []) := by
  obtain ⟨t, waiting, hrun, -⟩ := exists_run_of_ofTokens h
  obtain ⟨s, hfront, -⟩ := exists_run_of_append hrun
  exact ⟨s, hfront⟩

/-- The other tokens are taken behind them, and the nodes begin with what they put out. -/
theorem exists_run_behind {nodes : PostfixExpr}
    (h : (ofTokens bindings (front ++ back)).1 = .ok nodes)
    (hs : run bindings .initial front = (.ok s, [])) :
    ∃ t, run bindings s back = (.ok t, []) ∧ t.output <+: nodes := by
  obtain ⟨t, waiting, hrun, -, rfl, -⟩ := exists_run_of_ofTokens h
  rw [run_append_of_ok hs] at hrun
  exact ⟨t, hrun, List.prefix_append _ _⟩

/-- A token that goes on the stack is on top of it. -/
theorem head?_pending_of_run {token : Token} {entry : Pending}
    (hentry : token.toPending? = some entry)
    (h : run bindings s (front ++ [token]) = (.ok t, [])) : t.pending.head? = some entry := by
  obtain ⟨u, -, hlast⟩ := exists_run_of_append h
  obtain ⟨v, hstep, hnil⟩ := exists_step_of_run hlast
  rw [← eq_of_run_nil hnil]
  cases State.takes_of_step hstep with
  | value hvalue =>
    have hnone := Token.value?_of_toPending? hentry bindings
    rw [hvalue] at hnone
    cases hnone
  | entry hentry' =>
    rw [hentry] at hentry'
    exact hentry'.symm
  | close | separate => cases hentry

/-- Behind an operator an expression can begin. -/
theorem admits_of_run {symbol : String}
    (h : run bindings s (front ++ [.operator symbol]) = (.ok t, [])) :
    Category.atom.Admits t.pending := by
  obtain ⟨u, -, hlast⟩ := exists_run_of_append h
  obtain ⟨v, hstep, -⟩ := exists_step_of_run hlast
  cases hsymbol : BinaryOp.ofSymbol? symbol with
  | none => simp [State.step, hsymbol] at hstep
  | some op =>
    have hentry : (Token.operator symbol).toPending? = some (.binary op) := by
      rw [Token.toPending?, hsymbol]
      rfl
    intro top htop
    rw [head?_pending_of_run hentry h, Option.mem_some_iff] at htop
    rw [← htop]
    cases op <;> decide

/-- The signs, functions and parentheses in front of an operand put nothing out. -/
theorem exists_operand_of_run (hbegins : BeginsOperand tokens)
    (hadmits : Category.atom.Admits s.pending) (h : run bindings s tokens = (.ok t, [])) :
    ∃ value, s.output ++ [.operand value] <+: t.output := by
  induction hbegins generalizing s with
  | number value rest =>
    obtain ⟨u, hstep, hrest⟩ := exists_step_of_run h
    rw [State.step, Except.ok.injEq] at hstep
    refine ⟨value, ?_⟩
    have hfirst := output_prefix_of_run hrest
    rwa [← hstep] at hfirst
  | name word rest =>
    obtain ⟨u, hstep, hrest⟩ := exists_step_of_run h
    rw [State.step] at hstep
    split at hstep
    · rename_i value _
      rw [Except.ok.injEq] at hstep
      refine ⟨value, ?_⟩
      have hfirst := output_prefix_of_run hrest
      rwa [← hstep] at hfirst
    · cases hstep
  | sign sign _ ih =>
    rw [run_cons_of_step (State.step_sign hadmits sign)] at h
    exact ih (s := ⟨s.output, .sign sign :: s.pending⟩) (Category.admits_sign sign s.pending) h
  | group _ ih =>
    have hstep : s.step bindings .openParen = .ok (s.push .openParen) := rfl
    rw [run_cons_of_step hstep] at h
    exact ih (s := s.push .openParen) (Category.admits_openParen .atom s.pending) h
  | call word _ ih =>
    obtain ⟨u, hword, hrest⟩ := exists_step_of_run h
    rw [State.step] at hword
    split at hword
    · rw [Except.ok.injEq] at hword
      rw [← hword] at hrest
      have hopen : (s.push (.call word 1)).step bindings .openParen =
          .ok ((s.push (.call word 1)).push .openParen) := rfl
      rw [run_cons_of_step hopen] at hrest
      exact ih (s := (s.push (.call word 1)).push .openParen)
        (Category.admits_openParen .atom _) hrest
    · cases hword

/-- In front of the same operand of the same nodes, no conversion has put out more than one that
goes on with this operand. -/
theorem length_output_le {front' back' : List Token} {nodes : PostfixExpr}
    (h : (ofTokens bindings (front ++ back)).1 = .ok nodes)
    (hs : run bindings .initial front = (.ok s, [])) (hadmits : Category.atom.Admits s.pending)
    (hbegins : BeginsOperand back) (h' : (ofTokens bindings (front' ++ back')).1 = .ok nodes)
    (ht : run bindings .initial front' = (.ok t, []))
    (hvalues : front'.filterMap (Token.value? bindings) = front.filterMap (Token.value? bindings)) :
    t.output.length ≤ s.output.length := by
  obtain ⟨last, hlast, hnodes⟩ := exists_run_behind h hs
  obtain ⟨last', hlast', hnodes'⟩ := exists_run_behind h' ht
  obtain ⟨value, hoperand⟩ := exists_operand_of_run hbegins hadmits hlast
  have hoperands : t.output.filterMap Node.value? = s.output.filterMap Node.value? := by
    have hfront : State.Conserves bindings ([] ++ front) s :=
      run_keeps (fun h hstep => h.step hstep) (State.conserves_initial bindings) hs
    have hfront' : State.Conserves bindings ([] ++ front') t :=
      run_keeps (fun h hstep => h.step hstep) (State.conserves_initial bindings) ht
    rw [hfront.values, hfront'.values, List.nil_append, List.nil_append, hvalues]
  -- Had it put out more, the operand would be among it.
  by_contra hmore
  have hlonger : (s.output ++ [Node.operand value]).length ≤ t.output.length := by
    rw [List.length_append]
    exact Nat.lt_of_not_le hmore
  have hfirst : s.output ++ [Node.operand value] <+: t.output :=
    List.prefix_of_prefix_length_le (hoperand.trans hnodes)
      ((output_prefix_of_run hlast').trans hnodes') hlonger
  have hcount := (hfirst.filterMap Node.value?).length_le
  rw [hoperands, List.filterMap_append, List.length_append] at hcount
  exact absurd hcount (Nat.not_succ_le_self _)

/-- Two conversions end with different nodes if one of them has put out less than the other behind
an operator, and goes on with an operand. -/
theorem ne_of_length_lt {front' back' : List Token} {symbol : String} {nodes nodes' : PostfixExpr}
    (h : (ofTokens bindings (front ++ .operator symbol :: back)).1 = .ok nodes)
    (h' : (ofTokens bindings (front' ++ .operator symbol :: back')).1 = .ok nodes')
    (hs : run bindings .initial (front ++ [.operator symbol]) = (.ok s, []))
    (ht : run bindings .initial (front' ++ [.operator symbol]) = (.ok t, []))
    (hbegins : BeginsOperand back)
    (hvalues : front'.filterMap (Token.value? bindings) = front.filterMap (Token.value? bindings))
    (hmore : s.output.length < t.output.length) : nodes ≠ nodes' := by
  rintro rfl
  rw [List.append_cons] at h h'
  refine absurd (length_output_le h hs (admits_of_run hs) hbegins h' ht ?_)
    (Nat.not_le_of_lt hmore)
  rw [List.filterMap_append, List.filterMap_append, hvalues]

/-! ## Removing parentheses -/

variable {lead inside trail : List Token} {nodes nodes' : PostfixExpr}

/-- Parentheses are needed around tokens that would intrude on what is in front of them. -/
theorem ne_of_intrudes
    (hchains : Chains (lead ++ .openParen :: (inside ++ .closeParen :: trail)))
    (hlead : run bindings .initial lead = (.ok s, []))
    (hintrudes : Intrudes bindings ⟨s.output, []⟩ s.pending inside)
    (h : (ofTokens bindings (lead ++ .openParen :: (inside ++ .closeParen :: trail))).1 = .ok nodes)
    (h' : (ofTokens bindings (lead ++ (inside ++ trail))).1 = .ok nodes') : nodes ≠ nodes' := by
  obtain ⟨front, symbol, back, t, u, rfl, ht, hu, hmore⟩ := hintrudes
  have hsplit : lead ++ .openParen :: (front ++ .operator symbol :: back ++ .closeParen :: trail) =
      lead ++ .openParen :: front ++ .operator symbol :: (back ++ .closeParen :: trail) := by
    simp
  have hsplit' : lead ++ (front ++ .operator symbol :: back ++ trail) =
      lead ++ front ++ .operator symbol :: (back ++ trail) := by
    simp
  rw [hsplit] at h
  rw [hsplit'] at h'
  have hin : run bindings .initial (lead ++ .openParen :: front ++ [.operator symbol]) =
      (.ok (t.onTop (.openParen :: s.pending)), []) := by
    have hopen : s.step bindings .openParen =
        .ok (State.onTop (.openParen :: s.pending) ⟨s.output, []⟩) := rfl
    rw [List.append_assoc, run_append_of_ok hlead, List.cons_append, run_cons_of_step hopen]
    exact run_onTop_openParen ht s.pending
  have hout : run bindings .initial (lead ++ front ++ [.operator symbol]) = (.ok u, []) := by
    rw [List.append_assoc, run_append_of_ok hlead]
    exact hu
  refine ne_of_length_lt h h' hin hout (hchains _ symbol _ hsplit) ?_ hmore
  simp [List.filterMap_cons, Token.value?]

/-- In parentheses all operators that wait are put out. -/
theorem run_group {output : PostfixExpr} {waiting : List Waiting}
    (hinside : run bindings ⟨s.output, []⟩ inside = (.ok ⟨output, waiting.map Waiting.entry⟩, []))
    (hadmits : Category.atom.Admits s.pending) :
    run bindings s (.openParen :: (inside ++ [.closeParen])) =
      (.ok ⟨output ++ waiting.map Waiting.node, s.pending⟩, []) := by
  have hopen : s.step bindings .openParen =
      .ok (State.onTop (.openParen :: s.pending) ⟨s.output, []⟩) := rfl
  have hclose : State.step bindings
      (State.onTop (.openParen :: s.pending) ⟨output, waiting.map Waiting.entry⟩) .closeParen =
      .ok ⟨output ++ waiting.map Waiting.node, s.pending⟩ :=
    State.step_closeGroup (Category.not_admits_call hadmits)
  rw [run_cons_of_step hopen, run_append_of_ok (run_onTop_openParen hinside s.pending),
    run_cons_of_step hclose]
  rfl

/-- An operator that stays below the next one is not put out by it. -/
theorem length_lt_of_stays {symbol : String} {op : BinaryOp} {output : PostfixExpr}
    {waiting : List Waiting} {w : Waiting}
    (h : run bindings ⟨output, waiting.map Waiting.entry ++ below⟩ [.operator symbol] = (.ok u, []))
    (hsymbol : BinaryOp.ofSymbol? symbol = some op) (hw : w ∈ waiting)
    (hstays : w.entry.staysBelow (.binary op) = true) :
    u.output.length < (output ++ waiting.map Waiting.node).length := by
  obtain ⟨v, hstep, hnil⟩ := exists_step_of_run h
  rw [← eq_of_run_nil hnil]
  simp only [State.step, hsymbol, State.pushOperator] at hstep
  cases hyield : (Pending.binary op).yieldTo (waiting.map Waiting.entry ++ below) with
  | error e => simp [hyield, bind, Except.bind] at hstep
  | ok found =>
    have hfewer :=
      Pending.length_lt_of_yieldTo hyield (List.mem_map_of_mem hw) hstays
    simp only [hyield, bind, Except.bind, Except.ok.injEq] at hstep
    rw [← hstep, List.length_append, List.length_append, List.length_map]
    rw [List.length_map] at hfewer
    exact Nat.add_lt_add_left hfewer _

/-- Parentheses are needed around tokens of which an operator stays below the one that follows. -/
theorem ne_of_stays {symbol : String} {op : BinaryOp} {output : PostfixExpr}
    {waiting : List Waiting} {w : Waiting}
    (hchains : Chains
      (lead ++ .openParen :: (inside ++ .closeParen :: .operator symbol :: trail)))
    (hlead : run bindings .initial lead = (.ok s, [])) (hadmits : Category.atom.Admits s.pending)
    (hinside : run bindings ⟨s.output, []⟩ inside =
      (.ok ⟨output, waiting.map Waiting.entry⟩, []))
    (hsymbol : BinaryOp.ofSymbol? symbol = some op) (hw : w ∈ waiting)
    (hstays : w.entry.staysBelow (.binary op) = true)
    (h : (ofTokens bindings
      (lead ++ .openParen :: (inside ++ .closeParen :: .operator symbol :: trail))).1 = .ok nodes)
    (h' : (ofTokens bindings (lead ++ (inside ++ .operator symbol :: trail))).1 = .ok nodes') :
    nodes ≠ nodes' := by
  have hgroup : run bindings .initial (lead ++ .openParen :: (inside ++ [.closeParen])) =
      (.ok ⟨output ++ waiting.map Waiting.node, s.pending⟩, []) := by
    rw [run_append_of_ok hlead]
    exact run_group hinside hadmits
  have hsplit : lead ++ .openParen :: (inside ++ .closeParen :: .operator symbol :: trail) =
      lead ++ .openParen :: (inside ++ [.closeParen]) ++ .operator symbol :: trail := by
    simp
  have hbegins : BeginsOperand trail := hchains _ symbol trail hsplit
  obtain ⟨last, hlast, -⟩ := exists_run_behind h' hlead
  obtain ⟨v, hv, hbehind⟩ := exists_run_of_append hlast
  rw [← List.singleton_append] at hbehind
  obtain ⟨u, hu, -⟩ := exists_run_of_append hbehind
  rcases run_onTop (s := ⟨s.output, []⟩) hinside hadmits hv with rfl | hintrudes
  · -- Nothing intruded, so the operators that wait differ only by where they are put out.
    rw [hsplit] at h
    rw [← List.append_assoc] at h'
    have hrest := h
    rw [List.append_cons] at hrest
    obtain ⟨t, ht⟩ := exists_run_of_ofTokens_append hrest
    have hfast := ht
    rw [run_append_of_ok hgroup] at hfast
    have hslow : run bindings .initial (lead ++ inside ++ [.operator symbol]) = (.ok u, []) := by
      rw [List.append_assoc, run_append_of_ok hlead, run_append_of_ok hv, hu]
    have hmore : u.output.length < t.output.length :=
      Nat.lt_of_lt_of_le (length_lt_of_stays hu hsymbol hw hstays)
        (output_prefix_of_run hfast).length_le
    refine (ne_of_length_lt h' h hslow ht hbegins ?_ hmore).symm
    simp [List.filterMap_cons, Token.value?]
  · exact ne_of_intrudes hchains hlead hintrudes h h'

end Conversion

end PostfixCalc
