import PostfixCalc.Proofs.Conversion.Isolation
import PostfixCalc.Proofs.Printing.Surroundings
import PostfixCalc.Proofs.RoundTrip

/-!
# Printed expressions have no needless parentheses

A pair of parentheses that a frame put around its operand may be taken out of the text, and what is
left is an expression again.  But it is another one: the operator of the operand takes the one of
the frame off the stack, or is left on the stack by the one that follows.  The exception are the
parentheses that keep two minus signs in a row apart, which only serve the reader.

Main results:

- `Expr.exists_exposes`: the operator of an operand stands outside of all parentheses of its text.
- `Frame.ne_of_parenthesizes`: the nodes without parentheses are others, unless two minus signs
  meet.
- `PostfixExpr.toInfix_needs_parentheses`: every pair of parentheses in a printed expression that is
  not that of a call is needed, except between two minus signs.
-/

namespace PostfixCalc

open Conversion

/-! ## The operator at the root -/

namespace Pending

/-- What waits of a left operand without parentheses does not stay below the operator. -/
theorem not_staysBelow_of_floor {op : BinaryOp} {w : Waiting}
    (h : (Category.ofStrength op.leastLeft).floor ≤ w.entry.precedence) :
    ¬w.entry.staysBelow (.binary op) = true := by
  rw [staysBelow_eq_true_iff]
  cases op with
  | power => exact absurd (Nat.le_trans h w.precedence_le) (by decide)
  | plus | minus | multiply | divide | modulo =>
    rintro (hlt | ⟨-, hgroups⟩)
    · exact absurd h (Nat.not_le_of_lt hlt)
    · cases hgroups

/-- What is too weak for a left operand without parentheses stays below the operator. -/
theorem staysBelow_of_lt_leastLeft {op : BinaryOp} {entry : Pending}
    (h : entry.precedence < op.leastLeft) : entry.staysBelow (.binary op) = true := by
  cases op with
  | power => exact staysBelow_of_groupsRight h rfl rfl
  | plus | minus | multiply | divide | modulo => exact staysBelow_eq_true_iff.2 (Or.inl h)

/-- An operator does not stay below what is too weak for its right operand without parentheses. -/
theorem not_staysBelow_of_lt_leastRight {op root : BinaryOp}
    (h : root.binding.strength < op.leastRight) :
    ¬(Pending.binary op).staysBelow (.binary root) = true := by
  revert h
  cases op <;> cases root <;> decide

/-- A sign does not stay below what is too weak for its operand without parentheses. -/
theorem not_staysBelow_of_lt {s : Sign} {root : BinaryOp} (h : root.binding.strength < 5) :
    ¬(Pending.sign s).staysBelow (.binary root) = true := by
  revert h
  cases s <;> cases root <;> decide

end Pending

/-- The operator at the root of an expression stands among its tokens outside of all parentheses. -/
inductive Exposes : List Token → Formula → Waiting → Prop
  | binary (op : BinaryOp) {left right : List Token} {f g : Formula}
      (hleft : Derives (.ofStrength op.leastLeft) left f)
      (hright : Derives (.ofStrength op.leastRight) right g) :
      Exposes (left ++ .operator op.symbol :: right) (.binary op f g) (.binary op)
  | sign (s : Sign) {tokens : List Token} {f : Formula} (h : Derives .signed tokens f) :
      Exposes (.sign s.symbol :: tokens) (.sign s f) (.sign s)

namespace Exposes

variable {tokens : List Token} {f : Formula} {root : Waiting}

/-- The tokens are an expression that holds together as tightly as the operator binds. -/
theorem derives (h : Exposes tokens f root) :
    Derives (.ofStrength root.entry.precedence) tokens f := by
  cases h with
  | binary op hleft hright =>
    have hstrength : (Waiting.binary op).entry.precedence = op.binding.strength := by
      cases op <;> rfl
    rw [hstrength]
    exact .binary op hleft hright
  | sign s h => exact .sign s h

/-- By themselves the tokens leave the operator at the root waiting. -/
theorem exists_run {bindings : Bindings} {e : Expr} (h : Exposes tokens f root)
    (he : f.resolve? bindings = some e) (output : PostfixExpr) :
    ∃ (output' : PostfixExpr) (waiting : List Waiting), run bindings ⟨output, []⟩ tokens =
      (.ok ⟨output', waiting.map Waiting.entry⟩, []) ∧ root ∈ waiting := by
  cases h with
  | @binary op left right f g hleft hright =>
    simp only [Formula.resolve?, Option.bind_eq_some_iff, Option.map_eq_some_iff] at he
    obtain ⟨l, hl, r, hr, -⟩ := he
    have hoperator := (hleft.converts hl).run_operator (BinaryOp.ofSymbol?_symbol op)
      (fun w hw => Pending.not_staysBelow_of_floor hw) (Category.admits_nil _) (by simp) output
    have hadmits : (Category.ofStrength op.leastRight).Admits [.binary op] := by
      intro top htop
      rw [List.head?_cons, Option.mem_some_iff] at htop
      rw [← htop]
      cases op <;> decide
    obtain ⟨emitted, waiting, hrun, -, -⟩ :=
      hright.converts hr (output ++ l.postorder) [.binary op] hadmits
    refine ⟨output ++ l.postorder ++ emitted, waiting ++ [.binary op], ?_, by simp⟩
    rw [List.append_cons, run_append_of_ok hoperator, hrun]
    simp [Waiting.entry]
  | @sign s tokens f h =>
    simp only [Formula.resolve?, Option.map_eq_some_iff] at he
    obtain ⟨e, he, -⟩ := he
    obtain ⟨emitted, waiting, hrun, -, -⟩ :=
      h.converts he output [.sign s] (Category.admits_sign s [])
    refine ⟨output ++ emitted, waiting ++ [.sign s], ?_, by simp⟩
    rw [run_cons_of_step (State.step_sign (Category.admits_nil .signed) s), hrun]
    simp [Waiting.entry]

end Exposes

/-- No operator holds together more tightly than a power. -/
theorem BinaryOp.strength_le (op : BinaryOp) : op.binding.strength ≤ 5 := by
  cases op <;> decide

namespace Expr

/-- A tree that is printed with a minus sign in front: a unary minus, or a number whose sign is
negative. -/
def IsNegative : Expr → Prop
  | operand value => value.negative = true
  | unary (.sign .minus) _ => True
  | unary _ _ => False
  | binary _ _ _ => False

/-- A negative tree holds together like a sign and its operand. -/
theorem strength_of_isNegative (e : Expr) (h : e.IsNegative) : e.binding.strength = 5 := by
  cases e with
  | operand value => exact congrArg Binding.strength (if_pos h)
  | unary op argument =>
    cases op with
    | function f => exact absurd h id
    | sign s => rfl
  | binary op left right => exact absurd h id

/-- The operator of a tree that is no atom stands outside of all parentheses of its text. -/
theorem exists_exposes {e : Expr} (hfinite : e.IsFinite) (h : e.binding.strength < 6) :
    ∃ tokens root, Exposes tokens e.formula root ∧ Lexing.Spells e.toText.toList tokens ∧
      root.entry.precedence = e.binding.strength := by
  cases e with
  | operand value =>
    have hvalue : value.isFinite = true := hfinite value (by simp [postorder])
    have hnan : ¬value.isNaN = true := fun hnan => Binary64.not_isFinite_of_isNaN hnan hvalue
    by_cases hnegative : value.negative = true
    · obtain ⟨tokens, hderives, hspells⟩ := value.writes_magnitude hnan
      refine ⟨.sign Sign.minus.symbol :: tokens, .sign .minus, ?_, ?_, ?_⟩
      · rw [formula, Binary64.formula, if_pos ⟨hnegative, hnan⟩]
        exact .sign .minus (.signedOfPower (.powerOfAtom hderives))
      · have htext := hspells.sign .minus
        rwa [toText, Binary64.plainText, Binary64.textWith, if_neg hnan, if_pos hnegative,
          String.toList_append]
      · rw [binding, if_pos hnegative]
        rfl
    · rw [binding, if_neg hnegative] at h
      exact absurd h (by decide)
  | unary op argument =>
    cases op with
    | function f =>
      have hstrong : 7 < 6 := h
      exact absurd hstrong (by decide)
    | sign s =>
      obtain ⟨tokens, hderives, hspells⟩ := (Frame.sign s).exists_spells argument
      refine ⟨.sign s.symbol :: tokens, .sign s, .sign s hderives, ?_, rfl⟩
      rw [toText_sign]
      exact hspells.sign s
  | binary op left right =>
    obtain ⟨tokens, hderives, hspells⟩ := (Frame.left op right).exists_spells left
    obtain ⟨tokens', hderives', hspells'⟩ := (Frame.right op left).exists_spells right
    refine ⟨tokens ++ .operator op.symbol :: tokens', .binary op, .binary op hderives hderives', ?_,
      by cases op <;> rfl⟩
    rw [toText_binary]
    simpa using hspells.binary op hspells'

/-- The text of an atom does not begin with a minus sign. -/
theorem head?_toText_ne {e : Expr} (hfinite : e.IsFinite) (h : 6 ≤ e.binding.strength) :
    e.toText.toList.head? ≠ some '-' := by
  cases e with
  | operand value =>
    have hvalue : value.isFinite = true := hfinite value (by simp [postorder])
    by_cases hnegative : value.negative = true
    · rw [binding, if_pos hnegative] at h
      exact absurd h (by decide)
    · obtain ⟨c, rest, hdigits, hc⟩ := value.shortest.positional_isPositional.exists_cons
      rw [toText, Binary64.plainText_of_isFinite hvalue, if_neg hnegative, String.empty_append,
        String.toList_ofList, hdigits, List.head?_cons]
      intro hminus
      rw [Option.some.inj hminus] at hc
      exact absurd hc (by decide)
  | unary op argument =>
    cases op with
    | function f =>
      rw [toText_call]
      cases f <;> simp [NamedFunction.name]
    | sign s =>
      have hstrong : 6 ≤ 5 := h
      exact absurd hstrong (by decide)
  | binary op left right => exact absurd (Nat.le_trans h op.strength_le) (by decide)

/-- A tree whose text begins with a minus sign is negative, if it holds together at least as tightly
as a sign and its operand. -/
theorem isNegative_of_head? {e : Expr} (hfinite : e.IsFinite) (h : 5 ≤ e.binding.strength)
    (hhead : e.toText.toList.head? = some '-') : e.IsNegative := by
  cases e with
  | operand value =>
    by_cases hnegative : value.negative = true
    · exact hnegative
    · refine absurd hhead (head?_toText_ne hfinite ?_)
      rw [binding, if_neg hnegative]
      decide
  | unary op argument =>
    cases op with
    | function f =>
      have hstrong : 6 ≤ 7 := by decide
      exact absurd hhead (head?_toText_ne hfinite hstrong)
    | sign s =>
      cases s with
      | minus => exact trivial
      | plus =>
        rw [toText_sign] at hhead
        exact absurd hhead (by simp [Sign.symbol])
  | binary op left right =>
    obtain rfl : op = .power := by
      rw [binding] at h
      revert h
      cases op <;> decide
    -- The left operand of a power is an atom or stands in parentheses.
    refine absurd hhead ?_
    rw [toText_binary, Frame.operandText]
    split
    · simp
    · rename_i hparens
      have hstrong : 6 ≤ left.binding.strength := Frame.least_le_of_not_parenthesizes hparens
      have hleft := head?_toText_ne (isFinite_binary.1 hfinite).1 hstrong
      cases htext : left.toText.toList with
      | nil => simp
      | cons c rest => simpa [htext] using hleft

end Expr

/-! ## Without the parentheses -/

/-- The pair was put by the frame. -/
theorem Wraps.parenthesizes {e operand : Expr} {frame : Frame} {front back : List Char}
    (h : Wraps e frame operand front back) : frame.parenthesizes operand = true := by
  induction h with
  | here hparens => exact hparens
  | inside _ _ ih => exact ih

/-- The nodes of an operand are among those of its frame. -/
theorem Frame.isFinite_of_fill {frame : Frame} {operand : Expr}
    (h : (frame.fill operand).IsFinite) : operand.IsFinite := by
  cases frame with
  | function f => exact Expr.isFinite_unary.1 h
  | sign s => exact Expr.isFinite_unary.1 h
  | left op other => exact (Expr.isFinite_binary.1 h).1
  | right op other => exact (Expr.isFinite_binary.1 h).2

theorem Wraps.isFinite {e operand : Expr} {frame : Frame} {front back : List Char}
    (h : Wraps e frame operand front back) (hfinite : e.IsFinite) : operand.IsFinite := by
  induction h with
  | here => exact Frame.isFinite_of_fill hfinite
  | inside outer _ ih => exact ih (Frame.isFinite_of_fill hfinite)

/-- An atom gets no parentheses. -/
theorem Frame.strength_lt_of_parenthesizes {frame : Frame} {operand : Expr}
    (hfinite : operand.IsFinite) (h : frame.parenthesizes operand = true) :
    operand.binding.strength < 6 := by
  by_contra hstrong
  have hatom : 6 ≤ operand.binding.strength := Nat.le_of_not_lt hstrong
  cases frame with
  | function f => cases h
  | sign s =>
    simp only [parenthesizes, Bool.or_eq_true, Bool.and_eq_true, decide_eq_true_eq, beq_iff_eq] at h
    rcases h with hweak | ⟨-, hhead⟩
    · exact absurd hatom (by omega)
    · exact Expr.head?_toText_ne hfinite hatom hhead
  | left op other =>
    simp only [parenthesizes, decide_eq_true_eq] at h
    have hleast : op.leastLeft ≤ 6 := by cases op <;> decide
    exact hstrong (Nat.lt_of_lt_of_le h hleast)
  | right op other =>
    simp only [parenthesizes, decide_eq_true_eq] at h
    have hleast : op.leastRight ≤ 6 := by cases op <;> decide
    exact hstrong (Nat.lt_of_lt_of_le h hleast)

section Tokens

variable {bindings : Bindings} {s : State} {lead trail tokens : List Token} {e : Expr}
  {nodes nodes' : PostfixExpr}

/-- Behind the tokens in front of an operand an expression can begin. -/
theorem Surrounds.admits_of_run {front back : List Char} (h : Surrounds front back lead trail)
    (hlead : run bindings .initial lead = (.ok s, [])) : Category.atom.Admits s.pending := by
  cases hlast : lead.getLast? with
  | none =>
    rw [List.getLast?_eq_none_iff.1 hlast, run, Prod.mk.injEq, Except.ok.injEq] at hlead
    rw [← hlead.1]
    exact Category.admits_nil .atom
  | some last =>
    obtain ⟨entry, hentry, hprecedence⟩ := h.admits last hlast
    obtain ⟨init, rfl⟩ := List.getLast?_eq_some_iff.1 hlast
    intro top htop
    rw [head?_pending_of_run hentry hlead, Option.mem_some_iff] at htop
    rw [← htop]
    exact hprecedence

/-- An operator at the root that takes the one in front off needs parentheses. -/
theorem Exposes.ne_of_yields {f : Formula} {op : BinaryOp} {last : Token} {entry : Pending}
    (h : Exposes tokens f (.binary op)) (he : f.resolve? bindings = some e)
    (hlast : lead.getLast? = some last) (hentry : last.toPending? = some entry)
    (hyields : ¬entry.staysBelow (.binary op) = true)
    (hlead : run bindings .initial lead = (.ok s, [])) (hadmits : Category.atom.Admits s.pending)
    (hchains : Chains (lead ++ .openParen :: (tokens ++ .closeParen :: trail)))
    (hwith : (ofTokens bindings (lead ++ .openParen :: (tokens ++ .closeParen :: trail))).1 =
      .ok nodes)
    (hwithout : (ofTokens bindings (lead ++ (tokens ++ trail))).1 = .ok nodes') :
    nodes ≠ nodes' := by
  obtain ⟨t, hbehind, -⟩ := exists_run_behind hwithout hlead
  obtain ⟨u, hu, -⟩ := exists_run_of_append hbehind
  refine ne_of_intrudes hchains hlead ?_ hwith hwithout
  cases h with
  | @binary _ left right f g hleft hright =>
    simp only [Formula.resolve?, Option.bind_eq_some_iff] at he
    obtain ⟨l, hl, -⟩ := he
    obtain ⟨emitted, waiting, hrun, hwaiting, -⟩ :=
      hleft.converts hl s.output [] (Category.admits_nil _)
    have hyield : (Pending.binary op).yieldTo (waiting.map Waiting.entry ++ []) =
        .ok (waiting.map Waiting.node, []) :=
      Pending.yieldTo_waiting (fun w hw => Pending.not_staysBelow_of_floor (hwaiting w hw))
        (by simp)
    have htop : entry ∈ s.pending.head? := by
      obtain ⟨init, rfl⟩ := List.getLast?_eq_some_iff.1 hlast
      exact head?_pending_of_run hentry hlead
    exact intrudes_of_yields hrun (BinaryOp.ofSymbol?_symbol op) hyield hadmits htop hyields hu

/-- The parentheses that a frame puts around an operand are needed, unless they keep two minus signs
apart. -/
theorem Frame.ne_of_parenthesizes {frame : Frame} {operand : Expr} {root : Waiting}
    (hparens : frame.parenthesizes operand = true) (hfinite : operand.IsFinite)
    (hminus : ¬(frame = .sign .minus ∧ operand.IsNegative)) (hadjoins : frame.Adjoins lead trail)
    (h : Exposes tokens operand.formula root)
    (hroot : root.entry.precedence = operand.binding.strength)
    (hlead : run bindings .initial lead = (.ok s, [])) (hadmits : Category.atom.Admits s.pending)
    (hchains : Chains (lead ++ .openParen :: (tokens ++ .closeParen :: trail)))
    (hwith : (ofTokens bindings (lead ++ .openParen :: (tokens ++ .closeParen :: trail))).1 =
      .ok nodes)
    (hwithout : (ofTokens bindings (lead ++ (tokens ++ trail))).1 = .ok nodes') :
    nodes ≠ nodes' := by
  have hresolve := Expr.resolve?_formula hfinite bindings
  have hweakest : ∀ {bound : Nat}, operand.binding.strength < bound → bound ≤ 5 →
      ∃ op, root = .binary op ∧ op.binding.strength = operand.binding.strength := by
    intro bound hweak hbound
    cases root with
    | binary op => exact ⟨op, rfl, by rw [← hroot]; cases op <;> rfl⟩
    | sign s =>
      have hsign : 5 = operand.binding.strength := hroot
      exact absurd hweak (by omega)
  cases frame with
  | function f => cases hparens
  | sign s =>
    have hweak : operand.binding.strength < 5 := by
      simp only [parenthesizes, Bool.or_eq_true, Bool.and_eq_true, decide_eq_true_eq,
        beq_iff_eq] at hparens
      rcases hparens with hweak | ⟨rfl, hhead⟩
      · exact hweak
      · by_contra hstrong
        exact hminus ⟨rfl, Expr.isNegative_of_head? hfinite (Nat.le_of_not_lt hstrong) hhead⟩
    obtain ⟨op, rfl, hstrength⟩ := hweakest hweak (Nat.le_refl 5)
    exact h.ne_of_yields hresolve hadjoins (Token.toPending?_sign s)
      (Pending.not_staysBelow_of_lt (hstrength ▸ hweak)) hlead hadmits hchains hwith hwithout
  | left op other =>
    simp only [parenthesizes, decide_eq_true_eq] at hparens
    obtain ⟨trail, rfl⟩ := List.head?_eq_some_iff.1 hadjoins
    obtain ⟨output, waiting, hrun, hmem⟩ := h.exists_run hresolve s.output
    exact ne_of_stays hchains hlead hadmits hrun (BinaryOp.ofSymbol?_symbol op) hmem
      (Pending.staysBelow_of_lt_leastLeft (hroot ▸ hparens)) hwith hwithout
  | right op other =>
    simp only [parenthesizes, decide_eq_true_eq] at hparens
    have hbound : op.leastRight ≤ 5 := by cases op <;> decide
    obtain ⟨op', rfl, hstrength⟩ := hweakest hparens hbound
    exact h.ne_of_yields hresolve hadjoins (Token.toPending?_operator op)
      (Pending.not_staysBelow_of_lt_leastRight (hstrength ▸ hparens)) hlead hadmits hchains hwith
      hwithout

/-- An expression is converted if it has no other tokens than one that is. -/
theorem IsExpression.exists_ofTokens {larger : List Token} (h : IsExpression tokens)
    (hsubset : tokens ⊆ larger) (hlarger : (ofTokens bindings larger).1 = .ok nodes) :
    ∃ nodes', (ofTokens bindings tokens).1 = .ok nodes' := by
  obtain ⟨f, hf⟩ := h
  have hknown := hasNode_of_ofTokens hlarger
  have hnames : ∀ word, .name word ∈ tokens → (bindings.get? word).isSome := by
    intro word hword
    simpa [Token.isParen, Token.HasNode, Token.value?, Token.operation?]
      using hknown _ (hsubset hword)
  have hfunctions : ∀ word, .function word ∈ tokens → (NamedFunction.ofName? word).isSome := by
    intro word hword
    simpa [Token.isParen, Token.HasNode, Token.value?, Token.operation?]
      using hknown _ (hsubset hword)
  obtain ⟨e, he⟩ := hf.exists_resolve? hnames hfunctions
  exact ⟨e.postorder, by rw [hf.ofTokens_eq he]⟩

end Tokens

/-- Taking a pair of parentheses that a frame put around its operand out of the text of a tree
leaves an expression.  It has the same nodes exactly if the frame is a minus sign and the operand
negative. -/
theorem Wraps.exists_ofText {e operand : Expr} {frame : Frame} {front back : List Char}
    (h : Wraps e frame operand front back) (hfinite : e.IsFinite) (bindings : Bindings) :
    ∃ read without, ofText bindings e.toText = .ok read ∧
      ofText bindings (String.ofList (front ++ operand.toText.toList ++ back)) = .ok without ∧
      (without = read ↔ frame = .sign .minus ∧ operand.IsNegative) := by
  obtain ⟨lead, trail, hsurrounds, hadjoins, hderives⟩ := h.exists_surrounds
  have hoperand := h.isFinite hfinite
  obtain ⟨tokens, root, hexposes, hspells, hroot⟩ := Expr.exists_exposes hoperand
    (Frame.strength_lt_of_parenthesizes hoperand h.parenthesizes)
  have hwith : Token.tokenize e.toText =
      lead ++ .openParen :: (tokens ++ .closeParen :: trail) := by
    rw [Lexing.tokenize_eq, h.toText, hsurrounds.tokensAfter_group hspells]
  have hwithout : Token.tokenize (String.ofList (front ++ operand.toText.toList ++ back)) =
      lead ++ (tokens ++ trail) := by
    rw [Lexing.tokenize_eq, String.toList_ofList, hsurrounds.tokensAfter_eq hspells]
  have hread := Expr.ofText_toText hfinite bindings
  rw [ofText, hwith] at hread
  have hexpression : IsExpression (lead ++ (tokens ++ trail)) := by
    rw [← List.append_assoc]
    exact hsurrounds.isExpression ⟨_, hexposes.derives.sum_of_ofStrength⟩
  have hsubset : lead ++ (tokens ++ trail) ⊆
      lead ++ .openParen :: (tokens ++ .closeParen :: trail) := by
    intro token htoken
    simp only [List.mem_append, List.mem_cons] at htoken ⊢
    tauto
  obtain ⟨without, hconverted⟩ := hexpression.exists_ofTokens hsubset hread
  refine ⟨e.splitSigns.postorder, without, ?_, ?_, ?_, ?_⟩
  · rw [ofText, hwith, hread]
  · rw [ofText, hwithout, hconverted]
  · intro heq
    by_contra hminus
    obtain ⟨s, hlead⟩ := exists_run_of_ofTokens_append hread
    have hchains : Chains (lead ++ .openParen :: (tokens ++ .closeParen :: trail)) := by
      rw [← hwith]
      exact e.derives_tokenize.chains
    exact Frame.ne_of_parenthesizes h.parenthesizes hoperand hminus hadjoins hexposes hroot hlead
      (hsurrounds.admits_of_run hlead) hchains hread hconverted heq.symm
  · rintro ⟨rfl, hnegative⟩
    -- Both texts are the same expression then, in which a signed operand follows the sign.
    have hsigned : Derives (.ofStrength (Frame.sign .minus).least) tokens operand.formula := by
      rw [Frame.least, ← operand.strength_of_isNegative hnegative, ← hroot]
      exact hexposes.derives
    have hsame := (hderives hsigned).sum_of_ofStrength
    rw [List.append_assoc] at hsame
    rw [hsame.ofTokens_eq (Expr.resolve?_formula hfinite bindings)] at hconverted
    exact (Except.ok.inj hconverted).symm

/-- The pairs of parentheses in a printed expression of finite numbers that are not those of calls
are needed.  Without such a pair the text is still accepted.  It was put around the text of an
operand by its frame, and the nodes without it are others, unless the frame is a minus sign and the
operand itself negative: then, and only then, they are the same. -/
theorem PostfixExpr.toInfix_needs_parentheses {nodes : PostfixExpr} (h : checkArity nodes = .ok ())
    (hfinite : ∀ value, .operand value ∈ nodes → value.isFinite = true)
    {front inside back : List Char} (hpair : Groups nodes.toInfix.toList front inside back)
    (bindings : Bindings) :
    ∃ e read without, nodes = e.postorder ∧ ofText bindings nodes.toInfix = .ok read ∧
      ofText bindings (String.ofList (front ++ inside ++ back)) = .ok without ∧
      (∃ frame operand, Wraps e frame operand front back) ∧
      ∀ frame operand, Wraps e frame operand front back → inside = operand.toText.toList ∧
        (without = read ↔ frame = .sign .minus ∧ operand.IsNegative) := by
  obtain ⟨e, rfl⟩ := checkArity_eq_ok_iff.1 h
  rw [PostfixExpr.toInfix_postorder] at hpair ⊢
  obtain ⟨frame, operand, hwraps, hinside⟩ := Expr.exists_wraps hpair
  obtain ⟨read, without, hread, hwithout, -⟩ := hwraps.exists_ofText hfinite bindings
  rw [← hinside] at hwithout
  refine ⟨e, read, without, rfl, hread, hwithout, ⟨frame, operand, hwraps⟩, ?_⟩
  intro frame' operand' hwraps'
  have hinside' : inside = operand'.toText.toList := by
    have hsplit := hpair.split.symm.trans hwraps'.toText
    have htail := (List.cons.inj (List.append_cancel_left hsplit)).2
    exact (hpair.balanced.unique operand'.balanced_toText htail).1
  obtain ⟨read', without', hread', hwithout', hsame⟩ := hwraps'.exists_ofText hfinite bindings
  rw [← hinside', hwithout, Except.ok.injEq] at hwithout'
  rw [hread, Except.ok.injEq] at hread'
  rw [hwithout', hread']
  exact ⟨hinside', hsame⟩

/-- The parentheses of `-(2 + 3)`. -/
theorem PostfixExpr.toInfix_needs_parentheses_sum :
    let nodes : PostfixExpr :=
      [.operand (.ofBits 0x4000000000000000), .operand (.ofBits 0x4008000000000000), .binary .plus,
        .unary (.sign .minus)]
    ∃ e read without, nodes = e.postorder ∧ ofText .constants "-(2 + 3)" = .ok read ∧
      ofText .constants "-2 + 3" = .ok without ∧
      (∃ frame operand, Wraps e frame operand ['-'] []) ∧
      ∀ frame operand, Wraps e frame operand ['-'] [] → "2 + 3".toList = operand.toText.toList ∧
        (without = read ↔ frame = .sign .minus ∧ operand.IsNegative) := by
  intro nodes
  have htext : nodes.toInfix = "-(2 + 3)" := by decide +kernel
  have hfinite : ∀ value, .operand value ∈ nodes → value.isFinite = true := by
    intro value hvalue
    simp only [nodes, List.mem_cons, Node.operand.injEq, List.not_mem_nil, reduceCtorEq, or_false]
      at hvalue
    rcases hvalue with rfl | rfl <;> rfl
  have hpair : Groups nodes.toInfix.toList ['-'] "2 + 3".toList [] := by
    refine ⟨by rw [htext]; rfl, .of_not_mem (by decide) (by decide), fun f => ?_⟩
    cases f <;> decide
  have hneeded := toInfix_needs_parentheses rfl hfinite hpair .constants
  rwa [htext] at hneeded

end PostfixCalc
