import PostfixCalc.Calculator
import PostfixCalc.Proofs.Conversion.Steps
import PostfixCalc.Proofs.Evaluation.Tree
import PostfixCalc.Proofs.Grammar.Conversion
import PostfixCalc.Proofs.Grammar.Printing
import PostfixCalc.Proofs.Lexing.Basic

/-!
# Reading printed expressions back

The text of a tree is an expression again.  What is read back is the same tree, except that a
negative number has become a sign in front of its magnitude, which changes neither the text nor the
value.  Infinities and non-numbers are printed as words that no calculator knows.

Main results:

- `Derives.ofTokens_unknown`: the first name is the one in error if it has no value.
- `Expr.ofText_toText`: a printed tree of finite numbers is read back with its signs split off.
- `Calculator.convert_toInfix`: the same for every accepted postfix expression, and the word in
  error if some operand is not finite.
-/

namespace PostfixCalc

/-! ## Negative numbers -/

/-- A node as it is read back: a negative number as the number of opposite sign and a sign. -/
def Node.splitSign : Node → List Node
  | .operand value =>
    if value.negative then [.operand value.neg, .unary (.sign .minus)] else [.operand value]
  | node => [node]

namespace Expr

/-- A tree as it is read back. -/
def splitSigns : Expr → Expr
  | operand value =>
    if value.negative then unary (.sign .minus) (operand value.neg) else operand value
  | unary op argument => unary op argument.splitSigns
  | binary op left right => binary op left.splitSigns right.splitSigns

/-- All numbers in a tree are finite. -/
def IsFinite (e : Expr) : Prop := ∀ value, .operand value ∈ e.postorder → value.isFinite = true

theorem isFinite_unary {op : UnaryOp} {argument : Expr} :
    (unary op argument).IsFinite ↔ argument.IsFinite := by
  simp [IsFinite, postorder]

theorem isFinite_binary {op : BinaryOp} {left right : Expr} :
    (binary op left right).IsFinite ↔ left.IsFinite ∧ right.IsFinite := by
  simp [IsFinite, postorder, or_imp, forall_and]

/-- Splitting the signs of a tree splits those of its nodes. -/
theorem postorder_splitSigns (e : Expr) :
    e.splitSigns.postorder = e.postorder.flatMap Node.splitSign := by
  induction e with
  | operand value =>
    simp only [splitSigns, postorder, List.flatMap_singleton, Node.splitSign]
    split <;> rfl
  | unary op argument ih => simp [splitSigns, postorder, ih, Node.splitSign]
  | binary op left right ihl ihr => simp [splitSigns, postorder, ihl, ihr, Node.splitSign]

/-- Splitting signs keeps the value. -/
theorem value_splitSigns (e : Expr) : e.splitSigns.value = e.value := by
  induction e with
  | operand value =>
    rw [splitSigns]
    split
    · exact value.neg_neg
    · rfl
  | unary op argument ih => simp only [splitSigns, value, ih]
  | binary op left right ihl ihr => simp only [splitSigns, value, ihl, ihr]

/-- Splitting signs keeps the last failure, since a sign never fails. -/
theorem lastFailure?_splitSigns (e : Expr) : e.splitSigns.lastFailure? = e.lastFailure? := by
  induction e with
  | operand value =>
    rw [splitSigns]
    split
    · rfl
    · rfl
  | unary op argument ih =>
    rw [splitSigns, lastFailure?_unary, lastFailure?_unary, ih, value_splitSigns]
  | binary op left right ihl ihr =>
    rw [splitSigns, lastFailure?_binary, lastFailure?_binary, ihl, ihr, value_splitSigns,
      value_splitSigns]

/-- A sign holds together like a number printed with one. -/
theorem binding_splitSigns (e : Expr) : e.splitSigns.binding = e.binding := by
  cases e with
  | operand value =>
    rw [splitSigns]
    split
    · rename_i hnegative
      rw [binding, binding, if_pos hnegative]
    · rfl
  | unary op argument => cases op <;> rfl
  | binary op left right => rfl

end Expr

/-- The text of a finite number. -/
theorem Binary64.plainText_of_isFinite {x : Binary64} (h : x.isFinite = true) :
    x.plainText = (if x.negative then "-" else "") ++ String.ofList x.shortest.positional :=
  textWith_of_isFinite h _ _

/-- A sign in front of a magnitude is printed like a negative number. -/
theorem Expr.toText_negative {value : Binary64} (hnegative : value.negative = true)
    (hfinite : value.isFinite = true) :
    (unary (.sign .minus) (operand value.neg)).toText = value.plainText := by
  have hneg : value.neg.negative = false := by simp [Binary64.neg, hnegative]
  have hmagnitude : value.neg.plainText = String.ofList value.shortest.positional := by
    rw [Binary64.plainText_of_isFinite (show value.neg.isFinite = true from hfinite), hneg]
    exact String.empty_append
  obtain ⟨c, rest, hdigits, hc⟩ := value.shortest.positional_isPositional.exists_cons
  have hhead : c ≠ '-' := by
    rintro rfl
    exact absurd hc (by decide)
  rw [toText, toText, hmagnitude, Binary64.plainText_of_isFinite hfinite, if_pos hnegative,
    binding, hneg]
  simp [parenthesizeIf, hdigits, hhead]
  rfl

/-- Splitting signs keeps the text of finite numbers. -/
theorem Expr.toText_splitSigns {e : Expr} (h : e.IsFinite) : e.splitSigns.toText = e.toText := by
  induction e with
  | operand value =>
    rw [splitSigns]
    split
    · rename_i hnegative
      exact toText_negative hnegative (h value (by simp [postorder]))
    · rfl
  | unary op argument ih =>
    have hargument := ih (isFinite_unary.1 h)
    cases op with
    | sign s => simp only [splitSigns, toText, hargument, binding_splitSigns]
    | function f => simp only [splitSigns, toText, hargument]
  | binary op left right ihl ihr =>
    have hoperands := isFinite_binary.1 h
    simp only [splitSigns, toText, ihl hoperands.1, ihr hoperands.2, binding_splitSigns]

/-! ## Finite numbers -/

/-- The text of a tree of finite numbers stands for the tree with its signs split off. -/
theorem Expr.resolve?_formula {e : Expr} (h : e.IsFinite) (bindings : Bindings) :
    e.formula.resolve? bindings = some e.splitSigns := by
  induction e with
  | operand value =>
    have hfinite : value.isFinite = true := h value (by simp [postorder])
    have hnan : ¬value.isNaN = true := fun hnan => Binary64.not_isFinite_of_isNaN hnan hfinite
    rw [formula, Binary64.formula, Binary64.magnitudeFormula, if_pos hfinite, splitSigns]
    by_cases hnegative : value.negative = true
    · rw [if_pos ⟨hnegative, hnan⟩, if_pos hnegative]
      simp [Formula.resolve?, Binary64.neg, hnegative]
    · rw [if_neg fun h => hnegative h.1, if_neg hnegative]
      have hpositive : value.negative = false := by simpa using hnegative
      simp [Formula.resolve?, ← hpositive]
  | unary op argument ih =>
    have hargument := ih (isFinite_unary.1 h)
    cases op with
    | sign s => simp [formula, Formula.resolve?, hargument, splitSigns]
    | function f => simp [formula, Formula.resolve?, hargument, splitSigns]
  | binary op left right ihl ihr =>
    have hoperands := isFinite_binary.1 h
    simp [formula, Formula.resolve?, ihl hoperands.1, ihr hoperands.2, splitSigns]

/-- The tokens of a printed tree derive from the grammar. -/
theorem Expr.derives_tokenize (e : Expr) : Derives .sum (Token.tokenize e.toText) e.formula := by
  obtain ⟨tokens, hderives, hspells⟩ := e.writes
  rw [Lexing.tokenize_eq, hspells.tokensAfter_eq]
  exact hderives.sum_of_ofStrength

/-- A printed tree of finite numbers is read back with its signs split off. -/
theorem Expr.ofText_toText {e : Expr} (h : e.IsFinite) (bindings : Bindings) :
    Conversion.ofText bindings e.toText = .ok e.splitSigns.postorder := by
  rw [Conversion.ofText, e.derives_tokenize.ofTokens_eq (resolve?_formula h bindings)]

/-! ## Words -/

open Conversion in
/-- If the first name among the tokens of a derivation has no value, it is the one in error: with
values for all names the tokens before it would be taken, and these contain no name. -/
theorem Derives.ofTokens_unknown {bindings known : Bindings} {tokens : List Token} {f : Formula}
    (h : Derives .sum tokens f) {e : Expr} (hknown : f.resolve? known = some e) {word : String}
    {words : List String} (hnames : f.names = word :: words) (hword : bindings.get? word = none) :
    (ofTokens bindings tokens).1 = .error (.unknownName word) := by
  rw [← h.names_eq, List.filterMap_eq_cons_iff] at hnames
  obtain ⟨front, token, back, rfl, hfront, htoken, -⟩ := hnames
  obtain rfl : token = .name word := by
    cases token with
    | name word' => exact congrArg Token.name (Option.some.inj htoken)
    | number | function | sign | operator | openParen | closeParen | comma | unknown =>
      exact absurd htoken (by simp [Token.name?])
  -- The tokens in front contain no name, so they are taken whatever the names stand for.
  have hcongr : run bindings .initial front = run known .initial front := by
    refine run_congr (fun other hother => ?_) .initial
    exact absurd (hfront _ hother) (by simp [Token.name?])
  obtain ⟨emitted, waiting, hrun, -, -⟩ :=
    h.converts hknown [] [] (Category.admits_nil .sum)
  change run known .initial _ = _ at hrun
  rw [run_append] at hrun
  rcases hstart : run known .initial front with ⟨outcome, rest⟩
  cases outcome with
  | error e => simp [hstart] at hrun
  | ok s => simp [ofTokens, run_append, hcongr, hstart, run, State.step, hword, Except.bind]

/-- The word that a node is printed as, if it is a number that is not finite. -/
def Node.word? : Node → Option String
  | .operand value => if value.isFinite then none else some value.word
  | _ => none

namespace Expr

/-- The words in the text of a tree are those of its nodes. -/
theorem names_formula (e : Expr) : e.formula.names = e.postorder.filterMap Node.word? := by
  induction e with
  | operand value =>
    have hmagnitude : value.formula.names = value.magnitudeFormula.names := by
      unfold Binary64.formula
      split <;> rfl
    simp only [formula, hmagnitude, Binary64.magnitudeFormula, postorder, List.filterMap_cons,
      Node.word?]
    split <;> rfl
  | unary op argument ih =>
    cases op <;> simp [formula, Formula.names, postorder, ih, Node.word?]
  | binary op left right ihl ihr =>
    simp [formula, Formula.names, postorder, ihl, ihr, Node.word?]

/-- With values for both words every printed tree stands for one. -/
theorem exists_resolve?_formula {known : Bindings}
    (hknown : ∀ x : Binary64, (known.get? x.word).isSome) (e : Expr) :
    ∃ e', e.formula.resolve? known = some e' := by
  induction e with
  | operand value =>
    obtain ⟨x, hx⟩ := Option.isSome_iff_exists.1 (hknown value)
    have hmagnitude : ∃ e', value.magnitudeFormula.resolve? known = some e' := by
      unfold Binary64.magnitudeFormula
      split
      · exact ⟨_, rfl⟩
      · exact ⟨.operand x, by simp [Formula.resolve?, hx]⟩
    obtain ⟨e', he'⟩ := hmagnitude
    simp only [formula, Binary64.formula]
    split
    · exact ⟨.unary (.sign .minus) e', by simp [Formula.resolve?, he']⟩
    · exact ⟨e', he'⟩
  | unary op argument ih =>
    obtain ⟨e', he'⟩ := ih
    cases op with
    | sign s => exact ⟨.unary (.sign s) e', by simp [formula, Formula.resolve?, he']⟩
    | function f => exact ⟨.unary (.function f) e', by simp [formula, Formula.resolve?, he']⟩
  | binary op left right ihl ihr =>
    obtain ⟨l, hl⟩ := ihl
    obtain ⟨r, hr⟩ := ihr
    exact ⟨.binary op l r, by simp [formula, Formula.resolve?, hl, hr]⟩

/-- A printed tree with a number that is not finite is not read back: the leftmost one of these is a
word without a value. -/
theorem ofText_toText_unknown {e : Expr} {bindings : Bindings} {word : String}
    {words : List String} (hwords : e.postorder.filterMap Node.word? = word :: words)
    (hword : bindings.get? word = none) :
    Conversion.ofText bindings e.toText = .error (.unknownName word) := by
  let known : Bindings := (Bindings.constants.set "NaN" .nan).set "inf" .infinity
  have hknown : ∀ x : Binary64, (known.get? x.word).isSome := by
    intro x
    unfold Binary64.word
    split
    · rfl
    · rfl
  obtain ⟨e', he'⟩ := e.exists_resolve?_formula hknown
  exact e.derives_tokenize.ofTokens_unknown he' (e.names_formula.trans hwords) hword

end Expr

/-! ## Calculators -/

namespace Calculator

/-- No calculator has values for the words of numbers that are not finite. -/
theorem get?_word (x? : Option Binary64) (value : Binary64) :
    (withX? x?).bindings.get? value.word = none := by
  have hne : ∀ word ∈ ["NaN", "inf"], Bindings.constants.get? word = none ∧ word ≠ "x" := by decide
  have hword : value.word ∈ ["NaN", "inf"] := by
    unfold Binary64.word
    split <;> simp
  obtain ⟨hconstants, hx⟩ := hne value.word hword
  cases x? with
  | none => exact hconstants
  | some x => exact (Bindings.get?_set_of_ne hx _ x).trans hconstants

/-- Reading a printed expression back.  If all operands are finite, the same nodes are found again,
with the sign of each negative number split off; they have the same value, the same failure and the
same text.  Otherwise the leftmost operand that is not finite is a name without a value. -/
theorem convert_toInfix (x? : Option Binary64) {nodes : PostfixExpr}
    (h : Conversion.checkArity nodes = .ok ()) :
    ((∀ value, .operand value ∈ nodes → value.isFinite = true) →
      (withX? x?).convert nodes.toInfix = .ok (nodes.flatMap Node.splitSign) ∧
      (∃ evaluation, Evaluation.ofPostfix nodes = .ok evaluation ∧
        Evaluation.ofPostfix (nodes.flatMap Node.splitSign) = .ok evaluation) ∧
      PostfixExpr.toInfix (nodes.flatMap Node.splitSign) = nodes.toInfix) ∧
    (∀ front value back, nodes = front ++ .operand value :: back →
      (∀ earlier, .operand earlier ∈ front → earlier.isFinite = true) →
      value.isFinite = false →
      (withX? x?).convert nodes.toInfix =
        .error (.unknownName (if value.isNaN then "NaN" else "inf"))) := by
  obtain ⟨e, rfl⟩ := Conversion.checkArity_eq_ok_iff.1 h
  rw [PostfixExpr.toInfix_postorder]
  -- Both parts are about the tree that the nodes spell out.
  constructor
  · intro hfinite
    rw [← e.postorder_splitSigns, PostfixExpr.toInfix_postorder, Expr.ofPostfix_postorder,
      Expr.ofPostfix_postorder, e.value_splitSigns, e.lastFailure?_splitSigns]
    exact ⟨Expr.ofText_toText hfinite _, ⟨_, rfl, rfl⟩, Expr.toText_splitSigns hfinite⟩
  · intro front value back hsplit hfront hvalue
    have hnone : front.filterMap Node.word? = [] := by
      rw [List.filterMap_eq_nil_iff]
      intro node hnode
      cases node with
      | operand earlier => simp [Node.word?, hfront earlier hnode]
      | unary | binary => rfl
    have hwords :
        e.postorder.filterMap Node.word? = value.word :: back.filterMap Node.word? := by
      rw [hsplit, List.filterMap_append, hnone]
      simp [Node.word?, hvalue]
    exact Expr.ofText_toText_unknown hwords (get?_word x? value)

/-- The expressions `-2 - -0` and `1 + -inf`. -/
theorem convert_toInfix_negative :
    (withX? none).convert
        (PostfixExpr.toInfix [.operand (.ofBits 0xC000000000000000), .operand (.neg .zero),
          .binary .minus]) =
      .ok [.operand (.ofBits 0x4000000000000000), .unary (.sign .minus), .operand .zero,
        .unary (.sign .minus), .binary .minus] ∧
    (withX? (some .one)).convert
        (PostfixExpr.toInfix [.operand .one, .operand (.neg .infinity), .binary .plus]) =
      .error (.unknownName "inf") := by
  have hfinite :
      Conversion.checkArity [.operand (.ofBits 0xC000000000000000), .operand (.neg .zero),
        .binary .minus] = .ok () := rfl
  have hinfinite :
      Conversion.checkArity [.operand .one, .operand (.neg .infinity), .binary .plus] =
        .ok () := rfl
  constructor
  · refine ((convert_toInfix none hfinite).1 ?_).1
    intro value hvalue
    simp only [List.mem_cons, Node.operand.injEq, List.not_mem_nil, reduceCtorEq, or_false]
      at hvalue
    rcases hvalue with rfl | rfl <;> rfl
  · refine (convert_toInfix (some .one) hinfinite).2 [.operand .one] _ _ rfl ?_ rfl
    intro earlier hearlier
    obtain rfl : earlier = .one := by simpa using hearlier
    rfl

end Calculator

end PostfixCalc
