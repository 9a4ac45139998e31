import PostfixCalc.CommandLine.Session
import PostfixCalc.Proofs.Arity
import PostfixCalc.Proofs.Conversion.Quotes
import PostfixCalc.Proofs.Evaluation.Domain
import PostfixCalc.Proofs.Lexing.Basic
import PostfixCalc.Proofs.Lexing.Texts

/-!
# What a status means

An accepted expression always has a value, so a syntax error stands for a text that was not
converted, and only for such a text.  The program prints an expression with its result exactly if
there was no error; nothing else that it prints has the form of an equation, whatever characters the
text has.

Main results:

- `Calculator.status_eq_syntaxError_iff`: a syntax error stands for a text that was not converted.
- `Calculator.status_of_ok`: a converted text has a value, and its status tells what the walk met.
- `Session.mem_respond_iff`: a line of the form of an equation is the echo of a result.
- `Session.respond_reports_status`: the status, the result and the lines printed in terms of the
  conversion and the walk.
-/

namespace PostfixCalc

/-! ## Equations -/

/-- The form of the line that shows a result. -/
def IsEquation (line : String) : Prop :=
  ∃ expression result, line = expression ++ " = " ++ result

/-- A line without an equals sign, unless it is the last character, is no equation. -/
theorem not_isEquation {line : String} (h : '=' ∉ line.toList.dropLast) : ¬IsEquation line := by
  rintro ⟨expression, result, rfl⟩
  exact h (by simp)

theorem equals_not_mem_dropLast_append {front back : String} (hfront : '=' ∉ front.toList)
    (hback : '=' ∉ back.toList.dropLast) : '=' ∉ (front ++ back).toList.dropLast := by
  intro hmem
  rw [String.toList_append, List.dropLast_append] at hmem
  split at hmem
  · exact hfront (List.dropLast_subset _ hmem)
  · rcases List.mem_append.1 hmem with hmem | hmem
    · exact hfront hmem
    · exact hback hmem

theorem isEquation_echo (answer : Answer) (nodes : PostfixExpr) :
    IsEquation (answer.echo nodes) := ⟨nodes.toInfix, answer.result, rfl⟩

/-! ## Lines without an equals sign -/

theorem equals_not_mem_node (node : Node) : '=' ∉ node.toText.toList := by
  cases node with
  | operand value => exact value.not_mem_plainText rfl (by decide)
  | unary op =>
    cases op with
    | sign s => cases s <;> decide
    | function f => cases f <;> decide
  | binary op => cases op <;> decide

/-- A list of nodes has no equals sign. -/
theorem equals_not_mem_toText (nodes : PostfixExpr) :
    '=' ∉ (PostfixExpr.toText nodes).toList := by
  unfold PostfixExpr.toText
  induction nodes with
  | nil => decide
  | cons node nodes ih =>
    have hnode := equals_not_mem_node node
    rcases nodes with _ | ⟨next, nodes⟩
    · simpa using hnode
    · rw [List.map_cons, String.intercalate_cons_of_ne_nil (by simp), String.toList_append,
        String.toList_append]
      simp only [List.mem_append, not_or]
      exact ⟨⟨hnode, by decide⟩, ih⟩

theorem equals_not_mem_word {word : String} (h : Lexing.IsWord word.toList) :
    '=' ∉ word.toList := fun hmem => absurd (h.2 '=' hmem) (by decide)

/-- A token in error is a single character or has no equals sign. -/
theorem equals_not_mem_badToken {text : String} {tokens : List Token}
    (htokens : ∀ token ∈ tokens, token.WellFormed)
    (h : SyntaxError.Quotes tokens (.badToken text)) : '=' ∉ text.toList.dropLast := by
  have hsymbols : ∀ text ∈ ["+", "-", "*", "/", "%", "^", "mod"],
      '=' ∉ text.toList.dropLast := by decide
  rcases h with h | h | h
  · obtain ⟨c, rfl⟩ := htokens _ h
    simp
  · exact hsymbols text (List.mem_append_left ["*", "/", "%", "^", "mod"] (htokens _ h))
  · exact hsymbols text (htokens _ h)

/-- The message of an error in the tokens of a text is no equation: it may end in an equals sign
that is no token, and words have none. -/
theorem not_isEquation_message {e : SyntaxError} {tokens : List Token}
    (htokens : ∀ token ∈ tokens, token.WellFormed) (h : e.Quotes tokens) :
    ¬IsEquation ("Parse error: " ++ e.message) := by
  have hword : ∀ {word : String}, Lexing.IsWord word.toList → '=' ∉ word.toList.dropLast :=
    fun hword hmem => equals_not_mem_word hword (List.dropLast_subset _ hmem)
  refine not_isEquation (equals_not_mem_dropLast_append (by decide) ?_)
  cases e with
  | empty | missingOpenParen | missingCloseParen | misplacedComma | missingOperand
  | tooManyOperands => decide
  | badToken text =>
    exact equals_not_mem_dropLast_append (by decide) (equals_not_mem_badToken htokens h)
  | unknownFunction word =>
    exact equals_not_mem_dropLast_append (by decide) (hword (htokens _ h))
  | unknownName word =>
    exact equals_not_mem_dropLast_append (by decide) (hword (htokens _ h))
  | wrongArity word arguments =>
    -- Here text follows the word, so the word itself must be free of equals signs.
    have hcount : '=' ∉ (toString arguments).toList := by
      rw [Nat.toString_eq_repr, Nat.toList_repr]
      intro hmem
      exact absurd (Nat.isDigit_of_mem_toDigits (by decide) (by decide) hmem) (by decide)
    have hfront : '=' ∉ ("function " ++ word ++ " takes 1 argument, got ").toList := by
      simp [equals_not_mem_word (htokens _ h)]
    exact equals_not_mem_dropLast_append hfront fun hmem =>
      hcount (List.dropLast_subset _ hmem)

/-! ## Statuses -/

/-- Converted expressions are accepted. -/
theorem Conversion.checkArity_of_ofText {bindings : Bindings} {text : String}
    {nodes : PostfixExpr} (h : ofText bindings text = .ok nodes) : checkArity nodes = .ok () := by
  rw [ofText, ofTokens] at h
  cases hrun : (run bindings .initial (Token.tokenize text)).1 with
  | error e => simp [hrun, Except.bind] at h
  | ok s =>
    simp only [hrun, Except.bind, State.finish, bind] at h
    split at h
    · simp at h
    · rename_i rest _
      cases harity : checkArity (s.output ++ rest) with
      | error e => simp [harity] at h
      | ok _ =>
        simp only [harity, Except.ok.injEq] at h
        exact h ▸ harity

/-- An accepted expression has a value.  There is a failure with it exactly if the walk met an
operation outside of its domain. -/
theorem Evaluation.exists_of_checkArity {nodes : PostfixExpr}
    (h : Conversion.checkArity nodes = .ok ()) :
    ∃ evaluation, ofPostfix nodes = .ok evaluation ∧
      (evaluation.failure = none ↔ ¬MeetsUndefined .initial nodes) := by
  obtain ⟨e, rfl⟩ := Conversion.checkArity_eq_ok_iff.1 h
  have hwalk := e.walk_postorder .initial []
  rw [List.append_nil] at hwalk
  refine ⟨_, e.ofPostfix_postorder, ?_⟩
  have hfailure := failure_walk_eq_none_iff hwalk
  simpa [State.initial] using hfailure

namespace Calculator

/-- The status of an expression with a value tells whether there was a failure. -/
theorem status_evaluate {nodes : PostfixExpr} {evaluation : Evaluation}
    (h : Evaluation.ofPostfix nodes = .ok evaluation) :
    ((evaluate nodes).status = .ok ↔ evaluation.failure = none) ∧
      ((evaluate nodes).status = .computationError ↔ evaluation.failure ≠ none) ∧
      (evaluate nodes).status ≠ .syntaxError := by
  obtain ⟨value, failure⟩ := evaluation
  rw [evaluate_eq, h, Answer.ofEvaluation.eq_def]
  cases failure <;> simp

variable {c : Calculator} {text : String}

theorem calculate_of_error {e : SyntaxError} (h : c.convert text = .error e) :
    c.calculate text = ⟨"0.0000000", .syntaxError⟩ := by
  have hzero : Binary64.zero.resultText = "0.0000000" := by decide
  rw [calculate, calculateRecorded_of_error h, ← hzero]

theorem calculate_of_ok {nodes : PostfixExpr} (h : c.convert text = .ok nodes) :
    c.calculate text = evaluate nodes := by
  rw [calculate, calculateRecorded_of_ok h]

/-- A converted text has a value, and its status tells what the walk met. -/
theorem status_of_ok {nodes : PostfixExpr} (h : c.convert text = .ok nodes) :
    (∃ evaluation, Evaluation.ofPostfix nodes = .ok evaluation) ∧
      ((c.calculate text).status = .computationError ↔
        Evaluation.MeetsUndefined .initial nodes) ∧
      ((c.calculate text).status = .ok ↔ ¬Evaluation.MeetsUndefined .initial nodes) ∧
      (c.calculate text).status ≠ .syntaxError := by
  obtain ⟨evaluation, hevaluation, hfailure⟩ :=
    Evaluation.exists_of_checkArity (Conversion.checkArity_of_ofText h)
  obtain ⟨hok, herror, hsyntax⟩ := status_evaluate hevaluation
  rw [calculate_of_ok h]
  refine ⟨⟨evaluation, hevaluation⟩, ?_, hok.trans hfailure, hsyntax⟩
  exact herror.trans ((not_congr hfailure).trans Classical.not_not)

/-- A syntax error stands for a text that was not converted. -/
theorem status_eq_syntaxError_iff :
    (c.calculate text).status = .syntaxError ↔ ∃ e, c.convert text = .error e := by
  constructor
  · intro hstatus
    cases hconvert : c.convert text with
    | error e => exact ⟨e, rfl⟩
    | ok nodes => exact absurd hstatus (status_of_ok hconvert).2.2.2
  · rintro ⟨e, he⟩
    rw [calculate_of_error he]

end Calculator

/-! ## Lines printed -/

namespace Session

variable {c : Calculator} {text : String}

/-- The program prints no equation for a text that is not converted. -/
theorem not_isEquation_of_error {e : SyntaxError} (h : c.convert text = .error e)
    (showsPostfix : Bool) {line : String} (hline : line ∈ (respond c showsPostfix text).2) :
    ¬IsEquation line := by
  rw [respond, h] at hline
  rw [List.mem_singleton.1 hline]
  refine not_isEquation_message (fun token htoken => ?_) (Conversion.ofTokens_quotes h)
  rw [Lexing.tokenize_eq] at htoken
  exact Lexing.wellFormed_of_mem_tokensAfter htoken

/-- Among the lines printed for a converted text, only the echo of a result is an equation. -/
theorem mem_respond_iff_of_ok {nodes : PostfixExpr} (h : c.convert text = .ok nodes)
    (showsPostfix : Bool) (line : String) :
    line ∈ (respond c showsPostfix text).2 ∧ IsEquation line ↔
      (Calculator.evaluate nodes).status = .ok ∧
        line = (Calculator.evaluate nodes).echo nodes := by
  have herror : ¬IsEquation "Eval error: invalid expression" := not_isEquation (by decide)
  have hlisting : ∀ line ∈ if showsPostfix then [nodes.toText] else [], ¬IsEquation line := by
    intro line hline
    split at hline
    · rw [List.mem_singleton.1 hline]
      exact not_isEquation fun hmem => equals_not_mem_toText nodes (List.dropLast_subset _ hmem)
    · exact absurd hline List.not_mem_nil
  simp only [respond, h]
  by_cases hok : (Calculator.evaluate nodes).status = .ok
  · rw [if_pos hok]
    constructor
    · rintro ⟨hmem, hequation⟩
      rcases List.mem_append.1 hmem with hmem | hmem
      · exact absurd hequation (hlisting line hmem)
      · exact ⟨hok, List.mem_singleton.1 hmem⟩
    · rintro ⟨-, rfl⟩
      exact ⟨List.mem_append_right _ List.mem_cons_self, isEquation_echo _ _⟩
  · rw [if_neg hok]
    constructor
    · rintro ⟨hmem, hequation⟩
      rcases List.mem_append.1 hmem with hmem | hmem
      · exact absurd hequation (hlisting line hmem)
      · exact absurd (List.mem_singleton.1 hmem ▸ hequation) herror
    · rintro ⟨hok', -⟩
      exact absurd hok' hok

/-- The lines printed that are equations. -/
theorem mem_respond_iff (showsPostfix : Bool) (line : String) :
    line ∈ (respond c showsPostfix text).2 ∧ IsEquation line ↔
      (c.calculate text).status = .ok ∧ ∃ nodes, c.convert text = .ok nodes ∧
        line = nodes.toInfix ++ " = " ++ (c.calculate text).result := by
  cases hconvert : c.convert text with
  | error e =>
    refine iff_of_false ?_ ?_
    · rintro ⟨hline, hequation⟩
      exact not_isEquation_of_error hconvert showsPostfix hline hequation
    · rintro ⟨-, nodes, hnodes, -⟩
      cases hnodes
  | ok nodes =>
    rw [mem_respond_iff_of_ok hconvert, Calculator.calculate_of_ok hconvert]
    constructor
    · rintro ⟨hok, hline⟩
      exact ⟨hok, nodes, rfl, hline⟩
    · rintro ⟨hok, nodes', hnodes, hline⟩
      obtain rfl := Except.ok.inj hnodes
      exact ⟨hok, hline⟩

/-- The status of an answer tells how far it got: a syntax error that the text was not converted, a
computation error that some operation was met outside of its domain.  The program ends with the same
status, and shows the result of the answer in an equation exactly if there was no error. -/
theorem respond_reports_status (c : Calculator) (text : String) :
    ((c.calculate text).status = .syntaxError ↔ ∃ e, c.convert text = .error e) ∧
    ((c.calculate text).status = .syntaxError → (c.calculate text).result = "0.0000000") ∧
    (∀ nodes, c.convert text = .ok nodes →
      (∃ evaluation, Evaluation.ofPostfix nodes = .ok evaluation) ∧
      ((c.calculate text).status = .computationError ↔
        Evaluation.MeetsUndefined .initial nodes) ∧
      ((c.calculate text).status = .ok ↔ ¬Evaluation.MeetsUndefined .initial nodes)) ∧
    ∀ showsPostfix,
      (respond c showsPostfix text).1 = (c.calculate text).status ∧
      ∀ line, line ∈ (respond c showsPostfix text).2 ∧ IsEquation line ↔
        (c.calculate text).status = .ok ∧ ∃ nodes, c.convert text = .ok nodes ∧
          line = nodes.toInfix ++ " = " ++ (c.calculate text).result := by
  refine ⟨Calculator.status_eq_syntaxError_iff, ?_, ?_, ?_⟩
  · intro hstatus
    obtain ⟨e, he⟩ := Calculator.status_eq_syntaxError_iff.1 hstatus
    rw [Calculator.calculate_of_error he]
  · intro nodes hnodes
    obtain ⟨hvalue, herror, hok, -⟩ := Calculator.status_of_ok hnodes
    exact ⟨hvalue, herror, hok⟩
  · intro showsPostfix
    exact ⟨respond_status c showsPostfix text, mem_respond_iff showsPostfix⟩

end Session

end PostfixCalc
