import PostfixCalc.Proofs.Conversion.Brackets

/-!
# What is accepted

The conversion does not see whether an operator stands between its operands.  It counts operands in
the end, when they are in postfix order.  So it accepts more than the grammar derives, as in
`2 3 +`: exactly what the loosened grammar derives with the nodes of a tree.

Main results:

- `Arrangeable.cons_operator`, `Arrangeable.cons_sign`, `Arrangeable.append_atom`: what may be added
  in front of an expression of the loosened grammar.
- `closes_of_scan`: without an error of the parentheses, the loosened grammar derives the tokens.
- `Conversion.ofText_accepts`: what is accepted.
-/

namespace PostfixCalc

open Conversion

variable {bindings : Bindings} {category : Category} {tokens : List Token}

/-! ## Adding tokens in front -/

/-- The loosened grammar derives a token list. -/
def Arrangeable (bindings : Bindings) (category : Category) (tokens : List Token) : Prop :=
  ∃ nodes, Arranges bindings category tokens nodes

/-- What the operators of a sum or product stand between. -/
def Category.operand : Category → Category
  | sum => product
  | product => signed
  | category => category

namespace Arrangeable

/-- There may be no tokens at all. -/
theorem nil : Arrangeable bindings .sum [] :=
  ⟨[], .sumOfProduct (.productOfSigned (.signedOfPower (.powerOfAtom .missing)))⟩

/-- A sum or product begins with an operand, in the place of which any other sum or product may
stand. -/
theorem exists_operand (hchain : category = .sum ∨ category = .product)
    (h : Arrangeable bindings category tokens) :
    ∃ first rest, tokens = first ++ rest ∧ Arrangeable bindings category.operand first ∧
      ∀ other, Arrangeable bindings category other →
        Arrangeable bindings category (other ++ rest) := by
  obtain ⟨nodes, h⟩ := h
  induction h with
  | @sumOfProduct tokens nodes h | @productOfSigned tokens nodes h =>
    refine ⟨tokens, [], (List.append_nil tokens).symm, ⟨nodes, h⟩, fun other hother => ?_⟩
    rwa [List.append_nil]
  | @sum symbol op hop left right nodes nodes' front term ih =>
    obtain ⟨first, rest, rfl, hfirst, hrest⟩ := ih hchain
    refine ⟨first, rest ++ .operator symbol :: right, by simp, hfirst, fun other hother => ?_⟩
    obtain ⟨nodes, hnodes⟩ := hrest other hother
    rw [← List.append_assoc]
    exact ⟨_, .sum hop hnodes term⟩
  | @product symbol op hop left right nodes nodes' front factor ih =>
    obtain ⟨first, rest, rfl, hfirst, hrest⟩ := ih hchain
    refine ⟨first, rest ++ .operator symbol :: right, by simp, hfirst, fun other hother => ?_⟩
    obtain ⟨nodes, hnodes⟩ := hrest other hother
    rw [← List.append_assoc]
    exact ⟨_, .product hop hnodes factor⟩
  | _ => simp at hchain

/-- What makes a product of the signed expression that a sum begins with can be added in front. -/
theorem prepend {front : List Token} (h : Arrangeable bindings .sum tokens)
    (hfront : ∀ first, first <+: tokens → Arrangeable bindings .signed first →
      Arrangeable bindings .product (front ++ first)) :
    Arrangeable bindings .sum (front ++ tokens) := by
  obtain ⟨product, terms, rfl, hproduct, hterms⟩ := h.exists_operand (.inl rfl)
  obtain ⟨signed, factors, rfl, hsigned, hfactors⟩ := hproduct.exists_operand (.inr rfl)
  have hbegins : signed <+: signed ++ factors ++ terms := by
    rw [List.append_assoc]
    exact List.prefix_append signed _
  obtain ⟨nodes, hnodes⟩ := hfactors _ (hfront signed hbegins hsigned)
  rw [← List.append_assoc, ← List.append_assoc]
  exact hterms _ ⟨nodes, .sumOfProduct hnodes⟩

/-- An operator of products may stand in front, with its left operand missing. -/
theorem cons_productOperator {symbol : String} {op : BinaryOp}
    (hop : (symbol, op) ∈ productOperators) (h : Arrangeable bindings .sum tokens) :
    Arrangeable bindings .sum (.operator symbol :: tokens) := by
  refine @prepend _ _ [.operator symbol] h fun first _ hfirst => ?_
  obtain ⟨nodes, hnodes⟩ := hfirst
  have hmissing : Arranges bindings .product [] [] :=
    .productOfSigned (.signedOfPower (.powerOfAtom .missing))
  exact ⟨_, .product hop hmissing hnodes⟩

/-- An operator of sums may stand in front, with its left operand missing. -/
theorem cons_sumOperator {symbol : String} {op : BinaryOp} (hop : (symbol, op) ∈ sumOperators)
    (h : Arrangeable bindings .sum tokens) :
    Arrangeable bindings .sum (.operator symbol :: tokens) := by
  obtain ⟨product, terms, rfl, hproduct, hterms⟩ := h.exists_operand (.inl rfl)
  obtain ⟨nodes, hnodes⟩ := hproduct
  obtain ⟨nothing, hnothing⟩ := @nil bindings
  exact hterms _ ⟨_, .sum hop hnothing hnodes⟩

/-- Any operator may stand in front. -/
theorem cons_operator {symbol : String} (hform : (Token.operator symbol).WellFormed)
    (h : Arrangeable bindings .sum tokens) :
    Arrangeable bindings .sum (.operator symbol :: tokens) := by
  simp only [Token.WellFormed, List.mem_cons, List.not_mem_nil, or_false] at hform
  rcases hform with rfl | rfl | rfl | rfl | rfl | rfl | rfl
  · exact h.cons_sumOperator (.head _)
  · exact h.cons_sumOperator (.tail _ (.head _))
  · exact h.cons_productOperator (.head _)
  · exact h.cons_productOperator (.tail _ (.head _))
  · exact h.cons_productOperator (.tail _ (.tail _ (.head _)))
  · refine @prepend _ _ [.operator "^"] h fun first _ hfirst => ?_
    obtain ⟨nodes, hnodes⟩ := hfirst
    exact ⟨_, .productOfSigned (.signedOfPower (.power .missing hnodes))⟩
  · exact h.cons_productOperator (.tail _ (.tail _ (.tail _ (.head _))))

/-- A sign may stand in front. -/
theorem cons_sign {symbol : String} (hform : (Token.sign symbol).WellFormed)
    (h : Arrangeable bindings .sum tokens) :
    Arrangeable bindings .sum (.sign symbol :: tokens) := by
  obtain ⟨s, rfl⟩ : ∃ s : Sign, symbol = s.symbol := by
    simp only [Token.WellFormed, List.mem_cons, List.not_mem_nil, or_false] at hform
    rcases hform with rfl | rfl
    · exact ⟨.plus, rfl⟩
    · exact ⟨.minus, rfl⟩
  refine @prepend _ _ [.sign s.symbol] h fun first _ hfirst => ?_
  obtain ⟨nodes, hnodes⟩ := hfirst
  exact ⟨_, .productOfSigned (.sign s hnodes)⟩

/-- An operand may stand in front, except of a sign. -/
theorem append_atom {front : List Token} (hfront : Arrangeable bindings .atom front)
    (hsign : ∀ symbol, tokens.head? ≠ some (.sign symbol)) (h : Arrangeable bindings .sum tokens) :
    Arrangeable bindings .sum (front ++ tokens) := by
  obtain ⟨operand, hoperand⟩ := hfront
  refine h.prepend fun first hbegins hfirst => ?_
  obtain ⟨nodes, hnodes⟩ := hfirst
  cases hnodes with
  | sign s _ =>
    obtain ⟨rest, rfl⟩ := hbegins
    exact absurd rfl (hsign s.symbol)
  | signedOfPower hpower =>
    cases hpower with
    | powerOfAtom hatom =>
      exact ⟨_, .productOfSigned (.signedOfPower (.powerOfAtom (.beside hoperand hatom)))⟩
    | power base exponent =>
      rw [← List.append_assoc]
      exact ⟨_, .productOfSigned (.signedOfPower (.power (.beside hoperand base) exponent))⟩

end Arrangeable

/-! ## Closing the parentheses that are open -/

/-- The tokens close the given open parentheses, with expressions of the loosened grammar before,
between and after the closing parentheses. -/
def Closes (bindings : Bindings) : List OpenParen → List Token → Prop
  | [], tokens => Arrangeable bindings .sum tokens
  | paren :: opens, tokens =>
    (paren.callee.isSome → paren.commas = 0) ∧
      ∃ inside rest, tokens = inside ++ .closeParen :: rest ∧ Arrangeable bindings .sum inside ∧
        Closes bindings opens rest

namespace Closes

variable {opens : List OpenParen}

/-- What may stand in front of an expression may stand in front of the first one. -/
theorem prepend {front : List Token} (h : Closes bindings opens tokens)
    (hfront : ∀ inside, inside <+: tokens → Arrangeable bindings .sum inside →
      Arrangeable bindings .sum (front ++ inside)) : Closes bindings opens (front ++ tokens) := by
  rcases opens with _ | ⟨paren, opens⟩
  · exact hfront tokens List.prefix_rfl h
  · obtain ⟨hcommas, inside, rest, rfl, hinside, hrest⟩ := h
    refine ⟨hcommas, front ++ inside, rest, (List.append_assoc _ _ _).symm, ?_, hrest⟩
    exact hfront inside (List.prefix_append _ _) hinside

/-- An operand may stand in front, except of a sign. -/
theorem append_atom {front : List Token} (hfront : Arrangeable bindings .atom front)
    (hsign : ∀ symbol, tokens.head? ≠ some (.sign symbol)) (h : Closes bindings opens tokens) :
    Closes bindings opens (front ++ tokens) := by
  refine h.prepend fun inside hbegins hinside =>
    Arrangeable.append_atom hfront (fun symbol hhead => ?_) hinside
  obtain ⟨rest, rfl⟩ := hbegins
  obtain ⟨later, rfl⟩ := List.head?_eq_some_iff.1 hhead
  exact hsign symbol rfl

/-- A parenthesis and what closes it are an operand. -/
theorem group {callee : Option String} {commas : Nat} (hsigns : Lexing.SignsInFront tokens)
    (h : Closes bindings (⟨callee, commas⟩ :: opens) tokens) :
    Closes bindings opens (.openParen :: tokens) := by
  obtain ⟨-, inside, rest, rfl, ⟨nodes, hinside⟩, hrest⟩ := h
  have hatom : Arrangeable bindings .atom (.openParen :: (inside ++ [.closeParen])) :=
    ⟨nodes, .group hinside⟩
  have hbehind := Lexing.SignsInFront.head?_ne hsigns.right_of_append rfl
  simpa using hrest.append_atom hatom hbehind

/-- A function, its parenthesis and what closes it are an operand. -/
theorem call {word : String} (hword : (NamedFunction.ofName? word).isSome) {commas : Nat}
    (hsigns : Lexing.SignsInFront tokens)
    (h : Closes bindings (⟨some word, commas⟩ :: opens) tokens) :
    Closes bindings opens (.function word :: .openParen :: tokens) := by
  obtain ⟨f, hf⟩ := Option.isSome_iff_exists.1 hword
  obtain ⟨-, inside, rest, rfl, ⟨nodes, hinside⟩, hrest⟩ := h
  have hatom :
      Arrangeable bindings .atom (.function word :: .openParen :: (inside ++ [.closeParen])) :=
    ⟨_, .call hf hinside⟩
  have hbehind := Lexing.SignsInFront.head?_ne hsigns.right_of_append rfl
  simpa using hrest.append_atom hatom hbehind

/-- What closes the innermost parenthesis may stand in front, if it is no error. -/
theorem closeParen (hfault : Brackets.fault? bindings opens .closeParen = none)
    (h : Closes bindings opens.tail tokens) : Closes bindings opens (.closeParen :: tokens) := by
  rcases opens with _ | ⟨⟨callee, commas⟩, opens⟩
  · exact absurd hfault (Option.some_ne_none _)
  · refine ⟨fun hcallee => ?_, [], tokens, rfl, .nil, h⟩
    obtain ⟨word, rfl⟩ := Option.isSome_iff_exists.1 hcallee
    by_contra hcommas
    exact absurd hfault (by simp [Brackets.fault?, hcommas])

/-- Behind a comma that is no error, the innermost parenthesis cannot be closed. -/
theorem not_comma {previous : Option Token}
    (hfault : Brackets.fault? bindings opens .comma = none)
    (h : Closes bindings (Brackets.after previous opens .comma) tokens) : False := by
  rcases opens with _ | ⟨⟨_ | word, commas⟩, opens⟩
  · exact Option.some_ne_none _ hfault
  · exact Option.some_ne_none _ hfault
  · exact Nat.succ_ne_zero commas (h.1 rfl)

end Closes

/-- If the parentheses are without error and closed in the end, the tokens close those that are open
now.  The induction is on the number of tokens, since a function is taken with its parenthesis. -/
theorem closes_of_scan {previous : Option Token} {opens : List OpenParen}
    (hscan : (Brackets.scan bindings previous opens tokens).1 = .ok [])
    (hform : ∀ token ∈ tokens, token.WellFormed) (hcalled : Lexing.FunctionsCalled tokens)
    (hsigns : Lexing.SignsInFront tokens) : Closes bindings opens tokens := by
  induction hlength : tokens.length using Nat.strong_induction_on
    generalizing tokens previous opens with
  | _ n ih =>
  subst hlength
  rcases tokens with _ | ⟨token, tokens⟩
  · rw [Brackets.scan, Except.ok.injEq] at hscan
    subst hscan
    exact .nil
  obtain ⟨hform, hformLater⟩ := List.forall_mem_cons.1 hform
  obtain ⟨hcall, hcalledLater⟩ := Lexing.functionsCalled_cons.1 hcalled
  have hsignsLater : Lexing.SignsInFront tokens := (List.isChain_cons.1 hsigns).2
  cases hfault : Brackets.fault? bindings opens token with
  | some e => simp [Brackets.scan, hfault] at hscan
  | none =>
    simp only [Brackets.scan, hfault] at hscan
    have hlater : Closes bindings (Brackets.after previous opens token) tokens :=
      ih tokens.length (Nat.lt_succ_self _) hscan hformLater hcalledLater hsignsLater rfl
    cases token with
    | number value => exact hlater.append_atom ⟨_, .number value⟩ (hsigns.head?_ne rfl)
    | name word =>
      obtain ⟨value, hvalue⟩ := Option.isSome_iff_exists.1 (Brackets.isSome_of_name hfault)
      exact hlater.append_atom ⟨_, .name hvalue⟩ (hsigns.head?_ne rfl)
    | function word =>
      obtain ⟨rest, rfl⟩ := List.head?_eq_some_iff.1 (hcall word rfl)
      have hsignsArgument : Lexing.SignsInFront rest := (List.isChain_cons.1 hsignsLater).2
      have hargument : Closes bindings (⟨some word, 0⟩ :: opens) rest :=
        ih rest.length (by simp only [List.length_cons]; omega) hscan
          (List.forall_mem_cons.1 hformLater).2 (Lexing.functionsCalled_cons.1 hcalledLater).2
          hsignsArgument rfl
      exact hargument.call (Brackets.isSome_of_function hfault) hsignsArgument
    | sign symbol =>
      exact @Closes.prepend _ _ _ [.sign symbol] hlater
        fun inside _ hinside => hinside.cons_sign hform
    | operator symbol =>
      exact @Closes.prepend _ _ _ [.operator symbol] hlater
        fun inside _ hinside => hinside.cons_operator hform
    | openParen => exact hlater.group hsignsLater
    | closeParen => exact hlater.closeParen hfault
    | comma => exact (hlater.not_comma hfault).elim
    | unknown text => exact absurd hfault (Option.some_ne_none _)

/-! ## What is accepted -/

/-- An accepted token list has no error of the parentheses. -/
theorem scan_of_ofTokens {nodes : PostfixExpr} (h : (ofTokens bindings tokens).1 = .ok nodes)
    (hform : ∀ token ∈ tokens, token.WellFormed) (hcalled : Lexing.FunctionsCalled tokens) :
    (Brackets.scan bindings none [] tokens).1 = .ok [] := by
  have hscan := Brackets.ofTokens_eq_scan bindings hform hcalled
  revert hscan
  rcases Brackets.scan bindings none [] tokens with ⟨e | _ | ⟨paren, opens⟩, rest⟩
  · intro hscan
    rw [hscan] at h
    cases h
  · exact fun _ => rfl
  · intro hscan
    rw [hscan] at h
    cases h

/-- An accepted text is derived by the loosened grammar, with the nodes that are put out. -/
theorem arranges_of_ofText {text : String} {nodes : PostfixExpr}
    (h : ofText bindings text = .ok nodes) :
    Arranges bindings .sum (Token.tokenize text) nodes ∧ checkArity nodes = .ok () := by
  have hform : ∀ token ∈ Token.tokenize text, token.WellFormed :=
    fun token => Lexing.wellFormed_of_mem_tokenize
  have hcalled := Lexing.functionsCalled_tokenize text
  have hscan := scan_of_ofTokens h hform hcalled
  obtain ⟨found, hfound⟩ : Arrangeable bindings .sum (Token.tokenize text) :=
    closes_of_scan hscan hform hcalled (Lexing.signsInFront_tokenize text)
  rw [ofText, hfound.ofTokens_eq] at h
  cases harity : checkArity found with
  | error e => simp [harity, Except.map] at h
  | ok _ =>
    obtain rfl : found = nodes := by simpa [harity, Except.map] using h
    exact ⟨hfound, harity⟩

/-- A text is accepted if the loosened grammar derives its tokens and the nodes in postfix order are
those of a tree.  Every other text is an error. -/
theorem Conversion.ofText_accepts (bindings : Bindings) (text : String) :
    (∀ nodes, ofText bindings text = .ok nodes ↔
      Arranges bindings .sum (Token.tokenize text) nodes ∧ ∃ e : Expr, nodes = e.postorder) ∧
    ((¬∃ e : Expr, Arranges bindings .sum (Token.tokenize text) e.postorder) →
      ∃ error, ofText bindings text = .error error) := by
  constructor
  · intro nodes
    rw [← checkArity_eq_ok_iff]
    refine ⟨arranges_of_ofText, fun ⟨h, harity⟩ => ?_⟩
    rw [ofText, h.ofTokens_eq, harity]
    rfl
  · intro hnone
    cases htext : ofText bindings text with
    | error e => exact ⟨e, rfl⟩
    | ok nodes =>
      obtain ⟨h, harity⟩ := arranges_of_ofText htext
      obtain ⟨e, rfl⟩ := checkArity_eq_ok_iff.1 harity
      exact absurd ⟨e, h⟩ hnone

/-- Two operands side by side with the operator behind them are accepted, although the grammar does
not derive them. -/
theorem Conversion.ofText_accepts_operator_behind :
    ofText Bindings.constants "2 3 +" =
        .ok [.operand (.ofBits 0x4000000000000000), .operand (.ofBits 0x4008000000000000),
          .binary .plus] ∧
      ¬∃ f, Derives .sum (Token.tokenize "2 3 +") f := by
  constructor
  · decide +kernel
  · rintro ⟨f, h⟩
    exact absurd h.endsOperand (by decide +kernel)

end PostfixCalc
