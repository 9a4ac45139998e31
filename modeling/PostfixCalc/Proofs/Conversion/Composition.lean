import PostfixCalc.Proofs.Grammar.Acceptance
import PostfixCalc.Proofs.Lexing.Seams

/-!
# Putting accepted texts together

An accepted text in parentheses is an operand, whether or not it is an expression of the grammar:
its operators cannot leave the parentheses, and its lexemes end where they do.  So signs, functions
and operators may be put in front of or between accepted texts in parentheses, and the nodes of the
whole are those of the parts, followed by the operation.

Main results:

- `Lexing.tokenize_operator`: the tokens of two texts in parentheses with an operator between them.
- `Arranges.between`: an operator between two operands makes an expression of them.
- `Conversion.ofText_composes`: the conversion of texts put together from accepted ones.
-/

namespace PostfixCalc

/-! ## Tokens -/

namespace Lexing

/-- Behind an operand, the text of an operator is its token. -/
theorem tokensAfter_binaryOperator {symbol : String} {op : BinaryOp}
    (hop : (symbol, op) ∈ binaryOperators) (rest : List Char) :
    tokensAfter (some .closeParen) (symbol.toList ++ ' ' :: rest) =
      .operator symbol :: tokensAfter (some (.operator symbol)) rest := by
  have hblank : isBlank ' ' = true := by decide
  have hsymbol : ∀ c ∈ Scanner.symbols,
      Token.ofSymbol (some .closeParen) c = .operator symbol → symbol.toList = [c] →
      tokensAfter (some .closeParen) (symbol.toList ++ ' ' :: rest) =
        .operator symbol :: tokensAfter (some (.operator symbol)) rest := by
    intro c hc htoken hlist
    rw [hlist, List.singleton_append, tokensAfter_symbol _ hc, htoken, tokensAfter_blank _ hblank]
  simp only [binaryOperators, sumOperators, productOperators, List.cons_append, List.nil_append,
    List.mem_cons, List.not_mem_nil, or_false, Prod.mk.injEq] at hop
  rcases hop with ⟨rfl, -⟩ | ⟨rfl, -⟩ | ⟨rfl, -⟩ | ⟨rfl, -⟩ | ⟨rfl, -⟩ | ⟨rfl, -⟩ | ⟨rfl, -⟩
  · exact hsymbol '+' (by decide) rfl rfl
  · exact hsymbol '-' (by decide) rfl rfl
  · exact hsymbol '*' (by decide) rfl rfl
  · exact hsymbol '/' (by decide) rfl rfl
  · exact hsymbol '%' (by decide) rfl rfl
  · -- The remainder is also written as a word, which ends at the space.
    have hword : IsWord "mod".toList := by decide
    have hspace : ∀ c ∈ (' ' :: rest).head?, Scanner.isWordPart c = false := by simp; decide
    refine (tokensAfter_word _ hword hspace).trans ?_
    rw [tokensAfter_blank _ hblank]
    rfl
  · exact hsymbol '^' (by decide) rfl rfl

/-- The tokens of a text in parentheses. -/
theorem tokenize_group (text : String) :
    Token.tokenize ("(" ++ text ++ ")") =
      .openParen :: (Token.tokenize text ++ [.closeParen]) := by
  have hgroup := tokensAfter_group none text.toList []
  have hnil : tokensAfter (some .closeParen) [] = [] := tokensAfter_of_none rfl
  rw [hnil] at hgroup
  rw [tokenize_eq, tokenize_eq, ← hgroup]
  simp

/-- The tokens of a function in front of a text in parentheses. -/
theorem tokenize_call (f : NamedFunction) (text : String) :
    Token.tokenize (f.name ++ "(" ++ text ++ ")") =
      .function f.name :: .openParen :: (Token.tokenize text ++ [.closeParen]) := by
  have hword : IsWord f.name.toList ∧ f.name ≠ "mod" := by cases f <;> decide
  have hblank : ¬isBlank '(' = true := by decide
  have hgroup := tokensAfter_group (some (.function f.name)) text.toList []
  have hnil : tokensAfter (some .closeParen) [] = [] := tokensAfter_of_none rfl
  have hname := tokensAfter_word none hword.1
    (show ∀ c ∈ ('(' :: (text.toList ++ [')'])).head?, Scanner.isWordPart c = false by
      simp
      decide)
  simp only [String.ofList_toList, Token.ofWord, if_neg hword.2, List.dropWhile_cons_of_neg hblank,
    List.head?_cons, if_true] at hname
  rw [hnil] at hgroup
  rw [tokenize_eq, tokenize_eq, ← hgroup, ← hname]
  simp

/-- The tokens of a sign in front of a text in parentheses. -/
theorem tokenize_sign (s : Sign) (text : String) :
    Token.tokenize (s.symbol ++ "(" ++ text ++ ")") =
      .sign s.symbol :: .openParen :: (Token.tokenize text ++ [.closeParen]) := by
  have hnone : (none : Option Token).any Token.endsOperand = false := rfl
  obtain ⟨c, hc, hsymbol, htoken⟩ := Token.ofSymbol_sign hnone s
  have hgroup := tokensAfter_group (some (.sign s.symbol)) text.toList []
  have hnil : tokensAfter (some .closeParen) [] = [] := tokensAfter_of_none rfl
  have hsign := tokensAfter_symbol none hc ('(' :: (text.toList ++ [')']))
  rw [htoken] at hsign
  rw [hnil] at hgroup
  rw [tokenize_eq, tokenize_eq, ← hgroup, ← hsign]
  simp [hsymbol]

/-- The tokens of two texts in parentheses with an operator between them. -/
theorem tokenize_operator {symbol : String} {op : BinaryOp} (hop : (symbol, op) ∈ binaryOperators)
    (text text' : String) :
    Token.tokenize ("(" ++ text ++ ") " ++ symbol ++ " (" ++ text' ++ ")") =
      .openParen :: (Token.tokenize text ++ [.closeParen]) ++ .operator symbol ::
        .openParen :: (Token.tokenize text' ++ [.closeParen]) := by
  have hblank : isBlank ' ' = true := by decide
  have hnil : tokensAfter (some .closeParen) [] = [] := tokensAfter_of_none rfl
  have hright := tokensAfter_group (some (.operator symbol)) text'.toList []
  have hoperator := tokensAfter_binaryOperator hop ('(' :: (text'.toList ++ [')']))
  have hleft := tokensAfter_group none text.toList
    (' ' :: (symbol.toList ++ ' ' :: '(' :: (text'.toList ++ [')'])))
  rw [hnil] at hright
  rw [tokensAfter_blank _ hblank, hoperator, hright] at hleft
  rw [tokenize_eq, tokenize_eq, tokenize_eq]
  refine Eq.trans ?_ (hleft.trans ?_)
  · simp
  · simp

end Lexing

/-! ## Nodes -/

namespace Arranges

variable {bindings : Bindings} {tokens tokens' : List Token} {nodes nodes' : PostfixExpr}

/-- An operand by itself is an expression. -/
theorem sum_of_atom (h : Arranges bindings .atom tokens nodes) :
    Arranges bindings .sum tokens nodes :=
  .sumOfProduct (.productOfSigned (.signedOfPower (.powerOfAtom h)))

/-- A sign in front of an operand makes an expression of it. -/
theorem sign_atom (s : Sign) (h : Arranges bindings .atom tokens nodes) :
    Arranges bindings .sum (.sign s.symbol :: tokens) (nodes ++ [.unary (.sign s)]) :=
  .sumOfProduct (.productOfSigned (.sign s (.signedOfPower (.powerOfAtom h))))

/-- An operator between two operands makes an expression of them. -/
theorem between {symbol : String} {op : BinaryOp} (hop : (symbol, op) ∈ binaryOperators)
    (h : Arranges bindings .atom tokens nodes) (h' : Arranges bindings .atom tokens' nodes') :
    Arranges bindings .sum (tokens ++ .operator symbol :: tokens')
      (nodes ++ nodes' ++ [.binary op]) := by
  have hsigned : Arranges bindings .signed tokens' nodes' := .signedOfPower (.powerOfAtom h')
  have hproduct : Arranges bindings .product tokens nodes :=
    .productOfSigned (.signedOfPower (.powerOfAtom h))
  rw [binaryOperators, List.mem_append, List.mem_append, List.mem_singleton, Prod.mk.injEq] at hop
  rcases hop with (hop | hop) | ⟨rfl, rfl⟩
  · exact .sum hop (.sumOfProduct hproduct) (.productOfSigned hsigned)
  · exact .sumOfProduct (.product hop hproduct hsigned)
  · exact .sumOfProduct (.productOfSigned (.signedOfPower (.power h hsigned)))

end Arranges

namespace Conversion

variable {bindings : Bindings}

/-- What the loosened grammar derives with the nodes of a tree is accepted. -/
theorem ofText_of_arranges {text : String} {e : Expr}
    (h : Arranges bindings .sum (Token.tokenize text) e.postorder) :
    ofText bindings text = .ok e.postorder := by
  rw [ofText, h.ofTokens_eq, checkArity_postorder]
  rfl

/-- Accepted texts in parentheses may be put together.  Parentheses keep the nodes, a function or a
sign in front adds its node behind them, and an operator between two of them adds its node behind
those of the left and the right one. -/
theorem ofText_composes {s t : String} {p q : PostfixExpr} (hs : ofText bindings s = .ok p)
    (ht : ofText bindings t = .ok q) :
    ofText bindings ("(" ++ s ++ ")") = .ok p ∧
    (∀ f : NamedFunction,
      ofText bindings (f.name ++ "(" ++ s ++ ")") = .ok (p ++ [.unary (.function f)])) ∧
    (∀ sign : Sign,
      ofText bindings (sign.symbol ++ "(" ++ s ++ ")") = .ok (p ++ [.unary (.sign sign)])) ∧
    ∀ symbol op, (symbol, op) ∈ binaryOperators →
      ofText bindings ("(" ++ s ++ ") " ++ symbol ++ " (" ++ t ++ ")") =
        .ok (p ++ q ++ [.binary op]) := by
  obtain ⟨hp, harity⟩ := arranges_of_ofText hs
  obtain ⟨hq, harity'⟩ := arranges_of_ofText ht
  obtain ⟨e, rfl⟩ := checkArity_eq_ok_iff.1 harity
  obtain ⟨e', rfl⟩ := checkArity_eq_ok_iff.1 harity'
  -- In parentheses both texts are operands, whatever they are by themselves.
  refine ⟨?_, fun f => ?_, fun sign => ?_, fun symbol op hop => ?_⟩
  · apply ofText_of_arranges
    rw [Lexing.tokenize_group]
    exact .sum_of_atom (.group hp)
  · refine @ofText_of_arranges bindings _ (.unary (.function f) e) ?_
    rw [Lexing.tokenize_call]
    exact .sum_of_atom (.call (NamedFunction.ofName?_name f) hp)
  · refine @ofText_of_arranges bindings _ (.unary (.sign sign) e) ?_
    rw [Lexing.tokenize_sign]
    exact .sign_atom sign (.group hp)
  · refine @ofText_of_arranges bindings _ (.binary op e e') ?_
    rw [Lexing.tokenize_operator hop]
    exact .between hop (.group hp) (.group hq)

/-- The texts `pi e -`, which the grammar does not derive, and `3e*`, which does not go on with the
exponent that its first letters could begin. -/
theorem ofText_composes_unusual :
    let p : PostfixExpr :=
      [.operand (.ofBits 0x400921FB54442D18), .operand (.ofBits 0x4005BF0A8B145769), .binary .minus]
    let q : PostfixExpr :=
      [.operand (.ofBits 0x4008000000000000), .operand (.ofBits 0x4005BF0A8B145769),
        .binary .multiply]
    ofText .constants "pi e -" = .ok p ∧ ofText .constants "3e*" = .ok q ∧
      ofText .constants ("(" ++ "pi e -" ++ ")") = .ok p ∧
      ofText .constants (NamedFunction.log10.name ++ "(" ++ "pi e -" ++ ")") =
        .ok (p ++ [.unary (.function .log10)]) ∧
      ofText .constants (Sign.minus.symbol ++ "(" ++ "pi e -" ++ ")") =
        .ok (p ++ [.unary (.sign .minus)]) ∧
      ofText .constants ("(" ++ "pi e -" ++ ") " ++ "mod" ++ " (" ++ "3e*" ++ ")") =
        .ok (p ++ q ++ [.binary .modulo]) := by
  intro p q
  have hs : ofText .constants "pi e -" = .ok p := by decide +kernel
  have ht : ofText .constants "3e*" = .ok q := by decide +kernel
  have hop : ("mod", BinaryOp.modulo) ∈ binaryOperators := by decide
  obtain ⟨hgroup, hcall, hsign, hbetween⟩ := ofText_composes hs ht
  exact ⟨hs, ht, hgroup, hcall .log10, hsign .minus, hbetween "mod" .modulo hop⟩

end Conversion

end PostfixCalc
