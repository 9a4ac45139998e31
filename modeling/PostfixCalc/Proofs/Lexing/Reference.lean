import Mathlib.Data.List.Chain
import PostfixCalc.Proofs.Lexing.Longest

/-!
# What the tokens of a text are

The tokens of a text said without a scanner and without looking ahead by characters that are given
back: blanks are skipped, then a symbol is taken, or the longest word, or the longest number, or
else a single character.  Which token a lexeme is depends on the token before it, if it is a sign,
and on what follows it, if it is a word.

Main results:

- `Lexing.lexemeAt_of_nextToken`, `Lexing.nextToken_of_lexemeAt`: the next token is that of the
  lexeme at the beginning of the text.
- `Lexing.Reads.unique`: a text is read in one way only.
- `Lexing.functionsCalled_tokensAfter`: a function is always followed by its argument.
- `Lexing.tokenize_reads`: the tokens of a text are those that are read, and nothing of the text is
  lost or added.
-/

namespace PostfixCalc

namespace Lexing

/-! ## The roles of lexemes -/

/-- The token of a symbol after a given token. -/
inductive SymbolRole (previous : Option Token) : Char → Token → Prop
  | openParen : SymbolRole previous '(' .openParen
  | closeParen : SymbolRole previous ')' .closeParen
  | comma : SymbolRole previous ',' .comma
  | operator {c : Char} (h : c ∈ ['*', '/', '%', '^']) :
      SymbolRole previous c (.operator (String.singleton c))
  | between {c : Char} (h : c ∈ ['+', '-']) (hprevious : previous.any Token.endsOperand = true) :
      SymbolRole previous c (.operator (String.singleton c))
  | sign {c : Char} (h : c ∈ ['+', '-']) (hprevious : previous.any Token.endsOperand = false) :
      SymbolRole previous c (.sign (String.singleton c))

/-- The token of a word in front of a given character. -/
inductive WordRole (following : Option Char) : List Char → Token → Prop
  | remainder : WordRole following "mod".toList (.operator "mod")
  | function {word : List Char} (hmod : word ≠ "mod".toList) (h : following = some '(') :
      WordRole following word (.function (String.ofList word))
  | name {word : List Char} (hmod : word ≠ "mod".toList) (h : following ≠ some '(') :
      WordRole following word (.name (String.ofList word))

/-- The lexeme at the beginning of a text without blanks in front, and its token. -/
inductive LexemeAt (previous : Option Token) (text : List Char) : List Char → Token → Prop
  | symbol {c : Char} {token : Token} (h : text.head? = some c)
      (hrole : SymbolRole previous c token) : LexemeAt previous text [c] token
  | word {word : List Char} {token : Token} (h : IsLongest wordLanguage text word)
      (hrole : WordRole ((text.drop word.length).dropWhile isBlank).head? word token) :
      LexemeAt previous text word token
  | number {number : List Char} {value : Binary64} (h : IsLongest numberLanguage text number)
      (hvalue : Binary64.read? (String.ofList number) = some value) :
      LexemeAt previous text number (.number value)
  | unknown {c : Char} (h : text.head? = some c) (hsymbol : ∀ token, ¬SymbolRole previous c token)
      (hword : ∀ word ∈ wordLanguage, ¬word <+: text)
      (hnumber : ∀ number ∈ numberLanguage, ¬number <+: text) :
      LexemeAt previous text [c] (.unknown (String.singleton c))

/-- A plus or minus is an operator behind an operand and a sign elsewhere. -/
theorem ofSymbol_of_mem {c : Char} (h : c ∈ ['+', '-']) (previous : Option Token) :
    Token.ofSymbol previous c =
      if previous.any Token.endsOperand then .operator (String.singleton c)
      else .sign (String.singleton c) := by
  simp only [List.mem_cons, List.not_mem_nil, or_false] at h
  rcases h with rfl | rfl <;> cases hprevious : previous.any Token.endsOperand <;>
    simp [Token.ofSymbol, hprevious]

theorem symbolRole_iff {previous : Option Token} {c : Char} {token : Token} :
    SymbolRole previous c token ↔ c ∈ Scanner.symbols ∧ Token.ofSymbol previous c = token := by
  have hsigns : ∀ d ∈ ['+', '-'], d ∈ Scanner.symbols := by simp [Scanner.symbols]
  constructor
  · intro h
    cases h with
    | openParen | closeParen | comma => exact ⟨by decide, rfl⟩
    | operator h =>
      simp only [List.mem_cons, List.not_mem_nil, or_false] at h
      rcases h with rfl | rfl | rfl | rfl <;> exact ⟨by decide, rfl⟩
    | between h hprevious => exact ⟨hsigns c h, by rw [ofSymbol_of_mem h, if_pos hprevious]⟩
    | sign h hprevious =>
      exact ⟨hsigns c h, by rw [ofSymbol_of_mem h, hprevious, if_neg Bool.false_ne_true]⟩
  · rintro ⟨hc, rfl⟩
    have hsign : c ∈ ['+', '-'] → SymbolRole previous c (Token.ofSymbol previous c) := by
      intro h
      rw [ofSymbol_of_mem h]
      split
      · exact .between h ‹_›
      · exact .sign h (Bool.eq_false_iff.2 ‹_›)
    simp only [Scanner.symbols, List.mem_cons, List.not_mem_nil, or_false] at hc
    rcases hc with rfl | rfl | rfl | rfl | rfl | rfl | rfl | rfl | rfl
    · exact hsign (by decide)
    · exact hsign (by decide)
    · exact .operator (by decide)
    · exact .operator (by decide)
    · exact .operator (by decide)
    · exact .operator (by decide)
    · exact .openParen
    · exact .closeParen
    · exact .comma

theorem wordRole_iff {following : Option Char} {word : List Char} {token : Token} :
    WordRole following word token ↔ Token.ofWord (String.ofList word) following = token := by
  have hword : word = "mod".toList ↔ String.ofList word = "mod" := by
    constructor
    · rintro rfl
      exact String.ofList_toList
    · intro h
      rw [← h, String.toList_ofList]
  constructor
  · intro h
    cases h with
    | remainder => rfl
    | function hmod h => rw [Token.ofWord, if_neg fun heq => hmod (hword.2 heq), if_pos h]
    | name hmod h => rw [Token.ofWord, if_neg fun heq => hmod (hword.2 heq), if_neg h]
  · rintro rfl
    by_cases hmod : word = "mod".toList
    · subst hmod
      exact .remainder
    · rw [Token.ofWord, if_neg fun heq => hmod (hword.2 heq)]
      split
      · exact .function hmod ‹_›
      · exact .name hmod ‹_›

/-! ## The next token -/

/-- A number begins with a digit. -/
theorem exists_cons_of_mem_numberLanguage {number : List Char} (h : number ∈ numberLanguage) :
    ∃ c rest, number = c :: rest ∧ c.isDigit = true := by
  obtain ⟨digits, fraction, exponent, rfl, hdigits, -, -⟩ := mem_numberLanguage.1 h
  obtain ⟨c, rest, rfl⟩ := List.exists_cons_of_ne_nil hdigits.1
  exact ⟨c, _, rfl, hdigits.2 c List.mem_cons_self⟩

/-- A number lexeme is read as a number, and that is its token. -/
theorem exists_read?_of_mem {number : List Char} (h : number ∈ numberLanguage) :
    ∃ value, Binary64.read? (String.ofList number) = some value ∧
      Token.ofNumber (String.ofList number) = .number value := by
  obtain ⟨digits, fraction, exponent, rfl, hdigits, hfraction, hexponent⟩ :=
    mem_numberLanguage.1 h
  obtain ⟨d, hd⟩ :=
    Option.isSome_iff_exists.1 (Decimal.read?_isSome hdigits hfraction hexponent)
  obtain ⟨c, rest, rfl⟩ := List.exists_cons_of_ne_nil hdigits.1
  have hc : c.isDigit = true := hdigits.2 c List.mem_cons_self
  have hmagnitude :
      Binary64.readMagnitude? (c :: rest ++ (fraction ++ exponent)) =
        some (Binary64.ofDecimal d) := by
    rw [Binary64.readMagnitude?, hd]
    rfl
  refine ⟨Binary64.ofDecimal d, ?_, ?_⟩
  · -- The lexeme begins with a digit, so what is read is a magnitude without a sign.
    have hsign : ∀ d ∈ ['-', '+'], c ≠ d := by
      intro d hd hcd
      have hdigits : (['-', '+'].all fun d => !d.isDigit) = true := by decide
      simpa [← hcd, hc] using List.all_eq_true.1 hdigits d hd
    unfold Binary64.read?
    rw [String.toList_ofList]
    split
    · exact absurd (List.head_eq_of_cons_eq ‹_›) (hsign '-' (by decide))
    · exact absurd (List.head_eq_of_cons_eq ‹_›) (hsign '+' (by decide))
    · exact hmagnitude
  · rw [Token.ofNumber, String.toList_ofList, hd]

/-- A rule for symbols takes the first character if it is a symbol. -/
theorem splitSymbol?_eq_some_iff {text rest : List Char} {c : Char} :
    splitSymbol? text = some (c, rest) ↔ text = c :: rest ∧ c ∈ Scanner.symbols := by
  rcases text with _ | ⟨d, text⟩
  · simp [splitSymbol?]
  · simp only [splitSymbol?, Option.ite_none_right_eq_some, Option.some.injEq, Prod.mk.injEq,
      List.contains_iff_mem, List.cons.injEq]
    constructor
    · rintro ⟨hd, rfl, rfl⟩
      exact ⟨⟨rfl, rfl⟩, hd⟩
    · rintro ⟨⟨rfl, rfl⟩, hd⟩
      exact ⟨hd, rfl, rfl⟩

theorem splitSymbol?_eq_none_iff {text : List Char} :
    splitSymbol? text = none ↔ ∀ c ∈ text.head?, c ∉ Scanner.symbols := by
  rcases text with _ | ⟨d, text⟩
  · simp [splitSymbol?]
  · simp [splitSymbol?]

/-- A lexeme that begins with a letter, a digit or an underscore is no symbol. -/
theorem splitSymbol?_of_isWordPart {text : List Char} {c : Char} {rest : List Char}
    (htext : text = c :: rest) (hc : Scanner.isWordPart c = true) : splitSymbol? text = none := by
  rw [splitSymbol?_eq_none_iff, htext]
  intro d hd hsymbol
  rw [List.head?_cons, Option.mem_some_iff] at hd
  subst hd
  exact (not_isBlank_of_isWordPart hc).2 (List.contains_iff_mem.2 hsymbol)

/-- A number does not begin a word. -/
theorem not_begins_word_of_number {text number : List Char} (h : number ∈ numberLanguage)
    (hbegins : number <+: text) : ∀ word ∈ wordLanguage, ¬word <+: text := by
  intro word hword hbegins'
  obtain ⟨c, rest, rfl, hc⟩ := exists_cons_of_mem_numberLanguage h
  rw [wordLanguage, mem_oneOf_mul_kstar] at hword
  obtain ⟨d, rest', rfl, hd, -⟩ := hword
  obtain ⟨tail, rfl⟩ := hbegins
  obtain rfl : d = c := (List.cons_prefix_cons.1 hbegins').1
  exact not_isWordStart_of_isDigit hc hd

/-- Every token that is found is that of the lexeme behind the blanks. -/
theorem lexemeAt_of_nextToken {previous : Option Token} {text rest : List Char} {token : Token}
    (h : nextToken previous text = some (token, rest)) :
    ∃ lexeme, text.dropWhile isBlank = lexeme ++ rest ∧
      LexemeAt previous (text.dropWhile isBlank) lexeme token := by
  unfold nextToken at h
  generalize text.dropWhile isBlank = t at h ⊢
  split at h
  · rename_i c rest' hsymbol
    obtain ⟨rfl, hc⟩ := splitSymbol?_eq_some_iff.1 hsymbol
    simp only [Option.some.injEq, Prod.mk.injEq] at h
    obtain ⟨htoken, rfl⟩ := h
    exact ⟨[c], rfl, .symbol rfl (symbolRole_iff.2 ⟨hc, htoken⟩)⟩
  · rename_i hsymbol
    split at h
    · rename_i word rest' hword
      obtain ⟨rfl, hlongest⟩ := splitsLongest_splitWord?.of_some hword
      simp only [Option.some.injEq, Prod.mk.injEq] at h
      obtain ⟨htoken, rfl⟩ := h
      refine ⟨word, rfl, .word hlongest (wordRole_iff.2 ?_)⟩
      rwa [List.drop_left]
    · rename_i hword
      split at h
      · rename_i number rest' hnumber
        obtain ⟨rfl, hlongest⟩ := splitsLongest_splitNumber?.of_some hnumber
        obtain ⟨value, hvalue, hread⟩ := exists_read?_of_mem hlongest.mem
        simp only [Option.some.injEq, Prod.mk.injEq, hread] at h
        obtain ⟨rfl, rfl⟩ := h
        exact ⟨number, rfl, .number hlongest hvalue⟩
      · rename_i hnumber
        split at h
        · rename_i c rest'
          simp only [Option.some.injEq, Prod.mk.injEq] at h
          obtain ⟨rfl, rfl⟩ := h
          refine ⟨[c], rfl, .unknown rfl ?_ (splitsLongest_splitWord?.of_none hword)
            (splitsLongest_splitNumber?.of_none hnumber)⟩
          intro token hrole
          exact splitSymbol?_eq_none_iff.1 hsymbol c rfl (symbolRole_iff.1 hrole).1
        · simp at h

/-- The lexeme behind the blanks is found. -/
theorem nextToken_of_lexemeAt {previous : Option Token} {text lexeme rest : List Char}
    {token : Token} (htext : text.dropWhile isBlank = lexeme ++ rest)
    (h : LexemeAt previous (text.dropWhile isBlank) lexeme token) :
    nextToken previous text = some (token, rest) := by
  unfold nextToken
  generalize text.dropWhile isBlank = t at htext h ⊢
  cases h with
  | symbol h hrole =>
    obtain ⟨hc, rfl⟩ := symbolRole_iff.1 hrole
    rw [List.singleton_append] at htext
    simp only [splitSymbol?_eq_some_iff.2 ⟨htext, hc⟩]
  | word h hrole =>
    obtain ⟨⟨c, hhead, -⟩, hparts⟩ := mem_wordLanguage.1 h.mem
    obtain ⟨run, rfl⟩ := List.head?_eq_some_iff.1 hhead
    have hsymbol := splitSymbol?_of_isWordPart htext (hparts c List.mem_cons_self)
    have hrest : t.drop (c :: run).length = rest := by rw [htext, List.drop_left]
    rw [hrest, wordRole_iff] at hrole
    simp only [hsymbol, splitsLongest_splitWord?.eq_some_iff.2 ⟨htext, h⟩, hrole]
  | number h hvalue =>
    obtain ⟨c, run, rfl, hc⟩ := exists_cons_of_mem_numberLanguage h.mem
    have hpart : Scanner.isWordPart c = true := by
      simp [Scanner.isWordPart, Char.isAlphanum, hc]
    have hsymbol := splitSymbol?_of_isWordPart htext hpart
    have hword :=
      splitsLongest_splitWord?.eq_none_iff.2 (not_begins_word_of_number h.mem h.begins)
    obtain ⟨value, hread, htoken⟩ := exists_read?_of_mem h.mem
    obtain rfl := Option.some.inj (hvalue.symm.trans hread)
    simp only [hsymbol, hword, splitsLongest_splitNumber?.eq_some_iff.2 ⟨htext, h⟩, htoken]
  | @unknown c h hsymbol hword hnumber =>
    have hsymbol : splitSymbol? t = none := by
      rw [splitSymbol?_eq_none_iff]
      intro d hd hmem
      rw [h, Option.mem_some_iff] at hd
      exact hsymbol _ (symbolRole_iff.2 ⟨hd ▸ hmem, rfl⟩)
    simp only [hsymbol, splitsLongest_splitWord?.eq_none_iff.2 hword,
      splitsLongest_splitNumber?.eq_none_iff.2 hnumber]
    rw [htext]
    rfl

theorem nextToken_eq_none_iff {previous : Option Token} {text : List Char} :
    nextToken previous text = none ↔ text.dropWhile isBlank = [] := by
  unfold nextToken
  generalize text.dropWhile isBlank = t
  constructor
  · intro h
    split at h
    · simp at h
    · split at h
      · simp at h
      · split at h
        · simp at h
        · split at h
          · simp at h
          · rfl
  · rintro rfl
    rfl

/-! ## Reading a text -/

/-- Blanks, the lexeme after them, and its token. -/
structure Piece where
  blanks : List Char
  lexeme : List Char
  token : Token

/-- A text that follows a given token is read as pieces, up to the blanks at its end. -/
inductive Reads : Option Token → List Char → List Piece → Prop
  | done {previous : Option Token} {text : List Char} (h : text.dropWhile isBlank = []) :
      Reads previous text []
  | next {previous : Option Token} {text lexeme rest : List Char} {token : Token}
      {pieces : List Piece} (hsplit : text.dropWhile isBlank = lexeme ++ rest)
      (h : LexemeAt previous (text.dropWhile isBlank) lexeme token)
      (later : Reads (some token) rest pieces) :
      Reads previous text (⟨text.takeWhile isBlank, lexeme, token⟩ :: pieces)

/-- Every text can be read, and its tokens are those of the pieces. -/
theorem exists_reads (previous : Option Token) (text : List Char) :
    ∃ pieces, Reads previous text pieces ∧
      tokensAfter previous text = pieces.map Piece.token := by
  induction previous, text using tokensAfter.induct with
  | case1 previous text hnone =>
    exact ⟨[], .done (nextToken_eq_none_iff.1 hnone), tokensAfter_of_none hnone⟩
  | case2 previous text token rest hsome ih =>
    obtain ⟨pieces, hreads, htokens⟩ := ih
    obtain ⟨lexeme, hsplit, h⟩ := lexemeAt_of_nextToken hsome
    refine ⟨_, .next hsplit h hreads, ?_⟩
    rw [tokensAfter_of_some hsome, htokens]
    rfl

/-- A text is read in one way only. -/
theorem Reads.unique {previous : Option Token} {text : List Char} {pieces others : List Piece}
    (h : Reads previous text pieces) (h' : Reads previous text others) : pieces = others := by
  induction h generalizing others with
  | @done previous text h =>
    have hnone : nextToken previous text = none := nextToken_eq_none_iff.2 h
    cases h' with
    | done => rfl
    | next hsplit' h' _ =>
      rw [nextToken_of_lexemeAt hsplit' h'] at hnone
      exact absurd hnone (Option.some_ne_none _)
  | next hsplit h _ ih =>
    have hsome := nextToken_of_lexemeAt hsplit h
    cases h' with
    | done h' =>
      rw [nextToken_eq_none_iff.2 h'] at hsome
      exact absurd hsome.symm (Option.some_ne_none _)
    | next hsplit' h' later' =>
      rw [nextToken_of_lexemeAt hsplit' h', Option.some.injEq, Prod.mk.injEq] at hsome
      obtain ⟨rfl, rfl⟩ := hsome
      rw [ih later', List.append_cancel_right (hsplit.symm.trans hsplit')]

/-- The blanks and lexemes that are read make up the text, but for blanks at its end. -/
theorem Reads.flatMap_append {previous : Option Token} {text : List Char} {pieces : List Piece}
    (h : Reads previous text pieces) :
    ∃ trailing, (pieces.flatMap fun piece => piece.blanks ++ piece.lexeme) ++ trailing = text ∧
      ∀ c ∈ trailing, isBlank c = true := by
  induction h with
  | @done previous text h =>
    have hall := List.takeWhile_append_dropWhile (p := isBlank) (l := text)
    rw [h, List.append_nil] at hall
    exact ⟨text, rfl, List.all_eq_true.1 (hall ▸ List.all_takeWhile)⟩
  | @next previous text lexeme rest token pieces hsplit _ _ ih =>
    obtain ⟨trailing, hrest, htrailing⟩ := ih
    refine ⟨trailing, ?_, htrailing⟩
    rw [List.flatMap_cons, List.append_assoc, hrest, List.append_assoc, ← hsplit,
      List.takeWhile_append_dropWhile]

/-- A text has no more tokens than characters. -/
theorem length_tokensAfter_le (previous : Option Token) (text : List Char) :
    (tokensAfter previous text).length ≤ text.length := by
  induction previous, text using tokensAfter.induct with
  | case1 previous text hnone =>
    rw [tokensAfter_of_none hnone]
    exact Nat.zero_le _
  | case2 previous text token rest hsome ih =>
    rw [tokensAfter_of_some hsome, List.length_cons]
    exact Nat.lt_of_le_of_lt ih (nextToken_shorter hsome)

/-! ## Functions, signs and unknown characters -/

/-- Every function is directly followed by an opening parenthesis. -/
def FunctionsCalled (tokens : List Token) : Prop :=
  ∀ front word back, tokens = front ++ .function word :: back → back.head? = some .openParen

theorem functionsCalled_cons {token : Token} {tokens : List Token} :
    FunctionsCalled (token :: tokens) ↔
      (∀ word, token = .function word → tokens.head? = some .openParen) ∧
        FunctionsCalled tokens := by
  constructor
  · intro h
    refine ⟨?_, fun front word back htokens => ?_⟩
    · rintro word rfl
      exact h [] word tokens rfl
    · exact h (token :: front) word back (by rw [htokens, List.cons_append])
  · rintro ⟨htoken, h⟩ front word back htokens
    rcases front with _ | ⟨first, front⟩
    · obtain ⟨rfl, rfl⟩ := List.cons.inj htokens
      exact htoken word rfl
    · exact h front word back (List.cons.inj htokens).2

/-- The next token of a text that goes on with an opening parenthesis is that parenthesis. -/
theorem head?_tokensAfter_openParen (previous : Option Token) {text : List Char}
    (h : (text.dropWhile isBlank).head? = some '(') :
    (tokensAfter previous text).head? = some .openParen := by
  obtain ⟨rest, hrest⟩ := List.head?_eq_some_iff.1 h
  have hsome : nextToken previous text = some (.openParen, rest) :=
    nextToken_of_lexemeAt hrest (.symbol h .openParen)
  rw [tokensAfter_of_some hsome, List.head?_cons]

/-- Among the tokens of a text every function is followed by its argument. -/
theorem functionsCalled_tokensAfter (previous : Option Token) (text : List Char) :
    FunctionsCalled (tokensAfter previous text) := by
  induction previous, text using tokensAfter.induct with
  | case1 previous text hnone =>
    rw [tokensAfter_of_none hnone]
    intro front word back h
    simp at h
  | case2 previous text token rest hsome ih =>
    rw [tokensAfter_of_some hsome, functionsCalled_cons]
    refine ⟨?_, ih⟩
    rintro word rfl
    obtain ⟨lexeme, hsplit, h⟩ := lexemeAt_of_nextToken hsome
    cases h with
    | symbol _ hrole => cases hrole
    | word _ hrole =>
      cases hrole with
      | function _ hopen =>
        rw [hsplit, List.drop_left] at hopen
        exact head?_tokensAfter_openParen _ hopen

/-- No sign stands directly behind the end of an operand. -/
def SignsInFront (tokens : List Token) : Prop :=
  tokens.IsChain fun token next => token.endsOperand = true → ∀ symbol, next ≠ .sign symbol

/-- Behind the end of an operand there is no sign. -/
theorem SignsInFront.head?_ne {token : Token} {tokens : List Token}
    (h : SignsInFront (token :: tokens)) (htoken : token.endsOperand = true) (symbol : String) :
    tokens.head? ≠ some (.sign symbol) := by
  intro hhead
  exact (List.isChain_cons.1 h).1 _ hhead htoken symbol rfl

/-- A token that is a sign does not follow the end of an operand. -/
theorem not_endsOperand_of_sign {previous : Option Token} {text rest : List Char} {symbol : String}
    (h : nextToken previous text = some (.sign symbol, rest)) :
    previous.any Token.endsOperand = false := by
  obtain ⟨lexeme, -, h⟩ := lexemeAt_of_nextToken h
  cases h with
  | symbol _ hrole =>
    cases hrole with
    | sign _ hprevious => exact hprevious
  | word _ hrole => cases hrole

/-- Among the tokens of a text every sign stands in front of its operand. -/
theorem signsInFront_tokensAfter (previous : Option Token) (text : List Char) :
    SignsInFront (tokensAfter previous text) := by
  induction previous, text using tokensAfter.induct with
  | case1 previous text hnone =>
    rw [tokensAfter_of_none hnone]
    exact .nil
  | case2 previous text token rest hsome ih =>
    rw [tokensAfter_of_some hsome]
    refine List.isChain_cons.2 ⟨fun next hnext htoken symbol hsign => ?_, ih⟩
    subst hsign
    cases hlater : nextToken (some token) rest with
    | none =>
      rw [tokensAfter_of_none hlater] at hnext
      exact absurd hnext (Option.not_mem_none _)
    | some found =>
      obtain ⟨next, later⟩ := found
      rw [tokensAfter_of_some hlater, List.head?_cons, Option.mem_some_iff] at hnext
      subst hnext
      exact absurd htoken (Bool.eq_false_iff.1 (not_endsOperand_of_sign hlater))

/-- A character that no other lexeme begins with. -/
def BeginsNoLexeme (c : Char) : Prop :=
  isBlank c = false ∧ c ∉ Scanner.symbols ∧ Scanner.isWordStart c = false ∧ c.isDigit = false

/-- An unknown token is a single character that no other lexeme begins with. -/
theorem unknown_of_mem_tokensAfter {previous : Option Token} {text : List Char} {lexeme : String}
    (h : .unknown lexeme ∈ tokensAfter previous text) :
    ∃ c, lexeme = String.singleton c ∧ BeginsNoLexeme c := by
  induction previous, text using tokensAfter.induct with
  | case1 previous text hnone =>
    rw [tokensAfter_of_none hnone] at h
    exact absurd h List.not_mem_nil
  | case2 previous text token rest hsome ih =>
    rw [tokensAfter_of_some hsome] at h
    rcases List.mem_cons.1 h with rfl | h
    · obtain ⟨found, hsplit, h⟩ := lexemeAt_of_nextToken hsome
      cases h with
      | symbol _ hrole => cases hrole
      | word _ hrole => cases hrole
      | @unknown c hhead hsymbol hword hnumber =>
        have hblank := List.head?_dropWhile_not isBlank text
        rw [hhead] at hblank
        obtain ⟨tail, htail⟩ := List.head?_eq_some_iff.1 hhead
        have hbegins : [c] <+: text.dropWhile isBlank := ⟨tail, htail.symm⟩
        refine ⟨c, rfl, hblank, fun hmem => ?_, ?_, ?_⟩
        · exact hsymbol _ (symbolRole_iff.2 ⟨hmem, rfl⟩)
        · rw [← Bool.not_eq_true]
          intro hstart
          have hmem : [c] ∈ wordLanguage :=
            mem_oneOf_mul_kstar.2 ⟨c, [], rfl, hstart, fun d hd => absurd hd List.not_mem_nil⟩
          exact hword _ hmem hbegins
        · rw [← Bool.not_eq_true]
          intro hdigit
          have hdigits : IsDigits [c] := ⟨List.cons_ne_nil c [], by simpa using hdigit⟩
          have hmem : [c] ∈ numberLanguage :=
            mem_numberLanguage.2 ⟨[c], [], [], rfl, hdigits, .nothing, .nothing⟩
          exact hnumber _ hmem hbegins
    · exact ih h

/-! ## The tokens of a text -/

/-- The tokens of a text have the texts that belong to their kinds. -/
theorem wellFormed_of_mem_tokenize {text : String} {token : Token}
    (h : token ∈ Token.tokenize text) : token.WellFormed := by
  rw [tokenize_eq] at h
  exact wellFormed_of_mem_tokensAfter h

theorem functionsCalled_tokenize (text : String) : FunctionsCalled (Token.tokenize text) := by
  rw [tokenize_eq]
  exact functionsCalled_tokensAfter none text.toList

theorem signsInFront_tokenize (text : String) : SignsInFront (Token.tokenize text) := by
  rw [tokenize_eq]
  exact signsInFront_tokensAfter none text.toList

/-- The tokens of a text are those of the pieces that it is read as, which is possible in one way
only.  Blanks and lexemes together are the text.  Every function is followed by its argument, and
an unknown token is a character that begins nothing else. -/
theorem tokenize_reads (text : String) :
    (∃ pieces trailing,
      (∀ others, Reads none text.toList others ↔ others = pieces) ∧
      Token.tokenize text = pieces.map Piece.token ∧
      (pieces.flatMap fun piece => piece.blanks ++ piece.lexeme) ++ trailing = text.toList ∧
      ∀ c ∈ trailing, isBlank c = true) ∧
    (Token.tokenize text).length ≤ text.length ∧
    FunctionsCalled (Token.tokenize text) ∧
    ∀ lexeme, .unknown lexeme ∈ Token.tokenize text →
      ∃ c, lexeme = String.singleton c ∧ BeginsNoLexeme c := by
  rw [tokenize_eq]
  obtain ⟨pieces, hreads, htokens⟩ := exists_reads none text.toList
  obtain ⟨trailing, htext, htrailing⟩ := hreads.flatMap_append
  refine ⟨⟨pieces, trailing, fun others => ⟨?_, ?_⟩, htokens, htext, htrailing⟩, ?_, ?_, ?_⟩
  · exact fun h => h.unique hreads
  · exact fun h => h ▸ hreads
  · exact length_tokensAfter_le none text.toList
  · exact functionsCalled_tokensAfter none text.toList
  · exact fun lexeme h => unknown_of_mem_tokensAfter h

end Lexing

end PostfixCalc
