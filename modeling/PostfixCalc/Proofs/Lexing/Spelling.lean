import PostfixCalc.Operator.Basic
import PostfixCalc.Proofs.NumberText

/-!
# Texts that spell tokens

Where an operand is expected, a text spells tokens if it is split into exactly these, whatever
stands behind it: the end, a closing parenthesis, or a blank and an operator.  Spellings are put
together like the expressions they belong to.

Main results:

- `tokensAfter_symbol`, `tokensAfter_word`, `tokensAfter_number`: one lexeme is split off at a time.
- `Spells.number`, `Spells.name`, `Spells.sign`, `Spells.group`, `Spells.call`, `Spells.binary`: the
  spellings of expressions from those of their parts.
-/

namespace PostfixCalc

namespace Token

/-- Where an operand is expected, the symbol of a sign is a sign. -/
theorem ofSymbol_sign {previous : Option Token} (h : previous.any endsOperand = false)
    (s : Sign) :
    ∃ c ∈ Scanner.symbols, s.symbol.toList = [c] ∧ ofSymbol previous c = sign s.symbol := by
  cases s with
  | minus => exact ⟨'-', by decide, rfl, by simp [ofSymbol, h]; rfl⟩
  | plus => exact ⟨'+', by decide, rfl, by simp [ofSymbol, h]; rfl⟩

/-- Behind an operand, the symbol of a binary operator is an operator; the remainder has a word. -/
theorem ofSymbol_operator {previous : Option Token} (h : previous.any endsOperand = true)
    {op : BinaryOp} (hop : op ≠ .modulo) :
    ∃ c ∈ Scanner.symbols, op.symbol.toList = [c] ∧ ofSymbol previous c = operator op.symbol := by
  cases op with
  | plus => exact ⟨'+', by decide, rfl, by simp [ofSymbol, h]; rfl⟩
  | minus => exact ⟨'-', by decide, rfl, by simp [ofSymbol, h]; rfl⟩
  | multiply => exact ⟨'*', by decide, rfl, rfl⟩
  | divide => exact ⟨'/', by decide, rfl, rfl⟩
  | power => exact ⟨'^', by decide, rfl, rfl⟩
  | modulo => exact absurd rfl hop

end Token

namespace Lexing

/-! ## One token at a time -/

/-- A blank in front of a text has no influence on its tokens. -/
theorem tokensAfter_blank (previous : Option Token) {c : Char} (h : isBlank c = true)
    (rest : List Char) : tokensAfter previous (c :: rest) = tokensAfter previous rest := by
  have hnext : nextToken previous (c :: rest) = nextToken previous rest := by
    simp only [nextToken, List.dropWhile_cons_of_pos h]
  cases hrest : nextToken previous rest with
  | none => rw [tokensAfter_of_none (hnext.trans hrest), tokensAfter_of_none hrest]
  | some found => rw [tokensAfter_of_some (hnext.trans hrest), tokensAfter_of_some hrest]

/-- A symbol is a token by itself. -/
theorem tokensAfter_symbol (previous : Option Token) {c : Char}
    (h : c ∈ Scanner.symbols) (rest : List Char) :
    tokensAfter previous (c :: rest) =
      Token.ofSymbol previous c :: tokensAfter (some (Token.ofSymbol previous c)) rest := by
  have hblanks : (Scanner.symbols.all fun c => !isBlank c) = true := by decide
  have hblank : ¬isBlank c = true := by simpa using List.all_eq_true.1 hblanks c h
  have hsymbol : Scanner.symbols.contains c = true := List.contains_iff_mem.2 h
  apply tokensAfter_of_some
  simp only [nextToken, List.dropWhile_cons_of_neg hblank, splitSymbol?, if_pos hsymbol]

/-- A letter or an underscore, and letters, digits and underscores after it. -/
def IsWord (word : List Char) : Prop :=
  (∃ c ∈ word.head?, Scanner.isWordStart c = true) ∧ ∀ c ∈ word, Scanner.isWordPart c = true

instance (word : List Char) : Decidable (IsWord word) :=
  decidable_of_iff
    (word.head?.any Scanner.isWordStart = true ∧ word.all Scanner.isWordPart = true)
    (and_congr (Option.any_eq_true _ _) List.all_eq_true)

/-- A digit does not begin a word. -/
theorem not_isWordStart_of_isDigit {c : Char} (h : c.isDigit = true) :
    ¬Scanner.isWordStart c = true := by
  rw [Scanner.isWordStart, Bool.or_eq_true, beq_iff_eq]
  rintro (hletter | rfl)
  · delta Char.isAlpha Char.isUpper Char.isLower at hletter
    delta Char.isDigit at h
    simp only [Bool.or_eq_true, Bool.and_eq_true, decide_eq_true_eq, ge_iff_le,
      UInt32.le_iff_toNat_le] at hletter h
    simp at hletter h
    omega
  · exact absurd h (by decide)

/-- Characters of words are neither blanks nor symbols. -/
theorem not_isBlank_of_isWordPart {c : Char} (h : Scanner.isWordPart c = true) :
    ¬isBlank c = true ∧ ¬Scanner.symbols.contains c = true := by
  rw [Scanner.isWordPart, Bool.or_eq_true, beq_iff_eq] at h
  rcases h with hletter | rfl
  · constructor
    · simp [isBlank_eq_false_of_isAlphanum hletter]
    · have hsymbols : (Scanner.symbols.all fun c => !c.isAlphanum) = true := by decide
      intro hsymbol
      have hc := List.all_eq_true.1 hsymbols c (List.contains_iff_mem.1 hsymbol)
      simp [hletter] at hc
  · decide

/-- A word is one token, which depends on what follows the blanks after it. -/
theorem tokensAfter_word (previous : Option Token) {word rest : List Char} (hword : IsWord word)
    (hrest : ∀ c ∈ rest.head?, Scanner.isWordPart c = false) :
    let token := Token.ofWord (String.ofList word) (rest.dropWhile isBlank).head?
    tokensAfter previous (word ++ rest) = token :: tokensAfter (some token) rest := by
  obtain ⟨⟨c, hhead, hstart⟩, hparts⟩ := hword
  rcases word with _ | ⟨first, word⟩
  · simp at hhead
  · rw [List.head?_cons, Option.mem_some_iff] at hhead
    subst hhead
    obtain ⟨hblank, hsymbol⟩ := not_isBlank_of_isWordPart (hparts first List.mem_cons_self)
    obtain ⟨htake, hdrop⟩ :=
      span_run (fun d hd => hparts d (List.mem_cons_of_mem first hd)) hrest
    apply tokensAfter_of_some
    simp only [nextToken, List.cons_append, List.dropWhile_cons_of_neg hblank, splitSymbol?,
      if_neg hsymbol, splitWord?, if_pos hstart, htake, hdrop]

/-- Digits written out are one token. -/
theorem tokensAfter_number (previous : Option Token) {text rest : List Char} (h : Positional text)
    (hrest : ∀ c ∈ rest.head?, continuesNumber c = false) :
    let token := Token.ofNumber (String.ofList text)
    tokensAfter previous (text ++ rest) = token :: tokensAfter (some token) rest := by
  obtain ⟨c, tail, hhead, hdigit⟩ := h.exists_cons
  have hsplit := splitNumber?_positional h hrest
  rw [hhead, List.cons_append] at hsplit ⊢
  have hpart : Scanner.isWordPart c = true := by
    simp [Scanner.isWordPart, Char.isAlphanum, hdigit]
  have hstart : ¬Scanner.isWordStart c = true := not_isWordStart_of_isDigit hdigit
  obtain ⟨hblank, hsymbol⟩ := not_isBlank_of_isWordPart hpart
  apply tokensAfter_of_some
  simp only [nextToken, List.dropWhile_cons_of_neg hblank, splitSymbol?, if_neg hsymbol,
    splitWord?, if_neg hstart, hsplit]

/-! ## Spellings -/

/-- What can follow an expression: nothing, a closing parenthesis, or a space and no opening
parenthesis. -/
def Separates (rest : List Char) : Prop :=
  (∀ c ∈ rest.head?, c = ')' ∨ c = ' ') ∧ (rest.dropWhile isBlank).head? ≠ some '('

theorem separates_nil : Separates [] := ⟨by simp, by simp⟩

theorem separates_closeParen (rest : List Char) : Separates (')' :: rest) := by
  have hblank : ¬isBlank ')' = true := by decide
  constructor
  · simp
  · simp [List.dropWhile_cons_of_neg hblank]

theorem separates_space {rest : List Char} {c : Char} (hblank : ¬isBlank c = true) (hc : c ≠ '(') :
    Separates (' ' :: c :: rest) := by
  have hspace : isBlank ' ' = true := by decide
  constructor
  · simp
  · simpa [List.dropWhile_cons_of_pos hspace, List.dropWhile_cons_of_neg hblank] using hc

/-- Where an operand is expected, a text is split into the given tokens, the last of which ends an
operand. -/
structure Spells (text : List Char) (tokens : List Token) : Prop where
  split (previous : Option Token) (rest : List Char) :
    previous.any Token.endsOperand = false → Separates rest →
      tokensAfter previous (text ++ rest) = tokens ++ tokensAfter tokens.getLast? rest
  ends : tokens.getLast?.any Token.endsOperand = true

namespace Spells

variable {text : List Char} {tokens : List Token}

/-- The tokens of a text that spells them. -/
theorem tokensAfter_eq (h : Spells text tokens) : tokensAfter none text = tokens := by
  have hsplit := h.split none [] rfl separates_nil
  have hnil : ∀ previous, tokensAfter previous [] = [] := fun _ => tokensAfter_of_none rfl
  rwa [hnil, List.append_nil, List.append_nil] at hsplit

/-- Digits spell a number. -/
theorem number (h : Positional text) {value : Binary64}
    (hvalue : Token.ofNumber (String.ofList text) = .number value) :
    Spells text [.number value] := by
  constructor
  · intro previous rest _ hrest
    have hhead : ∀ c ∈ rest.head?, continuesNumber c = false := by
      intro c hc
      rcases hrest.1 c hc with rfl | rfl <;> rfl
    rw [tokensAfter_number previous h hhead, hvalue]
    rfl
  · rfl

/-- A word spells a name. -/
theorem name (h : IsWord text) (hmod : String.ofList text ≠ "mod") :
    Spells text [.name (String.ofList text)] := by
  constructor
  · intro previous rest _ hrest
    have hhead : ∀ c ∈ rest.head?, Scanner.isWordPart c = false := by
      intro c hc
      rcases hrest.1 c hc with rfl | rfl <;> rfl
    rw [tokensAfter_word previous h hhead, Token.ofWord, if_neg hmod, if_neg hrest.2]
    rfl
  · rfl

/-- A lexeme in front of what spells an operand adds a token that does not end one. -/
theorem prepend {front : List Char} {token : Token}
    (hfront : ∀ previous rest, previous.any Token.endsOperand = false →
      tokensAfter previous (front ++ (text ++ rest)) =
        token :: tokensAfter (some token) (text ++ rest))
    (htoken : token.endsOperand = false) (h : Spells text tokens) :
    Spells (front ++ text) (token :: tokens) := by
  obtain ⟨last, hlast, -⟩ := (Option.any_eq_true _ _).1 h.ends
  have hlast' : (token :: tokens).getLast? = tokens.getLast? := by simp [List.getLast?_cons, hlast]
  constructor
  · intro previous rest hprevious hrest
    rw [List.append_assoc, hfront previous rest hprevious, h.split (some token) rest htoken hrest,
      hlast']
    rfl
  · rw [hlast']
    exact h.ends

/-- A sign in front of what spells an operand. -/
theorem sign (s : Sign) (h : Spells text tokens) :
    Spells (s.symbol.toList ++ text) (.sign s.symbol :: tokens) := by
  apply h.prepend
  · intro previous rest hprevious
    obtain ⟨c, hc, hsymbol, htoken⟩ := Token.ofSymbol_sign hprevious s
    rw [hsymbol, List.singleton_append, tokensAfter_symbol previous hc, htoken]
  · rfl

/-- Parentheses around what spells an operand. -/
theorem group (h : Spells text tokens) :
    Spells ('(' :: (text ++ [')'])) (.openParen :: (tokens ++ [.closeParen])) := by
  constructor
  · intro previous rest _ _
    have hopen : '(' ∈ Scanner.symbols := by decide
    have hclose : ')' ∈ Scanner.symbols := by decide
    have hopenToken : Token.ofSymbol previous '(' = .openParen := rfl
    have hcloseToken : Token.ofSymbol tokens.getLast? ')' = .closeParen := rfl
    have hlast : (Token.openParen :: (tokens ++ [.closeParen])).getLast? = some .closeParen := by
      simp [List.getLast?_cons]
    have hinside := h.split (some .openParen) _ rfl (separates_closeParen rest)
    rw [List.cons_append, tokensAfter_symbol previous hopen, hopenToken, List.append_assoc,
      List.singleton_append, hinside, tokensAfter_symbol _ hclose, hcloseToken, hlast]
    simp
  · simp [List.getLast?_cons, Token.endsOperand]

/-- A function in front of its argument in parentheses. -/
theorem call (f : NamedFunction) (h : Spells text tokens) :
    Spells (f.name.toList ++ '(' :: (text ++ [')']))
      (.function f.name :: .openParen :: (tokens ++ [.closeParen])) := by
  apply h.group.prepend
  · intro previous rest _
    have hword : IsWord f.name.toList ∧ f.name ≠ "mod" := by cases f <;> decide
    have hblank : ¬isBlank '(' = true := by decide
    refine (tokensAfter_word previous hword.1 (by simp; decide)).trans ?_
    rw [String.ofList_toList, Token.ofWord, if_neg hword.2, List.cons_append,
      List.dropWhile_cons_of_neg hblank, List.head?_cons, if_pos rfl]
  · rfl

/-- Behind an operand, the text of a binary operator is its token. -/
theorem tokensAfter_operator {previous : Option Token}
    (hprevious : previous.any Token.endsOperand = true) (op : BinaryOp) (rest : List Char) :
    tokensAfter previous (op.symbol.toList ++ ' ' :: rest) =
      .operator op.symbol :: tokensAfter (some (.operator op.symbol)) (' ' :: rest) := by
  by_cases hop : op = .modulo
  · subst hop
    have hword : IsWord "mod".toList := by decide
    have hspace : ∀ c ∈ (' ' :: rest).head?, Scanner.isWordPart c = false := by simp; decide
    exact tokensAfter_word previous hword hspace
  · obtain ⟨c, hc, hsymbol, htoken⟩ := Token.ofSymbol_operator hprevious hop
    rw [hsymbol, List.singleton_append, tokensAfter_symbol previous hc, htoken]

/-- Two operands with an operator between them. -/
theorem binary {text' : List Char} {tokens' : List Token} (op : BinaryOp) (h : Spells text tokens)
    (h' : Spells text' tokens') :
    Spells (text ++ ' ' :: (op.symbol.toList ++ ' ' :: text'))
      (tokens ++ .operator op.symbol :: tokens') := by
  obtain ⟨last, hlast, -⟩ := (Option.any_eq_true _ _).1 h'.ends
  have hlast' : (tokens ++ .operator op.symbol :: tokens').getLast? = tokens'.getLast? := by
    simp [List.getLast?_append, List.getLast?_cons, hlast]
  constructor
  · intro previous rest hprevious hrest
    have hblank : isBlank ' ' = true := by decide
    -- The operator comes behind an operand, so a plus or minus is no sign; the right text does not.
    have hseparates : Separates (' ' :: (op.symbol.toList ++ ' ' :: (text' ++ rest))) := by
      cases op <;> exact separates_space (by decide) (by decide)
    rw [List.append_assoc, List.cons_append, List.append_assoc, List.cons_append,
      h.split previous _ hprevious hseparates, tokensAfter_blank _ hblank,
      tokensAfter_operator h.ends, tokensAfter_blank _ hblank, h'.split _ rest rfl hrest, hlast']
    simp
  · rw [hlast']
    exact h'.ends

end Spells

end Lexing

end PostfixCalc
