import PostfixCalc.Proofs.Lexing.Reference

/-!
# Texts behind one another

A text that is followed by a closing parenthesis, or by a space and no opening parenthesis, is split
into the same tokens as by itself: no lexeme goes on behind the seam, and no word becomes a
function.  Behind the seam, the last token is all that matters of the text in front.

Main results:

- `Lexing.tokensAfter_congr`: of the token in front it only matters whether it ends an operand.
- `Lexing.nextToken_append`: the next token is the same whatever stands behind the seam.
- `Lexing.tokensAfter_append`: the tokens of a text with another behind it.
- `Lexing.tokensAfter_group`: the tokens of a text in parentheses.
-/

namespace PostfixCalc

namespace Lexing

variable {text rest : List Char}

/-! ## The token in front -/

/-- Of the token in front it only matters whether it ends an operand. -/
theorem tokensAfter_congr {previous other : Option Token}
    (h : previous.any Token.endsOperand = other.any Token.endsOperand) (text : List Char) :
    tokensAfter previous text = tokensAfter other text := by
  have hsymbol : ∀ c, Token.ofSymbol previous c = Token.ofSymbol other c := by
    intro c
    simp only [Token.ofSymbol, h]
  have hnext : nextToken previous text = nextToken other text := by
    simp only [nextToken, hsymbol]
  cases hother : nextToken other text with
  | none => rw [tokensAfter_of_none (hnext.trans hother), tokensAfter_of_none hother]
  | some found => rw [tokensAfter_of_some (hnext.trans hother), tokensAfter_of_some hother]

/-! ## Lexemes in front of a seam -/

/-- A run ends at a seam that it could not cross. -/
theorem run_append {p : Char → Bool} (hrest : ∀ c ∈ rest.head?, p c = false) (text : List Char) :
    (text ++ rest).takeWhile p = text.takeWhile p ∧
      (text ++ rest).dropWhile p = text.dropWhile p ++ rest := by
  induction text with
  | nil =>
    cases rest with
    | nil => exact ⟨rfl, rfl⟩
    | cons c rest =>
      have hc : p c = false := hrest c rfl
      simp [hc]
  | cons c text ih =>
    by_cases hc : p c = true
    · simp [hc, ih]
    · simp [hc]

theorem splitFraction_append (hrest : ∀ c ∈ rest.head?, c = ')' ∨ c = ' ') (text : List Char) :
    splitFraction (text ++ rest) = ((splitFraction text).1, (splitFraction text).2 ++ rest) := by
  have hdigit : ∀ c ∈ rest.head?, c.isDigit = false := by
    intro c hc
    rcases hrest c hc with rfl | rfl <;> rfl
  cases text with
  | nil =>
    cases rest with
    | nil => rfl
    | cons c rest => rcases hrest c rfl with rfl | rfl <;> rfl
  | cons c text =>
    by_cases hpoint : c = '.'
    · subst hpoint
      obtain ⟨htake, hdrop⟩ := run_append hdigit text
      simp only [List.cons_append, splitFraction, htake, hdrop]
      split <;> rfl
    · have hnone : ∀ other : List Char, splitFraction (c :: other) = ([], c :: other) := by
        intro other
        rw [splitFraction]
        intro later heq
        exact hpoint (List.head_eq_of_cons_eq heq)
      rw [List.cons_append, hnone, hnone, List.cons_append]

theorem splitSign_append (hrest : ∀ c ∈ rest.head?, c = ')' ∨ c = ' ') (text : List Char) :
    splitSign (text ++ rest) = ((splitSign text).1, (splitSign text).2 ++ rest) := by
  cases text with
  | nil =>
    cases rest with
    | nil => rfl
    | cons c rest => rcases hrest c rfl with rfl | rfl <;> rfl
  | cons c text =>
    rw [List.cons_append, splitSign, splitSign]
    split <;> rfl

theorem splitExponent_append (hrest : ∀ c ∈ rest.head?, c = ')' ∨ c = ' ') (text : List Char) :
    splitExponent (text ++ rest) = ((splitExponent text).1, (splitExponent text).2 ++ rest) := by
  have hdigit : ∀ c ∈ rest.head?, c.isDigit = false := by
    intro c hc
    rcases hrest c hc with rfl | rfl <;> rfl
  cases text with
  | nil =>
    cases rest with
    | nil => rfl
    | cons c rest => rcases hrest c rfl with rfl | rfl <;> rfl
  | cons c text =>
    obtain ⟨htake, hdrop⟩ := run_append hdigit (splitSign text).2
    simp only [List.cons_append, splitExponent, splitSign_append hrest, htake, hdrop]
    split <;> rfl

/-- No number goes on behind a seam. -/
theorem splitNumber?_append (hrest : ∀ c ∈ rest.head?, c = ')' ∨ c = ' ') (text : List Char) :
    splitNumber? (text ++ rest) =
      (splitNumber? text).map fun found => (found.1, found.2 ++ rest) := by
  have hdigit : ∀ c ∈ rest.head?, c.isDigit = false := by
    intro c hc
    rcases hrest c hc with rfl | rfl <;> rfl
  obtain ⟨htake, hdrop⟩ := run_append hdigit text
  simp only [splitNumber?, htake, hdrop, splitFraction_append hrest, splitExponent_append hrest]
  split <;> rfl

/-- No word goes on behind a seam. -/
theorem splitWord?_append (hrest : ∀ c ∈ rest.head?, c = ')' ∨ c = ' ') {c : Char}
    (text : List Char) :
    splitWord? (c :: text ++ rest) =
      (splitWord? (c :: text)).map fun found => (found.1, found.2 ++ rest) := by
  have hpart : ∀ c ∈ rest.head?, Scanner.isWordPart c = false := by
    intro c hc
    rcases hrest c hc with rfl | rfl <;> rfl
  obtain ⟨htake, hdrop⟩ := run_append hpart text
  simp only [List.cons_append, splitWord?, htake, hdrop]
  split <;> rfl

/-! ## Tokens in front of a seam -/

/-- No word becomes a function because of what stands behind a seam. -/
theorem ofWord_append (hrest : Separates rest) (word : String) (text : List Char) :
    Token.ofWord word ((text ++ rest).dropWhile isBlank).head? =
      Token.ofWord word (text.dropWhile isBlank).head? := by
  have hopen : ((text ++ rest).dropWhile isBlank).head? = some '(' ↔
      (text.dropWhile isBlank).head? = some '(' := by
    rw [List.dropWhile_append]
    cases htext : text.dropWhile isBlank with
    | nil => simpa using hrest.2
    | cons c text => simp
  simp only [Token.ofWord, hopen]

/-- The next token of a text is the same whatever stands behind the seam. -/
theorem nextToken_append (hrest : Separates rest) {previous : Option Token} {later : List Char}
    {token : Token} (h : nextToken previous text = some (token, later)) :
    nextToken previous (text ++ rest) = some (token, later ++ rest) := by
  have hnonempty : text.dropWhile isBlank ≠ [] := by
    intro hnil
    rw [nextToken_eq_none_iff.2 hnil] at h
    cases h
  obtain ⟨c, tail, htail⟩ := List.exists_cons_of_ne_nil hnonempty
  have hblanks : (text ++ rest).dropWhile isBlank = c :: tail ++ rest := by
    rw [List.dropWhile_append, htail]
    rfl
  have hword := @splitWord?_append rest hrest.1 c tail
  have hnumber := splitNumber?_append hrest.1 (c :: tail)
  unfold nextToken at h ⊢
  rw [htail] at h
  rw [hblanks, hword, hnumber]
  -- The rules for lexemes are tried in the same order with and without what stands behind.
  by_cases hsymbol : Scanner.symbols.contains c = true
  · simp only [splitSymbol?, hsymbol, if_true, List.cons_append, Option.some.injEq,
      Prod.mk.injEq] at h ⊢
    exact ⟨h.1, by rw [h.2]⟩
  · have hnone : ∀ other, splitSymbol? (c :: other) = none := fun other => if_neg hsymbol
    rw [hnone] at h
    rw [List.cons_append, hnone]
    cases hfound : splitWord? (c :: tail) with
    | some found =>
      obtain ⟨word, after⟩ := found
      simp only [hfound, Option.map_some, Option.some.injEq, Prod.mk.injEq] at h ⊢
      rw [ofWord_append hrest]
      exact ⟨h.1, by rw [h.2]⟩
    | none =>
      cases hfound' : splitNumber? (c :: tail) with
      | some found =>
        obtain ⟨number, after⟩ := found
        simp only [hfound, hfound', Option.map_some, Option.map_none, Option.some.injEq,
          Prod.mk.injEq] at h ⊢
        exact ⟨h.1, by rw [h.2]⟩
      | none =>
        simp only [hfound, hfound', Option.map_none, Option.some.injEq, Prod.mk.injEq] at h ⊢
        exact ⟨h.1, by rw [h.2]⟩

/-- A text of blanks has no influence on what stands behind it. -/
theorem nextToken_append_of_none {previous : Option Token} (h : nextToken previous text = none) :
    nextToken previous (text ++ rest) = nextToken previous rest := by
  have hblanks : (text ++ rest).dropWhile isBlank = rest.dropWhile isBlank := by
    rw [List.dropWhile_append, nextToken_eq_none_iff.1 h]
    rfl
  simp only [nextToken, hblanks]

/-- The tokens of a text with another behind it are those of the text, and then those of the other
behind the last of them. -/
theorem tokensAfter_append (hrest : Separates rest) (previous : Option Token) (text : List Char) :
    tokensAfter previous (text ++ rest) =
      tokensAfter previous text ++
        tokensAfter ((tokensAfter previous text).getLast?.or previous) rest := by
  induction previous, text using tokensAfter.induct with
  | case1 previous text hnone =>
    have hnext : nextToken previous (text ++ rest) = nextToken previous rest :=
      nextToken_append_of_none hnone
    rw [tokensAfter_of_none hnone, List.nil_append, List.getLast?_nil, Option.none_or]
    cases hlater : nextToken previous rest with
    | none => rw [tokensAfter_of_none (hnext.trans hlater), tokensAfter_of_none hlater]
    | some found => rw [tokensAfter_of_some (hnext.trans hlater), tokensAfter_of_some hlater]
  | case2 previous text token later hsome ih =>
    have hlast : ∀ tokens : List Token,
        (token :: tokens).getLast?.or previous = tokens.getLast?.or (some token) := by
      intro tokens
      rw [List.getLast?_cons]
      cases tokens.getLast? <;> rfl
    rw [tokensAfter_of_some (nextToken_append hrest hsome), tokensAfter_of_some hsome, ih, hlast,
      List.cons_append]

/-- The tokens of a text in parentheses are those of the text, in parentheses. -/
theorem tokensAfter_group (previous : Option Token) (text rest : List Char) :
    tokensAfter previous ('(' :: (text ++ ')' :: rest)) =
      .openParen ::
        (tokensAfter none text ++ .closeParen :: tokensAfter (some .closeParen) rest) := by
  have hopen : '(' ∈ Scanner.symbols := by decide
  have hclose : ')' ∈ Scanner.symbols := by decide
  have hinside : tokensAfter (some .openParen) text = tokensAfter none text :=
    @tokensAfter_congr (some .openParen) none rfl text
  calc tokensAfter previous ('(' :: (text ++ ')' :: rest))
      = .openParen :: tokensAfter (some .openParen) (text ++ ')' :: rest) :=
        tokensAfter_symbol previous hopen _
    _ = .openParen :: (tokensAfter none text ++ .closeParen ::
          tokensAfter (some .closeParen) rest) := by
        rw [tokensAfter_append (separates_closeParen rest), hinside, tokensAfter_symbol _ hclose]
        rfl

end Lexing

end PostfixCalc
