import PostfixCalc.Proofs.Lexing.Spelling

/-!
# The texts of tokens

What a token of a text can look like.  Every number lexeme can be read, so a token is unknown only
if it is a single character that begins no lexeme.

Main results:

- `Decimal.read?_isSome`: what has the shape of a number is read as one.
- `Lexing.wellFormed_of_mem_tokensAfter`: the tokens of a text have the texts that belong to their
  kinds.
-/

namespace PostfixCalc

namespace Lexing

/-! ## Shapes of number lexemes -/

/-- Nothing, or a point and digits. -/
inductive IsFraction : List Char → Prop
  | nothing : IsFraction []
  | places {places : List Char} (h : IsDigits places) : IsFraction ('.' :: places)

/-- Nothing, or an `e` or `E`, perhaps a sign, and digits. -/
inductive IsExponent : List Char → Prop
  | nothing : IsExponent []
  | marked {mark : Char} {sign digits : List Char} (hmark : mark = 'e' ∨ mark = 'E')
      (hsign : sign = [] ∨ sign = ['+'] ∨ sign = ['-']) (h : IsDigits digits) :
      IsExponent (mark :: (sign ++ digits))

theorem isDigits_takeWhile {text : List Char} (h : text.takeWhile Char.isDigit ≠ []) :
    IsDigits (text.takeWhile Char.isDigit) := by
  refine ⟨h, ?_⟩
  intro c hc
  exact List.all_eq_true.1 List.all_takeWhile c hc

theorem isFraction_splitFraction (text : List Char) : IsFraction (splitFraction text).1 := by
  unfold splitFraction
  split
  · split
    · exact .nothing
    · exact .places (isDigits_takeWhile ‹_›)
  · exact .nothing

theorem splitSign_cases (text : List Char) :
    (splitSign text).1 = [] ∨ (splitSign text).1 = ['+'] ∨ (splitSign text).1 = ['-'] := by
  rcases text with _ | ⟨c, rest⟩
  · exact Or.inl rfl
  · rw [splitSign]
    split
    · rename_i hc
      rcases hc with rfl | rfl
      · exact Or.inr (Or.inl rfl)
      · exact Or.inr (Or.inr rfl)
    · exact Or.inl rfl

theorem isExponent_splitExponent (text : List Char) : IsExponent (splitExponent text).1 := by
  rcases text with _ | ⟨mark, rest⟩
  · exact .nothing
  · rw [splitExponent]
    split
    · rename_i h
      exact .marked h.1 (splitSign_cases rest) (isDigits_takeWhile h.2)
    · exact .nothing

/-- A number lexeme has digits, perhaps a fraction, and perhaps an exponent. -/
theorem exists_of_splitNumber? {text lexeme rest : List Char}
    (h : splitNumber? text = some (lexeme, rest)) :
    ∃ digits fraction exponent, lexeme = digits ++ (fraction ++ exponent) ∧ IsDigits digits ∧
      IsFraction fraction ∧ IsExponent exponent := by
  simp only [splitNumber?, Option.ite_none_left_eq_some, Option.some.injEq, Prod.mk.injEq] at h
  obtain ⟨hdigits, rfl, -⟩ := h
  exact ⟨_, _, _, List.append_assoc _ _ _, isDigits_takeWhile hdigits,
    isFraction_splitFraction _, isExponent_splitExponent _⟩

end Lexing

open Lexing

/-! ## Reading number lexemes -/

namespace Decimal

theorem readDigits?_of_isDigits {text : List Char} (h : IsDigits text) :
    readDigits? text = some (Nat.ofDigitChars 10 text 0) :=
  if_pos ⟨h.1, List.all_eq_true.2 h.2⟩

theorem readExponent?_isSome {text : List Char} (h : IsExponent text) :
    (readExponent? text).isSome := by
  cases h with
  | nothing => rfl
  | marked hmark hsign h =>
    rename_i mark sign digits
    have hread := readDigits?_of_isDigits h
    unfold readExponent?
    rcases hsign with rfl | rfl | rfl
    · simp only [List.nil_append, if_pos hmark]
      split
      · exact absurd (h.2 '-' List.mem_cons_self) (by decide)
      · exact absurd (h.2 '+' List.mem_cons_self) (by decide)
      · rw [hread]
        rfl
    · simp only [List.singleton_append, if_pos hmark, hread]
      rfl
    · simp only [List.singleton_append, if_pos hmark, hread]
      rfl

/-- What has the shape of a number is read as one. -/
theorem read?_isSome {digits fraction exponent : List Char} (hdigits : IsDigits digits)
    (hfraction : IsFraction fraction) (hexponent : IsExponent exponent) :
    (read? (digits ++ (fraction ++ exponent))).isSome := by
  have hmark : ∀ c ∈ exponent.head?, c.isDigit = false ∧ c ≠ '.' := by
    intro c hc
    cases hexponent with
    | nothing => simp at hc
    | marked hmark _ _ =>
      rw [List.head?_cons, Option.mem_some_iff] at hc
      subst hc
      rcases hmark with rfl | rfl <;> decide
  have hstop : ∀ c ∈ (fraction ++ exponent).head?, c.isDigit = false := by
    intro c hc
    cases hfraction with
    | nothing => exact (hmark c hc).1
    | places _ =>
      rw [List.cons_append, List.head?_cons, Option.mem_some_iff] at hc
      exact hc ▸ rfl
  have hsplit : (Decimal.splitFraction (fraction ++ exponent)).2 = exponent := by
    cases hfraction with
    | nothing =>
      rw [List.nil_append]
      unfold Decimal.splitFraction
      split
      · exact absurd rfl (hmark '.' rfl).2
      · rfl
    | places h => exact (span_run h.2 fun c hc => (hmark c hc).1).2
  obtain ⟨htake, hdrop⟩ := span_run hdigits.2 hstop
  simp only [read?, htake, hdrop, hsplit, hdigits.1, false_and, if_false, Option.isSome_map]
  exact readExponent?_isSome hexponent

end Decimal

/-! ## Tokens -/

/-- A token has a text that belongs to its kind. -/
def Token.WellFormed : Token → Prop
  | name word => IsWord word.toList
  | function word => IsWord word.toList
  | sign symbol => symbol ∈ ["+", "-"]
  | operator symbol => symbol ∈ ["+", "-", "*", "/", "%", "^", "mod"]
  | unknown text => ∃ c, text = String.singleton c
  | number _ | openParen | closeParen | comma => True

theorem Token.wellFormed_ofSymbol (previous : Option Token) {c : Char}
    (h : c ∈ Scanner.symbols) : (ofSymbol previous c).WellFormed := by
  unfold ofSymbol
  split
  · trivial
  · split
    · trivial
    · split
      · trivial
      · split
        · rename_i hsign
          rcases hsign.1 with rfl | rfl
          · exact List.mem_cons_of_mem _ List.mem_cons_self
          · exact List.mem_cons_self
        · rename_i hopen hclose hcomma _
          simp only [Scanner.symbols, List.mem_cons, List.not_mem_nil, or_false, hopen, hclose,
            hcomma] at h
          change String.singleton c ∈ _
          rcases h with rfl | rfl | rfl | rfl | rfl | rfl <;> decide

theorem Token.wellFormed_ofWord {word : List Char} (h : IsWord word) (following : Option Char) :
    (ofWord (String.ofList word) following).WellFormed := by
  have hword : IsWord (String.ofList word).toList := by rwa [String.toList_ofList]
  unfold ofWord
  split
  · rename_i hmod
    rw [hmod]
    simp [WellFormed]
  · split
    · exact hword
    · exact hword

/-- A number lexeme is never an unknown token. -/
theorem Token.wellFormed_ofNumber {text lexeme rest : List Char}
    (h : splitNumber? text = some (lexeme, rest)) :
    (ofNumber (String.ofList lexeme)).WellFormed := by
  obtain ⟨digits, fraction, exponent, rfl, hdigits, hfraction, hexponent⟩ :=
    exists_of_splitNumber? h
  obtain ⟨d, hd⟩ :=
    Option.isSome_iff_exists.1 (Decimal.read?_isSome hdigits hfraction hexponent)
  rw [ofNumber, String.toList_ofList, hd]
  trivial

namespace Lexing

theorem mem_symbols_of_splitSymbol? {text rest : List Char} {c : Char}
    (h : splitSymbol? text = some (c, rest)) : c ∈ Scanner.symbols := by
  rcases text with _ | ⟨first, text⟩
  · simp [splitSymbol?] at h
  · simp only [splitSymbol?, Option.ite_none_right_eq_some, Option.some.injEq, Prod.mk.injEq] at h
    exact h.2.1 ▸ List.contains_iff_mem.1 h.1

theorem isWord_of_splitWord? {text word rest : List Char}
    (h : splitWord? text = some (word, rest)) : IsWord word := by
  rcases text with _ | ⟨first, text⟩
  · simp [splitWord?] at h
  · simp only [splitWord?, Option.ite_none_right_eq_some, Option.some.injEq, Prod.mk.injEq] at h
    obtain ⟨hstart, rfl, -⟩ := h
    refine ⟨⟨first, rfl, hstart⟩, ?_⟩
    intro c hc
    rcases List.mem_cons.1 hc with rfl | hc
    · rw [Scanner.isWordStart, Bool.or_eq_true] at hstart
      rw [Scanner.isWordPart, Bool.or_eq_true, Char.isAlphanum, Bool.or_eq_true]
      exact hstart.imp Or.inl id
    · exact List.all_eq_true.1 List.all_takeWhile c hc

/-- The next token has a text that belongs to its kind. -/
theorem wellFormed_nextToken {previous : Option Token} {text rest : List Char} {token : Token}
    (h : nextToken previous text = some (token, rest)) : token.WellFormed := by
  unfold nextToken at h
  split at h
  · rename_i hsymbol
    simp only [Option.some.injEq, Prod.mk.injEq] at h
    exact h.1 ▸ Token.wellFormed_ofSymbol previous (mem_symbols_of_splitSymbol? hsymbol)
  · split at h
    · rename_i hword
      simp only [Option.some.injEq, Prod.mk.injEq] at h
      exact h.1 ▸ Token.wellFormed_ofWord (isWord_of_splitWord? hword) _
    · split at h
      · rename_i hnumber
        simp only [Option.some.injEq, Prod.mk.injEq] at h
        exact h.1 ▸ Token.wellFormed_ofNumber hnumber
      · split at h
        · rename_i c _ _
          simp only [Option.some.injEq, Prod.mk.injEq] at h
          exact h.1 ▸ ⟨c, rfl⟩
        · simp at h

/-- The tokens of a text have the texts that belong to their kinds. -/
theorem wellFormed_of_mem_tokensAfter {previous : Option Token} {text : List Char} {token : Token}
    (h : token ∈ tokensAfter previous text) : token.WellFormed := by
  induction previous, text using tokensAfter.induct with
  | case1 previous text hnext =>
    rw [tokensAfter_of_none hnext] at h
    exact absurd h List.not_mem_nil
  | case2 previous text first rest hnext ih =>
    rw [tokensAfter_of_some hnext] at h
    rcases List.mem_cons.1 h with rfl | hrest
    · exact wellFormed_nextToken hnext
    · exact ih hrest

end Lexing

end PostfixCalc
