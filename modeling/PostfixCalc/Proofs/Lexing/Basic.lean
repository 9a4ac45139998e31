import PostfixCalc.Proofs.Lexing.Split
import PostfixCalc.Token.Lexer

/-!
# Splitting a text into tokens

The tokens of a text, found on the list of the characters that are still to come.  The scanner finds
the same tokens: nothing of what it has looked at, and nothing of where its lexemes began, has any
influence on them.

Main results:

- `Lexing.next_eq`: the scanner finds the next token of what is unread.
- `Lexing.tokenize_eq`: the tokens of a text are found without a scanner.
-/

namespace PostfixCalc

/-! ## Words -/

/-- The token of a word, given the first character after it that is not blank.  The word `mod` is
always an operator. -/
def Token.ofWord (word : String) (following : Option Char) : Token :=
  if word = "mod" then operator word
  else if following = some '(' then function word
  else name word

/-- The token of a word depends on the first character after it that is not blank, and the scanner
stays where it is. -/
theorem Token.wordToken_eq (word : String) (s : Scanner) :
    (wordToken word s).1 = ofWord word (s.unread.dropWhile isBlank).head? ∧
      (wordToken word s).2.view = s.view := by
  unfold wordToken ofWord
  split
  · exact ⟨rfl, rfl⟩
  · exact ⟨by rw [← Scanner.peekPastBlanks_fst],
      Scanner.view_eq_iff.2 (Scanner.peekPastBlanks_snd s)⟩

namespace Lexing

/-! ## The next token -/

/-- The next token of a text after a given token, with the text after it. -/
def nextToken (previous : Option Token) (text : List Char) : Option (Token × List Char) :=
  match splitSymbol? (text.dropWhile isBlank) with
  | some (symbol, rest) => some (.ofSymbol previous symbol, rest)
  | none =>
    match splitWord? (text.dropWhile isBlank) with
    | some (word, rest) =>
      some (.ofWord (String.ofList word) (rest.dropWhile isBlank).head?, rest)
    | none =>
      match splitNumber? (text.dropWhile isBlank) with
      | some (number, rest) => some (.ofNumber (String.ofList number), rest)
      | none =>
        match text.dropWhile isBlank with
        | c :: rest => some (.unknown (String.singleton c), rest)
        | [] => none

/-- The scanner finds the next token of what is unread and leaves what follows it. -/
theorem next_eq (previous : Option Token) (s : Scanner) :
    (Token.next previous s).map (fun found => (found.1, found.2.view)) =
      (nextToken previous s.unread).map fun found => (found.1, ([], found.2)) := by
  unfold Token.next nextToken
  rw [← Scanner.unread_skipBlanks s]
  rcases Scanner.scanSymbol_cases s.skipBlanks with
    ⟨symbol, rest, t, hsplit, hscan, hview⟩ | ⟨t, hsplit, hscan, hview⟩
  · simp only [hsplit, hscan, Option.map_some, hview]
  · -- No rule that fails changes what the next one looks at.
    rw [Scanner.view_skipBlanks, ← Scanner.unread_skipBlanks] at hview
    obtain ⟨hlexeme, hunread⟩ := Scanner.view_eq_iff.1 hview
    simp only [hsplit, hscan]
    rw [← hunread]
    rcases Scanner.scanWord_cases t with
      ⟨word, rest, u, hsplit, hscan, hview⟩ | ⟨u, hsplit, hscan, hview⟩
    · obtain ⟨htoken, hview'⟩ := Token.wordToken_eq (String.ofList word) u
      rw [(Scanner.view_eq_iff.1 hview).2] at htoken
      simp only [hsplit, hscan, Option.map_some, hlexeme, List.nil_append, htoken, hview', hview]
    · obtain ⟨hlexeme', hunread'⟩ := Scanner.view_eq_iff.1 hview
      simp only [hsplit, hscan]
      rw [← hunread']
      rcases Scanner.scanNumber_cases u with
        ⟨number, rest, v, hsplit, hscan, hview⟩ | ⟨v, hsplit, hscan, hview⟩
      · simp only [hsplit, hscan, Option.map_some, hview, hlexeme', hlexeme, List.nil_append]
      · obtain ⟨-, hunread''⟩ := Scanner.view_eq_iff.1 hview
        simp only [hsplit, hscan]
        rw [← hunread'']
        rcases Scanner.acceptIf_cases (fun _ => true) v with
          ⟨c, rest, w, hrest, -, haccept, hview⟩ | ⟨w, hend, haccept, -⟩
        · have hdrop : w.drop.view = ([], rest) := congrArg (fun pair => ([], pair.2)) hview
          simp [Scanner.bump, haccept, hrest, hdrop]
        · have hnil : v.unread = [] := by
            cases hrest : v.unread with
            | nil => rfl
            | cons c rest => simp [hrest] at hend
          simp [Scanner.bump, haccept, hnil]

/-! ## All tokens -/

/-- Finding a token leaves less of the text. -/
theorem nextToken_shorter {previous : Option Token} {text rest : List Char} {token : Token}
    (h : nextToken previous text = some (token, rest)) : rest.length < text.length := by
  have hnext := next_eq previous (Scanner.ofList text)
  have hunread : (Scanner.ofList text).unread = text := rfl
  rw [hunread, h] at hnext
  obtain ⟨⟨found, t⟩, hfound, hview⟩ := Option.map_eq_some_iff.1 hnext
  simp only [Prod.mk.injEq] at hview
  have hshorter := Token.next_shorter hfound
  rwa [(Scanner.view_eq_iff.1 hview.2).2, hunread] at hshorter

/-- The tokens of a text that follows a given token. -/
def tokensAfter (previous : Option Token) (text : List Char) : List Token :=
  match _hnext : nextToken previous text with
  | none => []
  | some (token, rest) => token :: tokensAfter (some token) rest
termination_by text.length
decreasing_by exact nextToken_shorter _hnext

/-- A text without a next token has no tokens. -/
theorem tokensAfter_of_none {previous : Option Token} {text : List Char}
    (h : nextToken previous text = none) : tokensAfter previous text = [] := by
  rw [tokensAfter]
  split
  · rfl
  · simp_all

/-- The next token of a text is the first of its tokens. -/
theorem tokensAfter_of_some {previous : Option Token} {text rest : List Char} {token : Token}
    (h : nextToken previous text = some (token, rest)) :
    tokensAfter previous text = token :: tokensAfter (some token) rest := by
  rw [tokensAfter]
  split
  · simp_all
  · simp_all

/-- The scanner finds the tokens of what is unread. -/
theorem allFrom_eq (previous : Option Token) (s : Scanner) :
    Token.allFrom previous s = tokensAfter previous s.unread := by
  induction previous, s using Token.allFrom.induct with
  | case1 previous s hnone =>
    have hnext := next_eq previous s
    rw [hnone, Option.map_none, eq_comm, Option.map_eq_none_iff] at hnext
    rw [tokensAfter_of_none hnext, Token.allFrom]
    split
    · rfl
    · simp_all
  | case2 previous s token t hsome ih =>
    have hnext := next_eq previous s
    rw [hsome, Option.map_some, eq_comm, Option.map_eq_some_iff] at hnext
    obtain ⟨⟨found, rest⟩, hfound, hview⟩ := hnext
    simp only [Prod.mk.injEq] at hview
    obtain ⟨htoken, hview⟩ := hview
    obtain ⟨-, hunread⟩ := Scanner.view_eq_iff.1 hview.symm
    rw [tokensAfter_of_some hfound, Token.allFrom]
    split
    · simp_all
    · simp_all

/-- The tokens of a text are found without a scanner. -/
theorem tokenize_eq (text : String) : Token.tokenize text = tokensAfter none text.toList :=
  allFrom_eq none (Scanner.ofList text.toList)

end Lexing

end PostfixCalc
