import PostfixCalc.Decimal.Reader
import PostfixCalc.Scanner.Lexeme
import PostfixCalc.Token.Basic

/-!
# Splitting text into tokens

A token is found by taking one lexeme and looking at the token before it, which decides whether a
`+` or `-` is a sign, or past the blanks after it, which decides whether a word is a function.

Main results:

- `next_shorter`: finding a token leaves less to read, so every text has finitely many.
-/

namespace PostfixCalc

namespace Token

/-- The token of a symbol after a given token. -/
def ofSymbol (previous : Option Token) (symbol : Char) : Token :=
  if symbol = '(' then openParen
  else if symbol = ')' then closeParen
  else if symbol = ',' then comma
  else if (symbol = '-' ∨ symbol = '+') ∧ ¬previous.any endsOperand then
    sign (String.singleton symbol)
  else operator (String.singleton symbol)

/-- The token of a word, with the scanner behind it.  The word `mod` is an operator whatever follows
it; any other word is a function if the first character behind it that is not blank opens a
parenthesis. -/
def wordToken (word : String) (s : Scanner) : Token × Scanner :=
  if word = "mod" then (operator word, s)
  else
    let (following, s) := s.peekPastBlanks
    (if following = some '(' then function word else name word, s)

/-- The token of a number lexeme. -/
def ofNumber (lexeme : String) : Token :=
  match Decimal.read? lexeme.toList with
  | some d => number (Binary64.ofDecimal d)
  | none => unknown lexeme

/-- The next token after a given one, with the scanner behind it; none at the end of the text. -/
def next (previous : Option Token) (s : Scanner) : Option (Token × Scanner) :=
  match s.skipBlanks.scanSymbol with
  | (some symbol, s) => some (ofSymbol previous symbol, s)
  | (none, s) =>
    match s.scanWord with
    | (some word, s) => some (wordToken word s)
    | (none, s) =>
      match s.scanNumber with
      | (some lexeme, s) => some (ofNumber lexeme, s)
      | (none, s) =>
        match s.bump with
        | (some c, s) => some (unknown (String.singleton c), s.drop)
        | (none, _) => none

/-- Looking behind a word takes nothing. -/
theorem unread_wordToken (word : String) (s : Scanner) :
    (wordToken word s).2.unread = s.unread := by
  unfold wordToken
  split
  · rfl
  · exact (Scanner.peekPastBlanks_snd s).2

/-- Finding a token leaves less to read. -/
theorem next_shorter {previous : Option Token} {s t : Scanner} {token : Token}
    (h : next previous s = some (token, t)) : t.unread.length < s.unread.length := by
  have hblanks : s.skipBlanks.unread.length ≤ s.unread.length := by
    rw [Scanner.unread_skipBlanks]
    exact (List.dropWhile_suffix isBlank).length_le
  refine Nat.lt_of_lt_of_le ?_ hblanks
  unfold next at h
  split at h
  · rename_i hsymbol
    simp only [Option.some.injEq, Prod.mk.injEq] at h
    exact h.2 ▸ Scanner.scanSymbol_shorter hsymbol
  · rename_i hsymbol
    rw [← (Scanner.scanSymbol_none hsymbol).2]
    split at h
    · rename_i word afterWord hword
      have hunread := unread_wordToken word afterWord
      rw [Option.some.inj h] at hunread
      rw [hunread]
      exact Scanner.scanWord_shorter hword
    · rename_i hword
      rw [← (Scanner.scanWord_none hword).2]
      split at h
      · rename_i hnumber
        simp only [Option.some.injEq, Prod.mk.injEq] at h
        exact h.2 ▸ Scanner.scanNumber_shorter hnumber
      · rename_i hnumber
        rw [← (Scanner.scanNumber_none hnumber).2]
        split at h
        · rename_i hbump
          simp only [Option.some.injEq, Prod.mk.injEq] at h
          rw [← h.2]
          have hshorter := Scanner.acceptIf_shorter hbump
          exact hshorter
        · simp at h

/-- The tokens that a scanner finds after a given token. -/
def allFrom (previous : Option Token) (s : Scanner) : List Token :=
  match _hnext : next previous s with
  | none => []
  | some (token, t) => token :: allFrom (some token) t
termination_by s.unread.length
decreasing_by exact next_shorter _hnext

/-- The tokens of a text. -/
def tokenize (text : String) : List Token := allFrom none (Scanner.ofList text.toList)

end Token

end PostfixCalc
