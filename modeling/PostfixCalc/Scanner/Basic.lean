import PostfixCalc.Text.Blank

/-!
# A character cursor that reads no further than it must look

A `Scanner` builds one lexeme after another from a stream of characters.  Characters are read from
the source only when an operation has to look at them; those looked at but not yet part of a lexeme
wait ahead of it and are looked at again before the source is.

Main results:

- `lexeme_readWhile` and `unread_readWhile`: reading ahead changes neither the lexeme nor what is
  still to come.
-/

namespace PostfixCalc

/-- A lexeme under way, the characters read beyond it, and the rest of the input. -/
structure Scanner where
  /-- The characters of the lexeme so far. -/
  lexeme : List Char
  /-- The characters that were looked at but do not belong to the lexeme. -/
  ahead : List Char
  /-- The characters that were not looked at yet. -/
  source : List Char
  deriving DecidableEq

namespace Scanner

/-- A scanner at the start of an input, of which nothing is read yet. -/
def ofList (input : List Char) : Scanner := ⟨[], [], input⟩

/-- The characters that follow the lexeme, whether they were looked at or not. -/
def unread (s : Scanner) : List Char := s.ahead ++ s.source

/-- The number of characters of `input` that a scanner started on it has read. -/
def pulled (input : List Char) (s : Scanner) : Nat := input.length - s.source.length

/-! ## Looking ahead -/

/-- Read on until a character that fails `p` is ahead, or the input is at its end. -/
def readWhile (p : Char → Bool) (s : Scanner) : Scanner :=
  if s.ahead.all p then
    let rest := s.source.dropWhile p
    { s with
      ahead := s.ahead ++ s.source.takeWhile p ++ rest.take 1
      source := rest.drop 1 }
  else s

/-- Reading ahead leaves the lexeme as it is. -/
@[simp] theorem lexeme_readWhile (p : Char → Bool) (s : Scanner) :
    (s.readWhile p).lexeme = s.lexeme := by
  unfold readWhile
  split <;> rfl

/-- Reading ahead leaves what is still to come as it is. -/
@[simp] theorem unread_readWhile (p : Char → Bool) (s : Scanner) :
    (s.readWhile p).unread = s.unread := by
  unfold readWhile unread
  split
  · simp only [List.append_assoc, List.take_append_drop, List.takeWhile_append_dropWhile]
  · rfl

/-- The next character, which is not taken. -/
def peek (s : Scanner) : Option Char × Scanner :=
  let s := s.readWhile fun _ => false
  (s.ahead.head?, s)

/-- The first character that is not blank; nothing is taken. -/
def peekPastBlanks (s : Scanner) : Option Char × Scanner :=
  let s := s.readWhile isBlank
  ((s.ahead.dropWhile isBlank).head?, s)

/-! ## Taking characters into the lexeme -/

/-- Take the next character if it satisfies `p`. -/
def acceptIf (p : Char → Bool) (s : Scanner) : Option Char × Scanner :=
  let s := s.readWhile fun _ => false
  match s.ahead with
  | c :: rest =>
    if p c then (some c, { s with lexeme := s.lexeme ++ [c], ahead := rest }) else (none, s)
  | [] => (none, s)

/-- Take the next character, whatever it is. -/
def bump (s : Scanner) : Option Char × Scanner := s.acceptIf fun _ => true

/-- Take characters for as long as they satisfy `p`, and tell whether there was one. -/
def skipWhile (p : Char → Bool) (s : Scanner) : Bool × Scanner :=
  let s := s.readWhile p
  let run := s.ahead.takeWhile p
  (!run.isEmpty, { s with lexeme := s.lexeme ++ run, ahead := s.ahead.dropWhile p })

/-- The length of the lexeme, to which `rewind` can return. -/
def mark (s : Scanner) : Nat := s.lexeme.length

/-- Give back what was taken after the lexeme had the length `mark`. -/
def rewind (mark : Nat) (s : Scanner) : Scanner :=
  { s with lexeme := s.lexeme.take mark, ahead := s.lexeme.drop mark ++ s.ahead }

/-- Hand out the lexeme and begin a new one. -/
def take (s : Scanner) : String × Scanner := (String.ofList s.lexeme, { s with lexeme := [] })

/-- Forget the lexeme and begin a new one. -/
def drop (s : Scanner) : Scanner := { s with lexeme := [] }

end Scanner

end PostfixCalc
