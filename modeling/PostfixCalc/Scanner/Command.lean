import PostfixCalc.Scanner.Lexeme

/-!
# Scanner commands

The operations of a scanner as data, so that a run of several of them can be given as a list, and
what each of them answers.
-/

namespace PostfixCalc

namespace Scanner

/-- One operation on a scanner. -/
inductive Command where
  | peek
  | peekPastBlanks
  | bump
  | acceptIf (p : Char → Bool)
  | skipWhile (p : Char → Bool)
  | mark
  | rewind (length : Nat)
  | take
  | drop
  | skipBlanks
  | scanNumber
  | scanSymbol
  | scanWord

/-- What an operation answers. -/
inductive Reply where
  /-- A character that was seen or taken, or that there was none. -/
  | char (c : Option Char)
  /-- Whether characters were skipped. -/
  | skipped (any : Bool)
  /-- The length of the lexeme. -/
  | length (n : Nat)
  /-- A lexeme, or that none begins here. -/
  | lexeme (text : Option String)
  /-- The operation has no answer. -/
  | silent
  deriving DecidableEq

/-- Carry out one operation. -/
def Command.run (s : Scanner) : Command → Reply × Scanner
  | .peek => s.peek.map .char id
  | .peekPastBlanks => s.peekPastBlanks.map .char id
  | .bump => s.bump.map .char id
  | .acceptIf p => (s.acceptIf p).map .char id
  | .skipWhile p => (s.skipWhile p).map .skipped id
  | .mark => (.length s.mark, s)
  | .rewind length => (.silent, s.rewind length)
  | .take => s.take.map (fun text => .lexeme (some text)) id
  | .drop => (.silent, s.drop)
  | .skipBlanks => (.silent, s.skipBlanks)
  | .scanNumber => s.scanNumber.map .lexeme id
  | .scanSymbol => s.scanSymbol.map .char id
  | .scanWord => s.scanWord.map .lexeme id

/-- Carry out operations one after another, with the scanner after each of them. -/
def runAll (s : Scanner) : List Command → List (Reply × Scanner)
  | [] => []
  | command :: commands =>
    let answered := command.run s
    answered :: runAll answered.2 commands

end Scanner

end PostfixCalc
