import PostfixCalc.Calculator
import PostfixCalc.CommandLine.Arguments
import PostfixCalc.CommandLine.Typing

/-!
# What the program prints

An expression among the arguments is answered and its status becomes that of the program.  Without
one, every line of input that is not blank is answered in turn.

Main results:

- `Session.respond_status`: showing the postfix form does not change the status.
-/

namespace PostfixCalc

/-- Everything that a run of the program leaves behind. -/
structure Session where
  /-- The status of the program. -/
  exitCode : Nat
  /-- The lines printed. -/
  lines : List String
  deriving DecidableEq

namespace Session

/-- A session that breaks off without printing more. -/
def broken : Session := ⟨101, []⟩

/-- The session with lines printed before it. -/
def after (lines : List String) (session : Session) : Session :=
  { session with lines := lines ++ session.lines }

/-- The status of an expression and the lines printed for it. -/
def respond (c : Calculator) (showsPostfix : Bool) (text : String) : Status × List String :=
  match c.convert text with
  | .error e => (.syntaxError, ["Parse error: " ++ e.message])
  | .ok nodes =>
    let answer := Calculator.evaluate nodes
    let listing := if showsPostfix then [nodes.toText] else []
    let outcome :=
      if answer.status = .ok then answer.echo nodes else "Eval error: invalid expression"
    (answer.status, listing ++ [outcome])

/-- Showing the postfix form does not change the status. -/
theorem respond_status (c : Calculator) (showsPostfix : Bool) (text : String) :
    (respond c showsPostfix text).1 = (c.calculate text).status := by
  rw [respond, Calculator.calculate]
  cases hconvert : c.convert text with
  | error e => rw [Calculator.calculateRecorded_of_error hconvert]
  | ok nodes => rw [Calculator.calculateRecorded_of_ok hconvert]

/-! ## Lines of input -/

/-- The lines printed for a line of input, none for a blank one.  There is no answer to a line that
cannot be read. -/
def answerLine? (c : Calculator) (showsPostfix : Bool) (line : String) : Option (List String) :=
  (typed? line).map fun text =>
    if text.toList.all isBlank then [] else (respond c showsPostfix text).2

/-- Answer one line after another.  A line that cannot be read breaks the session off. -/
def answerLines (c : Calculator) (showsPostfix : Bool) : List String → Session
  | [] => ⟨0, []⟩
  | line :: rest =>
    match answerLine? c showsPostfix line with
    | none => broken
    | some answers => (answerLines c showsPostfix rest).after answers

/-- The line printed at the start of a session without earlier ones. -/
def greeting (hasHistory : Bool) : List String :=
  if hasHistory then [] else ["No history yet"]

/-! ## The program -/

/-- What the program does with its arguments and the lines of its input. -/
def run (words : List String) (hasHistory : Bool) (input : List String) : Session :=
  match Arguments.parse words with
  | .help => ⟨0, []⟩
  | .refused => ⟨2, []⟩
  | .run a =>
    let c := Calculator.withX? a.x
    if a.words.isEmpty then
      (answerLines c a.showsPostfix input).after (greeting hasHistory)
    else
      let (status, lines) := respond c a.showsPostfix (" ".intercalate a.words)
      ⟨status.code, lines⟩

end Session

end PostfixCalc
