import PostfixCalc.CommandLine.Session

/-!
# The command-line program

The outer layer of the calculator: it passes arguments and input on and prints what comes back.  No
history is kept from one session to the next.
-/

open PostfixCalc

/-- Answer lines of input until there are no more or one cannot be read. -/
partial def answerInput (c : Calculator) (showsPostfix : Bool) : IO UInt32 := do
  let line ← (← IO.getStdin).getLine
  if line.isEmpty then return 0
  let text := if line.toList.getLast? = some '\n' then line.toList.dropLast else line.toList
  match Session.answerLine? c showsPostfix (String.ofList text) with
  | none => return UInt32.ofNat Session.broken.exitCode
  | some answers =>
    answers.forM fun answer => IO.println answer
    answerInput c showsPostfix

/-- Run the calculator on its arguments and standard input. -/
def main (words : List String) : IO UInt32 := do
  match Arguments.parse words with
  | .run ⟨x, showsPostfix, []⟩ =>
    (Session.greeting false).forM fun line => IO.println line
    answerInput (Calculator.withX? x) showsPostfix
  | _ =>
    let session := Session.run words false []
    session.lines.forM fun line => IO.println line
    return UInt32.ofNat session.exitCode
