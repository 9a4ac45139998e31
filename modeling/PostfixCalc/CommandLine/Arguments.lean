import PostfixCalc.Decimal.Reader

/-!
# Command-line arguments

Options come first: `-x V`, `--x V` or `--x=V` gives `x` a value, `-p` or `--postfix` asks for the
postfix form, and the letters of several short options may follow one dash.  The first word that is
no option begins the expression, and all words from there on belong to it.  A word behind one dash
is an option only if all its letters are, so that `-5` and `-sin(1)` are expressions.
-/

namespace PostfixCalc

/-- What the arguments ask for. -/
structure Arguments where
  /-- The value of `x`. -/
  x : Option Binary64
  /-- Whether to show the postfix form of each expression. -/
  showsPostfix : Bool
  /-- The words of the expression; without any, expressions are read line by line. -/
  words : List String
  deriving DecidableEq

/-- The outcome of reading arguments. -/
inductive Request where
  | run (arguments : Arguments)
  /-- A text about the program itself is asked for. -/
  | help
  /-- An option is repeated, or its value is missing or no number. -/
  | refused
  deriving DecidableEq

namespace Arguments

/-- No options and no words. -/
def none : Arguments := ⟨.none, false, []⟩

/-- What one word makes of the options before it. -/
inductive Progress where
  /-- The options are known and more may follow. -/
  | options (arguments : Arguments)
  /-- The value of `x` follows. -/
  | awaitsX (arguments : Arguments)
  /-- The word begins the expression. -/
  | expression
  | help
  | refused

/-- Give `x` the value of a text; only once, and only a number. -/
def withX? (a : Arguments) (text : String) : Option Arguments :=
  match a.x, Binary64.read? text with
  | .none, some x => some { a with x := some x }
  | _, _ => .none

/-- Ask for the postfix form; only once. -/
def withPostfix? (a : Arguments) : Option Arguments :=
  if a.showsPostfix then .none else some { a with showsPostfix := true }

/-- Go on with the options, or refuse them if there are none. -/
def Progress.ofOption : Option Arguments → Progress
  | some a => options a
  | .none => refused

/-- The letters of short options; the last two ask for texts about the program. -/
def optionLetters : List Char := ['x', 'p', 'h', 'V']

/-- Read the letters behind a dash.  What follows an `x` in the same word is its value. -/
def readLetters (a : Arguments) : List Char → Progress
  | [] => .options a
  | 'p' :: letters =>
    match a.withPostfix? with
    | some a => readLetters a letters
    | .none => .refused
  | ['x'] => .awaitsX a
  | 'x' :: value => .ofOption (a.withX? (String.ofList value))
  | _ => .help

/-- Read the text behind two dashes. -/
def readLong (a : Arguments) (text : List Char) : Progress :=
  let name := String.ofList (text.takeWhile (· != '='))
  match name, text.dropWhile (· != '=') with
  | "x", [] => .awaitsX a
  | "x", _ :: value => .ofOption (a.withX? (String.ofList value))
  | "postfix", [] => .ofOption a.withPostfix?
  | "help", [] | "version", [] => .help
  | "postfix", _ | "help", _ | "version", _ => .refused
  | _, _ => .expression

/-- Read one word before the expression. -/
def readWord (a : Arguments) (word : String) : Progress :=
  match word.toList with
  | '-' :: '-' :: text => a.readLong text
  | '-' :: letters =>
    if letters ≠ [] ∧ letters.all optionLetters.contains then a.readLetters letters
    else .expression
  | _ => .expression

/-- Read arguments after the options found so far.  A lone `--` ends the options and is dropped. -/
def parseFrom (a : Arguments) : List String → Request
  | [] => .run a
  | word :: words =>
    if word = "--" then .run { a with words := words }
    else
      match a.readWord word with
      | .options a => parseFrom a words
      | .awaitsX a =>
        match words with
        | [] => .refused
        | value :: words =>
          match a.withX? value with
          | some a => parseFrom a words
          | .none => .refused
      | .expression => .run { a with words := word :: words }
      | .help => .help
      | .refused => .refused

/-- Read the arguments of the program. -/
def parse (words : List String) : Request := parseFrom none words

end Arguments

end PostfixCalc
