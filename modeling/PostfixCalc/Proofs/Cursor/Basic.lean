import PostfixCalc.Scanner.Command

/-!
# A cursor over a whole input

A cursor has a place where the lexeme begins and a position, and nothing else: no characters are
read ahead, and none are given back.  The operations of a scanner are carried out on it by moving
these two places.

Main results:

- `slice_append`: two parts of a text that meet are one.
- `Cursor.lexeme_append_rest`: the lexeme and what follows it are what follows the start of the
  lexeme.
-/

namespace PostfixCalc

/-! ## Parts of a list -/

/-- The characters of a text from one place up to another. -/
def slice (text : List Char) (i j : Nat) : List Char := (text.take j).drop i

section Slice

variable {text : List Char} {i j k : Nat}

theorem slice_length (text : List Char) (i : Nat) : slice text i text.length = text.drop i := by
  rw [slice, List.take_length]

@[simp] theorem length_slice : (slice text i j).length = min j text.length - i := by
  simp [slice]

theorem take_slice (n : Nat) : (slice text i j).take n = slice text i (min j (i + n)) := by
  rw [slice, slice, List.take_drop, List.take_take, Nat.min_comm]

theorem drop_slice (n : Nat) : (slice text i j).drop n = slice text (i + n) j := by
  rw [slice, slice, List.drop_drop]

/-- Two parts that meet are one. -/
theorem slice_append (hij : i ≤ j) (hjk : j ≤ k) :
    slice text i j ++ slice text j k = slice text i k := by
  have hfront : (slice text i k).take (j - i) = slice text i j := by
    rw [take_slice, Nat.add_sub_cancel' hij, Nat.min_eq_right hjk]
  have hback : (slice text i k).drop (j - i) = slice text j k := by
    rw [drop_slice, Nat.add_sub_cancel' hij]
  rw [← hfront, ← hback, List.take_append_drop]

end Slice

/-- A run and the character behind it. -/
theorem takeWhile_append_take_one (p : Char → Bool) (text : List Char) :
    text.takeWhile p ++ (text.dropWhile p).take 1 = text.take ((text.takeWhile p).length + 1) := by
  have htake := @List.take_length_add_append _ (text.takeWhile p) (text.dropWhile p) 1
  rwa [List.takeWhile_append_dropWhile, eq_comm] at htake

/-- What is left behind a run and the character after it. -/
theorem drop_one_dropWhile (p : Char → Bool) (text : List Char) :
    (text.dropWhile p).drop 1 = text.drop ((text.takeWhile p).length + 1) := by
  have hdrop := @List.drop_length_add_append _ (text.takeWhile p) (text.dropWhile p) 1
  rwa [List.takeWhile_append_dropWhile, eq_comm] at hdrop

/-! ## Cursors -/

/-- Where the lexeme begins in an input, and where what is still to come does. -/
structure Cursor where
  input : List Char
  start : Nat
  position : Nat
  start_le : start ≤ position := by omega
  position_le : position ≤ input.length := by omega

namespace Cursor

/-- A cursor at the start of an input. -/
def ofList (input : List Char) : Cursor := { input, start := 0, position := 0 }

/-- The characters from the start of the lexeme up to the position. -/
def lexeme (c : Cursor) : List Char := slice c.input c.start c.position

/-- The characters from the position on. -/
def rest (c : Cursor) : List Char := c.input.drop c.position

theorem rest_eq (c : Cursor) : c.rest = slice c.input c.position c.input.length :=
  (slice_length c.input c.position).symm

theorem length_rest (c : Cursor) : c.rest.length = c.input.length - c.position := List.length_drop

/-- The lexeme and what follows it are what follows the start of the lexeme. -/
theorem lexeme_append_rest (c : Cursor) : c.lexeme ++ c.rest = c.input.drop c.start := by
  rw [lexeme, rest_eq, slice_append c.start_le c.position_le, slice_length]

/-- Move the position over some characters, but not beyond the end. -/
def advance (c : Cursor) (n : Nat) : Cursor :=
  { c with
    position := min (c.position + n) c.input.length
    start_le := by have := c.start_le; have := c.position_le; omega
    position_le := Nat.min_le_right _ _ }

/-- Move the position over the next character if it satisfies `p`. -/
def acceptIf (p : Char → Bool) (c : Cursor) : Option Char × Cursor :=
  match c.rest with
  | [] => (none, c)
  | d :: _ => if p d then (some d, c.advance 1) else (none, c)

/-- Accepting moves the position by one or leaves the cursor as it is. -/
theorem acceptIf_snd (p : Char → Bool) (c : Cursor) :
    (c.acceptIf p).2 = c ∨ (c.acceptIf p).2 = c.advance 1 := by
  rw [acceptIf]
  split
  · exact Or.inl rfl
  · split
    · exact Or.inr rfl
    · exact Or.inl rfl

/-- Move the position over the characters that satisfy `p`, and tell whether there was one. -/
def skipWhile (p : Char → Bool) (c : Cursor) : Bool × Cursor :=
  (!(c.rest.takeWhile p).isEmpty, c.advance (c.rest.takeWhile p).length)

/-- Move the position back to where the lexeme had a given length. -/
def rewind (length : Nat) (c : Cursor) : Cursor :=
  { c with
    position := min c.position (c.start + length)
    start_le := by have := c.start_le; omega
    position_le := by have := c.position_le; omega }

/-- Begin a new lexeme at the position. -/
def drop (c : Cursor) : Cursor := { c with start := c.position, start_le := Nat.le_refl _ }

end Cursor

namespace Scanner

/-- The operations that are no rules for lexemes, but what the rules are made of. -/
def Command.IsPrimitive : Command → Prop
  | .skipBlanks | .scanNumber | .scanSymbol | .scanWord => False
  | _ => True

/-- One of the operations that the rules for lexemes are made of. -/
structure Primitive where
  command : Command
  isPrimitive : command.IsPrimitive

/-- What the operations answer one after another. -/
def replies (s : Scanner) (operations : List Primitive) : List Reply :=
  (s.runAll (operations.map Primitive.command)).map (·.1)

/-- The scanner after the operations. -/
def after (s : Scanner) (operations : List Primitive) : Scanner :=
  operations.foldl (fun s operation => (operation.command.run s).2) s

/-- The lexeme that an operation hands out or forgets, if it does either. -/
def finishedBy (s : Scanner) (operation : Primitive) : List (List Char) :=
  match operation.command with
  | .take | .drop => [s.lexeme]
  | _ => []

/-- The lexemes that the operations hand out or forget. -/
def finished (s : Scanner) : List Primitive → List (List Char)
  | [] => []
  | operation :: operations =>
    s.finishedBy operation ++ finished (operation.command.run s).2 operations

end Scanner

namespace Cursor

open Scanner (Primitive Reply)

/-- Carry out an operation on a cursor. -/
def run (c : Cursor) : Primitive → Reply × Cursor
  | ⟨.peek, _⟩ => (.char c.rest.head?, c)
  | ⟨.peekPastBlanks, _⟩ => (.char (c.rest.dropWhile isBlank).head?, c)
  | ⟨.bump, _⟩ => (c.acceptIf fun _ => true).map .char id
  | ⟨.acceptIf p, _⟩ => (c.acceptIf p).map .char id
  | ⟨.skipWhile p, _⟩ => (c.skipWhile p).map .skipped id
  | ⟨.mark, _⟩ => (.length (c.position - c.start), c)
  | ⟨.rewind length, _⟩ => (.silent, c.rewind length)
  | ⟨.take, _⟩ => (.lexeme (some (String.ofList c.lexeme)), c.drop)
  | ⟨.drop, _⟩ => (.silent, c.drop)

/-- One more than the furthest place of the input that an operation has to look at, or nothing if it
looks at none. -/
def reach (c : Cursor) : Primitive → Nat
  | ⟨.peek, _⟩ | ⟨.bump, _⟩ | ⟨.acceptIf _, _⟩ => c.position + 1
  | ⟨.peekPastBlanks, _⟩ => c.position + (c.rest.takeWhile isBlank).length + 1
  | ⟨.skipWhile p, _⟩ => c.position + (c.rest.takeWhile p).length + 1
  | ⟨.mark, _⟩ | ⟨.rewind _, _⟩ | ⟨.take, _⟩ | ⟨.drop, _⟩ => 0

/-- What the operations answer one after another. -/
def replies (c : Cursor) : List Primitive → List Reply
  | [] => []
  | operation :: operations => (c.run operation).1 :: (c.run operation).2.replies operations

/-- The cursor after the operations. -/
def after (c : Cursor) (operations : List Primitive) : Cursor :=
  operations.foldl (fun c operation => (c.run operation).2) c

/-- How many characters each of the operations needs of the input, which may have fewer. -/
def demands (c : Cursor) : List Primitive → List Nat
  | [] => []
  | operation :: operations =>
    min (c.reach operation) c.input.length :: (c.run operation).2.demands operations

end Cursor

end PostfixCalc
