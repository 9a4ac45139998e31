import PostfixCalc.Text.Unprintable

/-!
# Quoted text

A text is quoted between double quotes.  A quote, a backslash and the common controls are written
as a backslash and a letter, any other unprintable character by its code point in hexadecimal.

Main results:

- `quote_of_printable`: a text without such characters only gets the quotes around it.
- `quote_of_ascii`: so does a text of printable characters below `0x7F`.
-/

namespace PostfixCalc

/-- What stands for one character between quotes. -/
def quotedChar (c : Char) : List Char :=
  if c = '"' ∨ c = '\\' then ['\\', c]
  else if c = '\n' then ['\\', 'n']
  else if c = '\r' then ['\\', 'r']
  else if c = '\t' then ['\\', 't']
  else if c = '\x00' then ['\\', '0']
  else if isUnprintable c then ['\\', 'u', '{'] ++ Nat.toDigits 16 c.toNat ++ ['}']
  else [c]

/-- A text between double quotes, with what cannot stand there escaped. -/
def quote (text : String) : String :=
  String.ofList ('"' :: text.toList.flatMap quotedChar ++ ['"'])

/-- Printable text without quotes and backslashes only gets the quotes around it. -/
theorem quote_of_printable {text : List Char}
    (h : ∀ c ∈ text, isUnprintable c = false ∧ c ≠ '"' ∧ c ≠ '\\') :
    quote (String.ofList text) = String.ofList ('"' :: text ++ ['"']) := by
  have hchar : ∀ c ∈ text, quotedChar c = [c] := by
    intro c hc
    obtain ⟨hprintable, hquote, hbackslash⟩ := h c hc
    have hcontrol : c ≠ '\n' ∧ c ≠ '\r' ∧ c ≠ '\t' ∧ c ≠ '\x00' := by
      refine ⟨?_, ?_, ?_, ?_⟩ <;> rintro rfl <;>
        exact absurd hprintable (by decide)
    simp [quotedChar, hprintable, hquote, hbackslash, hcontrol]
  have hall : text.flatMap quotedChar = text := by
    clear h
    induction text with
    | nil => rfl
    | cons c rest ih =>
      rw [List.flatMap_cons, hchar c List.mem_cons_self,
        ih fun d hd => hchar d (List.mem_cons_of_mem c hd)]
      rfl
  simp [quote, hall]

/-- Printable text below `0x7F` without quotes and backslashes only gets the quotes around it. -/
theorem quote_of_ascii {text : List Char}
    (h : ∀ c ∈ text, (0x20 ≤ c.toNat ∧ c.toNat < 0x7F) ∧ c ≠ '"' ∧ c ≠ '\\') :
    quote (String.ofList text) = String.ofList ('"' :: text ++ ['"']) :=
  quote_of_printable fun c hc => ⟨isUnprintable_eq_false_of_ascii (h c hc).1, (h c hc).2⟩

end PostfixCalc
