import Mathlib.Tactic.SplitIfs
import PostfixCalc.Proofs.Journal.Texts

/-!
# What the record of a failed conversion shows

A text that is not converted is quoted in the journal, with what is wrong with it behind the
quotation.  Quoting hides nothing: each character has a code of its own, and none of the codes is
the beginning of another one or begins with a quote.  The messages of syntax errors are all
different too.

Main results:

- `quote_append_inj`: a quoted text and what follows it are known from the two together.
- `SyntaxError.message_inj`: different syntax errors have different messages.
- `rejection_eq_iff`: the record of a failed conversion tells the text and the error.
-/

namespace PostfixCalc

/-! ## Code points in hexadecimal -/

/-- The value of a hexadecimal digit. -/
def hexValue (c : Char) : Nat := "0123456789abcdef".toList.idxOf c

theorem hexValue_digitChar {n : Nat} (h : n < 16) : hexValue n.digitChar = n := by
  have hall : ∀ n < 16, hexValue (Nat.digitChar n) = n := by decide
  exact hall n h

/-- The number that hexadecimal digits stand for. -/
def ofHexDigits (digits : List Char) : Nat := digits.foldl (fun n c => 16 * n + hexValue c) 0

/-- A number is read back from its digits. -/
theorem ofHexDigits_toDigits (n : Nat) : ofHexDigits (Nat.toDigits 16 n) = n := by
  induction n using Nat.strongRecOn with
  | ind n ih =>
    rw [Nat.toDigits_eq_if (by decide)]
    split
    · rename_i hsmall
      exact (Nat.zero_add _).trans (hexValue_digitChar hsmall)
    · have hfront := ih (n / 16) (by omega)
      have hlast := @hexValue_digitChar (n % 16) (Nat.mod_lt _ (by decide))
      rw [ofHexDigits] at hfront
      rw [ofHexDigits, List.foldl_append, hfront, List.foldl_cons, List.foldl_nil, hlast]
      omega

theorem brace_not_mem_toDigits (n : Nat) : '}' ∉ Nat.toDigits 16 n := by
  have hdigit (k : Nat) : '}' ≠ k.digitChar := (Nat.digitChar_ne '}' (by decide)).symm
  induction n using Nat.strongRecOn with
  | ind n ih =>
    rw [Nat.toDigits_eq_if (by decide)]
    split
    · exact fun hmem => hdigit n (List.mem_singleton.1 hmem)
    · rw [List.mem_append, not_or]
      exact ⟨ih (n / 16) (by omega), fun hmem => hdigit (n % 16) (List.mem_singleton.1 hmem)⟩

/-! ## Quoted characters -/

/-- The character that a backslash and a letter stand for. -/
def unescaped : Char → Char
  | 'n' => '\n'
  | 'r' => '\r'
  | 't' => '\t'
  | '0' => '\x00'
  | c => c

/-- What stands for a character is a backslash and a letter, its code point, or itself. -/
theorem quotedChar_cases (c : Char) :
    (∃ letter, letter ≠ 'u' ∧ unescaped letter = c ∧ quotedChar c = ['\\', letter]) ∨
      quotedChar c = ['\\', 'u', '{'] ++ Nat.toDigits 16 c.toNat ++ ['}'] ∨
      (quotedChar c = [c] ∧ c ≠ '"' ∧ c ≠ '\\') := by
  unfold quotedChar
  split_ifs with hself hline hreturn htab hzero hunprintable
  · exact Or.inl ⟨c, by rcases hself with rfl | rfl <;> decide,
      by rcases hself with rfl | rfl <;> rfl, rfl⟩
  · exact Or.inl ⟨'n', by decide, hline.symm, rfl⟩
  · exact Or.inl ⟨'r', by decide, hreturn.symm, rfl⟩
  · exact Or.inl ⟨'t', by decide, htab.symm, rfl⟩
  · exact Or.inl ⟨'0', by decide, hzero.symm, rfl⟩
  · exact Or.inr (Or.inl rfl)
  · exact Or.inr (Or.inr ⟨rfl, not_or.1 hself⟩)

/-- What stands for a character does not begin with a quote. -/
theorem quotedChar_append_ne (c : Char) (rest rest' : List Char) :
    quotedChar c ++ rest ≠ '"' :: rest' := by
  intro h
  rcases quotedChar_cases c with ⟨letter, -, -, hletter⟩ | hcode | ⟨hself, hquote, -⟩
  · rw [hletter] at h
    exact absurd (List.head_eq_of_cons_eq h) (by decide)
  · rw [hcode] at h
    exact absurd (List.head_eq_of_cons_eq h) (by decide)
  · rw [hself] at h
    exact hquote (List.head_eq_of_cons_eq h)

/-- What stands for a character and what follows it are known from the two together. -/
theorem quotedChar_append_inj {c c' : Char} {rest rest' : List Char}
    (h : quotedChar c ++ rest = quotedChar c' ++ rest') : c = c' ∧ rest = rest' := by
  rcases quotedChar_cases c with ⟨letter, hu, hc, hletter⟩ | hcode | ⟨hself, -, hslash⟩ <;>
    rcases quotedChar_cases c' with ⟨letter', hu', hc', hletter'⟩ | hcode' | ⟨hself', -, hslash'⟩
  · rw [hletter, hletter'] at h
    obtain ⟨-, hrest⟩ := List.cons.inj h
    obtain ⟨hsame, hrest⟩ := List.cons.inj hrest
    exact ⟨by rw [← hc, ← hc', hsame], hrest⟩
  · rw [hletter, hcode'] at h
    exact absurd (List.head_eq_of_cons_eq (List.tail_eq_of_cons_eq h)) hu
  · rw [hletter, hself'] at h
    exact absurd (List.head_eq_of_cons_eq h).symm hslash'
  · rw [hcode, hletter'] at h
    exact absurd (List.head_eq_of_cons_eq (List.tail_eq_of_cons_eq h)).symm hu'
  · rw [hcode, hcode', List.append_assoc, List.append_assoc, List.append_assoc,
      List.append_assoc] at h
    obtain ⟨hdigits, hrest⟩ := append_cons_inj (brace_not_mem_toDigits _)
      (brace_not_mem_toDigits _) (List.append_cancel_left h)
    have hnumber := congrArg ofHexDigits hdigits
    rw [ofHexDigits_toDigits, ofHexDigits_toDigits] at hnumber
    exact ⟨Char.toNat_inj.1 hnumber, hrest⟩
  · rw [hcode, hself'] at h
    exact absurd (List.head_eq_of_cons_eq h).symm hslash'
  · rw [hself, hletter'] at h
    exact absurd (List.head_eq_of_cons_eq h) hslash
  · rw [hself, hcode'] at h
    exact absurd (List.head_eq_of_cons_eq h) hslash
  · rw [hself, hself'] at h
    exact List.cons.inj h

/-! ## Quoted texts -/

/-- A quoted text ends at the first quote that does not belong to a character of it. -/
theorem quoted_append_inj {text text' back back' : List Char}
    (h : text.flatMap quotedChar ++ '"' :: back = text'.flatMap quotedChar ++ '"' :: back') :
    text = text' ∧ back = back' := by
  induction text generalizing text' with
  | nil =>
    cases text' with
    | nil => exact ⟨rfl, List.tail_eq_of_cons_eq h⟩
    | cons c' text' =>
      rw [List.flatMap_cons, List.append_assoc] at h
      exact absurd h.symm (quotedChar_append_ne _ _ _)
  | cons c text ih =>
    rw [List.flatMap_cons, List.append_assoc] at h
    cases text' with
    | nil => exact absurd h (quotedChar_append_ne _ _ _)
    | cons c' text' =>
      rw [List.flatMap_cons, List.append_assoc] at h
      obtain ⟨rfl, hrest⟩ := quotedChar_append_inj h
      obtain ⟨rfl, hback⟩ := ih hrest
      exact ⟨rfl, hback⟩

/-- A quoted text and what follows it are known from the two together. -/
theorem quote_append_inj {text text' back back' : String}
    (h : quote text ++ back = quote text' ++ back') : text = text' ∧ back = back' := by
  have hlists := congrArg String.toList h
  simp only [quote, String.toList_append, String.toList_ofList, List.cons_append,
    List.append_assoc, List.cons.injEq, true_and] at hlists
  obtain ⟨htext, hback⟩ := quoted_append_inj hlists
  exact ⟨String.toList_inj.1 htext, String.toList_inj.1 hback⟩

/-! ## Syntax errors -/

namespace SyntaxError

/-- The first nine characters of a message, which tell the kinds of errors apart. -/
def beginning : SyntaxError → String
  | empty => "empty exp"
  | badToken _ => "bad token"
  | missingOpenParen => "missing o"
  | missingCloseParen => "missing c"
  | misplacedComma => "comma out"
  | unknownFunction _ => "unknown f"
  | wrongArity _ _ => "function "
  | unknownName _ => "unknown v"
  | missingOperand => "operator "
  | tooManyOperands => "operands "

theorem take_message (error : SyntaxError) :
    error.message.toList.take 9 = error.beginning.toList := by
  cases error with
  | empty | missingOpenParen | missingCloseParen | misplacedComma | missingOperand
  | tooManyOperands => rfl
  | badToken | unknownFunction | wrongArity | unknownName =>
    dsimp only [message, beginning]
    simp only [String.toList_append, List.append_assoc]
    rfl

/-- The message about arguments ends in their number, which is cut off at the last blank. -/
theorem wrongArity_inj {word word' : String} {arguments arguments' : Nat}
    (h : (wrongArity word arguments).message = (wrongArity word' arguments').message) :
    word = word' ∧ arguments = arguments' := by
  have hblank (n : Nat) : ' ' ∉ (Nat.toDigits 10 n).reverse := fun hmem =>
    absurd (Nat.isDigit_of_mem_toDigits (by decide) (by decide) (List.mem_reverse.1 hmem))
      (by decide)
  have hreversed (word : String) (arguments : Nat) :
      (wrongArity word arguments).message.toList.reverse =
        (Nat.toDigits 10 arguments).reverse ++
          ' ' :: ("function ".toList ++ word.toList ++
            " takes 1 argument, got".toList).reverse := by
    dsimp only [message]
    rw [Nat.toString_eq_ofList_toDigits]
    simp only [String.toList_append, String.toList_ofList, List.reverse_append]
    rfl
  have hlists := congrArg (fun text => text.toList.reverse) h
  simp only [hreversed] at hlists
  obtain ⟨hdigits, hword⟩ := append_cons_inj (hblank arguments) (hblank arguments') hlists
  have hnumber := congrArg (Nat.ofDigitChars 10 · 0) (List.reverse_inj.1 hdigits)
  simp only [Nat.ofDigitChars_ten_toDigits] at hnumber
  have hfront := List.append_cancel_right (List.reverse_inj.1 hword)
  exact ⟨String.toList_inj.1 (List.append_cancel_left hfront), hnumber⟩

/-- Different syntax errors have different messages. -/
theorem message_inj {error error' : SyntaxError} (h : error.message = error'.message) :
    error = error' := by
  have hbeginning : error.beginning = error'.beginning := by
    rw [← String.toList_inj, ← take_message, ← take_message, h]
  cases error with
  | wrongArity word arguments =>
    cases error' with
    | wrongArity word' arguments' =>
      obtain ⟨hword, harguments⟩ := wrongArity_inj h
      rw [hword, harguments]
    | _ => simp [beginning] at hbeginning
  | badToken text =>
    cases error' with
    | badToken text' => exact congrArg badToken ((String.append_right_inj _).1 h)
    | _ => simp [beginning] at hbeginning
  | unknownFunction word =>
    cases error' with
    | unknownFunction word' => exact congrArg unknownFunction ((String.append_right_inj _).1 h)
    | _ => simp [beginning] at hbeginning
  | unknownName word =>
    cases error' with
    | unknownName word' => exact congrArg unknownName ((String.append_right_inj _).1 h)
    | _ => simp [beginning] at hbeginning
  | _ => cases error' <;> first | rfl | simp [beginning] at hbeginning

end SyntaxError

/-- The record of a failed conversion tells the text and the error. -/
theorem rejection_eq_iff {text text' : String} {error error' : SyntaxError} :
    "conversion of " ++ quote text ++ " failed: " ++ error.message =
        "conversion of " ++ quote text' ++ " failed: " ++ error'.message ↔
      text = text' ∧ error = error' := by
  constructor
  · intro h
    rw [String.append_assoc, String.append_assoc, String.append_assoc, String.append_assoc,
      String.append_right_inj] at h
    obtain ⟨htext, hback⟩ := quote_append_inj h
    exact ⟨htext, SyntaxError.message_inj ((String.append_right_inj _).1 hback)⟩
  · rintro ⟨rfl, rfl⟩
    rfl

end PostfixCalc
