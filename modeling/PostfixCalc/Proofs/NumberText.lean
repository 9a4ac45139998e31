import PostfixCalc.Binary64.Text
import PostfixCalc.Proofs.Lexing.Basic

/-!
# The texts of numbers in expressions

A finite number is printed as digits, perhaps with a point and more digits, behind a minus sign if
its sign bit is set.  Its digits are split off as one number lexeme whatever follows them, as long
as that could not continue a number, and they read back as the magnitude of the number.

Main results:

- `Lexing.splitNumber?_positional`: digits written out are one lexeme.
- `Decimal.read?_positional`: digits written out are read as the decimal they were made from, with
  its trailing zeros made part of the coefficient.
- `Token.ofNumber_positional`: the digits of a finite number are a token of its magnitude.
-/

namespace PostfixCalc

namespace Lexing

/-! ## Runs -/

/-- A run that ends where the rest begins is taken whole and leaves the rest. -/
theorem span_run {p : Char → Bool} {run rest : List Char} (hrun : ∀ c ∈ run, p c = true)
    (hrest : ∀ c ∈ rest.head?, p c = false) :
    (run ++ rest).takeWhile p = run ∧ (run ++ rest).dropWhile p = rest := by
  have hend : rest.takeWhile p = [] ∧ rest.dropWhile p = rest := by
    rcases rest with _ | ⟨c, rest⟩
    · exact ⟨rfl, rfl⟩
    · have hc : p c = false := hrest c rfl
      simp [hc]
  rw [List.takeWhile_append_of_pos hrun, List.dropWhile_append_of_pos hrun, hend.1, hend.2,
    List.append_nil]
  exact ⟨rfl, rfl⟩

/-! ## Digits written out -/

/-- One or more digits. -/
def IsDigits (text : List Char) : Prop := text ≠ [] ∧ ∀ c ∈ text, c.isDigit = true

/-- Digits, perhaps with a point and digits after it. -/
inductive Positional : List Char → Prop
  | whole {digits : List Char} (h : IsDigits digits) : Positional digits
  | fraction {digits places : List Char} (h : IsDigits digits) (hplaces : IsDigits places) :
      Positional (digits ++ '.' :: places)

/-- Digits written out begin with a digit. -/
theorem Positional.exists_cons {text : List Char} (h : Positional text) :
    ∃ c rest, text = c :: rest ∧ c.isDigit = true := by
  have hdigits : ∀ digits : List Char, IsDigits digits →
      ∃ c rest, digits = c :: rest ∧ c.isDigit = true := by
    intro digits h
    rcases digits with _ | ⟨c, rest⟩
    · exact absurd rfl h.1
    · exact ⟨c, rest, rfl, h.2 c List.mem_cons_self⟩
  cases h with
  | whole h => exact hdigits _ h
  | fraction h _ =>
    obtain ⟨c, rest, rfl, hc⟩ := hdigits _ h
    exact ⟨c, _, List.cons_append, hc⟩

/-- Digits written out do not begin with anything else, such as a sign. -/
theorem Positional.head?_ne {text : List Char} (h : Positional text) {c : Char}
    (hdigit : c.isDigit = false) : text.head? ≠ some c := by
  obtain ⟨first, rest, rfl, hfirst⟩ := h.exists_cons
  intro hhead
  rw [← Option.some.inj hhead] at hdigit
  exact Bool.noConfusion (hfirst.symm.trans hdigit)

/-- Digits written out are digits and perhaps a point. -/
theorem Positional.not_mem {text : List Char} (h : Positional text) {c : Char}
    (hdigit : c.isDigit = false) (hpoint : c ≠ '.') : c ∉ text := by
  have hdigits : ∀ {digits}, IsDigits digits → c ∉ digits := by
    intro digits hdigits hmem
    rw [hdigits.2 c hmem] at hdigit
    cases hdigit
  cases h with
  | whole h => exact hdigits h
  | fraction h hplaces => simp [hdigits h, hdigits hplaces, hpoint]

/-- A character that could continue a number. -/
def continuesNumber (c : Char) : Bool := c.isDigit || c == '.' || c == 'e' || c == 'E'

theorem isDigit_of_continuesNumber {c : Char} (h : continuesNumber c = false) :
    c.isDigit = false ∧ c ≠ '.' ∧ c ≠ 'e' ∧ c ≠ 'E' := by
  simpa [continuesNumber, and_assoc] using h

/-- A text that does not go on with an exponent has none. -/
theorem splitExponent_of_head {rest : List Char}
    (hrest : ∀ c ∈ rest.head?, continuesNumber c = false) : splitExponent rest = ([], rest) := by
  rcases rest with _ | ⟨c, rest⟩
  · rfl
  · obtain ⟨-, -, he, hE⟩ := isDigit_of_continuesNumber (hrest c rfl)
    rw [splitExponent, if_neg fun h => h.1.elim he hE]

/-- Digits written out are one lexeme in front of what does not continue a number. -/
theorem splitNumber?_positional {text rest : List Char} (h : Positional text)
    (hrest : ∀ c ∈ rest.head?, continuesNumber c = false) :
    splitNumber? (text ++ rest) = some (text, rest) := by
  have hdigit : ∀ c ∈ rest.head?, c.isDigit = false := fun c hc =>
    (isDigit_of_continuesNumber (hrest c hc)).1
  unfold splitNumber?
  cases h with
  | whole h =>
    obtain ⟨htake, hdrop⟩ := span_run h.2 hdigit
    have hfraction : splitFraction rest = ([], rest) := by
      rcases rest with _ | ⟨c, rest⟩
      · rfl
      · have hpoint := (isDigit_of_continuesNumber (hrest c rfl)).2.1
        rw [splitFraction]
        intro rest' heq
        exact hpoint (List.head_eq_of_cons_eq heq)
    rw [htake, hdrop, hfraction]
    simp only [splitExponent_of_head hrest, if_neg h.1, List.append_nil]
  | fraction h hplaces =>
    rename_i digits places
    have hpoint : ∀ c ∈ ('.' :: (places ++ rest)).head?, c.isDigit = false := by
      intro c hc
      rw [List.head?_cons, Option.mem_some_iff] at hc
      exact hc ▸ rfl
    obtain ⟨htake, hdrop⟩ := span_run h.2 hpoint
    obtain ⟨htake', hdrop'⟩ := span_run hplaces.2 hdigit
    rw [List.append_assoc, List.cons_append, htake, hdrop]
    simp only [splitFraction, htake', hdrop', if_neg hplaces.1, splitExponent_of_head hrest,
      if_neg h.1, List.append_nil]

end Lexing

open Lexing

/-! ## Decimals -/

/-- The digits of a number are digits. -/
theorem isDigits_digits (n : Nat) : IsDigits (digits n) :=
  ⟨Nat.toDigits_ne_nil, fun _ hc => Nat.isDigit_of_mem_toDigits (by decide) (by decide) hc⟩

/-- A remainder by a power of ten has no more digits than the power has zeros. -/
theorem length_digits_mod {n places : Nat} (h : 0 < places) :
    (digits (n % tenPow places)).length ≤ places := by
  rw [digits, Nat.length_toDigits_le_iff (by decide) h]
  exact Nat.mod_lt n (tenPow_pos places)

theorem isDigits_padded {n places : Nat} (h : 0 < places) :
    IsDigits (padded places (n % tenPow places)) := by
  constructor
  · intro hnil
    have hlength := length_padded (length_digits_mod (n := n) h)
    rw [hnil, List.length_nil] at hlength
    omega
  · intro c hc
    rcases List.mem_append.1 hc with hzero | hdigit
    · rw [List.eq_of_mem_replicate hzero]
      rfl
    · exact (isDigits_digits _).2 c hdigit

/-- Digits cut some places before their end stand for the same number. -/
theorem ofDigitChars_cut (n : Nat) {places : Nat} (h : 0 < places) :
    Nat.ofDigitChars 10 (digits (n / tenPow places) ++ padded places (n % tenPow places)) 0 =
      n := by
  rw [Nat.ofDigitChars_append, digits, Nat.ofDigitChars_ten_toDigits,
    Nat.ofDigitChars_eq_ofDigitChars_zero, length_padded (length_digits_mod h),
    ofDigitChars_padded, tenPow]
  exact Nat.div_add_mod n (10 ^ places)

namespace Decimal

/-- A decimal is written out in digits. -/
theorem positional_isPositional (d : Decimal) : Positional d.positional := by
  unfold positional fixedPoint
  split
  · exact .whole (isDigits_digits _)
  · rename_i hplaces
    exact .fraction (isDigits_digits _) (isDigits_padded (Nat.pos_of_ne_zero hplaces))

/-- Digits with a point among them and an exponent behind them are read as one number and the power
of ten of the last digit. -/
theorem read?_of_parts {whole places rest : List Char} {exponent : Int} (h : IsDigits whole)
    (hplaces : IsDigits places) (hrest : ∀ c ∈ rest.head?, c.isDigit = false)
    (hexponent : readExponent? rest = some exponent) :
    read? (whole ++ '.' :: (places ++ rest)) =
      some ⟨Nat.ofDigitChars 10 (whole ++ places) 0, exponent - places.length⟩ := by
  have hpoint : ∀ c ∈ ('.' :: (places ++ rest)).head?, c.isDigit = false := by
    intro c hc
    rw [List.head?_cons, Option.mem_some_iff] at hc
    exact hc ▸ rfl
  obtain ⟨htake, hdrop⟩ := span_run h.2 hpoint
  obtain ⟨htake', hdrop'⟩ := span_run hplaces.2 hrest
  simp [read?, htake, hdrop, Decimal.splitFraction, htake', hdrop', h.1, hexponent]

/-- Digits with a point among them are read as one number and the power of ten of the last one. -/
theorem read?_of_fraction {whole places : List Char} (h : IsDigits whole)
    (hplaces : IsDigits places) :
    read? (whole ++ '.' :: places) =
      some ⟨Nat.ofDigitChars 10 (whole ++ places) 0, -(places.length : Int)⟩ := by
  have hread := @read?_of_parts whole places [] 0 h hplaces (by simp) rfl
  rwa [List.append_nil, Int.zero_sub] at hread

/-- Writing a decimal out makes its trailing zeros part of the coefficient. -/
theorem read?_positional (d : Decimal) :
    read? d.positional = some ⟨d.coefficient * tenPow d.exponent.toNat, min d.exponent 0⟩ := by
  unfold positional fixedPoint
  generalize hn : d.coefficient * tenPow d.exponent.toNat = n
  split
  · rename_i hplaces
    have hmin : min d.exponent 0 = 0 := by omega
    rw [read?_of_digits (isDigits_digits n).1 (isDigits_digits n).2, hmin, digits,
      Nat.ofDigitChars_ten_toDigits]
  · rename_i hplaces
    generalize hp : (-d.exponent).toNat = places at hplaces ⊢
    have hmin : min d.exponent 0 = -(places : Int) := by omega
    have hpos : 0 < places := Nat.pos_of_ne_zero hplaces
    have hlength := length_padded (length_digits_mod (n := n) hpos)
    rw [read?_of_fraction (isDigits_digits _) (isDigits_padded hpos), ofDigitChars_cut n hpos,
      hlength, hmin]

end Decimal

namespace Binary64

/-- Besides its magnitude, the text of a number has nothing but a sign and the letters of two
words. -/
theorem not_mem_textWith {magnitude : Binary64 → List Char} {x : Binary64} {c : Char}
    (hmagnitude : c ∉ magnitude x) (hother : c ∉ ['-', 'N', 'a', 'i', 'n', 'f']) :
    c ∉ (x.textWith magnitude "NaN").toList := by
  simp only [List.mem_cons, List.not_mem_nil, or_false, not_or] at hother
  obtain ⟨hminus, hN, ha, hi, hn, hf⟩ := hother
  unfold textWith
  split
  · simp [hN, ha]
  · rw [String.toList_append, List.mem_append, not_or]
    constructor
    · split
      · simp [hminus]
      · simp
    · split
      · simp [hi, hn, hf]
      · rwa [String.toList_ofList]

/-- The text of a number has nothing but digits, a point, a sign and the letters of two words. -/
theorem not_mem_plainText (x : Binary64) {c : Char} (hdigit : c.isDigit = false)
    (hother : c ∉ ['.', '-', 'N', 'a', 'i', 'n', 'f']) : c ∉ x.plainText.toList := by
  obtain ⟨hpoint, hother⟩ := not_or.1 (mt List.mem_cons.2 hother)
  exact not_mem_textWith (x.shortest.positional_isPositional.not_mem hdigit hpoint) hother

/-- Decimals are read as numbers without a sign. -/
theorem negative_ofDecimal (d : Decimal) : (ofDecimal d).negative = false := by
  unfold ofDecimal
  split
  · rfl
  · split
    · rfl
    · split <;> rfl

/-- Making trailing zeros part of the coefficient does not change the number. -/
theorem ofDecimal_trailingZeros {d : Decimal} (hfinite : (ofDecimal d).isFinite = true) :
    ofDecimal ⟨d.coefficient * tenPow d.exponent.toNat, min d.exponent 0⟩ = ofDecimal d := by
  rcases Int.lt_or_le d.exponent 0 with hneg | hpos
  · have hexponent : min d.exponent 0 = d.exponent ∧ d.exponent.toNat = 0 := by omega
    rw [hexponent.1, hexponent.2, tenPow_zero, Nat.mul_one]
  · have hexponent : min d.exponent 0 = 0 ∧ (-d.exponent).toNat = 0 := by omega
    by_cases hzero : d.coefficient = 0
    · simp [ofDecimal, hzero]
    · have hmoderate : 3 * d.exponent < 1024 := by
        refine Int.lt_of_not_ge fun hlarge => ?_
        have hinfinity : ofDecimal d = infinity := by
          rw [ofDecimal, if_neg hzero, if_pos (by omega)]
        rw [hinfinity] at hfinite
        exact absurd hfinite (by decide)
      have hcoefficient : d.coefficient * tenPow d.exponent.toNat ≠ 0 :=
        Nat.mul_ne_zero hzero (Nat.ne_of_gt (tenPow_pos _))
      rw [hexponent.1, ofDecimal_of_moderate hcoefficient (by simp) (by simp; omega),
        ofDecimal_of_moderate hzero hmoderate (by omega), hexponent.2]
      simp

/-- The shortest decimal of a finite number reads as its magnitude. -/
theorem ofDecimal_shortest {x : Binary64} (hfinite : x.isFinite = true) :
    ofDecimal x.shortest = { x with negative := false } := by
  have hcode := code_ofDecimal_shortest hfinite
  have hnegative := negative_ofDecimal x.shortest
  cases hd : ofDecimal x.shortest
  simp_all

/-- The digits of a finite number read as its magnitude. -/
theorem read?_shortest {x : Binary64} (hfinite : x.isFinite = true) :
    (Decimal.read? x.shortest.positional).map ofDecimal = some { x with negative := false } := by
  have hmagnitude := ofDecimal_shortest hfinite
  have hfinite' : (ofDecimal x.shortest).isFinite = true := by
    rw [hmagnitude]
    exact hfinite
  rw [Decimal.read?_positional, Option.map_some, ofDecimal_trailingZeros hfinite', hmagnitude]

end Binary64

/-- The digits of a finite number are a token of its magnitude. -/
theorem Token.ofNumber_positional {x : Binary64} (hfinite : x.isFinite = true) :
    Token.ofNumber (String.ofList x.shortest.positional) =
      .number { x with negative := false } := by
  obtain ⟨d, hread, hd⟩ := Option.map_eq_some_iff.1 (Binary64.read?_shortest hfinite)
  rw [ofNumber, String.toList_ofList, hread]
  exact congrArg Token.number hd

end PostfixCalc
