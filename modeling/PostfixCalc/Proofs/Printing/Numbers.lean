import PostfixCalc.Decimal.Reader
import PostfixCalc.Proofs.NumberText

/-!
# Numbers read back from their texts

In expressions and in the journal a number is written so that it is read back: its digits read as
its magnitude, and they stand behind its sign.  What is no number is written as one word, whatever
its sign and its code.

Main results:

- `Decimal.read?_scientific`: a decimal in scientific form is read as itself.
- `Binary64.read?_plainText`: a number is read back from its text in an expression.
- `Binary64.read?_journalText`: a number is read back from its text in the journal.
- `Binary64.journalText_eq_iff`: two numbers have the same text in the journal only if they are the
  same.
-/

namespace PostfixCalc

open Lexing

/-! ## Decimals -/

namespace Decimal

/-- The digits of an integer are read as the exponent behind a mark. -/
theorem readExponent?_signedDigits (n : Int) : readExponent? ('e' :: signedDigits n) = some n := by
  have hread (n : Nat) : readDigits? (digits n) = some n := by
    have hdigits := isDigits_digits n
    rw [readDigits?, if_pos ⟨hdigits.1, List.all_eq_true.2 hdigits.2⟩, digits,
      Nat.ofDigitChars_ten_toDigits]
  cases n with
  | ofNat n =>
    have hpositional := Positional.whole (isDigits_digits n)
    have hminus : (digits n).head? ≠ some '-' := hpositional.head?_ne rfl
    have hplus : (digits n).head? ≠ some '+' := hpositional.head?_ne rfl
    have hdigits := hread n
    rw [signedDigits]
    generalize digits n = text at hminus hplus hdigits
    simp only [readExponent?, true_or, if_true]
    split
    · exact absurd rfl hminus
    · exact absurd rfl hplus
    · rw [hdigits]
      rfl
  | negSucc n =>
    unfold readExponent?
    simp only [signedDigits, hread, true_or, if_true]
    rfl

/-- Digits with an exponent behind them are read as one number. -/
theorem read?_of_whole {whole rest : List Char} {exponent : Int} (h : IsDigits whole)
    (hrest : ∀ c ∈ rest.head?, c.isDigit = false ∧ c ≠ '.')
    (hexponent : readExponent? rest = some exponent) :
    read? (whole ++ rest) = some ⟨Nat.ofDigitChars 10 whole 0, exponent⟩ := by
  obtain ⟨htake, hdrop⟩ := span_run h.2 fun c hc => (hrest c hc).1
  have hfraction : Decimal.splitFraction rest = ([], rest) := by
    rcases rest with _ | ⟨c, rest⟩
    · rfl
    · have hpoint := (hrest c rfl).2
      rw [Decimal.splitFraction]
      intro rest' heq
      exact hpoint (List.head_eq_of_cons_eq heq)
  simp [read?, htake, hdrop, hfraction, h.1, hexponent]

/-- The scientific form is a number written out, a mark and the power of ten of the first digit. -/
theorem exists_scientific_eq (d : Decimal) :
    ∃ text, Positional text ∧ d.scientific = text ++ 'e' :: signedDigits d.magnitude := by
  have hdigits := isDigits_digits d.coefficient
  unfold scientific
  generalize digits d.coefficient = text at hdigits
  rcases text with _ | ⟨first, _ | ⟨second, others⟩⟩
  · exact absurd rfl hdigits.1
  · exact ⟨[first], .whole hdigits, rfl⟩
  · obtain ⟨hfirst, hothers⟩ := List.forall_mem_cons.1 hdigits.2
    have hwhole : IsDigits [first] := ⟨List.cons_ne_nil _ _, by simpa using hfirst⟩
    exact ⟨[first] ++ '.' :: second :: others, .fraction hwhole ⟨List.cons_ne_nil _ _, hothers⟩,
      rfl⟩

/-- A decimal in scientific form is read as itself. -/
theorem read?_scientific (d : Decimal) : read? d.scientific = some d := by
  have hdigits := isDigits_digits d.coefficient
  have hcoefficient : Nat.ofDigitChars 10 (digits d.coefficient) 0 = d.coefficient :=
    Nat.ofDigitChars_ten_toDigits
  have hexponent := readExponent?_signedDigits d.magnitude
  have hmark : ∀ c ∈ ('e' :: signedDigits d.magnitude).head?, c.isDigit = false ∧ c ≠ '.' := by
    intro c hc
    obtain rfl : 'e' = c := Option.some.inj hc
    decide
  have hmagnitude := magnitude.eq_1 d
  unfold scientific
  generalize digits d.coefficient = text at hdigits hcoefficient hmagnitude
  rcases text with _ | ⟨first, _ | ⟨second, others⟩⟩
  · exact absurd rfl hdigits.1
  · have hpower : d.magnitude = d.exponent := by
      rw [hmagnitude, List.length_singleton]
      omega
    have hread := read?_of_whole hdigits hmark hexponent
    rw [hcoefficient] at hread
    refine hread.trans ?_
    rw [hpower]
  · obtain ⟨hfirst, hothers⟩ := List.forall_mem_cons.1 hdigits.2
    have hwhole : IsDigits [first] := ⟨List.cons_ne_nil _ _, by simpa using hfirst⟩
    have hpower : d.magnitude - ((second :: others).length : Int) = d.exponent := by
      rw [hmagnitude, List.length_cons]
      omega
    have hread := read?_of_parts hwhole ⟨List.cons_ne_nil second _, hothers⟩
      (fun c hc => (hmark c hc).1) hexponent
    rw [hpower, List.singleton_append, List.singleton_append, hcoefficient] at hread
    exact hread

/-- A whole number with a zero behind a point is read as ten times as many tenths. -/
theorem read?_positional_point {d : Decimal} (h : 0 ≤ d.exponent) :
    read? (d.positional ++ ['.', '0']) =
      some ⟨d.coefficient * tenPow d.exponent.toNat * 10, -1⟩ := by
  have hplaces : (-d.exponent).toNat = 0 := by omega
  rw [positional, fixedPoint, if_pos hplaces]
  generalize d.coefficient * tenPow d.exponent.toNat = n
  rw [read?_of_fraction (isDigits_digits n) ⟨List.cons_ne_nil _ _, by simp⟩,
    Nat.ofDigitChars_append, digits, Nat.ofDigitChars_ten_toDigits]
  simp [Nat.ofDigitChars, Nat.mul_comm]

end Decimal

/-! ## Magnitudes -/

namespace Binary64

/-- Ten times as many tenths are the same number. -/
theorem ofDecimal_tenths (n : Nat) : ofDecimal ⟨n * 10, -1⟩ = ofDecimal ⟨n, 0⟩ := by
  by_cases hzero : n = 0
  · simp [ofDecimal, hzero]
  · have hten : n * 10 ≠ 0 := Nat.mul_ne_zero hzero (by decide)
    have hscale : n * 10 * tenPow 0 * unitsPerOne = n * tenPow 0 * unitsPerOne * tenPow 1 := by
      rw [tenPow_zero, Nat.mul_one, Nat.mul_one, Nat.mul_right_comm]
      rfl
    rw [ofDecimal_of_moderate hten (by simp) (by simp; omega),
      ofDecimal_of_moderate hzero (by simp) (by simp; omega)]
    have hnearest := nearest_mul_right (n * tenPow 0 * unitsPerOne) 1 (tenPow_pos 1)
    rw [← hscale, Nat.one_mul] at hnearest
    exact hnearest

/-- The digits of a number read as its magnitude and begin with a digit. -/
structure IsReadBack (x : Binary64) (text : List Char) : Prop where
  read? : (Decimal.read? text).map ofDecimal = some { x with negative := false }
  head? : ∀ c ∈ text.head?, c.isDigit = true

variable {x : Binary64}

/-- Digits in front decide with what a text begins. -/
theorem isDigit_head?_append {front : List Char} (h : Positional front) (back : List Char) :
    ∀ c ∈ (front ++ back).head?, c.isDigit = true := by
  obtain ⟨first, rest, rfl, hfirst⟩ := h.exists_cons
  intro c hc
  obtain rfl : first = c := Option.some.inj hc
  exact hfirst

theorem isReadBack_positional (h : x.isFinite = true) : x.IsReadBack x.shortest.positional where
  read? := read?_shortest h
  head? := by simpa using isDigit_head?_append x.shortest.positional_isPositional []

/-- In each of its forms the journal has digits that read back. -/
theorem isReadBack_journalDigits (h : x.isFinite = true) : x.IsReadBack x.journalDigits := by
  have hshortest := ofDecimal_shortest h
  unfold journalDigits
  dsimp only
  split
  · constructor
    · rw [Decimal.read?_scientific, Option.map_some, hshortest]
    · obtain ⟨text, htext, heq⟩ := x.shortest.exists_scientific_eq
      rw [heq]
      exact isDigit_head?_append htext _
  · split
    · rename_i hexponent
      constructor
      · have htrailing := @ofDecimal_trailingZeros x.shortest (by rw [hshortest]; exact h)
        rw [Int.min_eq_right hexponent] at htrailing
        rw [Decimal.read?_positional_point hexponent, Option.map_some, ofDecimal_tenths, htrailing,
          hshortest]
      · exact isDigit_head?_append x.shortest.positional_isPositional _
    · exact isReadBack_positional h

/-! ## Signs and words -/

/-- Without a sign in front, a text is read as a magnitude. -/
theorem read?_of_head {text : String} (h : ∀ c ∈ text.toList.head?, c ≠ '-' ∧ c ≠ '+') :
    read? text = readMagnitude? text.toList := by
  rw [read?]
  split
  · rename_i heq
    exact absurd rfl (h '-' (by rw [heq]; rfl)).1
  · rename_i heq
    exact absurd rfl (h '+' (by rw [heq]; rfl)).2
  · rfl

/-- The magnitude of a number is read from its text, which begins with no sign. -/
theorem readMagnitude?_text (h : x.isNaN = false) {magnitude : List Char}
    (hmagnitude : x.isFinite = true → x.IsReadBack magnitude) {text : String}
    (htext : text = if x.isInfinite then "inf" else String.ofList magnitude) :
    readMagnitude? text.toList = some { x with negative := false } ∧
      ∀ c ∈ text.toList.head?, c ≠ '-' ∧ c ≠ '+' := by
  by_cases hinfinite : x.isInfinite = true
  · rw [if_pos hinfinite] at htext
    have hcode : x.code = infinityCode := by simpa [isInfinite] using hinfinite
    have hinfinity : { x with negative := false } = infinity := by
      cases x
      simp_all [infinity]
    rw [htext, hinfinity]
    refine ⟨rfl, fun c hc => ?_⟩
    obtain rfl : 'i' = c := Option.some.inj hc
    decide
  · rw [if_neg hinfinite] at htext
    obtain ⟨hread, hhead⟩ := hmagnitude (isFinite_of_not (by simp [h]) hinfinite)
    rw [htext, String.toList_ofList]
    constructor
    · rw [readMagnitude?, hread]
    · intro c hc
      constructor <;>
      · rintro rfl
        exact Bool.noConfusion (hhead _ hc)

/-- What a text shows of a number: of what is no number, only that it is none. -/
def shown (x : Binary64) : Binary64 := if x.isNaN then nan else x

theorem shown_eq_self (h : x.isNaN = false) : x.shown = x := if_neg (by simp [h])

@[simp]
theorem shown_shown (x : Binary64) : x.shown.shown = x.shown := by
  by_cases h : x.isNaN = true
  · rw [shown, shown, if_pos h]
    rfl
  · exact congrArg shown (if_neg h)

section

variable {magnitude : Binary64 → List Char}
  (hmagnitude : ∀ {x : Binary64}, x.isFinite = true → x.IsReadBack (magnitude x))

include hmagnitude

/-- A number is read back from a sign and digits that are read back. -/
theorem read?_textWith (x : Binary64) : read? (x.textWith magnitude "NaN") = some x.shown := by
  by_cases h : x.isNaN = true
  · rw [textWith, shown, if_pos h, if_pos h]
    decide
  · have hnumber : x.isNaN = false := by simpa using h
    rw [textWith, if_neg h, shown_eq_self hnumber]
    generalize htext : (if x.isInfinite then "inf" else String.ofList (magnitude x)) = text
    obtain ⟨hread, hhead⟩ := readMagnitude?_text hnumber hmagnitude htext.symm
    by_cases hnegative : x.negative = true
    · have hsigned : ((if x.negative then "-" else "") ++ text).toList = '-' :: text.toList := by
        rw [if_pos hnegative, String.toList_append]
        rfl
      rw [read?, hsigned]
      simp only [hread, Option.map_some, neg, Bool.not_false, Option.some.injEq]
      cases x
      simp_all
    · have hpositive : x.negative = false := by simpa using hnegative
      rw [if_neg hnegative, String.empty_append, read?_of_head hhead, hread]
      cases x
      simp_all

/-- So different numbers have different texts. -/
theorem textWith_eq_iff {y : Binary64} :
    x.textWith magnitude "NaN" = y.textWith magnitude "NaN" ↔ x.shown = y.shown := by
  have htext (z : Binary64) : z.textWith magnitude "NaN" = z.shown.textWith magnitude "NaN" := by
    by_cases h : z.isNaN = true
    · rw [shown, if_pos h, textWith, if_pos h]
      rfl
    · rw [shown, if_neg h]
  constructor
  · intro h
    have hread := congrArg read? h
    rw [read?_textWith hmagnitude, read?_textWith hmagnitude] at hread
    exact Option.some.inj hread
  · intro h
    rw [htext x, htext y, h]

end

/-- A number is read back from its text in an expression. -/
theorem read?_plainText (x : Binary64) : read? x.plainText = some x.shown :=
  read?_textWith isReadBack_positional x

/-- A number is read back from its text in the journal. -/
theorem read?_journalText (x : Binary64) : read? x.journalText = some x.shown :=
  read?_textWith isReadBack_journalDigits x

theorem plainText_eq_iff {y : Binary64} : x.plainText = y.plainText ↔ x.shown = y.shown :=
  textWith_eq_iff isReadBack_positional

theorem journalText_eq_iff {y : Binary64} : x.journalText = y.journalText ↔ x.shown = y.shown :=
  textWith_eq_iff isReadBack_journalDigits

/-- In the journal a number has nothing but digits, a point, signs, a mark and the letters of two
words. -/
theorem not_mem_journalText (x : Binary64) {c : Char} (hdigit : c.isDigit = false)
    (hother : c ∉ ['.', 'e', '-', 'N', 'a', 'i', 'n', 'f']) : c ∉ x.journalText.toList := by
  obtain ⟨hpoint, hother⟩ := not_or.1 (mt List.mem_cons.2 hother)
  obtain ⟨hmark, hother⟩ := not_or.1 (mt List.mem_cons.2 hother)
  have hminus : c ≠ '-' := fun h => hother (h ▸ List.mem_cons_self)
  have hdigits (n : Nat) : c ∉ digits n :=
    (Positional.whole (isDigits_digits n)).not_mem hdigit hpoint
  have hpositional : c ∉ x.shortest.positional :=
    x.shortest.positional_isPositional.not_mem hdigit hpoint
  refine not_mem_textWith ?_ hother
  unfold journalDigits
  dsimp only
  split
  · obtain ⟨text, htext, heq⟩ := x.shortest.exists_scientific_eq
    have hexponent : c ∉ signedDigits x.shortest.magnitude := by
      unfold signedDigits
      split
      · exact hdigits _
      · simp [hminus, hdigits]
    simp [heq, htext.not_mem hdigit hpoint, hmark, hexponent]
  · split
    · have hzero : c ≠ '0' := by
        rintro rfl
        exact Bool.noConfusion hdigit
      simp [hpositional, hpoint, hzero]
    · exact hpositional

end Binary64

end PostfixCalc
