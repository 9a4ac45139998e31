import Mathlib.Computability.Language
import PostfixCalc.Proofs.Lexing.Texts

/-!
# The longest lexemes

Words and numbers as languages, put together from characters by concatenation, choice and
repetition.  The rules for lexemes look ahead by a few characters and give some of them back, and
still what they take is the longest beginning of the text that is in the language.

Main results:

- `Lexing.splitsLongest_splitWord?`, `Lexing.splitsLongest_splitNumber?`: the rules for words and
  for numbers split off the longest beginning in their language, and nothing only if there is none.
- `Lexing.SplitsLongest.eq_some_iff`: that determines what is split off.
-/

open Computability

namespace PostfixCalc

namespace Lexing

/-! ## Languages -/

/-- A single character that satisfies `p`. -/
def oneOf (p : Char → Bool) : Language Char := {text | ∃ c, p c = true ∧ text = [c]}

/-- `[a-zA-Z_][a-zA-Z0-9_]*` -/
def wordLanguage : Language Char := oneOf Scanner.isWordStart * (oneOf Scanner.isWordPart)∗

/-- `[0-9]+` -/
def digitsLanguage : Language Char := oneOf Char.isDigit * (oneOf Char.isDigit)∗

/-- `(\.[0-9]+)?` -/
def fractionLanguage : Language Char := 1 + oneOf (· == '.') * digitsLanguage

/-- `([eE][+-]?[0-9]+)?` -/
def exponentLanguage : Language Char :=
  1 + oneOf (fun c => c == 'e' || c == 'E') *
    ((1 + oneOf fun c => c == '+' || c == '-') * digitsLanguage)

/-- `[0-9]+(\.[0-9]+)?([eE][+-]?[0-9]+)?` -/
def numberLanguage : Language Char := digitsLanguage * (fractionLanguage * exponentLanguage)

theorem mem_oneOf {p : Char → Bool} {text : List Char} :
    text ∈ oneOf p ↔ ∃ c, p c = true ∧ text = [c] := Iff.rfl

/-- Repeated characters are characters that all satisfy `p`. -/
theorem mem_kstar_oneOf {p : Char → Bool} {text : List Char} :
    text ∈ (oneOf p)∗ ↔ ∀ c ∈ text, p c = true := by
  rw [Language.mem_kstar]
  constructor
  · rintro ⟨pieces, rfl, hpieces⟩ c hc
    obtain ⟨piece, hpiece, hc⟩ := List.mem_flatten.1 hc
    obtain ⟨d, hd, rfl⟩ := hpieces piece hpiece
    exact List.mem_singleton.1 hc ▸ hd
  · intro h
    refine ⟨text.map fun c => [c], ?_, ?_⟩
    · rw [← List.flatMap_def, List.flatMap_singleton']
    · intro piece hpiece
      obtain ⟨c, hc, rfl⟩ := List.mem_map.1 hpiece
      exact ⟨c, h c hc, rfl⟩

/-- One character and repeated ones are a non-empty list of characters. -/
theorem mem_oneOf_mul_kstar {p q : Char → Bool} {text : List Char} :
    text ∈ oneOf p * (oneOf q)∗ ↔
      ∃ c rest, text = c :: rest ∧ p c = true ∧ ∀ d ∈ rest, q d = true := by
  simp only [Language.mem_mul, mem_oneOf, mem_kstar_oneOf]
  constructor
  · rintro ⟨first, ⟨c, hc, rfl⟩, rest, hrest, rfl⟩
    exact ⟨c, rest, rfl, hc, hrest⟩
  · rintro ⟨c, rest, rfl, hc, hrest⟩
    exact ⟨[c], ⟨c, hc, rfl⟩, rest, hrest, rfl⟩

theorem mem_digitsLanguage {text : List Char} : text ∈ digitsLanguage ↔ IsDigits text := by
  rw [digitsLanguage, mem_oneOf_mul_kstar]
  constructor
  · rintro ⟨c, rest, rfl, hc, hrest⟩
    exact ⟨List.cons_ne_nil c rest, List.forall_mem_cons.2 ⟨hc, hrest⟩⟩
  · rintro ⟨hne, hdigits⟩
    obtain ⟨c, rest, rfl⟩ := List.exists_cons_of_ne_nil hne
    obtain ⟨hc, hrest⟩ := List.forall_mem_cons.1 hdigits
    exact ⟨c, rest, rfl, hc, hrest⟩

theorem mem_fractionLanguage {text : List Char} : text ∈ fractionLanguage ↔ IsFraction text := by
  simp only [fractionLanguage, Language.mem_add, Language.mem_one, Language.mem_mul, mem_oneOf,
    mem_digitsLanguage, beq_iff_eq]
  constructor
  · rintro (rfl | ⟨point, ⟨c, rfl, rfl⟩, places, hplaces, rfl⟩)
    · exact .nothing
    · exact .places hplaces
  · intro h
    cases h with
    | nothing => exact Or.inl rfl
    | places h => exact Or.inr ⟨['.'], ⟨'.', rfl, rfl⟩, _, h, rfl⟩

theorem mem_exponentLanguage {text : List Char} : text ∈ exponentLanguage ↔ IsExponent text := by
  simp only [exponentLanguage, Language.mem_add, Language.mem_one, Language.mem_mul, mem_oneOf,
    mem_digitsLanguage, Bool.or_eq_true, beq_iff_eq]
  constructor
  · rintro (rfl | ⟨mark, ⟨c, hc, rfl⟩, signed, ⟨sign, hsign, digits, hdigits, rfl⟩, rfl⟩)
    · exact .nothing
    · have hsign : sign = [] ∨ sign = ['+'] ∨ sign = ['-'] := by
        rcases hsign with rfl | ⟨d, rfl | rfl, rfl⟩
        · exact Or.inl rfl
        · exact Or.inr (Or.inl rfl)
        · exact Or.inr (Or.inr rfl)
      have hmarked := IsExponent.marked hc hsign hdigits
      exact hmarked
  · intro h
    cases h with
    | nothing => exact Or.inl rfl
    | @marked mark sign digits hmark hsign h =>
      refine Or.inr ⟨[mark], ⟨mark, hmark, rfl⟩, _, ⟨sign, ?_, digits, h, rfl⟩, rfl⟩
      rcases hsign with rfl | rfl | rfl
      · exact Or.inl rfl
      · exact Or.inr ⟨'+', Or.inl rfl, rfl⟩
      · exact Or.inr ⟨'-', Or.inr rfl, rfl⟩

theorem mem_numberLanguage {text : List Char} :
    text ∈ numberLanguage ↔
      ∃ digits fraction exponent, text = digits ++ (fraction ++ exponent) ∧ IsDigits digits ∧
        IsFraction fraction ∧ IsExponent exponent := by
  simp only [numberLanguage, Language.mem_mul, mem_digitsLanguage, mem_fractionLanguage,
    mem_exponentLanguage]
  constructor
  · rintro ⟨digits, hdigits, rest, ⟨fraction, hfraction, exponent, hexponent, rfl⟩, rfl⟩
    exact ⟨digits, fraction, exponent, rfl, hdigits, hfraction, hexponent⟩
  · rintro ⟨digits, fraction, exponent, rfl, hdigits, hfraction, hexponent⟩
    exact ⟨digits, hdigits, _, ⟨fraction, hfraction, exponent, hexponent, rfl⟩, rfl⟩

/-! ## The longest beginning -/

/-- The longest beginning of a text that is in a language. -/
structure IsLongest (language : Language Char) (text lexeme : List Char) : Prop where
  mem : lexeme ∈ language
  begins : lexeme <+: text
  longest : ∀ other ∈ language, other <+: text → other.length ≤ lexeme.length

/-- There is only one longest beginning. -/
theorem IsLongest.unique {language : Language Char} {text lexeme other : List Char}
    (h : IsLongest language text lexeme) (h' : IsLongest language text other) :
    lexeme = other := by
  have hlength : lexeme.length = other.length :=
    Nat.le_antisymm (h'.longest lexeme h.mem h.begins) (h.longest other h'.mem h'.begins)
  exact (List.prefix_of_prefix_length_le h.begins h'.begins hlength.le).eq_of_length hlength

/-- A run at the beginning of a text is part of the whole run there.  What follows it can only begin
where the whole run ends. -/
theorem takeWhile_of_begins {p : Char → Bool} {run rest text : List Char}
    (hrun : ∀ c ∈ run, p c = true) (hrest : ∀ c ∈ rest.head?, p c = false)
    (h : run ++ rest <+: text) :
    (run = text.takeWhile p ∧ rest <+: text.dropWhile p) ∨
      (run <+: text.takeWhile p ∧ rest = []) := by
  induction run generalizing text with
  | nil =>
    rcases rest with _ | ⟨c, rest⟩
    · exact Or.inr ⟨List.nil_prefix, rfl⟩
    · obtain ⟨tail, rfl⟩ := h
      have hc : p c = false := hrest c rfl
      exact Or.inl (by simp [hc])
  | cons c run ih =>
    obtain ⟨hc, hrun⟩ := List.forall_mem_cons.1 hrun
    obtain ⟨tail, rfl⟩ := h
    have hbegins : run ++ rest <+: run ++ rest ++ tail := List.prefix_append _ _
    rcases ih hrun hbegins with ⟨heq, hrest⟩ | ⟨hpart, hnil⟩
    · refine Or.inl ⟨?_, ?_⟩
      · rw [List.cons_append, List.cons_append, List.takeWhile_cons_of_pos hc, ← heq]
      · rwa [List.cons_append, List.cons_append, List.dropWhile_cons_of_pos hc]
    · refine Or.inr ⟨?_, hnil⟩
      rw [List.cons_append, List.cons_append, List.takeWhile_cons_of_pos hc]
      exact List.cons_prefix_cons.2 ⟨rfl, hpart⟩

/-- A run at the beginning of a text is part of the whole run there. -/
theorem run_prefix_takeWhile {p : Char → Bool} {run text : List Char}
    (hrun : ∀ c ∈ run, p c = true) (h : run <+: text) : run <+: text.takeWhile p := by
  rw [← List.append_nil run] at h
  rcases takeWhile_of_begins hrun (by simp) h with ⟨heq, -⟩ | ⟨hpart, -⟩
  · exact heq ▸ List.prefix_rfl
  · exact hpart

/-! ## Rules that take the longest beginning -/

/-- A rule splits off the longest beginning of a text in a language, if there is one. -/
structure SplitsLongest (language : Language Char)
    (split : List Char → Option (List Char × List Char)) : Prop where
  of_some {text lexeme rest : List Char} :
    split text = some (lexeme, rest) → text = lexeme ++ rest ∧ IsLongest language text lexeme
  of_none {text : List Char} :
    split text = none → ∀ lexeme ∈ language, ¬lexeme <+: text

namespace SplitsLongest

variable {language : Language Char} {split : List Char → Option (List Char × List Char)}
  {text lexeme rest : List Char}

/-- What is split off is the longest beginning, and the longest beginning is split off. -/
theorem eq_some_iff (h : SplitsLongest language split) :
    split text = some (lexeme, rest) ↔
      text = lexeme ++ rest ∧ IsLongest language text lexeme := by
  refine ⟨h.of_some, fun ⟨htext, hlongest⟩ => ?_⟩
  cases hsplit : split text with
  | none => exact absurd hlongest.begins (h.of_none hsplit lexeme hlongest.mem)
  | some found =>
    obtain ⟨other, rest'⟩ := found
    obtain ⟨htext', hlongest'⟩ := h.of_some hsplit
    obtain rfl : lexeme = other := hlongest.unique hlongest'
    rw [List.append_cancel_left (htext.symm.trans htext')]

/-- Nothing is split off exactly if no beginning is in the language. -/
theorem eq_none_iff (h : SplitsLongest language split) :
    split text = none ↔ ∀ lexeme ∈ language, ¬lexeme <+: text := by
  refine ⟨h.of_none, fun hnone => ?_⟩
  cases hsplit : split text with
  | none => rfl
  | some found =>
    have hlongest := (h.of_some hsplit).2
    exact absurd hlongest.begins (hnone found.1 hlongest.mem)

end SplitsLongest

/-! ## Words -/

theorem mem_wordLanguage {text : List Char} : text ∈ wordLanguage ↔ IsWord text := by
  rw [wordLanguage, mem_oneOf_mul_kstar]
  constructor
  · rintro ⟨c, rest, rfl, hc, hrest⟩
    have hpart : Scanner.isWordPart c = true := by
      rw [Scanner.isWordStart, Bool.or_eq_true] at hc
      rw [Scanner.isWordPart, Char.isAlphanum, Bool.or_eq_true, Bool.or_eq_true]
      exact hc.imp Or.inl id
    exact ⟨⟨c, rfl, hc⟩, List.forall_mem_cons.2 ⟨hpart, hrest⟩⟩
  · rintro ⟨⟨c, hhead, hc⟩, hparts⟩
    obtain ⟨rest, rfl⟩ := List.head?_eq_some_iff.1 hhead
    exact ⟨c, rest, rfl, hc, (List.forall_mem_cons.1 hparts).2⟩

/-- The rule for words takes the longest word. -/
theorem splitsLongest_splitWord? : SplitsLongest wordLanguage splitWord? where
  of_some {text word rest} h := by
    have hword := mem_wordLanguage.2 (isWord_of_splitWord? h)
    rcases text with _ | ⟨c, text⟩
    · simp [splitWord?] at h
    · simp only [splitWord?, Option.ite_none_right_eq_some, Option.some.injEq, Prod.mk.injEq] at h
      obtain ⟨-, rfl, rfl⟩ := h
      have hsplit : c :: text = c :: text.takeWhile Scanner.isWordPart ++
          text.dropWhile Scanner.isWordPart := by
        rw [List.cons_append, List.takeWhile_append_dropWhile]
      refine ⟨hsplit, hword, ⟨_, hsplit.symm⟩, fun other hother hbegins => ?_⟩
      rw [wordLanguage, mem_oneOf_mul_kstar] at hother
      obtain ⟨d, run, rfl, -, hrun⟩ := hother
      have hrest := (List.cons_prefix_cons.1 hbegins).2
      exact Nat.succ_le_succ (run_prefix_takeWhile hrun hrest).length_le
  of_none {text} h word hword hbegins := by
    rw [wordLanguage, mem_oneOf_mul_kstar] at hword
    obtain ⟨c, run, rfl, hc, -⟩ := hword
    obtain ⟨tail, rfl⟩ := hbegins
    simp [splitWord?, hc] at h

/-! ## Numbers -/

theorem append_splitFraction (text : List Char) :
    (splitFraction text).1 ++ (splitFraction text).2 = text := by
  unfold splitFraction
  split
  · split
    · rfl
    · rw [List.cons_append, List.takeWhile_append_dropWhile]
  · rfl

theorem append_splitSign (text : List Char) : (splitSign text).1 ++ (splitSign text).2 = text := by
  rcases text with _ | ⟨c, rest⟩
  · rfl
  · rw [splitSign]
    split <;> rfl

theorem append_splitExponent (text : List Char) :
    (splitExponent text).1 ++ (splitExponent text).2 = text := by
  rcases text with _ | ⟨mark, rest⟩
  · rfl
  · rw [splitExponent]
    split
    · rw [List.cons_append, List.cons_append, List.append_assoc, List.takeWhile_append_dropWhile,
        append_splitSign]
    · rfl

/-- No other exponent at the beginning of a text is longer than the one that is split off. -/
theorem length_le_splitExponent {exponent text : List Char} (h : IsExponent exponent)
    (hbegins : exponent <+: text) : exponent.length ≤ (splitExponent text).1.length := by
  cases h with
  | nothing => exact Nat.zero_le _
  | @marked mark sign digits hmark hsign h =>
    obtain ⟨tail, rfl⟩ := hbegins
    rw [List.cons_append, List.append_assoc]
    have hsplit : splitSign (sign ++ (digits ++ tail)) = (sign, digits ++ tail) := by
      rcases hsign with rfl | rfl | rfl
      · obtain ⟨c, rest, rfl⟩ := List.exists_cons_of_ne_nil h.1
        have hc : c.isDigit = true := h.2 c List.mem_cons_self
        rw [List.nil_append, List.cons_append, splitSign, if_neg]
        rintro (rfl | rfl) <;> exact absurd hc (by decide)
      · rfl
      · rfl
    have hrun := run_prefix_takeWhile h.2 (List.prefix_append digits tail)
    have hsome : (digits ++ tail).takeWhile Char.isDigit ≠ [] := fun hnil =>
      h.1 (List.prefix_nil.1 (hnil ▸ hrun))
    rw [splitExponent, hsplit, if_pos ⟨hmark, hsome⟩, List.cons_append, List.length_cons,
      List.length_cons, List.length_append, List.length_append]
    exact Nat.succ_le_succ (Nat.add_le_add_left hrun.length_le _)

/-- An exponent begins neither with a digit nor with a point. -/
theorem IsExponent.head {exponent : List Char} (h : IsExponent exponent) :
    ∀ c ∈ exponent.head?, c.isDigit = false ∧ c ≠ '.' := by
  intro c hc
  cases h with
  | nothing => simp at hc
  | marked hmark _ _ =>
    rw [List.head?_cons, Option.mem_some_iff] at hc
    subst hc
    rcases hmark with rfl | rfl <;> decide

/-- A fraction and an exponent do not begin with a digit. -/
theorem IsFraction.append_head {fraction exponent : List Char} (h : IsFraction fraction)
    (hexponent : IsExponent exponent) : ∀ c ∈ (fraction ++ exponent).head?, c.isDigit = false := by
  intro c hc
  cases h with
  | nothing => exact (hexponent.head c hc).1
  | places _ =>
    rw [List.cons_append, List.head?_cons, Option.mem_some_iff] at hc
    exact hc ▸ rfl

/-- No other fraction with an exponent at the beginning of a text is longer than those that are
split off. -/
theorem length_le_splitFraction {fraction exponent text : List Char} (h : IsFraction fraction)
    (hexponent : IsExponent exponent) (hbegins : fraction ++ exponent <+: text) :
    (fraction ++ exponent).length ≤
      ((splitFraction text).1 ++ (splitExponent (splitFraction text).2).1).length := by
  cases h with
  | nothing =>
    rw [List.nil_append] at hbegins ⊢
    cases hexponent with
    | nothing => exact Nat.zero_le _
    | @marked mark sign digits hmark hsign hdigits =>
      -- A text that begins with a mark does not begin with a point.
      have hexponent : IsExponent (mark :: (sign ++ digits)) := .marked hmark hsign hdigits
      have hpoint : splitFraction text = ([], text) := by
        obtain ⟨tail, rfl⟩ := hbegins
        rw [List.cons_append, splitFraction]
        intro rest heq
        exact absurd (List.head_eq_of_cons_eq heq) (hexponent.head mark rfl).2
      rw [hpoint]
      exact length_le_splitExponent hexponent hbegins
  | @places places hplaces =>
    obtain ⟨tail, rfl⟩ := hbegins
    simp only [List.cons_append, splitFraction]
    have hrun : places <+: (places ++ exponent ++ tail).takeWhile Char.isDigit :=
      run_prefix_takeWhile hplaces.2 ⟨exponent ++ tail, (List.append_assoc _ _ _).symm⟩
    have hsome : (places ++ exponent ++ tail).takeWhile Char.isDigit ≠ [] := fun hnil =>
      hplaces.1 (List.prefix_nil.1 (hnil ▸ hrun))
    rw [if_neg hsome, List.cons_append, List.length_cons, List.length_cons, List.length_append,
      List.length_append]
    refine Nat.succ_le_succ ?_
    rcases takeWhile_of_begins hplaces.2 (fun c hc => (hexponent.head c hc).1)
        (List.prefix_append (places ++ exponent) tail) with ⟨heq, hrest⟩ | ⟨hpart, rfl⟩
    · exact Nat.add_le_add (heq ▸ Nat.le_refl _) (length_le_splitExponent hexponent hrest)
    · exact Nat.le_trans hpart.length_le (Nat.le_add_right _ _)

/-- The rule for numbers takes the longest number. -/
theorem splitsLongest_splitNumber? : SplitsLongest numberLanguage splitNumber? where
  of_some {text number rest} h := by
    have hmem : number ∈ numberLanguage := mem_numberLanguage.2 (exists_of_splitNumber? h)
    simp only [splitNumber?, Option.ite_none_left_eq_some, Option.some.injEq, Prod.mk.injEq] at h
    obtain ⟨-, rfl, rfl⟩ := h
    have hwhole :
        text.takeWhile Char.isDigit ++ (splitFraction (text.dropWhile Char.isDigit)).1 ++
            (splitExponent (splitFraction (text.dropWhile Char.isDigit)).2).1 ++
          (splitExponent (splitFraction (text.dropWhile Char.isDigit)).2).2 = text := by
      rw [List.append_assoc, append_splitExponent, List.append_assoc, append_splitFraction,
        List.takeWhile_append_dropWhile]
    refine ⟨hwhole.symm, hmem, ⟨_, hwhole⟩, fun other hother hbegins => ?_⟩
    obtain ⟨digits, fraction, exponent, rfl, hdigits, hfraction, hexponent⟩ :=
      mem_numberLanguage.1 hother
    rcases takeWhile_of_begins hdigits.2 (hfraction.append_head hexponent) hbegins with
      ⟨heq, hrest⟩ | ⟨hpart, hnil⟩
    · have hle := length_le_splitFraction hfraction hexponent hrest
      rw [List.append_assoc, ← heq]
      simp only [List.length_append] at hle ⊢
      omega
    · rw [hnil, List.append_nil, List.append_assoc, List.length_append]
      exact Nat.le_trans hpart.length_le (Nat.le_add_right _ _)
  of_none {text} h number hnumber hbegins := by
    obtain ⟨digits, fraction, exponent, rfl, hdigits, -, -⟩ := mem_numberLanguage.1 hnumber
    have hrun := run_prefix_takeWhile hdigits.2 ((List.prefix_append _ _).trans hbegins)
    have hsome : text.takeWhile Char.isDigit ≠ [] := fun hnil =>
      hdigits.1 (List.prefix_nil.1 (hnil ▸ hrun))
    simp [splitNumber?, hsome] at h

end Lexing

end PostfixCalc
