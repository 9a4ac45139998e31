import PostfixCalc.Scanner.Lexeme

/-!
# Splitting lexemes off a text

The rules for lexemes on the list of the characters that are still to come, without a lexeme under
way and without anything to give back.  The rules of the scanner do the same to what it has not yet
handed out, whatever part of it was looked at before.

Main results:

- `Scanner.scanNumber_cases`, `Scanner.scanWord_cases`, `Scanner.scanSymbol_cases`: a rule of the
  scanner takes what is split off the rest, or leaves everything as it is.
-/

namespace PostfixCalc

namespace Lexing

/-! ## Rules on lists -/

/-- Split a point and the digits after it off a text; without digits, nothing. -/
def splitFraction : List Char → List Char × List Char
  | '.' :: rest =>
    if rest.takeWhile Char.isDigit = [] then ([], '.' :: rest)
    else ('.' :: rest.takeWhile Char.isDigit, rest.dropWhile Char.isDigit)
  | rest => ([], rest)

/-- Split a sign off a text, if there is one. -/
def splitSign : List Char → List Char × List Char
  | c :: rest => if c = '+' ∨ c = '-' then ([c], rest) else ([], c :: rest)
  | [] => ([], [])

/-- Split an `e` or `E`, a sign and digits off a text; without digits, nothing. -/
def splitExponent : List Char → List Char × List Char
  | mark :: rest =>
    if (mark = 'e' ∨ mark = 'E') ∧ (splitSign rest).2.takeWhile Char.isDigit ≠ [] then
      (mark :: (splitSign rest).1 ++ (splitSign rest).2.takeWhile Char.isDigit,
        (splitSign rest).2.dropWhile Char.isDigit)
    else ([], mark :: rest)
  | [] => ([], [])

/-- Split an unsigned number off a text. -/
def splitNumber? (text : List Char) : Option (List Char × List Char) :=
  let (fraction, rest) := splitFraction (text.dropWhile Char.isDigit)
  let (exponent, rest) := splitExponent rest
  if text.takeWhile Char.isDigit = [] then none
  else some (text.takeWhile Char.isDigit ++ fraction ++ exponent, rest)

/-- Split a word off a text. -/
def splitWord? : List Char → Option (List Char × List Char)
  | c :: rest =>
    if Scanner.isWordStart c then
      some (c :: rest.takeWhile Scanner.isWordPart, rest.dropWhile Scanner.isWordPart)
    else none
  | [] => none

/-- Split a symbol off a text. -/
def splitSymbol? : List Char → Option (Char × List Char)
  | c :: rest => if Scanner.symbols.contains c then some (c, rest) else none
  | [] => none

end Lexing

namespace Scanner

open Lexing

/-! ## Rules of the scanner -/

/-- The lexeme and what is still to come, without regard to how much of it was looked at. -/
def view (s : Scanner) : List Char × List Char := (s.lexeme, s.unread)

theorem view_eq_iff {s : Scanner} {lexeme rest : List Char} :
    s.view = (lexeme, rest) ↔ s.lexeme = lexeme ∧ s.unread = rest := by
  simp [view]

theorem take_fst (s : Scanner) : s.take.1 = String.ofList s.lexeme := rfl

theorem view_take (s : Scanner) : s.take.2.view = ([], s.unread) := rfl

/-- Accepting either takes the first character still to come or leaves everything as it is. -/
theorem acceptIf_cases (p : Char → Bool) (s : Scanner) :
    (∃ c rest t, s.unread = c :: rest ∧ p c = true ∧ s.acceptIf p = (some c, t) ∧
      t.view = (s.lexeme ++ [c], rest)) ∨
    (∃ t, (∀ c ∈ s.unread.head?, p c = false) ∧ s.acceptIf p = (none, t) ∧
      t.view = (s.lexeme, s.unread)) := by
  rcases haccept : s.acceptIf p with ⟨found, t⟩
  cases hunread : s.unread with
  | nil =>
    obtain ⟨hfound, hlexeme, hrest⟩ := acceptIf_of_nil hunread p
    rw [haccept] at hfound hlexeme hrest
    exact Or.inr ⟨t, by simp, by rw [← hfound], view_eq_iff.2 ⟨hlexeme, hrest⟩⟩
  | cons c rest =>
    obtain ⟨hfound, hlexeme, hrest⟩ := acceptIf_of_cons hunread p
    rw [haccept] at hfound hlexeme hrest
    by_cases hc : p c = true
    · rw [if_pos hc] at hfound hlexeme hrest
      exact Or.inl ⟨c, rest, t, rfl, hc, by rw [← hfound], view_eq_iff.2 ⟨hlexeme, hrest⟩⟩
    · rw [if_neg hc] at hfound hlexeme hrest
      exact Or.inr ⟨t, by simpa using hc, by rw [← hfound], view_eq_iff.2 ⟨hlexeme, hrest⟩⟩

/-- Skipping moves a run into the lexeme and tells whether there was one. -/
theorem skipWhile_view (p : Char → Bool) (s : Scanner) :
    ∃ t, s.skipWhile p = (!(s.unread.takeWhile p).isEmpty, t) ∧
      t.view = (s.lexeme ++ s.unread.takeWhile p, s.unread.dropWhile p) :=
  ⟨(s.skipWhile p).2, Prod.ext (skipWhile_fst p s) rfl,
    view_eq_iff.2 ⟨lexeme_skipWhile p s, unread_skipWhile p s⟩⟩

/-- Rewinding to a mark gives back what was taken after it. -/
theorem view_rewind {s t : Scanner} {run rest : List Char} (h : t.view = (s.lexeme ++ run, rest)) :
    (t.rewind s.mark).view = (s.lexeme, run ++ rest) := by
  obtain ⟨hlexeme, hunread⟩ := view_eq_iff.1 h
  obtain ⟨hlexeme', hunread'⟩ := rewind_mark hlexeme
  exact view_eq_iff.2 ⟨hlexeme', hunread ▸ hunread'⟩

/-- Taking a fraction moves what is split off into the lexeme. -/
theorem view_skipFraction (s : Scanner) :
    s.skipFraction.2.view =
      (s.lexeme ++ (splitFraction s.unread).1, (splitFraction s.unread).2) := by
  unfold skipFraction
  rcases acceptIf_cases (· == '.') s with
    ⟨c, rest, t, hunread, hc, haccept, hview⟩ | ⟨t, hc, haccept, hview⟩
  · obtain rfl : c = '.' := by simpa using hc
    obtain ⟨hlexeme, hrest⟩ := view_eq_iff.1 hview
    obtain ⟨u, hskip, hview'⟩ := skipWhile_view Char.isDigit t
    rw [hrest] at hskip hview'
    rw [haccept, hunread]
    simp only [hskip, splitFraction]
    by_cases hdigits : rest.takeWhile Char.isDigit = []
    · have hrewind : u.view = (s.lexeme ++ ['.'], rest.dropWhile Char.isDigit) := by
        rw [hview', hlexeme, hdigits, List.append_nil]
      have hall := List.takeWhile_append_dropWhile (p := Char.isDigit) (l := rest)
      rw [hdigits, List.nil_append] at hall
      simp only [hdigits, List.isEmpty_nil, Bool.not_true, if_pos, view_rewind hrewind, hall]
      simp
    · have hsome : (rest.takeWhile Char.isDigit).isEmpty = false := by simpa using hdigits
      simp only [hsome, Bool.not_false, if_neg hdigits, hview', hlexeme]
      simp
  · rw [haccept]
    simp only [hview]
    cases hunread : s.unread with
    | nil => simp [splitFraction]
    | cons c rest =>
      have hne : c ≠ '.' := by simpa [hunread] using hc
      rw [splitFraction]
      · simp
      · intro rest' heq
        exact absurd (List.head_eq_of_cons_eq heq) hne

/-- Accepting a sign moves what is split off into the lexeme. -/
theorem view_acceptSign (s : Scanner) :
    (s.acceptIf fun c => c == '+' || c == '-').2.view =
      (s.lexeme ++ (splitSign s.unread).1, (splitSign s.unread).2) := by
  rcases acceptIf_cases (fun c => c == '+' || c == '-') s with
    ⟨c, rest, t, hunread, hc, haccept, hview⟩ | ⟨t, hc, haccept, hview⟩
  · have hsign : c = '+' ∨ c = '-' := by simpa using hc
    rw [haccept, hunread, hview, splitSign, if_pos hsign]
  · rw [haccept, hview]
    cases hunread : s.unread with
    | nil => simp [splitSign]
    | cons c rest =>
      have hsign : ¬(c = '+' ∨ c = '-') := by simpa [hunread] using hc
      rw [splitSign, if_neg hsign, List.append_nil]

/-- Taking an exponent moves what is split off into the lexeme. -/
theorem view_skipExponent (s : Scanner) :
    s.skipExponent.view =
      (s.lexeme ++ (splitExponent s.unread).1, (splitExponent s.unread).2) := by
  unfold skipExponent
  rcases acceptIf_cases (fun c => c == 'e' || c == 'E') s with
    ⟨c, rest, t, hunread, hc, haccept, hview⟩ | ⟨t, hc, haccept, hview⟩
  · have hmark : c = 'e' ∨ c = 'E' := by simpa using hc
    obtain ⟨hlexeme, hrest⟩ := view_eq_iff.1 hview
    have hsign := view_acceptSign t
    rw [hlexeme, hrest] at hsign
    obtain ⟨hlexeme', hrest'⟩ := view_eq_iff.1 hsign
    obtain ⟨u, hskip, hview'⟩ :=
      skipWhile_view Char.isDigit (t.acceptIf fun c => c == '+' || c == '-').2
    rw [hrest'] at hskip hview'
    rw [hlexeme'] at hview'
    rw [haccept, hunread]
    simp only [hskip, splitExponent]
    by_cases hdigits : (splitSign rest).2.takeWhile Char.isDigit = []
    · -- What was taken for a sign is given back together with the mark.
      have hrewind :
          u.view = (s.lexeme ++ (c :: (splitSign rest).1), (splitSign rest).2) := by
        have hall := List.takeWhile_append_dropWhile (p := Char.isDigit) (l := (splitSign rest).2)
        rw [hdigits, List.nil_append] at hall
        rw [hview', hdigits, hall]
        simp
      have hsplit : (splitSign rest).1 ++ (splitSign rest).2 = rest := by
        rcases rest with _ | ⟨d, rest⟩
        · rfl
        · rw [splitSign]
          split <;> rfl
      simp [hdigits, view_rewind hrewind, hsplit]
    · have hsome : ((splitSign rest).2.takeWhile Char.isDigit).isEmpty = false := by
        simpa using hdigits
      rw [if_pos ⟨hmark, hdigits⟩]
      simp [hsome, hview']
  · rw [haccept]
    simp only [hview]
    cases hunread : s.unread with
    | nil => simp [splitExponent]
    | cons c rest =>
      have hne : ¬(c = 'e' ∨ c = 'E') := by simpa [hunread] using hc
      rw [splitExponent, if_neg fun h => hne h.1, List.append_nil]

/-- The scanner takes the number that is split off, behind the lexeme that was under way, or leaves
everything as it is. -/
theorem scanNumber_cases (s : Scanner) :
    (∃ number rest t, splitNumber? s.unread = some (number, rest) ∧
      s.scanNumber = (some (String.ofList (s.lexeme ++ number)), t) ∧ t.view = ([], rest)) ∨
    (∃ t, splitNumber? s.unread = none ∧ s.scanNumber = (none, t) ∧ t.view = s.view) := by
  obtain ⟨t, hskip, hview⟩ := skipWhile_view Char.isDigit s
  obtain ⟨hlexeme, hrest⟩ := view_eq_iff.1 hview
  by_cases hdigits : s.unread.takeWhile Char.isDigit = []
  · have hall := List.takeWhile_append_dropWhile (p := Char.isDigit) (l := s.unread)
    rw [hdigits, List.nil_append] at hall
    refine Or.inr ⟨t, ?_, ?_, ?_⟩
    · simp [splitNumber?, hdigits]
    · simp [scanNumber_eq, hskip, hdigits]
    · rw [hview, hdigits, hall, List.append_nil, view]
  · have hsome : (s.unread.takeWhile Char.isDigit).isEmpty = false := by simpa using hdigits
    obtain ⟨hlexeme', hrest'⟩ := view_eq_iff.1 (view_skipFraction t)
    obtain ⟨hlexeme'', hrest''⟩ := view_eq_iff.1 (view_skipExponent t.skipFraction.2)
    rw [hlexeme', hlexeme, hrest', hrest] at hlexeme''
    rw [hrest', hrest] at hrest''
    have hsplit :
        splitNumber? s.unread =
          some
            (s.unread.takeWhile Char.isDigit ++
                (splitFraction (s.unread.dropWhile Char.isDigit)).1 ++
              (splitExponent (splitFraction (s.unread.dropWhile Char.isDigit)).2).1,
            (splitExponent (splitFraction (s.unread.dropWhile Char.isDigit)).2).2) :=
      if_neg hdigits
    refine Or.inl ⟨_, _, t.skipFraction.2.skipExponent.take.2, hsplit, ?_, ?_⟩
    · simp only [scanNumber_eq, hskip, hsome, Bool.not_false, take_fst, hlexeme'',
        List.append_assoc]
    · rw [view_take, hrest'']

/-- The scanner takes the word that is split off, behind the lexeme that was under way, or leaves
everything as it is. -/
theorem scanWord_cases (s : Scanner) :
    (∃ word rest t, splitWord? s.unread = some (word, rest) ∧
      s.scanWord = (some (String.ofList (s.lexeme ++ word)), t) ∧ t.view = ([], rest)) ∨
    (∃ t, splitWord? s.unread = none ∧ s.scanWord = (none, t) ∧ t.view = s.view) := by
  rcases acceptIf_cases isWordStart s with
    ⟨c, rest, t, hunread, hc, haccept, hview⟩ | ⟨t, hc, haccept, hview⟩
  · obtain ⟨hlexeme, hrest⟩ := view_eq_iff.1 hview
    obtain ⟨u, hskip, hview'⟩ := skipWhile_view isWordPart t
    rw [hlexeme, hrest, List.append_assoc, List.singleton_append] at hview'
    obtain ⟨hlexeme', hrest'⟩ := view_eq_iff.1 hview'
    refine Or.inl
      ⟨c :: rest.takeWhile isWordPart, rest.dropWhile isWordPart, u.take.2, ?_, ?_, ?_⟩
    · rw [hunread, splitWord?, if_pos hc]
    · simp only [scanWord, haccept, hskip, take_fst, hlexeme']
    · rw [view_take, hrest']
  · refine Or.inr ⟨t, ?_, by rw [scanWord, haccept], hview⟩
    cases hunread : s.unread with
    | nil => rfl
    | cons c rest =>
      have hstart : isWordStart c = false := hc c (by simp [hunread])
      simp [splitWord?, hstart]

/-- The scanner takes the symbol that is split off, or leaves everything as it is. -/
theorem scanSymbol_cases (s : Scanner) :
    (∃ symbol rest t, splitSymbol? s.unread = some (symbol, rest) ∧
      s.scanSymbol = (some symbol, t) ∧ t.view = ([], rest)) ∨
    (∃ t, splitSymbol? s.unread = none ∧ s.scanSymbol = (none, t) ∧ t.view = s.view) := by
  rcases acceptIf_cases symbols.contains s with
    ⟨c, rest, t, hunread, hc, haccept, hview⟩ | ⟨t, hc, haccept, hview⟩
  · refine Or.inl ⟨c, rest, t.drop, ?_, by rw [scanSymbol, haccept], ?_⟩
    · rw [hunread, splitSymbol?, if_pos hc]
    · exact congrArg (fun pair => ([], pair.2)) hview
  · refine Or.inr ⟨t, ?_, by rw [scanSymbol, haccept], hview⟩
    cases hunread : s.unread with
    | nil => rfl
    | cons c rest =>
      have hsymbol : symbols.contains c = false := hc c (by simp [hunread])
      rw [splitSymbol?, hsymbol]
      rfl

/-- Skipping blanks forgets the lexeme under way. -/
theorem view_skipBlanks (s : Scanner) : s.skipBlanks.view = ([], s.unread.dropWhile isBlank) :=
  view_eq_iff.2 ⟨rfl, unread_skipBlanks s⟩

end Scanner

end PostfixCalc
