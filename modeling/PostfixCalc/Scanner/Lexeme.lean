import PostfixCalc.Scanner.Lemmas

/-!
# The lexemes of expressions

Numbers are digits, optionally with a fraction and a power of ten; their signs are operators.  Words
are letters, digits and underscores and do not begin with a digit.  Symbols are single characters.
Each rule takes a whole lexeme or leaves the scanner where it was.

Main results:

- `Advances`: the relation between scanners of moving characters from the rest into the lexeme.
- `scanNumber_shorter`, `scanWord_shorter`, `scanSymbol_shorter`: a rule that succeeds leaves less
  to read.
- `scanNumber_none`, `scanWord_none`, `scanSymbol_none`: a rule that fails changes neither the
  lexeme nor what is still to come.
-/

namespace PostfixCalc

namespace Scanner

/-! ## The rules -/

/-- The characters that are lexemes by themselves. -/
def symbols : List Char := ['+', '-', '*', '/', '%', '^', '(', ')', ',']

/-- A character that a word can begin with. -/
def isWordStart (c : Char) : Bool := c.isAlpha || c == '_'

/-- A character that a word can go on with. -/
def isWordPart (c : Char) : Bool := c.isAlphanum || c == '_'

/-- Skip blanks, which become part of no lexeme. -/
def skipBlanks (s : Scanner) : Scanner := (s.skipWhile isBlank).2.drop

/-- Take a point and the digits after it, and tell whether the number can go on: a point without
digits is given back and ends it. -/
def skipFraction (s : Scanner) : Bool × Scanner :=
  match s.acceptIf (· == '.') with
  | (none, s) => (true, s)
  | (some _, afterPoint) =>
    match afterPoint.skipWhile Char.isDigit with
    | (true, afterDigits) => (true, afterDigits)
    | (false, afterDigits) => (false, afterDigits.rewind s.mark)

/-- Take an `e` or `E`, a sign and digits; without digits all of it is given back. -/
def skipExponent (s : Scanner) : Scanner :=
  match s.acceptIf fun c => c == 'e' || c == 'E' with
  | (none, s) => s
  | (some _, afterMark) =>
    match (afterMark.acceptIf fun c => c == '+' || c == '-').2.skipWhile Char.isDigit with
    | (true, afterDigits) => afterDigits
    | (false, afterDigits) => afterDigits.rewind s.mark

/-- Take an unsigned number. -/
def scanNumber (s : Scanner) : Option String × Scanner :=
  match s.skipWhile Char.isDigit with
  | (false, s) => (none, s)
  | (true, s) =>
    match s.skipFraction with
    | (false, s) =>
      let (lexeme, s) := s.take
      (some lexeme, s)
    | (true, s) =>
      let (lexeme, s) := s.skipExponent.take
      (some lexeme, s)

/-- Take a symbol. -/
def scanSymbol (s : Scanner) : Option Char × Scanner :=
  match s.acceptIf symbols.contains with
  | (none, s) => (none, s)
  | (some symbol, s) => (some symbol, s.drop)

/-- Take a word. -/
def scanWord (s : Scanner) : Option String × Scanner :=
  match s.acceptIf isWordStart with
  | (none, s) => (none, s)
  | (some _, s) =>
    let (lexeme, s) := (s.skipWhile isWordPart).2.take
    (some lexeme, s)

/-! ## Progress -/

/-- The second scanner has some of the unread characters of the first one in its lexeme. -/
def Advances (s t : Scanner) : Prop :=
  ∃ run, t.lexeme = s.lexeme ++ run ∧ s.unread = run ++ t.unread

/-- Two advances in a row are one. -/
theorem Advances.trans {s t u : Scanner} (hst : s.Advances t) (htu : t.Advances u) :
    s.Advances u := by
  obtain ⟨first, hlexeme, hunread⟩ := hst
  obtain ⟨second, hlexeme', hunread'⟩ := htu
  exact ⟨first ++ second, by simp [hlexeme, hlexeme'], by simp [hunread, hunread']⟩

/-- Advancing leaves no more to read. -/
theorem Advances.length_le {s t : Scanner} (h : s.Advances t) :
    t.unread.length ≤ s.unread.length := by
  obtain ⟨run, _, hunread⟩ := h
  simp [hunread]

/-- A scanner that is rewound to where it advanced from has advanced by nothing. -/
theorem Advances.rewind {s t : Scanner} (h : s.Advances t) : s.Advances (t.rewind s.mark) := by
  obtain ⟨run, hlexeme, hunread⟩ := h
  obtain ⟨hlexeme', hunread'⟩ := rewind_mark hlexeme
  exact ⟨[], by simpa [mark] using hlexeme', by simp [mark, hunread', hunread]⟩

/-- Skipping advances. -/
theorem advances_skipWhile (p : Char → Bool) (s : Scanner) : s.Advances (s.skipWhile p).2 :=
  ⟨s.unread.takeWhile p, by simp, by simp [List.takeWhile_append_dropWhile]⟩

/-- Accepting advances. -/
theorem advances_acceptIf (p : Char → Bool) (s : Scanner) : s.Advances (s.acceptIf p).2 := by
  cases hunread : s.unread with
  | nil =>
    obtain ⟨_, hlexeme, hrest⟩ := acceptIf_of_nil hunread p
    exact ⟨[], by simp [hlexeme], by simp [hunread, hrest]⟩
  | cons c rest =>
    obtain ⟨_, hlexeme, hrest⟩ := acceptIf_of_cons hunread p
    cases hc : p c
    · exact ⟨[], by simp [hlexeme, hc], by simp [hunread, hrest, hc]⟩
    · exact ⟨[c], by simp [hlexeme, hc], by simp [hunread, hrest, hc]⟩

/-- Taking a fraction advances. -/
theorem advances_skipFraction (s : Scanner) : s.Advances s.skipFraction.2 := by
  have haccept := advances_acceptIf (· == '.') s
  unfold skipFraction
  split <;> rename_i hpoint <;> rw [hpoint] at haccept
  · exact haccept
  · have hskip := haccept.trans (advances_skipWhile Char.isDigit _)
    split <;> rename_i hdigits <;> rw [hdigits] at hskip
    · exact hskip
    · exact hskip.rewind

/-- Taking an exponent advances. -/
theorem advances_skipExponent (s : Scanner) : s.Advances s.skipExponent := by
  have haccept := advances_acceptIf (fun c => c == 'e' || c == 'E') s
  unfold skipExponent
  split <;> rename_i hmark <;> rw [hmark] at haccept
  · exact haccept
  · have hsign := haccept.trans (advances_acceptIf (fun c => c == '+' || c == '-') _)
    have hskip := hsign.trans (advances_skipWhile Char.isDigit _)
    split <;> rename_i hdigits <;> rw [hdigits] at hskip
    · exact hskip
    · exact hskip.rewind

/-- Behind a number that a bare point ends, no exponent is found. -/
theorem skipExponent_skipFraction {s : Scanner} (h : s.skipFraction.1 = false) :
    s.skipFraction.2.skipExponent = s.skipFraction.2 := by
  unfold skipFraction at h ⊢
  split at h
  · cases h
  · rename_i c afterPoint hpoint
    split at h
    · cases h
    · rename_i afterDigits hdigits
      obtain ⟨hc, hlexeme⟩ := lexeme_of_acceptIf hpoint
      obtain rfl : c = '.' := by simpa using hc
      have hsame := (skipWhile_none hdigits).1.trans hlexeme
      have hmark := @acceptIf_of_ahead (fun c => c == 'e' || c == 'E') _ _ _
        (ahead_rewind_mark hsame) rfl
      simp only [skipExponent, mark, hmark]

/-- The rule for numbers as if an exponent were looked for behind a bare point too. -/
theorem scanNumber_eq (s : Scanner) :
    s.scanNumber =
      match s.skipWhile Char.isDigit with
      | (false, t) => (none, t)
      | (true, t) =>
        (some t.skipFraction.2.skipExponent.take.1, t.skipFraction.2.skipExponent.take.2) := by
  unfold scanNumber
  split
  · rfl
  · rename_i t _
    split
    · rename_i hfraction
      have hexponent := @skipExponent_skipFraction t (by rw [hfraction])
      rw [hexponent, hfraction]
    · rename_i hfraction
      rw [hfraction]

/-- Blanks are skipped before a lexeme without any loss of what follows them. -/
@[simp] theorem unread_skipBlanks (s : Scanner) :
    s.skipBlanks.unread = s.unread.dropWhile isBlank := unread_skipWhile isBlank s

/-- Accepting a character leaves less to read. -/
theorem acceptIf_shorter {p : Char → Bool} {s t : Scanner} {c : Char}
    (h : s.acceptIf p = (some c, t)) : t.unread.length < s.unread.length := by
  cases hunread : s.unread with
  | nil =>
    obtain ⟨hfound, _⟩ := acceptIf_of_nil hunread p
    simp [h] at hfound
  | cons d rest =>
    obtain ⟨hfound, _, hrest⟩ := acceptIf_of_cons hunread p
    rw [h] at hfound hrest
    cases hd : p d <;> simp_all

/-- Skipping at least one character leaves less to read. -/
theorem skipWhile_shorter {p : Char → Bool} {s t : Scanner}
    (h : s.skipWhile p = (true, t)) : t.unread.length < s.unread.length := by
  have hmoved := skipWhile_fst p s
  have hrest := unread_skipWhile p s
  rw [h] at hmoved hrest
  cases hunread : s.unread with
  | nil => simp [hunread] at hmoved
  | cons c rest =>
    cases hc : p c
    · simp [hunread, hc] at hmoved
    · have hle := (List.dropWhile_suffix p (l := rest)).length_le
      rw [hrest, hunread, List.dropWhile_cons, if_pos hc, List.length_cons]
      exact Nat.lt_succ_of_le hle

/-- Taking a number leaves less to read. -/
theorem scanNumber_shorter {s t : Scanner} {lexeme : String}
    (h : s.scanNumber = (some lexeme, t)) : t.unread.length < s.unread.length := by
  rw [scanNumber_eq] at h
  split at h
  · simp at h
  · rename_i afterDigits hdigits
    have hshorter := skipWhile_shorter hdigits
    have hle := ((advances_skipFraction afterDigits).trans (advances_skipExponent _)).length_le
    simp only [take, Prod.mk.injEq] at h
    obtain ⟨_, rfl⟩ := h
    exact Nat.lt_of_le_of_lt hle hshorter

/-- Taking a symbol leaves less to read. -/
theorem scanSymbol_shorter {s t : Scanner} {symbol : Char}
    (h : s.scanSymbol = (some symbol, t)) : t.unread.length < s.unread.length := by
  unfold scanSymbol at h
  split at h
  · simp at h
  · rename_i hsymbol
    simp only [Prod.mk.injEq] at h
    obtain ⟨_, rfl⟩ := h
    have hshorter := acceptIf_shorter hsymbol
    exact hshorter

/-- Taking a word leaves less to read. -/
theorem scanWord_shorter {s t : Scanner} {lexeme : String}
    (h : s.scanWord = (some lexeme, t)) : t.unread.length < s.unread.length := by
  unfold scanWord at h
  split at h
  · simp at h
  · rename_i afterStart hstart
    have hshorter := acceptIf_shorter hstart
    have hle := (advances_skipWhile isWordPart afterStart).length_le
    simp only [take, Prod.mk.injEq] at h
    obtain ⟨_, rfl⟩ := h
    exact Nat.lt_of_le_of_lt hle hshorter

/-! ## Failure -/

/-- Without a symbol neither lexeme nor rest changes. -/
theorem scanSymbol_none {s t : Scanner} (h : s.scanSymbol = (none, t)) :
    t.lexeme = s.lexeme ∧ t.unread = s.unread := by
  unfold scanSymbol at h
  split at h
  · rename_i hsymbol
    simp only [Prod.mk.injEq, true_and] at h
    exact h ▸ acceptIf_none hsymbol
  · simp at h

/-- Without a word neither lexeme nor rest changes. -/
theorem scanWord_none {s t : Scanner} (h : s.scanWord = (none, t)) :
    t.lexeme = s.lexeme ∧ t.unread = s.unread := by
  unfold scanWord at h
  split at h
  · rename_i hstart
    simp only [Prod.mk.injEq, true_and] at h
    exact h ▸ acceptIf_none hstart
  · simp at h

/-- Without a number neither lexeme nor rest changes. -/
theorem scanNumber_none {s t : Scanner} (h : s.scanNumber = (none, t)) :
    t.lexeme = s.lexeme ∧ t.unread = s.unread := by
  rw [scanNumber_eq] at h
  split at h
  · rename_i hdigits
    simp only [Prod.mk.injEq, true_and] at h
    exact h ▸ skipWhile_none hdigits
  · simp at h

end Scanner

end PostfixCalc
