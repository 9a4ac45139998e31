import PostfixCalc.Proofs.Lexing.Reference

/-!
# What the rules for lexemes take

In every state of a scanner, whatever its lexeme has in it already and however much was read ahead,
the rules for numbers and words take the longest beginning of the rest that is in their language,
behind the lexeme under way.  A number or a word can be taken if the next character can begin one.
A rule that cannot take anything has only read ahead.

Main results:

- `Scanner.takesLongest_scanNumber`, `Scanner.takesLongest_scanWord`: the rules for numbers and
  words.
- `Scanner.rules_take_longest`: what each of the three rules does in every state.
-/

namespace PostfixCalc

namespace Lexing

/-! ## How lexemes begin -/

/-- Some text of a language begins a text exactly if the first character satisfies a condition. -/
def BegunBy (language : Language Char) (begins : Char → Bool) : Prop :=
  ∀ text, (∃ lexeme ∈ language, lexeme <+: text) ↔ ∃ c ∈ text.head?, begins c = true

/-- A language whose texts begin with certain characters, each of which is a text by itself. -/
theorem BegunBy.of_singletons {language : Language Char} {begins : Char → Bool}
    (hsingle : ∀ c, begins c = true → [c] ∈ language)
    (hbegins : ∀ lexeme ∈ language, ∃ c rest, lexeme = c :: rest ∧ begins c = true) :
    BegunBy language begins := by
  intro text
  constructor
  · rintro ⟨lexeme, hlexeme, tail, rfl⟩
    obtain ⟨c, rest, rfl, hc⟩ := hbegins lexeme hlexeme
    exact ⟨c, rfl, hc⟩
  · rintro ⟨c, hhead, hc⟩
    obtain ⟨rest, rfl⟩ := List.head?_eq_some_iff.1 hhead
    exact ⟨[c], hsingle c hc, rest, rfl⟩

theorem begunBy_numberLanguage : BegunBy numberLanguage Char.isDigit := by
  refine .of_singletons ?_ fun number h => exists_cons_of_mem_numberLanguage h
  intro c hc
  have hdigits : IsDigits [c] := ⟨List.cons_ne_nil c [], by simpa using hc⟩
  exact mem_numberLanguage.2 ⟨[c], [], [], rfl, hdigits, .nothing, .nothing⟩

theorem begunBy_wordLanguage : BegunBy wordLanguage Scanner.isWordStart := by
  refine .of_singletons ?_ ?_
  · intro c hc
    exact mem_oneOf_mul_kstar.2 ⟨c, [], rfl, hc, fun d hd => absurd hd List.not_mem_nil⟩
  · intro word hword
    obtain ⟨c, rest, rfl, hc, -⟩ := mem_oneOf_mul_kstar.1 hword
    exact ⟨c, rest, rfl, hc⟩

end Lexing

namespace Scanner

open Lexing

/-! ## Reading ahead -/

/-- The second scanner has read more of its source, which waits ahead of the lexeme. -/
def ReadsAhead (s t : Scanner) : Prop :=
  ∃ read, t.ahead = s.ahead ++ read ∧ s.source = read ++ t.source

theorem readsAhead_readWhile (p : Char → Bool) (s : Scanner) : s.ReadsAhead (s.readWhile p) := by
  unfold readWhile
  split
  · refine ⟨s.source.takeWhile p ++ (s.source.dropWhile p).take 1, ?_, ?_⟩
    · exact List.append_assoc _ _ _
    · rw [List.append_assoc, List.take_append_drop, List.takeWhile_append_dropWhile]
  · exact ⟨[], by rw [List.append_nil], rfl⟩

/-- A character that is not accepted was only looked at. -/
theorem readsAhead_of_acceptIf {p : Char → Bool} {s t : Scanner} (h : s.acceptIf p = (none, t)) :
    s.ReadsAhead t := by
  have hread := readsAhead_readWhile (fun _ => false) s
  simp only [acceptIf] at h
  split at h
  · split at h
    · cases h
    · exact (Prod.mk.inj h).2 ▸ hread
  · exact (Prod.mk.inj h).2 ▸ hread

/-- A run of no characters was only looked for. -/
theorem readsAhead_of_skipWhile {p : Char → Bool} {s t : Scanner}
    (h : s.skipWhile p = (false, t)) : s.ReadsAhead t := by
  have hread := readsAhead_readWhile p s
  simp only [skipWhile, Prod.mk.injEq, Bool.not_eq_false', List.isEmpty_iff] at h
  obtain ⟨hnone, rfl⟩ := h
  have hall := List.takeWhile_append_dropWhile (p := p) (l := (s.readWhile p).ahead)
  rw [hnone, List.nil_append] at hall
  obtain ⟨read, hahead, hsource⟩ := hread
  exact ⟨read, hall.trans hahead, hsource⟩

theorem readsAhead_of_scanNumber {s t : Scanner} (h : s.scanNumber = (none, t)) :
    s.ReadsAhead t := by
  rw [scanNumber_eq] at h
  split at h
  · rename_i hdigits
    exact (Prod.mk.inj h).2 ▸ readsAhead_of_skipWhile hdigits
  · cases h

theorem readsAhead_of_scanWord {s t : Scanner} (h : s.scanWord = (none, t)) :
    s.ReadsAhead t := by
  unfold scanWord at h
  split at h
  · rename_i hstart
    exact (Prod.mk.inj h).2 ▸ readsAhead_of_acceptIf hstart
  · cases h

theorem readsAhead_of_scanSymbol {s t : Scanner} (h : s.scanSymbol = (none, t)) :
    s.ReadsAhead t := by
  unfold scanSymbol at h
  split at h
  · rename_i hsymbol
    exact (Prod.mk.inj h).2 ▸ readsAhead_of_acceptIf hsymbol
  · cases h

/-! ## Numbers and words -/

/-- What a rule for a language makes of a scanner.  It takes the longest beginning of the rest that
is in the language, and hands it out behind the lexeme under way.  It takes nothing exactly if the
rest does not begin with a certain kind of character, and then nothing but the read-ahead has
changed. -/
structure TakesLongest (language : Language Char) (begins : Char → Bool) (s : Scanner)
    (outcome : Option String × Scanner) : Prop where
  of_begins (h : ∃ c ∈ s.unread.head?, begins c = true) :
    ∃ lexeme, IsLongest language s.unread lexeme ∧
      outcome.1 = some (String.ofList (s.lexeme ++ lexeme)) ∧ outcome.2.lexeme = [] ∧
      s.unread = lexeme ++ outcome.2.unread
  of_not_begins (h : ∀ c ∈ s.unread.head?, begins c = false) :
    outcome.1 = none ∧ outcome.2.lexeme = s.lexeme ∧ outcome.2.unread = s.unread ∧
      s.ReadsAhead outcome.2

/-- A rule that takes what is split off the rest takes the longest beginning. -/
theorem takesLongest_of_cases {language : Language Char} {begins : Char → Bool}
    {split : List Char → Option (List Char × List Char)} {s : Scanner}
    {outcome : Option String × Scanner} (hsplits : SplitsLongest language split)
    (hbegun : BegunBy language begins)
    (hcases : (∃ lexeme rest t, split s.unread = some (lexeme, rest) ∧
        outcome = (some (String.ofList (s.lexeme ++ lexeme)), t) ∧ t.view = ([], rest)) ∨
      (∃ t, split s.unread = none ∧ outcome = (none, t) ∧ t.view = s.view))
    (hahead : ∀ t, outcome = (none, t) → s.ReadsAhead t) :
    TakesLongest language begins s outcome := by
  rcases hcases with ⟨lexeme, rest, t, hsplit, rfl, hview⟩ | ⟨t, hsplit, rfl, hview⟩
  · obtain ⟨hunread, hlongest⟩ := hsplits.of_some hsplit
    obtain ⟨hlexeme, hrest⟩ := view_eq_iff.1 hview
    have hhead := (hbegun s.unread).1 ⟨lexeme, hlongest.mem, hlongest.begins⟩
    constructor
    · intro _
      exact ⟨lexeme, hlongest, rfl, hlexeme, hrest ▸ hunread⟩
    · intro hnot
      obtain ⟨c, hc, hbegins⟩ := hhead
      exact absurd hbegins (Bool.eq_false_iff.1 (hnot c hc))
  · obtain ⟨hlexeme, hrest⟩ := view_eq_iff.1 hview
    constructor
    · intro hhead
      obtain ⟨lexeme, hmem, hbegins⟩ := (hbegun s.unread).2 hhead
      exact absurd hbegins (hsplits.of_none hsplit lexeme hmem)
    · intro _
      exact ⟨rfl, hlexeme, hrest, hahead t rfl⟩

theorem takesLongest_scanNumber (s : Scanner) :
    TakesLongest numberLanguage Char.isDigit s s.scanNumber :=
  takesLongest_of_cases splitsLongest_splitNumber? begunBy_numberLanguage (scanNumber_cases s)
    fun _ => readsAhead_of_scanNumber

theorem takesLongest_scanWord (s : Scanner) :
    TakesLongest wordLanguage isWordStart s s.scanWord :=
  takesLongest_of_cases splitsLongest_splitWord? begunBy_wordLanguage (scanWord_cases s)
    fun _ => readsAhead_of_scanWord

/-! ## Symbols -/

/-- A symbol is taken if it is the next character. -/
theorem scanSymbol_of_mem {s : Scanner} {c : Char} {rest : List Char}
    (hunread : s.unread = c :: rest) (hc : c ∈ symbols) :
    s.scanSymbol.1 = some c ∧ s.scanSymbol.2.lexeme = [] ∧ s.scanSymbol.2.unread = rest := by
  have hsplit := splitSymbol?_eq_some_iff.2 ⟨hunread, hc⟩
  rcases scanSymbol_cases s with ⟨symbol, later, t, hfound, hscan, hview⟩ | ⟨t, hnone, -, -⟩
  · rw [hsplit] at hfound
    cases hfound
    rw [hscan]
    exact ⟨rfl, view_eq_iff.1 hview⟩
  · rw [hsplit] at hnone
    exact absurd hnone (Option.some_ne_none _)

/-- Nothing is taken if the next character is no symbol. -/
theorem scanSymbol_of_not_mem {s : Scanner} (hnot : ∀ c ∈ s.unread.head?, c ∉ symbols) :
    s.scanSymbol.1 = none ∧ s.scanSymbol.2.lexeme = s.lexeme ∧
      s.scanSymbol.2.unread = s.unread ∧ s.ReadsAhead s.scanSymbol.2 := by
  have hsplit := splitSymbol?_eq_none_iff.2 hnot
  rcases scanSymbol_cases s with ⟨symbol, later, t, hfound, -, -⟩ | ⟨t, -, hscan, hview⟩
  · rw [hsplit] at hfound
    exact absurd hfound.symm (Option.some_ne_none _)
  · obtain ⟨hlexeme, hrest⟩ := view_eq_iff.1 hview
    rw [hscan]
    exact ⟨rfl, hlexeme, hrest, readsAhead_of_scanSymbol hscan⟩

/-! ## All rules -/

/-- What the rules for lexemes do in every state of a scanner.  Numbers and words are the longest in
their languages; a symbol is the next character if it is one of nine.  A rule that takes nothing
leaves the lexeme under way and the rest as they are. -/
theorem rules_take_longest (s : Scanner) :
    TakesLongest numberLanguage Char.isDigit s s.scanNumber ∧
    TakesLongest wordLanguage isWordStart s s.scanWord ∧
    (∀ c rest, s.unread = c :: rest → c ∈ "+-*/%^(),".toList →
      s.scanSymbol.1 = some c ∧ s.scanSymbol.2.lexeme = [] ∧ s.scanSymbol.2.unread = rest) ∧
    ((∀ c ∈ s.unread.head?, c ∉ "+-*/%^(),".toList) →
      s.scanSymbol.1 = none ∧ s.scanSymbol.2.lexeme = s.lexeme ∧
        s.scanSymbol.2.unread = s.unread ∧ s.ReadsAhead s.scanSymbol.2) := by
  have hsymbols : "+-*/%^(),".toList = symbols := by decide
  rw [hsymbols]
  refine ⟨takesLongest_scanNumber s, takesLongest_scanWord s, ?_, ?_⟩
  · exact fun c rest hunread hc => scanSymbol_of_mem hunread hc
  · exact scanSymbol_of_not_mem

end Scanner

end PostfixCalc
