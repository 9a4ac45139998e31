import PostfixCalc.Calculator
import PostfixCalc.Proofs.Lexing.Reference

/-!
# Blanks between lexemes

Where a lexeme ends is decided by what follows it, but never by anything behind the next blank,
since words and numbers contain no blanks.  So the lexemes of a text stay the same when the blanks
between them are replaced by others, as long as none of two lexemes that were apart are joined.

Main results:

- `Lexing.IsLongest.of_unbroken`: the longest lexeme of a text stays the longest one if what follows
  it is cut off by a blank.
- `Lexing.Respaced.reads`: with other blanks a text is read as the same lexemes.
- `Lexing.tokenize_respaced`: blanks between lexemes have no influence on tokens, conversions and
  answers.
-/

open Computability

namespace PostfixCalc

namespace Lexing

/-! ## Languages without blanks -/

/-- No text of a language contains a blank. -/
def BlankFree (language : Language Char) : Prop :=
  ∀ text ∈ language, ∀ c ∈ text, isBlank c = false

namespace BlankFree

variable {language language' : Language Char}

theorem one : BlankFree 1 := by
  intro text htext c hc
  rw [(Language.mem_one text).1 htext] at hc
  exact absurd hc List.not_mem_nil

theorem add (h : BlankFree language) (h' : BlankFree language') :
    BlankFree (language + language') := by
  intro text htext
  cases (Language.mem_add _ _ text).1 htext with
  | inl htext => exact h text htext
  | inr htext => exact h' text htext

theorem mul (h : BlankFree language) (h' : BlankFree language') :
    BlankFree (language * language') := by
  intro text htext c hc
  obtain ⟨front, hfront, back, hback, rfl⟩ := Language.mem_mul.1 htext
  cases List.mem_append.1 hc with
  | inl hc => exact h front hfront c hc
  | inr hc => exact h' back hback c hc

theorem kstar (h : BlankFree language) : BlankFree language∗ := by
  intro text htext c hc
  obtain ⟨pieces, rfl, hpieces⟩ := Language.mem_kstar.1 htext
  obtain ⟨piece, hpiece, hc⟩ := List.mem_flatten.1 hc
  exact h piece (hpieces piece hpiece) c hc

theorem oneOf {p : Char → Bool} (h : ∀ c, p c = true → isBlank c = false) :
    BlankFree (oneOf p) := by
  rintro text ⟨d, hd, rfl⟩ c hc
  rw [List.mem_singleton.1 hc]
  exact h d hd

end BlankFree

theorem blankFree_wordLanguage : BlankFree wordLanguage := by
  have hpart : ∀ c, Scanner.isWordPart c = true → isBlank c = false := fun c hc =>
    Bool.eq_false_iff.2 (not_isBlank_of_isWordPart hc).1
  have hstart : ∀ c, Scanner.isWordStart c = true → isBlank c = false := by
    intro c hc
    apply hpart
    rw [Scanner.isWordStart, Bool.or_eq_true] at hc
    rw [Scanner.isWordPart, Char.isAlphanum, Bool.or_eq_true, Bool.or_eq_true]
    exact hc.imp Or.inl id
  exact (BlankFree.oneOf hstart).mul (BlankFree.oneOf hpart).kstar

theorem blankFree_numberLanguage : BlankFree numberLanguage := by
  have hdigit : BlankFree (oneOf Char.isDigit) := by
    refine .oneOf fun c hc => isBlank_eq_false_of_isAlphanum ?_
    rw [Char.isAlphanum, hc, Bool.or_true]
  have hdigits : BlankFree digitsLanguage := hdigit.mul hdigit.kstar
  have hpoint : BlankFree (oneOf (· == '.')) := by
    refine .oneOf fun c hc => ?_
    rw [beq_iff_eq.1 hc]
    rfl
  have hmark : BlankFree (oneOf fun c => c == 'e' || c == 'E') := by
    refine .oneOf fun c hc => ?_
    rw [Bool.or_eq_true, beq_iff_eq, beq_iff_eq] at hc
    rcases hc with rfl | rfl <;> rfl
  have hsign : BlankFree (oneOf fun c => c == '+' || c == '-') := by
    refine .oneOf fun c hc => ?_
    rw [Bool.or_eq_true, beq_iff_eq, beq_iff_eq] at hc
    rcases hc with rfl | rfl <;> rfl
  have hfraction : BlankFree fractionLanguage := BlankFree.one.add (hpoint.mul hdigits)
  have hexponent : BlankFree exponentLanguage :=
    BlankFree.one.add (hmark.mul ((BlankFree.one.add hsign).mul hdigits))
  exact hdigits.mul (hfraction.mul hexponent)

/-! ## Up to the next blank -/

/-- The characters in front of the first blank. -/
def unbroken (text : List Char) : List Char := text.takeWhile fun c => !isBlank c

/-- Behind a lexeme, nothing but what is in front of the first blank follows without a break. -/
theorem unbroken_append_begins (front back : List Char) :
    unbroken (front ++ back) <+: front ++ unbroken back := by
  induction front with
  | nil => exact List.prefix_rfl
  | cons c front ih =>
    rw [List.cons_append, List.cons_append, unbroken, List.takeWhile_cons]
    split
    · exact List.cons_prefix_cons.2 ⟨rfl, ih⟩
    · exact List.nil_prefix

variable {language : Language Char} {lexeme rest rest' : List Char}

/-- What begins a text and contains no blank still begins it if what follows is cut off by a blank
that was not there. -/
theorem BlankFree.begins {run : List Char} (h : BlankFree language) (hrun : run ∈ language)
    (hrest : unbroken rest' <+: rest) (hbegins : run <+: lexeme ++ rest') :
    run <+: lexeme ++ rest := by
  have hfree : ∀ c ∈ run, (!isBlank c) = true := by
    intro c hc
    rw [h run hrun c hc]
    rfl
  have hunbroken : run <+: unbroken (lexeme ++ rest') := run_prefix_takeWhile hfree hbegins
  exact (hunbroken.trans (unbroken_append_begins lexeme rest')).trans
    ((List.prefix_append_right_inj lexeme).2 hrest)

/-- The longest lexeme stays the longest one if what follows is cut off by a blank. -/
theorem IsLongest.of_unbroken (hfree : BlankFree language)
    (h : IsLongest language (lexeme ++ rest) lexeme) (hrest : unbroken rest' <+: rest) :
    IsLongest language (lexeme ++ rest') lexeme where
  mem := h.mem
  begins := List.prefix_append lexeme rest'
  longest other hother hbegins :=
    h.longest other hother (hfree.begins hother hrest hbegins)

/-- A lexeme and its token stay the same if what follows is cut off by a blank, and the first
character behind the blanks is the same. -/
theorem LexemeAt.of_unbroken {previous : Option Token} {token : Token}
    (h : LexemeAt previous (lexeme ++ rest) lexeme token) (hrest : unbroken rest' <+: rest)
    (hfollowing : (rest'.dropWhile isBlank).head? = (rest.dropWhile isBlank).head?) :
    LexemeAt previous (lexeme ++ rest') lexeme token := by
  cases h with
  | symbol _ hrole => exact .symbol rfl hrole
  | word hlongest hrole =>
    refine .word (hlongest.of_unbroken blankFree_wordLanguage hrest) ?_
    rw [List.drop_left] at hrole ⊢
    rwa [hfollowing]
  | number hlongest hvalue =>
    exact .number (hlongest.of_unbroken blankFree_numberLanguage hrest) hvalue
  | unknown _ hsymbol hword hnumber =>
    refine .unknown rfl hsymbol ?_ ?_
    · intro word hmem hbegins
      exact hword word hmem (blankFree_wordLanguage.begins hmem hrest hbegins)
    · intro number hmem hbegins
      exact hnumber number hmem (blankFree_numberLanguage.begins hmem hrest hbegins)

/-- No lexeme is empty. -/
theorem LexemeAt.ne_nil {previous : Option Token} {text : List Char} {token : Token}
    (h : LexemeAt previous text lexeme token) : lexeme ≠ [] := by
  cases h with
  | symbol | unknown => exact List.cons_ne_nil _ _
  | word hlongest _ =>
    rintro rfl
    obtain ⟨⟨c, hhead, -⟩, -⟩ := mem_wordLanguage.1 hlongest.mem
    cases hhead
  | number hlongest _ =>
    rintro rfl
    obtain ⟨c, run, hnil, -⟩ := exists_cons_of_mem_numberLanguage hlongest.mem
    cases hnil

/-! ## Other blanks -/

/-- The text of pieces, with blanks behind the last one. -/
def spell (pieces : List Piece) (trailing : List Char) : List Char :=
  (pieces.flatMap fun piece => piece.blanks ++ piece.lexeme) ++ trailing

theorem spell_cons (piece : Piece) (pieces : List Piece) (trailing : List Char) :
    spell (piece :: pieces) trailing = piece.blanks ++ (piece.lexeme ++ spell pieces trailing) := by
  simp [spell]

/-- The same lexemes with other blanks in front of them.  Behind another lexeme there is at least
one blank, or exactly what was there before. -/
inductive Respaced : Bool → List Piece → List Piece → Prop
  | nil {inner : Bool} : Respaced inner [] []
  | cons {inner : Bool} {piece : Piece} {blanks : List Char} {pieces others : List Piece}
      (hblanks : ∀ c ∈ blanks, isBlank c = true)
      (hseam : inner = true → blanks ≠ [] ∨ blanks = piece.blanks)
      (later : Respaced true pieces others) :
      Respaced inner (piece :: pieces) (⟨blanks, piece.lexeme, piece.token⟩ :: others)

variable {previous : Option Token} {text : List Char} {pieces others : List Piece}
  {trailing : List Char}

/-- A lexeme begins with a character that is not blank, whatever stands behind it. -/
theorem head?_lexeme {token : Token} (hsplit : text.dropWhile isBlank = lexeme ++ rest)
    (h : LexemeAt previous (text.dropWhile isBlank) lexeme token) (other : List Char) :
    (lexeme ++ other).head? = (text.dropWhile isBlank).head? ∧
      ∀ c ∈ (lexeme ++ other).head?, isBlank c = false := by
  have hhead : (lexeme ++ other).head? = (text.dropWhile isBlank).head? := by
    rw [hsplit, List.head?_append_of_ne_nil _ h.ne_nil, List.head?_append_of_ne_nil _ h.ne_nil]
  refine ⟨hhead, fun c hc => ?_⟩
  have hblank := List.head?_dropWhile_not isBlank text
  rw [← hhead, Option.mem_def.1 hc] at hblank
  exact hblank

/-- Blanks in front of a lexeme are skipped, and nothing else. -/
theorem span_blanks {token : Token} {blanks : List Char}
    (hblanks : ∀ c ∈ blanks, isBlank c = true)
    (hsplit : text.dropWhile isBlank = lexeme ++ rest)
    (h : LexemeAt previous (text.dropWhile isBlank) lexeme token) (other : List Char) :
    (blanks ++ (lexeme ++ other)).takeWhile isBlank = blanks ∧
      (blanks ++ (lexeme ++ other)).dropWhile isBlank = lexeme ++ other :=
  span_run hblanks (head?_lexeme hsplit h other).2

theorem dropWhile_of_all_blank (h : ∀ c ∈ text, isBlank c = true) :
    text.dropWhile isBlank = [] := by
  rw [← List.append_nil text]
  exact (span_run h (by simp)).2

namespace Respaced

/-- Behind another lexeme, what follows with other blanks is cut off by a blank, if it is not the
same. -/
theorem unbroken_begins (hreads : Reads previous text pieces) (h : Respaced true pieces others)
    (htrailing : ∀ c ∈ trailing, isBlank c = true) :
    unbroken (spell others trailing) <+: text := by
  induction hreads generalizing others with
  | done =>
    cases h with
    | nil =>
      rcases trailing with _ | ⟨c, trailing⟩
      · exact List.nil_prefix
      · simp [spell, unbroken, htrailing c List.mem_cons_self]
  | @next previous text lexeme rest token pieces hsplit hlexeme _ ih =>
    cases h with
    | @cons _ _ blanks _ others hblanks hseam later =>
      rw [spell_cons]
      rcases blanks with _ | ⟨c, blanks⟩
      · -- The lexemes were not apart before, so the text goes on with this one.
        have hnone : text.takeWhile isBlank = [] := by simpa using (hseam rfl).symm
        have htext : lexeme ++ rest = text := by
          rw [← hsplit, ← List.nil_append (text.dropWhile isBlank), ← hnone,
            List.takeWhile_append_dropWhile]
        rw [← htext, List.nil_append]
        exact (unbroken_append_begins lexeme _).trans
          ((List.prefix_append_right_inj lexeme).2 (ih later))
      · simp [unbroken, hblanks c List.mem_cons_self]

/-- The first character behind the blanks is the same. -/
theorem head?_spell (hreads : Reads previous text pieces) {inner : Bool}
    (h : Respaced inner pieces others) (htrailing : ∀ c ∈ trailing, isBlank c = true) :
    ((spell others trailing).dropWhile isBlank).head? = (text.dropWhile isBlank).head? := by
  cases hreads with
  | done hend =>
    cases h with
    | nil =>
      have hnone : (spell [] trailing).dropWhile isBlank = [] := dropWhile_of_all_blank htrailing
      rw [hnone, hend]
  | next hsplit hlexeme _ =>
    cases h with
    | cons hblanks _ _ =>
      rw [spell_cons, (span_blanks hblanks hsplit hlexeme _).2]
      exact (head?_lexeme hsplit hlexeme _).1

/-- With other blanks a text is read as the same lexemes. -/
theorem reads (hreads : Reads previous text pieces) {inner : Bool}
    (h : Respaced inner pieces others) (htrailing : ∀ c ∈ trailing, isBlank c = true) :
    Reads previous (spell others trailing) others := by
  induction hreads generalizing others inner with
  | done =>
    cases h with
    | nil => exact .done (dropWhile_of_all_blank htrailing)
  | @next previous text lexeme rest token pieces hsplit hlexeme hreads ih =>
    cases h with
    | @cons _ _ blanks _ others hblanks _ later =>
      obtain ⟨htake, hdrop⟩ :=
        span_blanks hblanks hsplit hlexeme (spell others trailing)
      have hlexeme' : LexemeAt previous (lexeme ++ spell others trailing) lexeme token := by
        rw [hsplit] at hlexeme
        exact hlexeme.of_unbroken (unbroken_begins hreads later htrailing)
          (head?_spell hreads later htrailing)
      rw [← hdrop] at hlexeme'
      have hnext := Reads.next hdrop hlexeme' (ih later)
      rwa [htake, ← spell_cons ⟨blanks, lexeme, token⟩] at hnext

/-- Other blanks change no token. -/
theorem map_token {inner : Bool} (h : Respaced inner pieces others) :
    others.map Piece.token = pieces.map Piece.token := by
  induction h with
  | nil => rfl
  | cons _ _ _ ih => rw [List.map_cons, List.map_cons, ih]

end Respaced

/-! ## Tokens, conversions and answers -/

/-- A text is read as its next token and what the text behind it is read as. -/
theorem Reads.of_nextToken {token : Token} (h : nextToken previous text = some (token, rest))
    (hsplit : text.dropWhile isBlank = lexeme ++ rest) (later : Reads (some token) rest pieces) :
    Reads previous text (⟨text.takeWhile isBlank, lexeme, token⟩ :: pieces) := by
  obtain ⟨found, hfound, hlexeme⟩ := lexemeAt_of_nextToken h
  obtain rfl : lexeme = found := List.append_cancel_right (hsplit.symm.trans hfound)
  exact .next hsplit hlexeme later

/-- The tokens of a text are those of the pieces that it is read as. -/
theorem Reads.tokensAfter_eq (h : Reads previous text pieces) :
    tokensAfter previous text = pieces.map Piece.token := by
  obtain ⟨others, hothers, htokens⟩ := exists_reads previous text
  rw [htokens, h.unique hothers]

/-- Blanks between lexemes are irrelevant.  A text of the same lexemes, with any blanks in front of
the first, behind the last, and at least one blank or what was there before between each two, is
read as these lexemes.  It has the same tokens, which are those of the lexemes, the same conversion
and the same answer. -/
theorem tokenize_respaced {text : String} {pieces others : List Piece} {trailing : List Char}
    (hreads : Reads none text.toList pieces) (hothers : Respaced false pieces others)
    (htrailing : ∀ c ∈ trailing, isBlank c = true) :
    let respaced := String.ofList (spell others trailing)
    Reads none respaced.toList others ∧
      Token.tokenize text = pieces.map Piece.token ∧
      Token.tokenize respaced = Token.tokenize text ∧
      (∀ bindings, Conversion.ofText bindings respaced = Conversion.ofText bindings text) ∧
      ∀ c : Calculator, c.calculate respaced = c.calculate text := by
  intro respaced
  have hrespaced : Reads none respaced.toList others := by
    rw [String.toList_ofList]
    exact hothers.reads hreads htrailing
  have hpieces : Token.tokenize text = pieces.map Piece.token := by
    rw [tokenize_eq, hreads.tokensAfter_eq]
  have htokens : Token.tokenize respaced = Token.tokenize text := by
    rw [hpieces, tokenize_eq, hrespaced.tokensAfter_eq, hothers.map_token]
  have htext : ∀ bindings,
      Conversion.ofText bindings respaced = Conversion.ofText bindings text := by
    intro bindings
    rw [Conversion.ofText, Conversion.ofText, htokens]
  exact ⟨hrespaced, hpieces, htokens, htext, fun c => Calculator.calculate_congr (htext c.bindings)⟩

/-- The text `3e+`, in which the number ends before the `e`, with blanks in front, behind and before
the plus. -/
theorem tokenize_respaced_exponent :
    let three := Binary64.ofBits 0x4008000000000000
    let piece : List Char → List Char → Token → Piece := Piece.mk
    let pieces :=
      [piece [] ['3'] (.number three), piece [] ['e'] (.name "e"), piece [] ['+'] (.operator "+")]
    let others :=
      [piece [' '] ['3'] (.number three), piece [] ['e'] (.name "e"),
        piece ['\u2003', ' '] ['+'] (.operator "+")]
    Reads none "3e+".toList pieces ∧ Respaced false pieces others ∧
      String.ofList (spell others ['\n']) = " 3e\u2003 +\n" ∧
      Token.tokenize " 3e\u2003 +\n" = Token.tokenize "3e+" ∧
      Conversion.ofText .constants " 3e\u2003 +\n" = Conversion.ofText .constants "3e+" := by
  intro three piece pieces others
  have hreads : Reads none "3e+".toList pieces := by
    have hplus : Reads (some (.name "e")) ['+'] [piece [] ['+'] (.operator "+")] :=
      .of_nextToken (by decide) rfl (.done rfl)
    have hname : Reads (some (.number three)) ['e', '+'] pieces.tail :=
      .of_nextToken (by decide) rfl hplus
    exact .of_nextToken (by decide +kernel) rfl hname
  have hblank : ∀ blanks : List Char, blanks.all isBlank = true → ∀ c ∈ blanks, isBlank c = true :=
    fun _ => List.all_eq_true.1
  have hothers : Respaced false pieces others :=
    .cons (hblank [' '] rfl) nofun
      (.cons (hblank [] rfl) (fun _ => .inr rfl)
        (.cons (hblank ['\u2003', ' '] rfl) (fun _ => .inl (List.cons_ne_nil _ _)) .nil))
  obtain ⟨-, -, htokens, htext, -⟩ := tokenize_respaced hreads hothers (hblank ['\n'] rfl)
  exact ⟨hreads, hothers, rfl, htokens, htext .constants⟩

end Lexing

end PostfixCalc
