import PostfixCalc.Scanner.Basic

/-!
# The effect of scanner operations

Every operation is described by the lexeme and by the unread rest of the input alone; how much of
that rest waits ahead of the lexeme plays no part in it.

Main results:

- `skipWhile_fst`, `lexeme_skipWhile`, `unread_skipWhile`: skipping moves the longest run of
  accepted characters into the lexeme.
- `acceptIf_of_cons`, `acceptIf_of_nil`: accepting looks at the first unread character only.
- `rewind_mark`: rewinding gives back what was taken after the mark.
-/

namespace PostfixCalc

namespace Scanner

/-! ## Runs in joined lists -/

/-- A run that ends inside a list does not reach into what follows it. -/
private theorem takeWhile_append_of_not_all {p : Char → Bool} {front : List Char}
    (h : front.all p = false) (back : List Char) :
    (front ++ back).takeWhile p = front.takeWhile p := by
  induction front with
  | nil => simp at h
  | cons c front ih =>
    cases hc : p c
    · simp [hc]
    · simpa [hc] using ih (by simpa [hc] using h)

/-- A run that ends inside a list leaves what follows it. -/
private theorem dropWhile_append_of_not_all {p : Char → Bool} {front : List Char}
    (h : front.all p = false) (back : List Char) :
    (front ++ back).dropWhile p = front.dropWhile p ++ back := by
  induction front with
  | nil => simp at h
  | cons c front ih =>
    cases hc : p c
    · simp [hc]
    · simpa [hc] using ih (by simpa [hc] using h)

/-- What is left after a run begins with a character that ends the run. -/
private theorem takeWhile_take_one_dropWhile (p : Char → Bool) (cs : List Char) :
    ((cs.dropWhile p).take 1).takeWhile p = [] := by
  induction cs with
  | nil => rfl
  | cons c cs ih => cases hc : p c <;> simp_all

/-- Nothing is dropped from the first character after a run. -/
private theorem dropWhile_take_one_dropWhile (p : Char → Bool) (cs : List Char) :
    ((cs.dropWhile p).take 1).dropWhile p = (cs.dropWhile p).take 1 := by
  induction cs with
  | nil => rfl
  | cons c cs ih => cases hc : p c <;> simp_all

/-! ## Looking ahead -/

/-- After reading, the whole run of accepted characters is ahead. -/
theorem takeWhile_ahead_readWhile (p : Char → Bool) (s : Scanner) :
    (s.readWhile p).ahead.takeWhile p = s.unread.takeWhile p := by
  unfold readWhile unread
  split
  · rename_i hall
    have hahead : ∀ c ∈ s.ahead, p c = true := by simpa using hall
    have hrun : ∀ c ∈ s.source.takeWhile p, p c = true :=
      List.all_eq_true.1 List.all_takeWhile
    simp only [List.append_assoc]
    rw [List.takeWhile_append_of_pos hahead, List.takeWhile_append_of_pos hrun,
      takeWhile_take_one_dropWhile, List.takeWhile_append_of_pos hahead, List.append_nil]
  · rename_i hall
    exact (takeWhile_append_of_not_all (by simpa using hall) _).symm

/-- After reading, what is left behind the run is the same as in all that is unread. -/
theorem dropWhile_ahead_readWhile (p : Char → Bool) (s : Scanner) :
    (s.readWhile p).ahead.dropWhile p ++ (s.readWhile p).source = s.unread.dropWhile p := by
  unfold readWhile unread
  split
  · rename_i hall
    have hahead : ∀ c ∈ s.ahead, p c = true := by simpa using hall
    have hrun : ∀ c ∈ s.source.takeWhile p, p c = true :=
      List.all_eq_true.1 List.all_takeWhile
    simp only [List.append_assoc]
    rw [List.dropWhile_append_of_pos hahead, List.dropWhile_append_of_pos hrun,
      dropWhile_take_one_dropWhile, List.dropWhile_append_of_pos hahead, List.take_append_drop]
  · rename_i hall
    exact (dropWhile_append_of_not_all (by simpa using hall) _).symm

/-- After reading, the first character behind the run is ahead if there is one. -/
theorem head?_dropWhile_ahead_readWhile (p : Char → Bool) (s : Scanner) :
    ((s.readWhile p).ahead.dropWhile p).head? = (s.unread.dropWhile p).head? := by
  rw [← dropWhile_ahead_readWhile]
  unfold readWhile
  split
  · rename_i hall
    have hahead : ∀ c ∈ s.ahead, p c = true := by simpa using hall
    have hrun : ∀ c ∈ s.source.takeWhile p, p c = true :=
      List.all_eq_true.1 List.all_takeWhile
    simp only [List.append_assoc]
    rw [List.dropWhile_append_of_pos hahead, List.dropWhile_append_of_pos hrun,
      dropWhile_take_one_dropWhile]
    cases s.source.dropWhile p <;> simp
  · rename_i hall
    cases hrest : s.ahead.dropWhile p with
    | nil =>
      have hsplit := List.takeWhile_append_dropWhile (p := p) (l := s.ahead)
      rw [hrest, List.append_nil] at hsplit
      exact absurd (hsplit ▸ List.all_takeWhile) hall
    | cons c rest => simp

/-- Dropping characters that no character satisfies drops none. -/
private theorem dropWhile_false (cs : List Char) : cs.dropWhile (fun _ => false) = cs := by
  cases cs <;> rfl

/-- Peeking shows the first unread character. -/
theorem peek_fst (s : Scanner) : s.peek.1 = s.unread.head? := by
  have h := head?_dropWhile_ahead_readWhile (fun _ => false) s
  rwa [dropWhile_false, dropWhile_false] at h

/-- Peeking past blanks shows the first unread character that is not blank. -/
theorem peekPastBlanks_fst (s : Scanner) :
    s.peekPastBlanks.1 = (s.unread.dropWhile isBlank).head? :=
  head?_dropWhile_ahead_readWhile isBlank s

/-- Peeking past blanks leaves lexeme and rest as they are. -/
theorem peekPastBlanks_snd (s : Scanner) :
    s.peekPastBlanks.2.lexeme = s.lexeme ∧ s.peekPastBlanks.2.unread = s.unread := by
  simp [peekPastBlanks]

/-! ## Taking characters -/

/-- Skipping tells whether the first unread character is accepted. -/
theorem skipWhile_fst (p : Char → Bool) (s : Scanner) :
    (s.skipWhile p).1 = !(s.unread.takeWhile p).isEmpty := by
  simp only [skipWhile, takeWhile_ahead_readWhile]

/-- Skipping moves the run of accepted characters into the lexeme. -/
@[simp] theorem lexeme_skipWhile (p : Char → Bool) (s : Scanner) :
    (s.skipWhile p).2.lexeme = s.lexeme ++ s.unread.takeWhile p := by
  simp only [skipWhile, takeWhile_ahead_readWhile, lexeme_readWhile]

/-- Skipping leaves what follows the run of accepted characters. -/
@[simp] theorem unread_skipWhile (p : Char → Bool) (s : Scanner) :
    (s.skipWhile p).2.unread = s.unread.dropWhile p := by
  rw [← dropWhile_ahead_readWhile]
  rfl

/-- A character that is ahead already and not accepted changes nothing. -/
theorem acceptIf_of_ahead {p : Char → Bool} {s : Scanner} {c : Char} {rest : List Char}
    (h : s.ahead = c :: rest) (hc : p c = false) : s.acceptIf p = (none, s) := by
  have hread : (s.readWhile fun _ => false) = s := by simp [readWhile, h]
  simp [acceptIf, hread, h, hc]

/-- A character that is accepted satisfies the predicate and ends the lexeme. -/
theorem lexeme_of_acceptIf {p : Char → Bool} {s t : Scanner} {c : Char}
    (h : s.acceptIf p = (some c, t)) : p c = true ∧ t.lexeme = s.lexeme ++ [c] := by
  simp only [acceptIf] at h
  split at h
  · split at h
    · rename_i hc
      simp only [Prod.mk.injEq, Option.some.injEq, lexeme_readWhile] at h
      obtain ⟨rfl, rfl⟩ := h
      exact ⟨hc, rfl⟩
    · simp at h
  · simp at h

/-- At the end of the input nothing is accepted. -/
theorem acceptIf_of_nil {s : Scanner} (h : s.unread = []) (p : Char → Bool) :
    (s.acceptIf p).1 = none ∧ (s.acceptIf p).2.lexeme = s.lexeme ∧
      (s.acceptIf p).2.unread = [] := by
  have hnil : (s.readWhile fun _ => false).unread = [] := by simp [h]
  have hahead : (s.readWhile fun _ => false).ahead = [] := (List.append_eq_nil_iff.1 hnil).1
  simp [acceptIf, hahead, hnil]

/-- A first unread character that is accepted goes into the lexeme; any other one stays. -/
theorem acceptIf_of_cons {s : Scanner} {c : Char} {rest : List Char} (h : s.unread = c :: rest)
    (p : Char → Bool) :
    (s.acceptIf p).1 = (if p c then some c else none) ∧
      (s.acceptIf p).2.lexeme = (if p c then s.lexeme ++ [c] else s.lexeme) ∧
      (s.acceptIf p).2.unread = (if p c then rest else c :: rest) := by
  have hunread : (s.readWhile fun _ => false).unread = c :: rest := by simp [h]
  have hhead : (s.readWhile fun _ => false).ahead.head? = some c := by
    have hpeek := peek_fst s
    rw [h] at hpeek
    exact hpeek
  obtain ⟨tail, hahead⟩ := List.head?_eq_some_iff.1 hhead
  have hrest : tail ++ (s.readWhile fun _ => false).source = rest := by
    simpa [unread, hahead] using hunread
  cases hc : p c
  · simp [acceptIf, hahead, hc, hunread]
  · simp [acceptIf, hahead, hc, unread, hrest]

/-- A character that is not accepted changes neither lexeme nor rest. -/
theorem acceptIf_none {p : Char → Bool} {s t : Scanner} (h : s.acceptIf p = (none, t)) :
    t.lexeme = s.lexeme ∧ t.unread = s.unread := by
  cases hunread : s.unread with
  | nil => simpa [h] using (acceptIf_of_nil hunread p).2
  | cons c rest =>
    obtain ⟨hfound, hlexeme, hrest⟩ := acceptIf_of_cons hunread p
    rw [h] at hfound hlexeme hrest
    cases hc : p c <;> simp_all

/-- A run of no characters changes neither lexeme nor rest. -/
theorem skipWhile_none {p : Char → Bool} {s t : Scanner} (h : s.skipWhile p = (false, t)) :
    t.lexeme = s.lexeme ∧ t.unread = s.unread := by
  have hmoved := skipWhile_fst p s
  have hlexeme := lexeme_skipWhile p s
  have hsplit := List.takeWhile_append_dropWhile (p := p) (l := s.unread)
  have hrest := unread_skipWhile p s
  rw [h] at hmoved hlexeme hrest
  simp_all

/-! ## Giving characters back -/

/-- Rewinding after taking characters beyond the mark gives exactly these back. -/
theorem rewind_mark {s : Scanner} {front back : List Char} (h : s.lexeme = front ++ back) :
    (s.rewind front.length).lexeme = front ∧
      (s.rewind front.length).unread = back ++ s.unread := by
  simp [rewind, unread, h]

/-- What is given back is ahead again. -/
theorem ahead_rewind_mark {s : Scanner} {front back : List Char} (h : s.lexeme = front ++ back) :
    (s.rewind front.length).ahead = back ++ s.ahead := by
  simp [rewind, h]

end Scanner

end PostfixCalc
