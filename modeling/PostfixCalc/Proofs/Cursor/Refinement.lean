import PostfixCalc.Proofs.Cursor.Buffer

/-!
# The scanner as a cursor

The scanner, with its characters read ahead, answers every operation as a cursor does.  It differs
from the cursor only in how much of the input it has read, and it has read exactly as far as some
operation so far had to look.

Main results:

- `Cursor.readUpTo_scanner`: reading until some characters are ahead reads up to a place of the
  input.
- `Cursor.run_scanner`: one operation on the scanner is the same operation on the cursor.
- `Scanner.refines_cursor`: the same for any number of operations, with the lexemes that were handed
  out and the number of characters that were read, and for the scanner with one buffer.
-/

namespace PostfixCalc

namespace Cursor

open Scanner (Primitive Reply)

/-! ## The scanner of a cursor -/

variable {c : Cursor} {k : Nat}

/-- The scanner at a cursor that has read the first `k` characters of the input. -/
def scanner (c : Cursor) (k : Nat) : Scanner :=
  { lexeme := c.lexeme, ahead := slice c.input c.position k, source := c.input.drop k }

/-- What is unread for the scanner are the characters from the position on. -/
theorem unread_scanner (h : c.position ≤ k) (hk : k ≤ c.input.length) :
    (c.scanner k).unread = c.rest := by
  rw [Scanner.unread, scanner, rest_eq, ← slice_append h hk, slice_length]

theorem pulled_scanner (hk : k ≤ c.input.length) : (c.scanner k).pulled c.input = k := by
  simp only [Scanner.pulled, scanner, List.length_drop]
  omega

/-- When the position is advanced over what was read, it goes from there into the lexeme. -/
theorem scanner_advance {n : Nat} (h : c.position + n ≤ k) (hk : k ≤ c.input.length) :
    (c.advance n).scanner k =
      { lexeme := c.lexeme ++ c.rest.take n
        ahead := (c.scanner k).ahead.drop n
        source := (c.scanner k).source } := by
  have hposition : (c.advance n).position = c.position + n := Nat.min_eq_left (Nat.le_trans h hk)
  have htake : c.rest.take n = slice c.input c.position (c.position + n) := by
    rw [rest_eq, take_slice, Nat.min_eq_right (Nat.le_trans h hk)]
  have hlexeme : (c.advance n).lexeme = c.lexeme ++ c.rest.take n := by
    rw [htake, lexeme, lexeme, slice_append c.start_le (Nat.le_add_right _ _), hposition]
    rfl
  rw [scanner, hlexeme, hposition, scanner, drop_slice]
  rfl

/-- Reading until some characters are ahead reads up to a place of the input. -/
theorem readUpTo_scanner (n : Nat) (h : c.position ≤ k) (hk : k ≤ c.input.length) :
    (c.scanner k).readUpTo n = c.scanner (max k (min (c.position + n) c.input.length)) := by
  have hlength : (c.scanner k).ahead.length = k - c.position := by
    rw [scanner, length_slice, Nat.min_eq_left hk]
  rcases Nat.le_total (c.position + n) k with hread | hshort
  · rw [Scanner.readUpTo_of_le (by omega), Nat.max_eq_left (by omega)]
  · obtain ⟨m, hm⟩ := Nat.exists_eq_add_of_le hshort
    have hmissing : n - (c.scanner k).ahead.length = m := by omega
    have hplace : max k (min (c.position + n) c.input.length) = min c.input.length (k + m) := by
      omega
    have hread : (c.input.drop k).take m = slice c.input k (min c.input.length (k + m)) := by
      rw [← slice_length, take_slice]
    have hleft : (c.input.drop k).drop m = c.input.drop (min c.input.length (k + m)) := by
      rw [List.drop_drop]
      rcases Nat.le_total c.input.length (k + m) with hle | hle
      · rw [Nat.min_eq_left hle, List.drop_eq_nil_of_le hle, List.drop_length]
      · rw [Nat.min_eq_right hle]
    rw [Scanner.readUpTo, hmissing, hplace]
    simp only [scanner, hleft, hread]
    rw [slice_append h (by omega)]

/-- Reading ahead reads up to the first character that ends a run, if that was not yet read. -/
theorem readWhile_scanner (p : Char → Bool) (h : c.position ≤ k) (hk : k ≤ c.input.length) :
    (c.scanner k).readWhile p =
      c.scanner
        (max k (min (c.position + (c.rest.takeWhile p).length + 1) c.input.length)) := by
  rw [Scanner.readWhile_eq, readUpTo_scanner _ h hk, unread_scanner h hk, Nat.add_assoc]

/-! ## Operations -/

/-- Looking at the next character reads it, if there is one. -/
theorem readWhile_false_scanner (h : c.position ≤ k) (hk : k ≤ c.input.length) :
    (c.scanner k).readWhile (fun _ => false) =
      c.scanner (max k (min (c.position + 1) c.input.length)) := by
  rw [Scanner.readWhile_false, readUpTo_scanner _ h hk]

/-- Accepting a character moves the cursor. -/
theorem acceptIf_scanner (p : Char → Bool) (h : c.position ≤ k) (hk : k ≤ c.input.length) :
    (c.scanner k).acceptIf p =
      ((c.acceptIf p).1,
        (c.acceptIf p).2.scanner (max k (min (c.position + 1) c.input.length))) := by
  have hlength := c.length_rest
  rw [Scanner.acceptIf, readWhile_false_scanner h hk]
  generalize hread : max k (min (c.position + 1) c.input.length) = read
  have hunread := unread_scanner (c := c) (k := read) (by omega) (by omega)
  rw [Scanner.unread] at hunread
  rw [acceptIf]
  cases hahead : (c.scanner read).ahead with
  | nil =>
    have hnone : c.rest = [] := by
      have hshort : (c.scanner read).ahead.length = 0 := by rw [hahead]; rfl
      rw [scanner, length_slice] at hshort
      exact List.eq_nil_of_length_eq_zero (by omega)
    simp only [hnone]
  | cons d tail =>
    have hrest : c.rest = d :: (tail ++ (c.scanner read).source) := by
      rw [← hunread, hahead]
      rfl
    rw [hrest, List.length_cons] at hlength
    cases hd : p d
    · simp [hrest, hd]
    · rw [hrest]
      simp only [hd, if_true]
      rw [scanner_advance (by omega) (by omega), hrest, hahead]
      rfl

/-- Skipping characters moves the cursor. -/
theorem skipWhile_scanner (p : Char → Bool) (h : c.position ≤ k) (hk : k ≤ c.input.length) :
    (c.scanner k).skipWhile p =
      ((c.skipWhile p).1,
        (c.skipWhile p).2.scanner
          (max k (min (c.position + (c.rest.takeWhile p).length + 1) c.input.length))) := by
  have hlength := c.length_rest
  have hrun := (List.takeWhile_prefix p (l := c.rest)).length_le
  have hahead := Scanner.takeWhile_ahead_readWhile p (c.scanner k)
  rw [unread_scanner h hk] at hahead
  rw [Scanner.skipWhile, skipWhile]
  rw [readWhile_scanner p h hk] at hahead ⊢
  generalize hread :
    max k (min (c.position + (c.rest.takeWhile p).length + 1) c.input.length) = read at hahead ⊢
  have hdrop :
      (c.scanner read).ahead.dropWhile p =
        (c.scanner read).ahead.drop (c.rest.takeWhile p).length := by
    have hsplit :=
      @List.drop_left' _ _ ((c.scanner read).ahead.dropWhile p) _ (congrArg List.length hahead)
    rwa [List.takeWhile_append_dropWhile, eq_comm] at hsplit
  have htake : c.rest.take (c.rest.takeWhile p).length = c.rest.takeWhile p :=
    (List.prefix_iff_eq_take.1 (List.takeWhile_prefix p)).symm
  rw [scanner_advance (by omega) (by omega), htake, hahead, hdrop]
  rfl

/-- Rewinding moves the cursor and reads nothing. -/
theorem rewind_scanner (length : Nat) (h : c.position ≤ k) :
    (c.scanner k).rewind length = (c.rewind length).scanner k := by
  have hlexeme : c.lexeme.take length = (c.rewind length).lexeme := take_slice length
  have hahead :
      c.lexeme.drop length ++ slice c.input c.position k =
        slice c.input (min c.position (c.start + length)) k := by
    rw [lexeme, drop_slice]
    rcases Nat.le_total c.position (c.start + length) with hle | hle
    · have hnone : slice c.input (c.start + length) c.position = [] := by
        refine List.eq_nil_of_length_eq_zero ?_
        rw [length_slice]
        omega
      rw [Nat.min_eq_left hle, hnone, List.nil_append]
    · rw [Nat.min_eq_right hle, slice_append hle h]
  simp only [Scanner.rewind, scanner, hlexeme, hahead]
  rfl

/-- Beginning a new lexeme moves its start and reads nothing. -/
theorem drop_scanner (c : Cursor) (k : Nat) : (c.scanner k).drop = c.drop.scanner k := by
  have hlength : c.drop.lexeme.length = min c.position c.input.length - c.position := length_slice
  have hnone : c.drop.lexeme = [] := List.eq_nil_of_length_eq_zero (by omega)
  rw [Scanner.drop, scanner, scanner, hnone]
  rfl

/-- One operation on the scanner is the same operation on the cursor.  The scanner reads on exactly
if the operation has to look further than it has read. -/
theorem run_scanner (operation : Primitive) (h : c.position ≤ k) (hk : k ≤ c.input.length) :
    operation.command.run (c.scanner k) =
      ((c.run operation).1,
        (c.run operation).2.scanner (max k (min (c.reach operation) c.input.length))) := by
  have hnothing : max k (min 0 c.input.length) = k := by omega
  have hmark : (c.scanner k).mark = c.position - c.start := by
    have hposition := c.position_le
    rw [Scanner.mark, scanner, lexeme, length_slice]
    omega
  obtain ⟨command, hprimitive⟩ := operation
  cases command with
  | peek =>
    have hseen := Scanner.peek_fst (c.scanner k)
    rw [unread_scanner h hk] at hseen
    rw [run, reach, ← readWhile_false_scanner h hk]
    exact congrArg (fun d => (Reply.char d, (c.scanner k).peek.2)) hseen
  | peekPastBlanks =>
    have hseen := Scanner.peekPastBlanks_fst (c.scanner k)
    rw [unread_scanner h hk] at hseen
    rw [run, reach, ← readWhile_scanner isBlank h hk]
    exact congrArg (fun d => (Reply.char d, (c.scanner k).peekPastBlanks.2)) hseen
  | bump => exact congrArg (fun found => found.map Reply.char id) (acceptIf_scanner _ h hk)
  | acceptIf p => exact congrArg (fun found => found.map Reply.char id) (acceptIf_scanner p h hk)
  | skipWhile p =>
    exact congrArg (fun found => found.map Reply.skipped id) (skipWhile_scanner p h hk)
  | mark =>
    rw [reach, hnothing, run, ← hmark]
    rfl
  | rewind length =>
    rw [reach, hnothing, run, ← rewind_scanner length h]
    rfl
  | take =>
    rw [reach, hnothing, run, ← drop_scanner]
    rfl
  | drop =>
    rw [reach, hnothing, run, ← drop_scanner]
    rfl
  | skipBlanks | scanNumber | scanSymbol | scanWord => exact hprimitive.elim

/-- No operation changes the input. -/
theorem input_run (c : Cursor) (operation : Primitive) : (c.run operation).2.input = c.input := by
  have haccept : ∀ p, (c.acceptIf p).2.input = c.input := by
    intro p
    rcases acceptIf_snd p c with hstay | hmove
    · rw [hstay]
    · rw [hmove]
      rfl
  obtain ⟨command, hprimitive⟩ := operation
  cases command with
  | bump => exact haccept _
  | acceptIf p => exact haccept p
  | peek | peekPastBlanks | skipWhile p | mark | rewind length | take | drop => rfl
  | skipBlanks | scanNumber | scanSymbol | scanWord => exact hprimitive.elim

/-- An operation moves the position only over what it has looked at. -/
theorem position_run_le (c : Cursor) (operation : Primitive) :
    (c.run operation).2.position ≤ max c.position (min (c.reach operation) c.input.length) := by
  have hkeep : c.position ≤ max c.position (min (c.reach operation) c.input.length) :=
    Nat.le_max_left _ _
  have hadvance :
      ∀ n, (c.advance n).position ≤ max c.position (min (c.position + n) c.input.length) :=
    fun n => Nat.le_max_right _ _
  have haccept :
      ∀ p, (c.acceptIf p).2.position ≤ max c.position (min (c.position + 1) c.input.length) := by
    intro p
    rcases acceptIf_snd p c with hstay | hmove
    · rw [hstay]
      exact Nat.le_max_left _ _
    · rw [hmove]
      exact hadvance 1
  obtain ⟨command, hprimitive⟩ := operation
  cases command with
  | peek | peekPastBlanks | mark | take | drop => exact hkeep
  | bump => exact haccept _
  | acceptIf p => exact haccept p
  | skipWhile p =>
    have hmoved := hadvance (c.rest.takeWhile p).length
    change (c.advance _).position ≤ _
    rw [reach]
    omega
  | rewind length => exact Nat.le_trans (Nat.min_le_left _ _) hkeep
  | skipBlanks | scanNumber | scanSymbol | scanWord => exact hprimitive.elim

/-! ## Runs -/

/-- What is known of the number of characters read is known after an operation. -/
theorem run_bounds (operation : Primitive) (h : c.position ≤ k) (hk : k ≤ c.input.length) :
    (c.run operation).2.position ≤ max k (min (c.reach operation) c.input.length) ∧
      max k (min (c.reach operation) c.input.length) ≤ (c.run operation).2.input.length := by
  have hposition := c.position_run_le operation
  rw [c.input_run operation]
  omega

/-- The scanner after some operations is that of the cursor after them.  It has read as much as the
most demanding of the operations needed. -/
theorem after_scanner (operations : List Primitive) (h : c.position ≤ k)
    (hk : k ≤ c.input.length) :
    (c.scanner k).after operations =
        (c.after operations).scanner ((c.demands operations).foldl max k) ∧
      (c.after operations).input = c.input ∧
      (c.after operations).position ≤ (c.demands operations).foldl max k ∧
      (c.demands operations).foldl max k ≤ c.input.length := by
  induction operations generalizing c k with
  | nil => exact ⟨rfl, rfl, h, hk⟩
  | cons operation operations ih =>
    obtain ⟨hposition, hlength⟩ := run_bounds operation h hk
    have hlater := ih hposition hlength
    rw [c.input_run operation] at hlater
    rw [Scanner.after, List.foldl_cons, run_scanner operation h hk]
    exact hlater

/-- The scanner answers what the cursor answers. -/
theorem replies_scanner (operations : List Primitive) (h : c.position ≤ k)
    (hk : k ≤ c.input.length) : (c.scanner k).replies operations = c.replies operations := by
  induction operations generalizing c k with
  | nil => rfl
  | cons operation operations ih =>
    obtain ⟨hposition, hlength⟩ := run_bounds operation h hk
    have hlater := ih hposition hlength
    rw [Scanner.replies] at hlater
    rw [Scanner.replies, List.map_cons, Scanner.runAll, List.map_cons, run_scanner operation h hk,
      hlater]
    rfl

/-- A lexeme that is finished lies between the old start and the new one. -/
theorem flatten_finishedBy_scanner (operation : Primitive) :
    ((c.scanner k).finishedBy operation).flatten ++ c.input.drop (c.run operation).2.start =
      c.input.drop c.start := by
  have haccept : ∀ p, (c.acceptIf p).2.start = c.start := by
    intro p
    rcases acceptIf_snd p c with hstay | hmove
    · rw [hstay]
    · rw [hmove]
      rfl
  obtain ⟨command, hprimitive⟩ := operation
  cases command with
  | take | drop =>
    change [c.lexeme].flatten ++ c.rest = _
    rw [List.flatten_singleton, lexeme_append_rest]
  | bump => exact congrArg (c.input.drop ·) (haccept _)
  | acceptIf p => exact congrArg (c.input.drop ·) (haccept p)
  | peek | peekPastBlanks | skipWhile p | mark | rewind length => rfl
  | skipBlanks | scanNumber | scanSymbol | scanWord => exact hprimitive.elim

/-- The lexemes that were finished are all of the input before the start of the lexeme. -/
theorem flatten_finished_scanner (operations : List Primitive) (h : c.position ≤ k)
    (hk : k ≤ c.input.length) :
    ((c.scanner k).finished operations).flatten ++ c.input.drop (c.after operations).start =
      c.input.drop c.start := by
  induction operations generalizing c k with
  | nil => rfl
  | cons operation operations ih =>
    obtain ⟨hposition, hlength⟩ := run_bounds operation h hk
    have hlater := ih hposition hlength
    rw [c.input_run operation] at hlater
    rw [Scanner.finished, run_scanner operation h hk, List.flatten_append, List.append_assoc]
    refine Eq.trans ?_ (flatten_finishedBy_scanner (k := k) operation)
    exact congrArg (((c.scanner k).finishedBy operation).flatten ++ ·) hlater

end Cursor

namespace Scanner

/-- A scanner is a cursor.  It gives the answers of the cursor and has its lexeme and its unread
characters; what was handed out, the lexeme and the unread characters are the input, and the lexeme
is within what was read.  Rewinding goes back only, and exactly what some operation had to look at
was read.  A scanner with one buffer, which reads, finds and cuts off single characters, answers the
same from the same characters and breaks off nowhere. -/
theorem refines_cursor (input : List Char) (operations : List Primitive) :
    let s := (ofList input).after operations
    let c := (Cursor.ofList input).after operations
    let finished := ((ofList input).finished operations).flatten
    (ofList input).replies operations = (Cursor.ofList input).replies operations ∧
    (s.lexeme = c.lexeme ∧ s.unread = c.rest) ∧
    finished ++ s.lexeme ++ s.unread = input ∧
    (s.mark ≤ (s.lexeme ++ s.ahead).length ∧
      finished ++ s.lexeme ++ s.ahead = input.take (s.pulled input)) ∧
    (∀ length, (s.rewind length).mark ≤ s.mark ∧ s.unread <:+ (s.rewind length).unread) ∧
    s.pulled input = ((Cursor.ofList input).demands operations).foldl max 0 ∧
    ∃ b,
      (Buffer.ofList input).runAll operations =
        some ((Cursor.ofList input).replies operations, b) ∧
      (b.chars.take b.length = c.lexeme ∧ b.chars.drop b.length ++ b.source = c.rest) ∧
      (b.length ≤ b.chars.length ∧ finished ++ b.chars = input.take (b.pulled input)) ∧
      b.pulled input = ((Cursor.ofList input).demands operations).foldl max 0 := by
  intro s c finished
  obtain ⟨hafter, hinput, hposition, hread⟩ :=
    Cursor.after_scanner (c := Cursor.ofList input) operations (Nat.le_refl 0) (Nat.zero_le _)
  generalize hk : ((Cursor.ofList input).demands operations).foldl max 0 = k at *
  have hscanner : s = c.scanner k := hafter
  have hinput : c.input = input := hinput
  have hread : k ≤ c.input.length := hinput ▸ hread
  have hlexeme : s.lexeme = c.lexeme := congrArg lexeme hscanner
  have hunread : s.unread = c.rest :=
    (congrArg unread hscanner).trans (Cursor.unread_scanner hposition hread)
  have hpulled : s.pulled input = k := by rw [hscanner, ← hinput, Cursor.pulled_scanner hread]
  have hfinished : finished ++ input.drop c.start = input :=
    Cursor.flatten_finished_scanner (c := Cursor.ofList input) operations (Nat.le_refl 0)
      (Nat.zero_le _)
  have hwhole : finished ++ s.lexeme ++ s.unread = input := by
    rw [hlexeme, hunread, List.append_assoc, c.lexeme_append_rest, hinput, hfinished]
  have hbuffered : finished ++ s.lexeme ++ s.ahead = input.take k := by
    have hsource : s.source = input.drop k := by rw [hscanner, ← hinput]; rfl
    refine (List.append_left_inj (input.drop k)).1 ?_
    rw [List.take_append_drop, ← hsource, List.append_assoc, ← unread, hwhole]
  have hwithin : s.mark ≤ (s.lexeme ++ s.ahead).length := by
    rw [List.length_append]
    exact Nat.le_add_right _ _
  have hreplies : (ofList input).replies operations = (Cursor.ofList input).replies operations :=
    Cursor.replies_scanner (c := Cursor.ofList input) operations (Nat.le_refl 0) (Nat.zero_le _)
  refine ⟨hreplies, ⟨hlexeme, hunread⟩, hwhole, ⟨hwithin, ?_⟩, fun length => ⟨?_, ?_⟩, hpulled,
    s.buffer, ?_, ⟨?_, ?_⟩, ⟨hwithin, ?_⟩, hpulled⟩
  · rw [hpulled, hbuffered]
  · exact List.length_take_le' length s.lexeme
  · exact ⟨s.lexeme.drop length, (List.append_assoc _ _ _).symm⟩
  · rw [← hreplies]
    exact runAll_buffer operations (ofList input)
  · exact List.take_left.trans hlexeme
  · rw [← hunread, unread, ← @List.drop_left _ s.lexeme s.ahead]
    rfl
  · rw [buffer, ← List.append_assoc, hbuffered, ← hpulled]
    rfl

end Scanner

end PostfixCalc
