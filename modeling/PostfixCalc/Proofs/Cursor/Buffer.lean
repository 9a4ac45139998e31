import PostfixCalc.Proofs.Cursor.Basic
import PostfixCalc.Scanner.Lemmas

/-!
# A scanner with one buffer

The characters that were read stand in one buffer, and the first of them, up to a length, are the
lexeme.  Each operation is a loop over single characters: the buffer is filled until it holds the
character that is looked at, and that character is found at its place.  Finding it, and cutting the
lexeme off, would break off if the buffer were too short.

A scanner has such a buffer: its lexeme and the characters ahead of it.  Each operation on the
buffer gives what the operation on the scanner gives and leaves the buffer of the scanner that it
leaves, so no operation breaks off.

Main results:

- `Scanner.readWhile_eq`: reading on while characters satisfy a predicate reads a number of them.
- `Scanner.run_buffer`: one operation on the buffer of a scanner.
- `Scanner.runAll_buffer`: any number of operations.
-/

namespace PostfixCalc

open Scanner (Primitive Reply)

/-! ## Buffers -/

/-- The characters that were not read yet, those that were, and how many of these are the lexeme. -/
structure Buffer where
  source : List Char
  chars : List Char
  length : Nat

namespace Buffer

/-- A buffer at the start of an input, of which nothing is read yet. -/
def ofList (input : List Char) : Buffer := ⟨input, [], 0⟩

/-- The number of characters of `input` that a buffer started on it has read. -/
def pulled (input : List Char) (b : Buffer) : Nat := input.length - b.source.length

/-- Read until the buffer has `n` characters, and tell whether it has. -/
def fill (n : Nat) (b : Buffer) : Bool × Buffer :=
  if b.chars.length < n then
    match _hsource : b.source with
    | c :: source => fill n { b with source, chars := b.chars ++ [c] }
    | [] => (false, b)
  else (true, b)
termination_by b.source.length
decreasing_by simp [_hsource]

/-- The character some places behind the lexeme. -/
def peekNth (n : Nat) (b : Buffer) : Option (Option Char × Buffer) :=
  match b.fill (b.length + n + 1) with
  | (true, b) => b.chars[b.length + n]?.map fun c => (some c, b)
  | (false, b) => some (none, b)

/-- The next character, which is not taken. -/
def peek (b : Buffer) : Option (Option Char × Buffer) := b.peekNth 0

/-! ## Loops -/

/-- All characters that were not handed out, whether they were read or not. -/
def all (b : Buffer) : List Char := b.chars ++ b.source

/-- Filling keeps the lexeme and the characters, and if it succeeds, enough of them are read. -/
theorem fill_spec (n : Nat) (b : Buffer) :
    (b.fill n).2.length = b.length ∧ (b.fill n).2.all = b.all ∧
      ((b.fill n).1 = true → n ≤ (b.fill n).2.chars.length) := by
  fun_induction fill n b with
  | case1 b hshort c source hsource ih => simpa [all, hsource] using ih
  | case2 b hshort hsource => simp
  | case3 b henough => simp; omega

/-- A character that is found is one of those that were not handed out. -/
theorem peekNth_spec {n : Nat} {b t : Buffer} {c : Char} (h : b.peekNth n = some (some c, t)) :
    t.length = b.length ∧ t.all = b.all ∧ b.length + n < b.all.length := by
  obtain ⟨hlength, hall, hfilled⟩ := b.fill_spec (b.length + n + 1)
  unfold peekNth at h
  split at h
  · rename_i filled hfill
    rw [hfill] at hlength hall hfilled
    obtain ⟨d, -, hpair⟩ := Option.map_eq_some_iff.1 h
    obtain rfl := (Prod.mk.inj hpair).2
    have henough := hfilled rfl
    rw [← hall]
    refine ⟨hlength, rfl, ?_⟩
    rw [all, List.length_append]
    omega
  · simp at h

/-- The first character from some place behind the lexeme on that is not blank. -/
def peekPastBlanksFrom (n : Nat) (b : Buffer) : Option (Option Char × Buffer) :=
  match _hpeek : b.peekNth n with
  | some (some c, t) => if isBlank c then t.peekPastBlanksFrom (n + 1) else some (some c, t)
  | other => other
termination_by b.all.length - (b.length + n)
decreasing_by
  obtain ⟨hlength, hall, hplace⟩ := peekNth_spec _hpeek
  rw [hlength, hall]
  omega

/-- The first character that is not blank; nothing is taken. -/
def peekPastBlanks (b : Buffer) : Option (Option Char × Buffer) := b.peekPastBlanksFrom 0

/-- Take the next character, whatever it is. -/
def bump (b : Buffer) : Option (Option Char × Buffer) :=
  match b.peek with
  | some (some c, t) => some (some c, { t with length := t.length + 1 })
  | other => other

/-- Take the next character if it satisfies `p`. -/
def acceptIf (p : Char → Bool) (b : Buffer) : Option (Option Char × Buffer) :=
  match b.peek with
  | some (some c, t) => if p c then t.bump else some (none, t)
  | other => other

/-- A character that is taken becomes part of the lexeme. -/
theorem acceptIf_spec {p : Char → Bool} {b t : Buffer} {c : Char}
    (h : b.acceptIf p = some (some c, t)) :
    t.length = b.length + 1 ∧ t.all = b.all ∧ b.length < b.all.length := by
  unfold acceptIf at h
  split at h
  · rename_i c' t' hpeek
    obtain ⟨hlength, hall, hplace⟩ := peekNth_spec hpeek
    split at h
    · unfold bump at h
      split at h
      · rename_i c'' t'' hpeek'
        obtain ⟨hlength', hall', -⟩ := peekNth_spec hpeek'
        obtain ⟨-, rfl⟩ := Prod.mk.inj (Option.some.inj h)
        exact ⟨by rw [← hlength, ← hlength'], hall'.trans hall, hplace⟩
      · rename_i hnone
        exact absurd h (hnone c t)
    · simp at h
  · rename_i hnone
    exact absurd h (hnone c t)

/-- Take characters for as long as they satisfy `p`, and tell whether there was one so far. -/
def skipWhileFrom (p : Char → Bool) (advanced : Bool) (b : Buffer) : Option (Bool × Buffer) :=
  match _haccept : b.acceptIf p with
  | some (some _, t) => t.skipWhileFrom p true
  | some (none, t) => some (advanced, t)
  | none => none
termination_by b.all.length - b.length
decreasing_by
  obtain ⟨hlength, hall, hplace⟩ := acceptIf_spec _haccept
  rw [hlength, hall]
  omega

/-- Take characters for as long as they satisfy `p`, and tell whether there was one. -/
def skipWhile (p : Char → Bool) (b : Buffer) : Option (Bool × Buffer) := b.skipWhileFrom p false

/-- Give back what was taken after the lexeme had the length `mark`. -/
def rewind (mark : Nat) (b : Buffer) : Buffer := { b with length := min b.length mark }

/-- Cut the lexeme off. -/
def drain (b : Buffer) : Option (List Char × Buffer) :=
  if b.length ≤ b.chars.length then
    some (b.chars.take b.length, { b with chars := b.chars.drop b.length, length := 0 })
  else none

/-- Carry out an operation; none if it breaks off. -/
def run (b : Buffer) : Primitive → Option (Reply × Buffer)
  | ⟨.peek, _⟩ => b.peek.map (·.map .char id)
  | ⟨.peekPastBlanks, _⟩ => b.peekPastBlanks.map (·.map .char id)
  | ⟨.bump, _⟩ => b.bump.map (·.map .char id)
  | ⟨.acceptIf p, _⟩ => (b.acceptIf p).map (·.map .char id)
  | ⟨.skipWhile p, _⟩ => (b.skipWhile p).map (·.map .skipped id)
  | ⟨.mark, _⟩ => some (.length b.length, b)
  | ⟨.rewind length, _⟩ => some (.silent, b.rewind length)
  | ⟨.take, _⟩ => b.drain.map (·.map (fun lexeme => .lexeme (some (String.ofList lexeme))) id)
  | ⟨.drop, _⟩ => b.drain.map (·.map (fun _ => .silent) id)

/-- Carry out operations one after another; none if one of them breaks off. -/
def runAll (b : Buffer) : List Primitive → Option (List Reply × Buffer)
  | [] => some ([], b)
  | operation :: operations => do
    let (reply, t) ← b.run operation
    let (replies, t) ← t.runAll operations
    return (reply :: replies, t)

end Buffer

/-! ## Reading some characters -/

namespace Scanner

/-- Read until `n` characters are ahead, if there are so many. -/
def readUpTo (n : Nat) (s : Scanner) : Scanner :=
  { s with
    ahead := s.ahead ++ s.source.take (n - s.ahead.length)
    source := s.source.drop (n - s.ahead.length) }

variable {s t : Scanner} {n : Nat}

@[simp] theorem unread_readUpTo (n : Nat) (s : Scanner) : (s.readUpTo n).unread = s.unread := by
  simp [readUpTo, unread]

theorem readUpTo_of_le (h : n ≤ s.ahead.length) : s.readUpTo n = s := by
  simp [readUpTo, Nat.sub_eq_zero_of_le h]

/-- Reading less first makes no difference. -/
theorem readUpTo_readUpTo {m : Nat} (h : n ≤ m) : (s.readUpTo n).readUpTo m = s.readUpTo m := by
  have hmore : n - s.ahead.length ≤ m - s.ahead.length := Nat.sub_le_sub_right h _
  have hahead : (s.readUpTo n).ahead.length =
      s.ahead.length + min (n - s.ahead.length) s.source.length := by
    rw [readUpTo, List.length_append, List.length_take]
  rcases Nat.le_total s.source.length (n - s.ahead.length) with hend | hmiddle
  · simp [readUpTo, List.take_of_length_le, List.drop_of_length_le, hend, Nat.le_trans hend hmore]
  · obtain ⟨j, hj⟩ := Nat.exists_eq_add_of_le hmore
    have hrest : m - (s.readUpTo n).ahead.length = j := by omega
    rw [readUpTo, hrest, readUpTo, readUpTo, hj, List.take_add, ← List.append_assoc,
      ← List.drop_drop]

/-- A character that is read counts among those that are ahead. -/
theorem readUpTo_append (lexeme source : List Char) {ahead : List Char} (c : Char)
    (h : ahead.length < n) :
    readUpTo n ⟨lexeme, ahead ++ [c], source⟩ = readUpTo n ⟨lexeme, ahead, c :: source⟩ := by
  have hcount : n - ahead.length = n - (ahead ++ [c]).length + 1 := by
    rw [List.length_append, List.length_singleton]
    omega
  simp only [readUpTo, hcount, List.take_succ_cons, List.drop_succ_cons, List.append_assoc,
    List.singleton_append]

/-- What follows a character that is ahead is read as what follows it without the character. -/
theorem readUpTo_cons (lexeme ahead source lexeme' : List Char) (c : Char) (n : Nat) :
    readUpTo (n + 1) ⟨lexeme, c :: ahead, source⟩ =
      { readUpTo n ⟨lexeme', ahead, source⟩ with
        lexeme, ahead := c :: (readUpTo n ⟨lexeme', ahead, source⟩).ahead } := by
  simp [readUpTo]

/-- Reading on while characters satisfy a predicate reads them and one more. -/
theorem readWhile_eq (p : Char → Bool) (s : Scanner) :
    s.readWhile p = s.readUpTo ((s.unread.takeWhile p).length + 1) := by
  unfold readWhile
  split
  · rename_i hall
    have hahead : ∀ d ∈ s.ahead, p d = true := List.all_eq_true.1 hall
    have hcount :
        (s.unread.takeWhile p).length + 1 - s.ahead.length =
          (s.source.takeWhile p).length + 1 := by
      rw [unread, List.takeWhile_append_of_pos hahead, List.length_append]
      omega
    rw [readUpTo, hcount, ← takeWhile_append_take_one, ← drop_one_dropWhile, ← List.append_assoc]
  · rename_i hall
    have hend : (s.unread.takeWhile p).length < s.ahead.length := by
      rw [unread, List.takeWhile_append]
      split
      · rename_i heq
        have hself := (List.takeWhile_prefix p).eq_of_length heq
        exact absurd (hself ▸ List.all_takeWhile) hall
      · rename_i hne
        exact Nat.lt_of_le_of_ne (List.takeWhile_prefix p).length_le hne
    rw [readUpTo_of_le hend]

/-- Looking at the next character reads it. -/
theorem readWhile_false (s : Scanner) : s.readWhile (fun _ => false) = s.readUpTo 1 := by
  have hrun : s.unread.takeWhile (fun _ => false) = [] := by cases s.unread <;> rfl
  rw [readWhile_eq, hrun]
  rfl

/-- A character that is not accepted was read nevertheless. -/
theorem eq_readUpTo_of_acceptIf_none {p : Char → Bool} (h : s.acceptIf p = (none, t)) :
    t = s.readUpTo 1 := by
  simp only [acceptIf, readWhile_false] at h
  split at h
  · split at h
    · simp at h
    · exact (Prod.mk.inj h).2.symm
  · exact (Prod.mk.inj h).2.symm

/-- No run begins with a character that is not accepted. -/
theorem takeWhile_of_acceptIf_none {p : Char → Bool} (h : s.acceptIf p = (none, t)) :
    s.unread.takeWhile p = [] := by
  cases hunread : s.unread with
  | nil => rfl
  | cons c rest =>
    have hfound := (acceptIf_of_cons hunread p).1
    rw [h] at hfound
    cases hc : p c <;> simp_all

/-- Without a character that is accepted, the run is empty. -/
theorem skipWhile_of_acceptIf_none {p : Char → Bool} (h : s.acceptIf p = (none, t)) :
    s.skipWhile p = (false, t) := by
  have hrun := takeWhile_of_acceptIf_none h
  have hread : s.readWhile p = t := by
    rw [readWhile_eq, hrun, eq_readUpTo_of_acceptIf_none h]
    rfl
  have hahead := takeWhile_ahead_readWhile p s
  have hsplit := List.takeWhile_append_dropWhile (p := p) (l := t.ahead)
  rw [hread, hrun] at hahead
  rw [hahead, List.nil_append] at hsplit
  simp only [skipWhile, hread, hahead, hsplit, List.append_nil]
  rfl

/-- A run that begins with a character that is accepted goes on behind it. -/
theorem skipWhile_of_acceptIf {p : Char → Bool} {c : Char} (h : s.acceptIf p = (some c, t)) :
    s.skipWhile p = (true, (t.skipWhile p).2) := by
  obtain ⟨hc, -⟩ := lexeme_of_acceptIf h
  simp only [acceptIf, readWhile_false] at h
  split at h
  · rename_i d rest hahead
    split at h
    · obtain ⟨hd, ht⟩ := Prod.mk.inj h
      obtain rfl := Option.some.inj hd
      have hfirst : s.readUpTo 1 = ⟨s.lexeme, d :: rest, (s.readUpTo 1).source⟩ := by
        rw [← hahead]
        rfl
      have hunread : s.unread = d :: t.unread := by
        rw [← unread_readUpTo 1 s, unread, hahead, ← ht]
        rfl
      have hread : s.readWhile p =
          { t.readWhile p with lexeme := s.lexeme, ahead := d :: (t.readWhile p).ahead } := by
        rw [readWhile_eq, readWhile_eq, hunread, List.takeWhile_cons_of_pos hc, List.length_cons,
          ← readUpTo_readUpTo (Nat.le_add_left 1 _), hfirst,
          readUpTo_cons _ _ _ (s.lexeme ++ [d]), ← ht]
        rfl
      have hlexeme : t.lexeme = s.lexeme ++ [d] := ht ▸ rfl
      simp only [skipWhile, hread, List.takeWhile_cons_of_pos hc, List.dropWhile_cons_of_pos hc,
        lexeme_readWhile, hlexeme, List.append_assoc, List.singleton_append]
      rfl
    · simp at h
  · simp at h

/-! ## The buffer of a scanner -/

/-- The lexeme and the characters ahead of it in one buffer. -/
def buffer (s : Scanner) : Buffer := ⟨s.source, s.lexeme ++ s.ahead, s.lexeme.length⟩

/-- Filling the buffer reads on until enough characters are ahead. -/
theorem fill_buffer (n : Nat) (s : Scanner) :
    s.buffer.fill (s.lexeme.length + n) =
      (decide (n ≤ s.unread.length), (s.readUpTo n).buffer) := by
  obtain ⟨lexeme, ahead, source⟩ := s
  induction source generalizing ahead with
  | nil =>
    rw [Buffer.fill]
    by_cases hshort : ahead.length < n
    · simp [buffer, hshort, unread, readUpTo]
    · simp [buffer, hshort, unread, readUpTo, Nat.le_of_not_lt hshort]
  | cons c source ih =>
    rw [Buffer.fill]
    by_cases hshort : ahead.length < n
    · have hrest := ih (ahead ++ [c])
      rw [readUpTo_append lexeme source c hshort] at hrest
      simpa [buffer, hshort, unread] using hrest
    · have hread := @readUpTo_of_le ⟨lexeme, ahead, c :: source⟩ n (Nat.le_of_not_lt hshort)
      rw [hread]
      simp [buffer, hshort, unread]
      omega

/-- Behind the lexeme are the characters that are unread, of which enough are ahead. -/
theorem getElem?_chars_buffer (s : Scanner) (h : n < s.ahead.length) :
    s.buffer.chars[s.lexeme.length + n]? = s.unread[n]? := by
  rw [buffer, unread, List.getElem?_append_right (Nat.le_add_right _ _), Nat.add_sub_cancel_left,
    List.getElem?_append_left h]

/-- The character some places behind the lexeme is the one at that place of what is unread. -/
theorem peekNth_buffer (n : Nat) (s : Scanner) :
    s.buffer.peekNth n = some (s.unread[n]?, (s.readUpTo (n + 1)).buffer) := by
  have hfill : s.buffer.fill (s.buffer.length + n + 1) = _ := fill_buffer (n + 1) s
  rw [Buffer.peekNth, hfill]
  by_cases henough : n + 1 ≤ s.unread.length
  · have hahead : n < (s.readUpTo (n + 1)).ahead.length := by
      rw [unread, List.length_append] at henough
      rw [readUpTo, List.length_append, List.length_take]
      omega
    have hplace := (s.readUpTo (n + 1)).getElem?_chars_buffer hahead
    rw [unread_readUpTo, List.getElem?_eq_getElem henough] at hplace
    rw [decide_eq_true henough, List.getElem?_eq_getElem henough]
    exact congrArg (Option.map fun c => (some c, (s.readUpTo (n + 1)).buffer)) hplace
  · rw [decide_eq_false henough, List.getElem?_eq_none (by omega)]

/-- Looking at the next character. -/
theorem peek_buffer (s : Scanner) : s.buffer.peek = some (s.peek.1, s.peek.2.buffer) := by
  rw [Buffer.peek, peekNth_buffer, peek_fst, List.head?_eq_getElem?, peek, readWhile_false]

/-- Looking past blanks, of which those before some place have been looked at. -/
theorem peekPastBlanksFrom_buffer (n : Nat) (s : Scanner) :
    s.buffer.peekPastBlanksFrom n =
      some (((s.unread.drop n).dropWhile isBlank).head?,
        (s.readUpTo (n + ((s.unread.drop n).takeWhile isBlank).length + 1)).buffer) := by
  have hpeek := s.peekNth_buffer n
  generalize hrest : s.unread.drop n = rest
  induction rest generalizing n s with
  | nil =>
    have hnone : s.unread[n]? = none := List.getElem?_eq_none (List.drop_eq_nil_iff.1 hrest)
    rw [hnone] at hpeek
    rw [Buffer.peekPastBlanksFrom, hpeek]
    rfl
  | cons c rest ih =>
    have hfirst : s.unread[n]? = some c := by
      rw [← List.head?_drop, hrest]
      rfl
    rw [hfirst] at hpeek
    rw [Buffer.peekPastBlanksFrom, hpeek]
    cases hc : isBlank c with
    | false => simp [hc]
    | true =>
      have hnext : (s.readUpTo (n + 1)).unread.drop (n + 1) = rest := by
        rw [unread_readUpTo, ← List.drop_drop, hrest]
        rfl
      have hlater := ih (n + 1) (s.readUpTo (n + 1)) (peekNth_buffer _ _) hnext
      simp only [hc, if_true, hlater]
      rw [readUpTo_readUpTo (by omega), List.dropWhile_cons_of_pos hc,
        List.takeWhile_cons_of_pos hc, List.length_cons]
      congr 4
      omega

/-- Looking past blanks. -/
theorem peekPastBlanks_buffer (s : Scanner) :
    s.buffer.peekPastBlanks = some (s.peekPastBlanks.1, s.peekPastBlanks.2.buffer) := by
  rw [Buffer.peekPastBlanks, peekPastBlanksFrom_buffer, peekPastBlanks_fst, peekPastBlanks,
    readWhile_eq, List.drop_zero, Nat.zero_add]

/-- Taking the next character. -/
theorem bump_buffer (s : Scanner) : s.buffer.bump = some (s.bump.1, s.bump.2.buffer) := by
  rw [Buffer.bump, peek_buffer]
  simp only [bump, acceptIf, peek]
  cases hahead : (s.readWhile fun _ => false).ahead with
  | nil => rfl
  | cons c rest => simp [buffer, hahead]

/-- A character that is ahead is taken without reading on. -/
theorem bump_of_ahead {c : Char} {rest : List Char} (h : s.ahead = c :: rest) :
    s.bump = (some c, { s with lexeme := s.lexeme ++ [c], ahead := rest }) := by
  have hread : (s.readWhile fun _ => false) = s := by simp [readWhile, h]
  simp [bump, acceptIf, hread, h]

/-- Taking the next character if it satisfies a predicate. -/
theorem acceptIf_buffer (p : Char → Bool) (s : Scanner) :
    s.buffer.acceptIf p = some ((s.acceptIf p).1, (s.acceptIf p).2.buffer) := by
  rw [Buffer.acceptIf, peek_buffer]
  simp only [acceptIf, peek]
  cases hahead : (s.readWhile fun _ => false).ahead with
  | nil => rfl
  | cons c rest =>
    cases hc : p c with
    | false => simp [hc]
    | true => simp [hc, bump_buffer, bump_of_ahead hahead]

/-- Taking characters one by one is taking the run of them. -/
theorem skipWhileFrom_buffer (p : Char → Bool) (advanced : Bool) (s : Scanner) :
    s.buffer.skipWhileFrom p advanced =
      some (advanced || (s.skipWhile p).1, (s.skipWhile p).2.buffer) := by
  have haccept := s.acceptIf_buffer p
  rw [Buffer.skipWhileFrom, haccept]
  cases hfound : s.acceptIf p with
  | mk found t =>
    cases found with
    | none => simp [skipWhile_of_acceptIf_none hfound]
    | some c =>
      have hlater := skipWhileFrom_buffer p true t
      simp only [hlater, skipWhile_of_acceptIf hfound, Bool.true_or, Bool.or_true]
termination_by s.unread.length
decreasing_by exact acceptIf_shorter hfound

/-- Giving characters back leaves the buffer as it is and makes the lexeme shorter. -/
theorem rewind_buffer (mark : Nat) (s : Scanner) :
    s.buffer.rewind mark = (s.rewind mark).buffer := by
  have hchars : s.lexeme.take mark ++ (s.lexeme.drop mark ++ s.ahead) = s.lexeme ++ s.ahead := by
    rw [← List.append_assoc, List.take_append_drop]
  simp [Buffer.rewind, buffer, rewind, hchars, Nat.min_comm]

/-- Cutting the lexeme off does not break off. -/
theorem drain_buffer (s : Scanner) : s.buffer.drain = some (s.lexeme, s.drop.buffer) := by
  simp [Buffer.drain, buffer, drop]

/-! ## Operations -/

/-- An operation on the buffer of a scanner gives what it gives on the scanner. -/
theorem run_buffer (operation : Primitive) (s : Scanner) :
    s.buffer.run operation =
      some ((operation.command.run s).1, (operation.command.run s).2.buffer) := by
  obtain ⟨command, hprimitive⟩ := operation
  cases command with
  | peek => rw [Buffer.run, peek_buffer]; rfl
  | peekPastBlanks => rw [Buffer.run, peekPastBlanks_buffer]; rfl
  | bump => rw [Buffer.run, bump_buffer]; rfl
  | acceptIf p => rw [Buffer.run, acceptIf_buffer]; rfl
  | skipWhile p => rw [Buffer.run, Buffer.skipWhile, skipWhileFrom_buffer, Bool.false_or]; rfl
  | mark => rfl
  | rewind length => rw [Buffer.run, rewind_buffer]; rfl
  | take => rw [Buffer.run, drain_buffer]; rfl
  | drop => rw [Buffer.run, drain_buffer]; rfl
  | skipBlanks | scanNumber | scanSymbol | scanWord => exact hprimitive.elim

/-- Operations on the buffer of a scanner give what they give on the scanner. -/
theorem runAll_buffer (operations : List Primitive) (s : Scanner) :
    s.buffer.runAll operations = some (s.replies operations, (s.after operations).buffer) := by
  induction operations generalizing s with
  | nil => rfl
  | cons operation operations ih =>
    rw [Buffer.runAll, run_buffer]
    simp only [Option.bind_eq_bind, Option.bind_some, ih]
    rfl

end Scanner

end PostfixCalc
