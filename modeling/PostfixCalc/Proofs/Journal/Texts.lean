import PostfixCalc.Journal
import PostfixCalc.Proofs.Printing.Listing

/-!
# What the texts of the journal show

The journal lists nodes and values with a comma between each two, and names a failure by a message.
Neither hides anything: from a text the nodes, the values or the failure are known, except that all
operands that are no numbers look the same.

Main results:

- `intercalate_map_eq_iff`: a listing shows what each of its entries shows.
- `Node.label_eq_iff`: nodes have the same label only if they are the same.
- `DomainError.message_eq_iff`: failures have the same message only if they are the same.
-/

namespace PostfixCalc

/-! ## Cutting texts -/

/-- Two texts that are equal up to their first separator are equal behind it too. -/
theorem append_cons_inj {c : Char} {front front' back back' : List Char} (h : c ∉ front)
    (h' : c ∉ front') (heq : front ++ c :: back = front' ++ c :: back') :
    front = front' ∧ back = back' := by
  have hcut : ∀ {front back : List Char}, c ∉ front →
      (front ++ c :: back).takeWhile (· != c) = front ∧
        (front ++ c :: back).dropWhile (· != c) = c :: back := by
    intro front back h
    refine Lexing.span_run (fun d hd => bne_iff_ne.2 ?_) (by simp)
    rintro rfl
    exact h hd
  obtain ⟨hfront, hback⟩ := @hcut front back h
  obtain ⟨hfront', hback'⟩ := @hcut front' back' h'
  rw [heq] at hfront hback
  exact ⟨hfront.symm.trans hfront', List.tail_eq_of_cons_eq (hback.symm.trans hback')⟩

/-- What follows the first entry of a listing. -/
def laterEntries : List String → List Char
  | [] => []
  | text :: texts => ',' :: ' ' :: text.toList ++ laterEntries texts

theorem toList_intercalate_cons (text : String) (texts : List String) :
    (", ".intercalate (text :: texts)).toList = text.toList ++ laterEntries texts := by
  induction texts generalizing text with
  | nil => simp [laterEntries]
  | cons next texts ih =>
    rw [String.intercalate_cons_cons, String.toList_append, ih, laterEntries]
    simp

/-- A listing is cut behind its first entry. -/
theorem append_laterEntries_inj {text text' : String} {texts texts' : List String}
    (h : ',' ∉ text.toList) (h' : ',' ∉ text'.toList)
    (heq : text.toList ++ laterEntries texts = text'.toList ++ laterEntries texts') :
    text = text' ∧ laterEntries texts = laterEntries texts' := by
  cases texts with
  | nil =>
    cases texts' with
    | nil => simpa [laterEntries, String.toList_inj] using heq
    | cons next' texts' =>
      rw [laterEntries, List.append_nil] at heq
      exact absurd (heq ▸ List.mem_append_right _ List.mem_cons_self) h
  | cons next texts =>
    cases texts' with
    | nil =>
      rw [laterEntries, laterEntries, List.append_nil] at heq
      exact absurd (heq ▸ List.mem_append_right _ List.mem_cons_self) h'
    | cons next' texts' =>
      obtain ⟨htext, hlater⟩ := append_cons_inj h h' heq
      exact ⟨String.toList_inj.1 htext, congrArg (',' :: ·) hlater⟩

theorem laterEntries_inj {texts texts' : List String} (h : ∀ text ∈ texts, ',' ∉ text.toList)
    (h' : ∀ text ∈ texts', ',' ∉ text.toList) (heq : laterEntries texts = laterEntries texts') :
    texts = texts' := by
  induction texts generalizing texts' with
  | nil =>
    cases texts' with
    | nil => rfl
    | cons text' texts' => simp [laterEntries] at heq
  | cons text texts ih =>
    cases texts' with
    | nil => simp [laterEntries] at heq
    | cons text' texts' =>
      rw [List.forall_mem_cons] at h h'
      simp only [laterEntries, List.cons_append, List.cons.injEq, true_and] at heq
      obtain ⟨rfl, hlater⟩ := append_laterEntries_inj h.1 h'.1 heq
      rw [ih h.2 h'.2 hlater]

/-- A listing of texts that are not empty and have no comma is cut into these texts. -/
theorem intercalate_inj {texts texts' : List String}
    (h : ∀ text ∈ texts, text ≠ "" ∧ ',' ∉ text.toList)
    (h' : ∀ text ∈ texts', text ≠ "" ∧ ',' ∉ text.toList)
    (heq : ", ".intercalate texts = ", ".intercalate texts') : texts = texts' := by
  have hnonempty : ∀ {text : String} {texts : List String}, text ≠ "" →
      ", ".intercalate (text :: texts) ≠ "" := by
    intro text texts htext hempty
    rw [← String.toList_eq_nil_iff, toList_intercalate_cons, List.append_eq_nil_iff] at hempty
    exact htext (String.toList_eq_nil_iff.1 hempty.1)
  cases texts with
  | nil =>
    cases texts' with
    | nil => rfl
    | cons text' texts' => exact absurd heq.symm (hnonempty (h' _ List.mem_cons_self).1)
  | cons text texts =>
    cases texts' with
    | nil => exact absurd heq (hnonempty (h _ List.mem_cons_self).1)
    | cons text' texts' =>
      rw [← String.toList_inj, toList_intercalate_cons, toList_intercalate_cons] at heq
      rw [List.forall_mem_cons] at h h'
      obtain ⟨rfl, hlater⟩ := append_laterEntries_inj h.1.2 h'.1.2 heq
      rw [laterEntries_inj (fun t ht => (h.2 t ht).2) (fun t ht => (h'.2 t ht).2) hlater]

/-- A listing shows what each of its entries shows. -/
theorem intercalate_map_eq_iff {α β : Type} {write : α → String} {shown : α → β}
    (hentry : ∀ a, write a ≠ "" ∧ ',' ∉ (write a).toList)
    (hshown : ∀ {a b}, write a = write b ↔ shown a = shown b) {xs ys : List α} :
    ", ".intercalate (xs.map write) = ", ".intercalate (ys.map write) ↔
      xs.map shown = ys.map shown := by
  have hentries : ∀ xs : List α, ∀ text ∈ xs.map write, text ≠ "" ∧ ',' ∉ text.toList := by
    intro xs text htext
    obtain ⟨a, -, rfl⟩ := List.mem_map.1 htext
    exact hentry a
  have hmap : xs.map write = ys.map write ↔ xs.map shown = ys.map shown := by
    induction xs generalizing ys with
    | nil => simp
    | cons x xs ih =>
      cases ys with
      | nil => simp
      | cons y ys => simp only [List.map_cons, List.cons.injEq, hshown, ih]
  rw [← hmap]
  exact ⟨intercalate_inj (hentries xs) (hentries ys), congrArg _⟩

/-! ## Values -/

/-- A number has a text that can stand in a listing. -/
theorem Binary64.journalText_isEntry (x : Binary64) :
    x.journalText ≠ "" ∧ ',' ∉ x.journalText.toList := by
  refine ⟨fun hempty => ?_, x.not_mem_journalText rfl (by decide)⟩
  have hread := x.read?_journalText
  rw [hempty] at hread
  exact Option.some_ne_none _ (hread.symm.trans rfl)

/-! ## Nodes -/

theorem UnaryOp.label_inj {op op' : UnaryOp} (h : op.label = op'.label) : op = op' := by
  rcases op with (_ | _) | (_ | _ | _ | _ | _ | _ | _ | _ | _) <;>
    rcases op' with (_ | _) | (_ | _ | _ | _ | _ | _ | _ | _ | _) <;>
    first | rfl | exact absurd h (by decide)

theorem BinaryOp.label_inj {op op' : BinaryOp} (h : op.label = op'.label) : op = op' := by
  cases op <;> cases op' <;> first | rfl | exact absurd h (by decide)

namespace Node

/-- What a text shows of a node. -/
def shown : Node → Node
  | operand value => operand value.shown
  | unary op => unary op
  | binary op => binary op

/-- The letter with which the label of a node begins, which tells the kinds of nodes apart. -/
def initial : Node → Char
  | operand _ => 'O'
  | unary _ => 'U'
  | binary _ => 'B'

theorem head?_label (node : Node) : node.label.toList.head? = some node.initial := by
  cases node <;>
  · rw [label, String.toList_append, String.toList_append]
    rfl

/-- Nodes have the same label only if they are the same. -/
theorem label_eq_iff {node node' : Node} : node.label = node'.label ↔ node.shown = node'.shown := by
  constructor
  · intro h
    have hinitial : node.initial = node'.initial := by
      rw [← Option.some_inj, ← head?_label, ← head?_label, h]
    cases node with
    | operand value =>
      cases node' with
      | operand value' =>
        simp only [label, String.append_left_inj, String.append_right_inj] at h
        exact congrArg operand (Binary64.journalText_eq_iff.1 h)
      | unary | binary => simp [initial] at hinitial
    | unary op =>
      cases node' with
      | unary op' =>
        simp only [label, String.append_left_inj, String.append_right_inj] at h
        rw [UnaryOp.label_inj h]
      | operand | binary => simp [initial] at hinitial
    | binary op =>
      cases node' with
      | binary op' =>
        simp only [label, String.append_left_inj, String.append_right_inj] at h
        rw [BinaryOp.label_inj h]
      | operand | unary => simp [initial] at hinitial
  · intro h
    have hlabel : ∀ node : Node, node.label = node.shown.label := by
      intro node
      cases node with
      | operand value =>
        have htext := Binary64.journalText_eq_iff.2 value.shown_shown.symm
        rw [shown, label, label, htext]
      | unary | binary => rfl
    rw [hlabel node, hlabel node', h]

/-- The label of a node can stand in a listing. -/
theorem label_isEntry (node : Node) : node.label ≠ "" ∧ ',' ∉ node.label.toList := by
  cases node with
  | operand value =>
    have hcomma := value.journalText_isEntry.2
    simp [label, hcomma]
  | unary op =>
    rcases op with (_ | _) | (_ | _ | _ | _ | _ | _ | _ | _ | _) <;> decide
  | binary op => cases op <;> decide

end Node

/-! ## Failures -/

namespace DomainError

/-- What a text shows of a failure. -/
def shown : DomainError → DomainError
  | divisionByZero => divisionByZero
  | outOfDomain function argument => outOfDomain function argument.shown
  | invalidPower base exponent => invalidPower base.shown exponent.shown

/-- The message of a failure up to its first blank. -/
def firstWord : DomainError → List Char
  | divisionByZero => "division".toList
  | outOfDomain function _ => function.label.toList
  | invalidPower base _ => base.plainText.toList

/-- The message of a failure behind its first blank, which tells the kinds of failures apart. -/
def otherWords : DomainError → List Char
  | divisionByZero => 'b' :: "y zero".toList
  | outOfDomain _ argument => 'i' :: ("s undefined for ".toList ++ argument.plainText.toList)
  | invalidPower _ exponent => '^' :: ' ' :: (exponent.plainText.toList ++ " is undefined".toList)

theorem toList_message (error : DomainError) :
    error.message.toList = error.firstWord ++ ' ' :: error.otherWords := by
  cases error with
  | divisionByZero => rfl
  | outOfDomain function argument =>
    dsimp only [message, firstWord, otherWords]
    rw [String.toList_append, String.toList_append, List.append_assoc]
    rfl
  | invalidPower base exponent =>
    dsimp only [message, firstWord, otherWords]
    rw [String.toList_append, String.toList_append, String.toList_append, List.append_assoc,
      List.append_assoc]
    rfl

theorem space_not_mem_firstWord (error : DomainError) : ' ' ∉ error.firstWord := by
  cases error with
  | divisionByZero => decide
  | outOfDomain function argument =>
    dsimp only [firstWord]
    cases function <;> decide
  | invalidPower base exponent => exact base.not_mem_plainText rfl (by decide)

/-- Failures have the same message only if they are the same. -/
theorem message_eq_iff {error error' : DomainError} :
    error.message = error'.message ↔ error.shown = error'.shown := by
  constructor
  · intro h
    have hlists := congrArg String.toList h
    rw [toList_message, toList_message] at hlists
    obtain ⟨hfirst, hothers⟩ := append_cons_inj error.space_not_mem_firstWord
      error'.space_not_mem_firstWord hlists
    cases error with
    | divisionByZero =>
      cases error' with
      | divisionByZero => rfl
      | outOfDomain | invalidPower => cases hothers
    | outOfDomain function argument =>
      cases error' with
      | outOfDomain function' argument' =>
        have hfunction : UnaryOp.function function = .function function' :=
          UnaryOp.label_inj (String.toList_inj.1 hfirst)
        have hargument := Binary64.plainText_eq_iff.1
          (String.toList_inj.1 (List.append_cancel_left (List.tail_eq_of_cons_eq hothers)))
        rw [shown, shown, UnaryOp.function.inj hfunction, hargument]
      | divisionByZero | invalidPower => cases hothers
    | invalidPower base exponent =>
      cases error' with
      | invalidPower base' exponent' =>
        have hbase := Binary64.plainText_eq_iff.1 (String.toList_inj.1 hfirst)
        have htail := List.tail_eq_of_cons_eq (List.tail_eq_of_cons_eq hothers)
        have hexponent := Binary64.plainText_eq_iff.1
          (String.toList_inj.1 (List.append_cancel_right htail))
        rw [shown, shown, hbase, hexponent]
      | divisionByZero | outOfDomain => cases hothers
  · intro h
    have hmessage : ∀ error : DomainError, error.message = error.shown.message := by
      intro error
      have htext (x : Binary64) := Binary64.plainText_eq_iff.2 x.shown_shown.symm
      cases error with
      | divisionByZero => rfl
      | outOfDomain function argument => rw [shown, message, message, htext argument]
      | invalidPower base exponent => rw [shown, message, message, htext base, htext exponent]
    rw [hmessage error, hmessage error', h]

end DomainError

end PostfixCalc
