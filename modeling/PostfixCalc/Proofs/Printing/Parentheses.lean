import PostfixCalc.Proofs.Grammar.Printing

/-!
# The parentheses of a printed expression

An operand is printed in the frame of an operator or a function: the other operands and the operator
stand in front of it and behind it.  The frame decides whether it puts the operand in parentheses.
Every pair of parentheses in the text of a tree is that of a call, or was put around an operand by
the frame of this operand.

Main results:

- `Frame.toText_fill`: the text of an operand stands inside the text of its frame.
- `Wraps.toText`: where a pair that was put around an operand stands in the text.
- `Expr.exists_wraps`: every pair that is not that of a call was put around an operand.
-/

namespace PostfixCalc

/-! ## Balanced texts -/

/-- Every opening parenthesis of a text has a closing one, and every closing one an opening one. -/
inductive Balanced : List Char → Prop
  | nil : Balanced []
  | char {c : Char} {rest : List Char} (hopen : c ≠ '(') (hclose : c ≠ ')') (h : Balanced rest) :
      Balanced (c :: rest)
  | group {inside rest : List Char} (hinside : Balanced inside) (hrest : Balanced rest) :
      Balanced ('(' :: (inside ++ ')' :: rest))

namespace Balanced

theorem append {left right : List Char} (hleft : Balanced left) (hright : Balanced right) :
    Balanced (left ++ right) := by
  induction hleft with
  | nil => exact hright
  | char hopen hclose _ ih => exact .char hopen hclose ih
  | group hinside _ _ ih =>
    rw [List.cons_append, List.append_assoc, List.cons_append]
    exact .group hinside ih

/-- A text without parentheses is balanced. -/
theorem of_not_mem {text : List Char} (hopen : '(' ∉ text) (hclose : ')' ∉ text) :
    Balanced text := by
  induction text with
  | nil => exact .nil
  | cons c text ih =>
    rw [List.mem_cons, not_or] at hopen hclose
    exact .char (Ne.symm hopen.1) (Ne.symm hclose.1) (ih hopen.2 hclose.2)

/-- A text in parentheses is balanced. -/
theorem parens {text : List Char} (h : Balanced text) : Balanced ('(' :: (text ++ [')'])) :=
  .group h .nil

/-- The closing parenthesis that belongs to an opening one is the first with a balanced text in
front of it. -/
theorem unique {inside inside' back back' : List Char} (h : Balanced inside)
    (h' : Balanced inside') (heq : inside ++ ')' :: back = inside' ++ ')' :: back') :
    inside = inside' ∧ back = back' := by
  induction h generalizing inside' back back' with
  | nil =>
    cases h' with
    | nil => exact ⟨rfl, (List.cons.inj heq).2⟩
    | char _ hclose _ => exact absurd (List.cons.inj heq).1.symm hclose
    | group => exact absurd (List.cons.inj heq).1 (by decide)
  | char hopen hclose _ ih =>
    cases h' with
    | nil => exact absurd (List.cons.inj heq).1 hclose
    | char _ _ hrest =>
      obtain ⟨rfl, hback⟩ := ih hrest (List.cons.inj heq).2
      exact ⟨by rw [(List.cons.inj heq).1], hback⟩
    | group => exact absurd (List.cons.inj heq).1 hopen
  | group _ _ ihinside ihrest =>
    cases h' with
    | nil => exact absurd (List.cons.inj heq).1 (by decide)
    | char hopen _ _ => exact absurd (List.cons.inj heq).1.symm hopen
    | group hinside hrest =>
      simp only [List.cons_append, List.append_assoc, List.cons.injEq, true_and] at heq
      obtain ⟨rfl, hlater⟩ := ihinside hinside heq
      obtain ⟨rfl, hback⟩ := ihrest hrest hlater
      exact ⟨rfl, hback⟩

/-- A pair of a text that begins with a balanced one stands in this one or behind it. -/
theorem locate {left right front inside back : List Char} (hleft : Balanced left)
    (hinside : Balanced inside) (heq : left ++ right = front ++ '(' :: (inside ++ ')' :: back)) :
    (∃ back', left = front ++ '(' :: (inside ++ ')' :: back') ∧ back = back' ++ right) ∨
    (∃ front', front = left ++ front' ∧ right = front' ++ '(' :: (inside ++ ')' :: back)) := by
  induction hleft generalizing front right with
  | nil => exact Or.inr ⟨front, rfl, heq⟩
  | char hopen _ _ ih =>
    cases front with
    | nil => exact absurd (List.cons.inj heq).1 hopen
    | cons d front =>
      obtain ⟨rfl, htail⟩ := List.cons.inj heq
      rcases ih htail with ⟨back', rfl, hback⟩ | ⟨front', rfl, hright⟩
      · exact Or.inl ⟨back', rfl, hback⟩
      · exact Or.inr ⟨front', rfl, hright⟩
  | @group within rest hwithin _ ihwithin ihrest =>
    simp only [List.cons_append, List.append_assoc] at heq
    cases front with
    | nil =>
      obtain ⟨rfl, hback⟩ := unique hwithin hinside (List.cons.inj heq).2
      exact Or.inl ⟨rest, rfl, hback.symm⟩
    | cons d front =>
      obtain ⟨rfl, htail⟩ := List.cons.inj heq
      rcases ihwithin htail with ⟨back', rfl, rfl⟩ | ⟨front', rfl, hlater⟩
      · exact Or.inl ⟨back' ++ ')' :: rest, by simp, by simp⟩
      · cases front' with
        | nil => exact absurd (List.cons.inj hlater).1 (by decide)
        | cons d front' =>
          obtain ⟨rfl, hlast⟩ := List.cons.inj hlater
          rcases ihrest hlast with ⟨back', rfl, rfl⟩ | ⟨front', rfl, hright⟩
          · exact Or.inl ⟨back', by simp, rfl⟩
          · exact Or.inr ⟨front', by simp, hright⟩

end Balanced

/-- A pair of parentheses of a text that belong together, given by what is in front of it, inside
and behind.  The name of a function in front of it would make it the pair of a call. -/
structure Groups (text front inside back : List Char) : Prop where
  split : text = front ++ '(' :: (inside ++ ')' :: back)
  balanced : Balanced inside
  grouping (f : NamedFunction) : ¬f.name.toList <:+ front

namespace Groups

variable {left right front inside back : List Char}

/-- A pair of a text that begins with a balanced one is a pair of this one or of what is behind. -/
theorem within_or_behind (hleft : Balanced left) (h : Groups (left ++ right) front inside back) :
    (∃ back', Groups left front inside back' ∧ back = back' ++ right) ∨
    (∃ front', front = left ++ front' ∧ Groups right front' inside back) := by
  obtain ⟨hsplit, hbalanced, hgrouping⟩ := h
  rcases hleft.locate hbalanced hsplit with ⟨back', hleft', hback⟩ | ⟨front', rfl, hright⟩
  · exact Or.inl ⟨back', ⟨hleft', hbalanced, hgrouping⟩, hback⟩
  · refine Or.inr ⟨front', rfl, hright, hbalanced, fun f hf => hgrouping f ?_⟩
    exact hf.trans (List.suffix_append left front')

/-- No pair begins in a text without parentheses. -/
theorem behind (hopen : '(' ∉ left) (hclose : ')' ∉ left)
    (h : Groups (left ++ right) front inside back) :
    ∃ front', front = left ++ front' ∧ Groups right front' inside back := by
  rcases within_or_behind (.of_not_mem hopen hclose) h with ⟨back', hleft, -⟩ | hright
  · refine absurd ?_ hopen
    rw [hleft.split]
    simp
  · exact hright

/-- A pair of a text in parentheses is the outermost one or stands inside it. -/
theorem outermost_or_inside {text : List Char} (htext : Balanced text)
    (h : Groups ('(' :: (text ++ [')'])) front inside back) :
    (front = [] ∧ inside = text ∧ back = []) ∨
    (∃ front' back', front = '(' :: front' ∧ Groups text front' inside back' ∧
      back = back' ++ [')']) := by
  obtain ⟨hsplit, hbalanced, hgrouping⟩ := h
  cases front with
  | nil =>
    obtain ⟨rfl, hback⟩ := htext.unique hbalanced (List.cons.inj hsplit).2
    exact Or.inl ⟨rfl, rfl, hback.symm⟩
  | cons c front =>
    obtain ⟨rfl, htail⟩ := List.cons.inj hsplit
    right
    have hinner : Groups (text ++ [')']) front inside back := by
      refine ⟨htail, hbalanced, fun f hf => hgrouping f ?_⟩
      exact hf.trans (List.suffix_cons '(' front)
    rcases within_or_behind htext hinner with ⟨back', hwithin, hback⟩ | ⟨front', -, hlast⟩
    · exact ⟨front, back', rfl, hwithin, hback⟩
    · -- Only a closing parenthesis is left behind the text.
      have hmem : '(' ∈ [')'] := by
        rw [hlast.split]
        simp
      exact absurd hmem (by decide)

end Groups

/-! ## Frames -/

/-- An operator or a function with all of its operands but one. -/
inductive Frame where
  | function (f : NamedFunction)
  | sign (s : Sign)
  /-- The right operand is there, and the left one is left out. -/
  | left (op : BinaryOp) (right : Expr)
  /-- The left operand is there, and the right one is left out. -/
  | right (op : BinaryOp) (left : Expr)

namespace Frame

/-- The tree of a frame with its operand. -/
def fill : Frame → Expr → Expr
  | function f, operand => .unary (.function f) operand
  | sign s, operand => .unary (.sign s) operand
  | left op other, operand => .binary op operand other
  | right op other, operand => .binary op other operand

/-- The frame puts its operand in parentheses when it is printed. -/
def parenthesizes : Frame → Expr → Bool
  | function _, _ => false
  | sign s, operand =>
    decide (operand.binding.strength < 5) ||
      (s == .minus && operand.toText.toList.head? == some '-')
  | left op _, operand => decide (operand.binding.strength < op.leastLeft)
  | right op _, operand => decide (operand.binding.strength < op.leastRight)

/-- The text of an operand in its frame, with parentheses if the frame puts them. -/
def operandText (frame : Frame) (operand : Expr) : List Char :=
  if frame.parenthesizes operand then '(' :: (operand.toText.toList ++ [')'])
  else operand.toText.toList

/-- The text in front of the operand. -/
def front : Frame → List Char
  | function f => f.name.toList ++ ['(']
  | sign s => s.symbol.toList
  | left _ _ => []
  | right op other => (left op other).operandText other ++ ' ' :: (op.symbol.toList ++ [' '])

/-- The text behind the operand. -/
def back : Frame → List Char
  | function _ => [')']
  | sign _ => []
  | left op other => ' ' :: (op.symbol.toList ++ ' ' :: (right op other).operandText other)
  | right _ _ => []

/-- The text of an operand stands inside the text of its frame. -/
theorem toText_fill (frame : Frame) (operand : Expr) :
    (frame.fill operand).toText.toList =
      frame.front ++ frame.operandText operand ++ frame.back := by
  have htext : ∀ (condition : Bool) (text : String),
      (Expr.parenthesizeIf condition text).toList =
        if condition = true then '(' :: (text.toList ++ [')']) else text.toList := by
    intro condition text
    unfold Expr.parenthesizeIf
    split <;> simp
  cases frame with
  | function f => simp [fill, Expr.toText, front, back, operandText, parenthesizes]
  | sign s => simp [fill, Expr.toText, front, back, operandText, parenthesizes, htext]
  | left op other | right op other =>
    simp only [fill, Expr.toText, String.toList_append, htext, front, back, operandText,
      parenthesizes, BinaryOp.leastLeft, BinaryOp.leastRight, List.append_assoc, List.nil_append,
      List.append_nil]
    simp only [String.reduceToList, List.cons_append, List.nil_append, List.append_assoc]
    rfl

end Frame

/-- In the text of a tree there is a pair of parentheses that a frame puts around its operand, given
by the frame, the operand, and what is in front of the pair and behind it. -/
inductive Wraps : Expr → Frame → Expr → List Char → List Char → Prop
  /-- The outermost frame puts it. -/
  | here {frame : Frame} {operand : Expr} (h : frame.parenthesizes operand = true) :
      Wraps (frame.fill operand) frame operand frame.front frame.back
  /-- The pair stands in the operand of the outermost frame, which has parentheses or not. -/
  | inside (outer : Frame) {e : Expr} {frame : Frame} {operand : Expr} {front back : List Char}
      (h : Wraps e frame operand front back) :
      Wraps (outer.fill e) frame operand
        (outer.front ++ ((if outer.parenthesizes e then ['('] else []) ++ front))
        (back ++ (if outer.parenthesizes e then [')'] else []) ++ outer.back)

/-- Such a pair stands around the text of the operand. -/
theorem Wraps.toText {e operand : Expr} {frame : Frame} {front back : List Char}
    (h : Wraps e frame operand front back) :
    e.toText.toList = front ++ '(' :: (operand.toText.toList ++ ')' :: back) := by
  induction h with
  | here hparens => simp [Frame.toText_fill, Frame.operandText, hparens]
  | inside outer _ ih =>
    rw [Frame.toText_fill, Frame.operandText, ih]
    split <;> simp

/-! ## All parentheses of a text -/

/-- If the text of an operand is balanced, so is its text in a frame. -/
theorem Frame.balanced_operandText (frame : Frame) {operand : Expr}
    (h : Balanced operand.toText.toList) : Balanced (frame.operandText operand) := by
  unfold operandText
  split
  · exact h.parens
  · exact h

/-- If a frame was found for every pair of an operand, one is found for every pair of its text in a
frame. -/
theorem Wraps.exists_of_operandText (outer : Frame) {e : Expr}
    (hoperand : ∀ {front inside back}, Groups e.toText.toList front inside back →
      ∃ frame operand, Wraps e frame operand front back ∧ inside = operand.toText.toList)
    (hbalanced : Balanced e.toText.toList) {front inside back : List Char}
    (h : Groups (outer.operandText e) front inside back) :
    ∃ frame operand, Wraps (outer.fill e) frame operand (outer.front ++ front)
      (back ++ outer.back) ∧ inside = operand.toText.toList := by
  rw [Frame.operandText] at h
  split at h
  · rename_i hparens
    rcases h.outermost_or_inside hbalanced with
      ⟨rfl, hinside, rfl⟩ | ⟨front', back', rfl, hpair, rfl⟩
    · refine ⟨outer, e, ?_, hinside⟩
      rw [List.append_nil, List.nil_append]
      exact .here hparens
    · obtain ⟨frame, operand, hwraps, hinside⟩ := hoperand hpair
      refine ⟨frame, operand, ?_, hinside⟩
      have hwhole := hwraps.inside outer
      rw [if_pos hparens, if_pos hparens] at hwhole
      simpa using hwhole
  · rename_i hparens
    obtain ⟨frame, operand, hwraps, hinside⟩ := hoperand h
    refine ⟨frame, operand, ?_, hinside⟩
    have hwhole := hwraps.inside outer
    rw [if_neg hparens, if_neg hparens] at hwhole
    simpa using hwhole

/-- The text of an operator has no parentheses. -/
theorem BinaryOp.not_mem_symbol (op : BinaryOp) :
    '(' ∉ ' ' :: (op.symbol.toList ++ [' ']) ∧ ')' ∉ ' ' :: (op.symbol.toList ++ [' ']) := by
  cases op <;> decide

/-- The text of a sign has no parentheses. -/
theorem Sign.not_mem_symbol (s : Sign) : '(' ∉ s.symbol.toList ∧ ')' ∉ s.symbol.toList := by
  cases s <;> decide

/-- The name of a function has no parentheses. -/
theorem NamedFunction.not_mem_name (f : NamedFunction) :
    '(' ∉ f.name.toList ∧ ')' ∉ f.name.toList := by
  cases f <;> decide

namespace Expr

/-- The text of a call. -/
theorem toText_call (f : NamedFunction) (argument : Expr) :
    (unary (.function f) argument).toText.toList =
      f.name.toList ++ '(' :: (argument.toText.toList ++ [')']) := by
  simp [toText]

/-- The text of a sign and its operand. -/
theorem toText_sign (s : Sign) (argument : Expr) :
    (unary (.sign s) argument).toText.toList =
      s.symbol.toList ++ (Frame.sign s).operandText argument := by
  have htext := (Frame.sign s).toText_fill argument
  rwa [Frame.back, List.append_nil] at htext

/-- The text of two operands with an operator between them. -/
theorem toText_binary (op : BinaryOp) (left right : Expr) :
    (binary op left right).toText.toList =
      (Frame.left op right).operandText left ++
        (' ' :: (op.symbol.toList ++ [' ']) ++ (Frame.right op left).operandText right) := by
  refine ((Frame.left op right).toText_fill left).trans ?_
  simp [Frame.front, Frame.back]
  rfl

/-- The text of a tree is balanced. -/
theorem balanced_toText (e : Expr) : Balanced e.toText.toList := by
  induction e with
  | operand value =>
    exact .of_not_mem (value.not_mem_plainText rfl (by decide))
      (value.not_mem_plainText rfl (by decide))
  | unary op argument ih =>
    cases op with
    | function f =>
      obtain ⟨hopen, hclose⟩ := f.not_mem_name
      rw [toText_call]
      exact (Balanced.of_not_mem hopen hclose).append ih.parens
    | sign s =>
      obtain ⟨hopen, hclose⟩ := s.not_mem_symbol
      rw [toText_sign]
      exact (Balanced.of_not_mem hopen hclose).append ((Frame.sign s).balanced_operandText ih)
  | binary op left right ihl ihr =>
    obtain ⟨hopen, hclose⟩ := op.not_mem_symbol
    rw [toText_binary]
    exact ((Frame.left op right).balanced_operandText ihl).append
      ((Balanced.of_not_mem hopen hclose).append ((Frame.right op left).balanced_operandText ihr))

/-- Every pair of parentheses in the text of a tree that is not that of a call was put around the
text of an operand by its frame. -/
theorem exists_wraps {e : Expr} {front inside back : List Char}
    (h : Groups e.toText.toList front inside back) :
    ∃ frame operand, Wraps e frame operand front back ∧ inside = operand.toText.toList := by
  induction e generalizing front inside back with
  | operand value =>
    have hopen : '(' ∉ value.plainText.toList := value.not_mem_plainText rfl (by decide)
    refine absurd ?_ hopen
    have hsplit := h.split
    rw [toText] at hsplit
    rw [hsplit]
    simp
  | unary op argument ih =>
    cases op with
    | function f =>
      obtain ⟨hopen, hclose⟩ := f.not_mem_name
      have hgrouping := h.grouping
      rw [toText_call] at h
      obtain ⟨front', rfl, hpair⟩ := h.behind hopen hclose
      rcases hpair.outermost_or_inside argument.balanced_toText with
        ⟨rfl, -, -⟩ | ⟨front', back', rfl, hinner, rfl⟩
      · -- This is the pair of the call.
        rw [List.append_nil] at hgrouping
        exact absurd (List.suffix_refl f.name.toList) (hgrouping f)
      · obtain ⟨frame, operand, hwraps, hinside⟩ := ih hinner
        refine ⟨frame, operand, ?_, hinside⟩
        have hwhole := hwraps.inside (.function f)
        simpa [Frame.parenthesizes, Frame.front, Frame.back, Frame.fill] using hwhole
    | sign s =>
      obtain ⟨hopen, hclose⟩ := s.not_mem_symbol
      rw [toText_sign] at h
      obtain ⟨front', rfl, hpair⟩ := h.behind hopen hclose
      have hwraps := Wraps.exists_of_operandText (.sign s) ih argument.balanced_toText hpair
      simpa [Frame.front, Frame.back, Frame.fill] using hwraps
  | binary op left right ihl ihr =>
    obtain ⟨hopen, hclose⟩ := op.not_mem_symbol
    rw [toText_binary] at h
    rcases h.within_or_behind ((Frame.left op right).balanced_operandText left.balanced_toText) with
      ⟨back', hpair, rfl⟩ | ⟨front', rfl, hbehind⟩
    · have hback : ' ' :: (op.symbol.toList ++ [' ']) ++ (Frame.right op left).operandText right =
          (Frame.left op right).back := by
        rw [List.cons_append, List.append_assoc]
        rfl
      rw [hback]
      exact Wraps.exists_of_operandText (.left op right) ihl left.balanced_toText hpair
    · obtain ⟨front', rfl, hpair⟩ := hbehind.behind hopen hclose
      have hwraps := Wraps.exists_of_operandText (.right op left) ihr right.balanced_toText hpair
      simp only [Frame.back, List.append_nil] at hwraps
      rw [← List.append_assoc]
      exact hwraps

end Expr

end PostfixCalc
