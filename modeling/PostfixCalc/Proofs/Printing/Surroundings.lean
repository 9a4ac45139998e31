import PostfixCalc.Proofs.Conversion.Steps
import PostfixCalc.Proofs.Grammar.Sequences
import PostfixCalc.Proofs.Printing.Parentheses

/-!
# Tokens around an operand

The text in front of an operand and the text behind it are split into the same tokens whatever the
operand is, and the whole is an expression whenever the operand is one.  This holds for the text of
a single frame, for a pair of parentheses, and so for all that is printed around an operand deep
inside a tree.

Main results:

- `Surrounds.comp`: surroundings of surroundings are surroundings.
- `Frame.exists_surrounds`: the tokens of a frame around its operand.
- `Wraps.exists_surrounds`: the tokens around a pair of parentheses stay the same when it is taken
  out.
-/

namespace PostfixCalc

/-! ## Surroundings -/

/-- Texts in front of an operand and behind it, and the tokens that they are split into.  The whole
is an expression whatever expression the operand is. -/
structure Surrounds (front back : List Char) (lead trail : List Token) : Prop where
  spells {text : List Char} {tokens : List Token} (h : Lexing.Spells text tokens) :
    Lexing.Spells (front ++ text ++ back) (lead ++ tokens ++ trail)
  isExpression {tokens : List Token} (h : IsExpression tokens) :
    IsExpression (lead ++ tokens ++ trail)
  admits : ∀ last ∈ lead.getLast?, ∃ entry, last.toPending? = some entry ∧ entry.precedence < 6

namespace Surrounds

/-- Nothing surrounds an operand that stands by itself. -/
theorem nil : Surrounds [] [] [] [] where
  spells h := by simpa using h
  isExpression h := by simpa using h
  admits := nofun

/-- What surrounds an operand that surrounds another one surrounds this one. -/
theorem comp {front front' back back' : List Char} {lead lead' trail trail' : List Token}
    (outer : Surrounds front back lead trail) (inner : Surrounds front' back' lead' trail') :
    Surrounds (front ++ front') (back' ++ back) (lead ++ lead') (trail' ++ trail) where
  spells h := by simpa [List.append_assoc] using outer.spells (inner.spells h)
  isExpression h := by simpa [List.append_assoc] using outer.isExpression (inner.isExpression h)
  admits := by
    intro last hlast
    rw [List.getLast?_append] at hlast
    cases hinner : lead'.getLast? with
    | none =>
      rw [hinner, Option.none_or] at hlast
      exact outer.admits last hlast
    | some found =>
      rw [hinner, Option.some_or, Option.mem_some_iff] at hlast
      exact inner.admits last (hlast ▸ hinner)

/-- The tokens of the whole text are those around the operand and its own. -/
theorem tokensAfter_eq {front back text : List Char} {lead trail tokens : List Token}
    (h : Surrounds front back lead trail) (htext : Lexing.Spells text tokens) :
    Lexing.tokensAfter none (front ++ text ++ back) = lead ++ (tokens ++ trail) := by
  rw [(h.spells htext).tokensAfter_eq, List.append_assoc]

/-- Parentheses around the text of the operand are tokens by themselves. -/
theorem tokensAfter_group {front back text : List Char} {lead trail tokens : List Token}
    (h : Surrounds front back lead trail) (htext : Lexing.Spells text tokens) :
    Lexing.tokensAfter none (front ++ '(' :: (text ++ ')' :: back)) =
      lead ++ .openParen :: (tokens ++ .closeParen :: trail) := by
  simpa using h.tokensAfter_eq htext.group

/-- Parentheses around an operand. -/
theorem group : Surrounds ['('] [')'] [.openParen] [.closeParen] where
  spells h := h.group
  isExpression h := h.group
  admits := by
    intro last hlast
    rw [List.getLast?_singleton, Option.mem_some_iff] at hlast
    exact ⟨.openParen, hlast ▸ rfl, by decide⟩

theorem call (f : NamedFunction) :
    Surrounds (f.name.toList ++ ['(']) [')'] [.function f.name, .openParen] [.closeParen] where
  spells h := by simpa using h.call f
  isExpression h := h.call f.name
  admits := by
    intro last hlast
    obtain rfl : .openParen = last := by simpa using hlast
    exact ⟨.openParen, rfl, by decide⟩

theorem sign (s : Sign) : Surrounds s.symbol.toList [] [.sign s.symbol] [] where
  spells h := by simpa using h.sign s
  isExpression h := by simpa using h.sign s
  admits := by
    intro last hlast
    rw [List.getLast?_singleton, Option.mem_some_iff] at hlast
    rw [← hlast]
    exact ⟨.sign s, Token.toPending?_sign s, Nat.lt_succ_self 5⟩

/-- An operator and its right operand behind the left one. -/
theorem left (op : BinaryOp) {text : List Char} {tokens : List Token}
    (hspells : Lexing.Spells text tokens) (hexpression : IsExpression tokens) :
    Surrounds [] (' ' :: (op.symbol.toList ++ ' ' :: text)) [] (.operator op.symbol :: tokens) where
  spells h := by simpa using h.binary op hspells
  isExpression h := by
    obtain ⟨f, hf⟩ := h
    exact hf.between (op.mem_binaryOperators) hexpression
  admits := nofun

/-- An operator and its left operand in front of the right one. -/
theorem right (op : BinaryOp) {text : List Char} {tokens : List Token}
    (hspells : Lexing.Spells text tokens) (hexpression : IsExpression tokens) :
    Surrounds (text ++ ' ' :: (op.symbol.toList ++ [' '])) []
      (tokens ++ [.operator op.symbol]) [] where
  spells h := by simpa using hspells.binary op h
  isExpression h := by
    obtain ⟨f, hf⟩ := hexpression
    simpa using hf.between (op.mem_binaryOperators) h
  admits := by
    intro last hlast
    rw [List.getLast?_append, List.getLast?_singleton, Option.some_or, Option.mem_some_iff] at hlast
    rw [← hlast]
    exact ⟨.binary op, Token.toPending?_operator op, by cases op <;> decide⟩

end Surrounds

/-! ## Frames -/

namespace Frame

/-- The least strength of an operand that needs no parentheses in a frame. -/
def least : Frame → Nat
  | function _ => 0
  | sign _ => 5
  | left op _ => op.leastLeft
  | right op _ => op.leastRight

/-- An operand that gets no parentheses is strong enough. -/
theorem least_le_of_not_parenthesizes {frame : Frame} {operand : Expr}
    (h : ¬frame.parenthesizes operand = true) : frame.least ≤ operand.binding.strength := by
  cases frame with
  | function f => exact Nat.zero_le _
  | sign s =>
    simp only [parenthesizes, Bool.or_eq_true, not_or, decide_eq_true_eq] at h
    exact Nat.le_of_not_lt h.1
  | left op other | right op other =>
    simp only [parenthesizes, decide_eq_true_eq] at h
    exact Nat.le_of_not_lt h

/-- Parentheses make an operand strong enough. -/
theorem derives_operand {frame : Frame} {operand : Expr} {tokens : List Token}
    (h : Derives (.ofStrength operand.binding.strength) tokens operand.formula) :
    Derives (.ofStrength frame.least)
      (if frame.parenthesizes operand = true then .openParen :: (tokens ++ [.closeParen])
        else tokens) operand.formula := by
  split
  · exact (Derives.group h.sum_of_ofStrength).ofStrength_of_atom frame.least
  · rename_i hparens
    exact h.loosen (least_le_of_not_parenthesizes hparens)

/-- The text of an operand in its frame is split into tokens of an operand that is strong enough. -/
theorem exists_spells (frame : Frame) (operand : Expr) :
    ∃ tokens, Derives (.ofStrength frame.least) tokens operand.formula ∧
      Lexing.Spells (frame.operandText operand) tokens := by
  obtain ⟨tokens, hderives, hspells⟩ := operand.writes
  refine ⟨_, derives_operand hderives, ?_⟩
  unfold operandText
  split
  · exact hspells.group
  · exact hspells

/-- The operator of a frame stands next to the operand. -/
def Adjoins (lead trail : List Token) : Frame → Prop
  | function _ => True
  | sign s => lead.getLast? = some (.sign s.symbol)
  | left op _ => trail.head? = some (.operator op.symbol)
  | right op _ => lead.getLast? = some (.operator op.symbol)

/-- The tokens of a frame surround its operand, and their operator stands next to it.  Any operand
that is strong enough may be put in. -/
theorem exists_surrounds (frame : Frame) :
    ∃ lead trail, Surrounds frame.front frame.back lead trail ∧ frame.Adjoins lead trail ∧
      ∀ {operand tokens}, Derives (.ofStrength frame.least) tokens operand.formula →
        Derives (.ofStrength (frame.fill operand).binding.strength) (lead ++ tokens ++ trail)
          (frame.fill operand).formula := by
  cases frame with
  | function f =>
    exact ⟨_, _, .call f, trivial, fun h => .call f.name h⟩
  | sign s =>
    refine ⟨_, _, .sign s, rfl, fun h => ?_⟩
    rw [List.append_nil]
    exact .sign s h
  | left op other =>
    obtain ⟨tokens, hderives, hspells⟩ := (Frame.right op other).exists_spells other
    refine ⟨_, _, .left op hspells ⟨_, hderives.sum_of_ofStrength⟩, rfl, fun h => ?_⟩
    exact .binary op h hderives
  | right op other =>
    obtain ⟨tokens, hderives, hspells⟩ := (Frame.left op other).exists_spells other
    refine ⟨_, _, .right op hspells ⟨_, hderives.sum_of_ofStrength⟩, ?_, fun h => ?_⟩
    · simp [Adjoins]
    · rw [List.append_nil, List.append_assoc]
      exact .binary op hderives h

/-- What is next to an operand is so whatever stands further out. -/
theorem Adjoins.comp {frame : Frame} {lead trail : List Token} (h : frame.Adjoins lead trail)
    (lead' trail' : List Token) : frame.Adjoins (lead' ++ lead) (trail ++ trail') := by
  cases frame with
  | function f => exact trivial
  | sign s | right op other =>
    simp only [Adjoins] at h ⊢
    rw [List.getLast?_append, h]
    rfl
  | left op other =>
    simp only [Adjoins] at h ⊢
    rw [List.head?_append, h]
    rfl

end Frame

/-- Optional parentheses surround an operand like any others. -/
theorem Surrounds.groupIf (condition : Bool) :
    Surrounds (if condition = true then ['('] else []) (if condition = true then [')'] else [])
      (if condition = true then [.openParen] else [])
      (if condition = true then [.closeParen] else []) := by
  split
  · exact .group
  · exact .nil

/-- The tokens around a pair of parentheses that a frame put around its operand.  The operator of
the frame stands next to it, and the whole is the same expression whether the operand is in
parentheses or not, if it is strong enough. -/
theorem Wraps.exists_surrounds {e operand : Expr} {frame : Frame} {front back : List Char}
    (h : Wraps e frame operand front back) :
    ∃ lead trail, Surrounds front back lead trail ∧ frame.Adjoins lead trail ∧
      ∀ {tokens}, Derives (.ofStrength frame.least) tokens operand.formula →
        Derives (.ofStrength e.binding.strength) (lead ++ tokens ++ trail) e.formula := by
  induction h with
  | @here frame operand _ =>
    obtain ⟨lead, trail, hsurrounds, hadjoins, hderives⟩ := frame.exists_surrounds
    exact ⟨lead, trail, hsurrounds, hadjoins, hderives⟩
  | @inside outer e frame operand front back _ ih =>
    obtain ⟨lead, trail, hsurrounds, hadjoins, hderives⟩ := ih
    obtain ⟨lead', trail', hsurrounds', -, hderives'⟩ := outer.exists_surrounds
    have hparens := Surrounds.groupIf (outer.parenthesizes e)
    refine ⟨_, _, hsurrounds'.comp (hparens.comp hsurrounds), ?_, fun htokens => ?_⟩
    · exact (hadjoins.comp _ _).comp _ _
    · have hwhole := hderives' (Frame.derives_operand (hderives htokens))
      split
      · rename_i hparens
        rw [if_pos hparens] at hwhole
        simpa [List.append_assoc] using hwhole
      · rename_i hparens
        rw [if_neg hparens] at hwhole
        simpa [List.append_assoc] using hwhole

end PostfixCalc
