import PostfixCalc.Expr.Printing
import PostfixCalc.Proofs.Grammar.Basic
import PostfixCalc.Proofs.Lexing.Spelling

/-!
# What the text of a tree derives from

The text of a tree is split into tokens that the grammar derives, in the category that the binding
strength of the tree stands for.  A negative number is printed like a sign in front of its
magnitude, and infinities and non-numbers are printed as words.

Main results:

- `Derives.loosen`: what binds strongly can stand where less is asked for.
- `Writes.parenthesizeIf`: parentheses make up for a strength that is missing.
- `Expr.writes`: the text of a tree derives from the category of its strength.
-/

namespace PostfixCalc

/-! ## Categories by strength -/

/-- The loosest category whose expressions hold together with a given strength. -/
def Category.ofStrength (strength : Nat) : Category :=
  if strength ≤ 2 then .sum
  else if strength ≤ 3 then .product
  else if strength ≤ 5 then .signed
  else .atom

namespace Derives

variable {strength bound : Nat} {tokens : List Token} {f : Formula}

theorem atom_of_ofStrength (hstrength : 5 < strength)
    (h : Derives (.ofStrength strength) tokens f) : Derives .atom tokens f := by
  rwa [Category.ofStrength, if_neg (by omega), if_neg (by omega), if_neg (by omega)] at h

theorem signed_of_ofStrength (hstrength : 3 < strength)
    (h : Derives (.ofStrength strength) tokens f) : Derives .signed tokens f := by
  by_cases hatom : 5 < strength
  · exact .signedOfPower (.powerOfAtom (atom_of_ofStrength hatom h))
  · rwa [Category.ofStrength, if_neg (by omega), if_neg (by omega), if_pos (by omega)] at h

theorem product_of_ofStrength (hstrength : 2 < strength)
    (h : Derives (.ofStrength strength) tokens f) : Derives .product tokens f := by
  by_cases hsigned : 3 < strength
  · exact .productOfSigned (signed_of_ofStrength hsigned h)
  · rwa [Category.ofStrength, if_neg (by omega), if_pos (by omega)] at h

theorem sum_of_ofStrength (h : Derives (.ofStrength strength) tokens f) :
    Derives .sum tokens f := by
  by_cases hproduct : 2 < strength
  · exact .sumOfProduct (product_of_ofStrength hproduct h)
  · rwa [Category.ofStrength, if_pos (by omega)] at h

/-- An expression can stand where one of less strength is asked for. -/
theorem loosen (hbound : bound ≤ strength) (h : Derives (.ofStrength strength) tokens f) :
    Derives (.ofStrength bound) tokens f := by
  rw [Category.ofStrength]
  split
  · exact sum_of_ofStrength h
  · split
    · exact product_of_ofStrength (by omega) h
    · split
      · exact signed_of_ofStrength (by omega) h
      · exact atom_of_ofStrength (by omega) h

theorem ofStrength_of_atom (strength : Nat) (h : Derives .atom tokens f) :
    Derives (.ofStrength strength) tokens f := by
  refine loosen (Nat.le_add_right strength 6) ?_
  rwa [Category.ofStrength, if_neg (by omega), if_neg (by omega), if_neg (by omega)]

end Derives

namespace BinaryOp

/-- The least strength of a left operand without parentheses. -/
def leastLeft (op : BinaryOp) : Nat :=
  if op.binding.groupsLeft then op.binding.strength else op.binding.strength + 1

/-- The least strength of a right operand without parentheses. -/
def leastRight (op : BinaryOp) : Nat :=
  if op.binding.groupsLeft then op.binding.strength + 1 else op.binding.strength

end BinaryOp

/-- Operands of enough strength and an operator between them derive from the category of the
operator. -/
theorem Derives.binary (op : BinaryOp) {left right : List Token} {f g : Formula}
    (hleft : Derives (.ofStrength op.leastLeft) left f)
    (hright : Derives (.ofStrength op.leastRight) right g) :
    Derives (.ofStrength op.binding.strength) (left ++ .operator op.symbol :: right)
      (.binary op f g) := by
  cases op with
  | plus | minus => exact .sum (by decide) hleft hright
  | multiply | divide | modulo => exact .product (by decide) hleft hright
  | power => exact .signedOfPower (.power hleft hright)

/-! ## Texts -/

/-- A text is split into tokens that derive from a category. -/
def Writes (category : Category) (text : String) (f : Formula) : Prop :=
  ∃ tokens, Derives category tokens f ∧ Lexing.Spells text.toList tokens

namespace Writes

variable {text : String} {f : Formula}

/-- Digits write their value. -/
theorem number {digits : List Char} (hdigits : Lexing.Positional digits) {value : Binary64}
    (hvalue : Token.ofNumber (String.ofList digits) = .number value) :
    Writes .atom (String.ofList digits) (.number value) := by
  refine ⟨[.number value], .number value, ?_⟩
  rw [String.toList_ofList]
  exact .number hdigits hvalue

/-- A word writes a name. -/
theorem name {word : String} (hword : Lexing.IsWord word.toList) (hmod : word ≠ "mod") :
    Writes .atom word (.name word) := by
  refine ⟨[.name word], .name word, ?_⟩
  have hspells := Lexing.Spells.name hword (by rwa [String.ofList_toList])
  rwa [String.ofList_toList] at hspells

/-- Parentheses around a text let it stand anywhere. -/
theorem group (h : Writes .sum text f) : Writes .atom ("(" ++ text ++ ")") f := by
  obtain ⟨tokens, hderives, hspells⟩ := h
  refine ⟨_, .group hderives, ?_⟩
  have hgroup := hspells.group
  rwa [String.toList_append, String.toList_append]

/-- A function in front of its argument in parentheses. -/
theorem call (function : NamedFunction) (h : Writes .sum text f) :
    Writes .atom (function.name ++ "(" ++ text ++ ")") (.call function.name f) := by
  obtain ⟨tokens, hderives, hspells⟩ := h
  refine ⟨_, .call function.name hderives, ?_⟩
  have hcall := hspells.call function
  rw [String.toList_append, String.toList_append, String.toList_append]
  simpa using hcall

/-- A sign in front of its operand. -/
theorem sign (s : Sign) (h : Writes .signed text f) :
    Writes .signed (s.symbol ++ text) (.sign s f) := by
  obtain ⟨tokens, hderives, hspells⟩ := h
  refine ⟨_, .sign s hderives, ?_⟩
  rw [String.toList_append]
  exact hspells.sign s

/-- An operator between its operands. -/
theorem binary (op : BinaryOp) {text' : String} {g : Formula}
    (hleft : Writes (.ofStrength op.leastLeft) text f)
    (hright : Writes (.ofStrength op.leastRight) text' g) :
    Writes (.ofStrength op.binding.strength) (text ++ " " ++ op.symbol ++ " " ++ text')
      (.binary op f g) := by
  obtain ⟨left, hderives, hspells⟩ := hleft
  obtain ⟨right, hderives', hspells'⟩ := hright
  refine ⟨_, .binary op hderives hderives', ?_⟩
  have hbinary := hspells.binary op hspells'
  simpa [String.toList_append] using hbinary

/-- An atom can stand where any strength is asked for. -/
theorem ofStrength_of_atom (strength : Nat) (h : Writes .atom text f) :
    Writes (.ofStrength strength) text f := by
  obtain ⟨tokens, hderives, hspells⟩ := h
  exact ⟨tokens, hderives.ofStrength_of_atom strength, hspells⟩

/-- Any expression is a sum. -/
theorem sum_of_ofStrength {strength : Nat} (h : Writes (.ofStrength strength) text f) :
    Writes .sum text f := by
  obtain ⟨tokens, hderives, hspells⟩ := h
  exact ⟨tokens, hderives.sum_of_ofStrength, hspells⟩

/-- A text in parentheses wherever it lacks strength. -/
theorem parenthesizeIf {strength bound : Nat} {condition : Bool}
    (hcondition : strength < bound → condition = true)
    (h : Writes (.ofStrength strength) text f) :
    Writes (.ofStrength bound) (Expr.parenthesizeIf condition text) f := by
  by_cases hparens : condition = true
  · rw [Expr.parenthesizeIf, if_pos hparens]
    exact h.sum_of_ofStrength.group.ofStrength_of_atom bound
  · have hstrong : bound ≤ strength := Nat.le_of_not_lt fun hlt => hparens (hcondition hlt)
    obtain ⟨tokens, hderives, hspells⟩ := h
    rw [Expr.parenthesizeIf, if_neg hparens]
    exact ⟨tokens, hderives.loosen hstrong, hspells⟩

end Writes

/-! ## Numbers -/

namespace Binary64

/-- The word that a number without digits is printed as. -/
def word (x : Binary64) : String := if x.isNaN then "NaN" else "inf"

/-- The syntax tree of the text of a number without its sign. -/
def magnitudeFormula (x : Binary64) : Formula :=
  if x.isFinite then .number { x with negative := false } else .name x.word

/-- The syntax tree of the text of a number; a non-number is printed without a sign. -/
def formula (x : Binary64) : Formula :=
  if x.negative ∧ ¬x.isNaN then .sign .minus x.magnitudeFormula else x.magnitudeFormula

/-- A word is a word. -/
theorem writes_word (x : Binary64) : Writes .atom x.word (.name x.word) := by
  unfold word
  split
  · exact .name (by decide) (by decide)
  · exact .name (by decide) (by decide)

theorem word_of_isNaN {x : Binary64} (h : x.isNaN = true) : x.word = "NaN" := if_pos h

theorem word_of_isInfinite {x : Binary64} (h : x.isInfinite = true) : x.word = "inf" :=
  if_neg (not_isNaN_of_isInfinite h)

/-- The text of a magnitude writes it. -/
theorem writes_magnitude {x : Binary64} (hnan : ¬x.isNaN = true) :
    Writes .atom (if x.isInfinite then "inf" else String.ofList x.shortest.positional)
      x.magnitudeFormula := by
  unfold magnitudeFormula
  by_cases hinfinite : x.isInfinite = true
  · rw [if_pos hinfinite, if_neg (not_isFinite_of_isInfinite hinfinite),
      ← word_of_isInfinite hinfinite]
    exact x.writes_word
  · have hfinite := isFinite_of_not hnan hinfinite
    rw [if_neg hinfinite, if_pos hfinite]
    exact .number x.shortest.positional_isPositional (Token.ofNumber_positional hfinite)

/-- The text of a number writes it. -/
theorem writes_plainText (x : Binary64) :
    Writes (.ofStrength (Expr.operand x).binding.strength) x.plainText x.formula := by
  unfold plainText textWith formula
  by_cases hnan : x.isNaN = true
  · rw [if_pos hnan, if_neg fun h => h.2 hnan, magnitudeFormula,
      if_neg (not_isFinite_of_isNaN hnan), ← word_of_isNaN hnan]
    exact x.writes_word.ofStrength_of_atom _
  · have hmagnitude := writes_magnitude hnan
    rw [if_neg hnan]
    by_cases hnegative : x.negative = true
    · have hsigned : x.negative = true ∧ ¬x.isNaN = true := ⟨hnegative, hnan⟩
      rw [if_pos hnegative, if_pos hsigned]
      have hstrength : Category.ofStrength (Expr.operand x).binding.strength = .signed := by
        rw [Expr.binding, if_pos hnegative]
        rfl
      rw [hstrength]
      exact .sign .minus (hmagnitude.ofStrength_of_atom 5)
    · have hunsigned : ¬(x.negative = true ∧ ¬x.isNaN = true) := fun h => hnegative h.1
      rw [if_neg hnegative, if_neg hunsigned, String.empty_append]
      exact hmagnitude.ofStrength_of_atom _

end Binary64

/-! ## Trees -/

namespace Expr

/-- The syntax tree of the text of a tree. -/
def formula : Expr → Formula
  | operand value => value.formula
  | unary (.sign s) argument => .sign s argument.formula
  | unary (.function f) argument => .call f.name argument.formula
  | binary op left right => .binary op left.formula right.formula

/-- The text of a tree derives from the category of its strength. -/
theorem writes (e : Expr) : Writes (.ofStrength e.binding.strength) e.toText e.formula := by
  induction e with
  | operand value => exact value.writes_plainText
  | unary op argument ih =>
    cases op with
    | function f => exact .call f ih.sum_of_ofStrength
    | sign s =>
      refine .sign s ?_
      change Writes (.ofStrength 5) _ _
      refine .parenthesizeIf ?_ ih
      intro hweak
      rw [decide_eq_true hweak, Bool.true_or]
  | binary op left right ihl ihr =>
    refine .binary op (.parenthesizeIf ?_ ihl) (.parenthesizeIf ?_ ihr)
    · intro hweak
      exact decide_eq_true hweak
    · intro hweak
      exact decide_eq_true hweak

end Expr

end PostfixCalc
