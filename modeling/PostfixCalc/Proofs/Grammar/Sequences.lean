import PostfixCalc.Proofs.Grammar.Basic

/-!
# Expressions as sequences

The levels of the grammar decide which operands an operator gets, but not whether tokens are an
expression at all: an operator may be put between any two expressions and a sign in front of any.
Behind an operator there is always an operand, possibly behind signs, functions and parentheses.

Main results:

- `Derives.between`: an operator between two expressions makes an expression of them.
- `IsExpression.sign`: so does a sign in front of one.
- `Derives.chains`: behind every operator of an expression an operand begins.
-/

namespace PostfixCalc

/-- The text of an operator is one of its texts. -/
theorem BinaryOp.mem_binaryOperators (op : BinaryOp) : (op.symbol, op) ∈ binaryOperators := by
  cases op <;> decide

/-- The grammar derives a token list as a whole. -/
def IsExpression (tokens : List Token) : Prop := ∃ f, Derives .sum tokens f

/-! ## Putting expressions together -/

namespace Derives

variable {category : Category} {tokens : List Token} {f : Formula}

theorem isExpression_of_product (h : Derives .product tokens f) : IsExpression tokens :=
  ⟨f, .sumOfProduct h⟩

theorem isExpression_of_atom (h : Derives .atom tokens f) : IsExpression tokens :=
  isExpression_of_product (.productOfSigned (.signedOfPower (.powerOfAtom h)))

/-- The tokens begin with a signed expression, and any product may stand in its place. -/
def Leads (category : Category) (tokens : List Token) : Prop :=
  ∃ front back g, tokens = front ++ back ∧ Derives .signed front g ∧
    ∀ front' g', Derives .product front' g' →
      ∃ f', Derives .sum (front' ++ back) f' ∧
        (category ≠ .sum → Derives .product (front' ++ back) f')

/-- A signed expression begins with itself. -/
theorem leads_of_signed (h : Derives .signed tokens f) : Leads category tokens := by
  refine ⟨tokens, [], f, (List.append_nil tokens).symm, h, fun front' g' h' => ?_⟩
  rw [List.append_nil]
  exact ⟨g', .sumOfProduct h', fun _ => h'⟩

/-- Every expression begins with a signed expression. -/
theorem leads (h : Derives category tokens f) : Leads category tokens := by
  induction h with
  | number value => exact leads_of_signed (.signedOfPower (.powerOfAtom (.number value)))
  | name word => exact leads_of_signed (.signedOfPower (.powerOfAtom (.name word)))
  | group inside => exact leads_of_signed (.signedOfPower (.powerOfAtom (.group inside)))
  | call word inside => exact leads_of_signed (.signedOfPower (.powerOfAtom (.call word inside)))
  | powerOfAtom h => exact leads_of_signed (.signedOfPower (.powerOfAtom h))
  | power base exponent => exact leads_of_signed (.signedOfPower (.power base exponent))
  | signedOfPower h => exact leads_of_signed (.signedOfPower h)
  | sign s operand => exact leads_of_signed (.sign s operand)
  | productOfSigned h => exact leads_of_signed h
  | product hop _ factor ih =>
    obtain ⟨front, back, g, rfl, hfront, hreplace⟩ := ih
    refine ⟨front, _, g, List.append_assoc front back _, hfront, fun front' g' h' => ?_⟩
    obtain ⟨f', -, hproduct⟩ := hreplace front' g' h'
    have hwhole := Derives.product hop (hproduct nofun) factor
    rw [List.append_assoc] at hwhole
    exact ⟨_, .sumOfProduct hwhole, fun _ => hwhole⟩
  | sumOfProduct _ ih =>
    obtain ⟨front, back, g, hsplit, hfront, hreplace⟩ := ih
    refine ⟨front, back, g, hsplit, hfront, fun front' g' h' => ?_⟩
    obtain ⟨f', hsum, -⟩ := hreplace front' g' h'
    exact ⟨f', hsum, absurd rfl⟩
  | sum hop _ term ih =>
    obtain ⟨front, back, g, rfl, hfront, hreplace⟩ := ih
    refine ⟨front, _, g, List.append_assoc front back _, hfront, fun front' g' h' => ?_⟩
    obtain ⟨f', hsum, -⟩ := hreplace front' g' h'
    have hwhole := Derives.sum hop hsum term
    rw [List.append_assoc] at hwhole
    exact ⟨_, hwhole, absurd rfl⟩

/-- A term may be put in front of a sum. -/
theorem prepend_term {symbol : String} {op : BinaryOp} (hop : (symbol, op) ∈ sumOperators)
    {left : List Token} {g : Formula} (hleft : Derives .product left g)
    (h : Derives .sum tokens f) : IsExpression (left ++ .operator symbol :: tokens) := by
  generalize hcategory : Category.sum = category at h
  induction h with
  | sumOfProduct h => exact ⟨_, .sum hop (.sumOfProduct hleft) h⟩
  | @sum symbol' op' hop' left' right' _ _ _ term ih =>
    obtain ⟨f', hfront⟩ := ih rfl
    have hwhole := Derives.sum hop' hfront term
    rw [List.append_assoc] at hwhole
    exact ⟨_, hwhole⟩
  | _ => cases hcategory

end Derives

namespace IsExpression

variable {tokens : List Token}

/-- An expression in parentheses is one. -/
theorem group (h : IsExpression tokens) :
    IsExpression (.openParen :: (tokens ++ [.closeParen])) := by
  obtain ⟨f, hf⟩ := h
  exact (Derives.group hf).isExpression_of_atom

/-- A function in front of an expression in parentheses makes one of it. -/
theorem call (word : String) (h : IsExpression tokens) :
    IsExpression (.function word :: .openParen :: (tokens ++ [.closeParen])) := by
  obtain ⟨f, hf⟩ := h
  exact (Derives.call word hf).isExpression_of_atom

/-- A sign in front of an expression makes one of it. -/
theorem sign (s : Sign) (h : IsExpression tokens) : IsExpression (.sign s.symbol :: tokens) := by
  obtain ⟨f, hf⟩ := h
  obtain ⟨front, back, g, rfl, hfront, hreplace⟩ := hf.leads
  obtain ⟨f', hwhole, -⟩ := hreplace _ _ (.productOfSigned (.sign s hfront))
  exact ⟨f', hwhole⟩

/-- An operator may be put between an atom and an expression. -/
theorem behind_atom {symbol : String} {op : BinaryOp} (hop : (symbol, op) ∈ binaryOperators)
    {left : List Token} {g : Formula} (hleft : Derives .atom left g) (h : IsExpression tokens) :
    IsExpression (left ++ .operator symbol :: tokens) := by
  obtain ⟨f, hf⟩ := h
  have hsigned : Derives .signed left g := .signedOfPower (.powerOfAtom hleft)
  rw [binaryOperators, List.mem_append, List.mem_append, List.mem_singleton, Prod.mk.injEq] at hop
  rcases hop with (hsum | hproduct) | ⟨rfl, -⟩
  · exact Derives.prepend_term hsum (.productOfSigned hsigned) hf
  · -- The other operators bind no more loosely than a product, so they go into the first factor.
    obtain ⟨front, back, _, rfl, hfront, hreplace⟩ := hf.leads
    obtain ⟨f', hwhole, -⟩ := hreplace _ _ (.product hproduct (.productOfSigned hsigned) hfront)
    rw [List.append_assoc] at hwhole
    exact ⟨f', hwhole⟩
  · obtain ⟨front, back, _, rfl, hfront, hreplace⟩ := hf.leads
    obtain ⟨f', hwhole, -⟩ :=
      hreplace _ _ (.productOfSigned (.signedOfPower (.power hleft hfront)))
    rw [List.append_assoc] at hwhole
    exact ⟨f', hwhole⟩

end IsExpression

/-- An operator may be put between any two expressions.  The operators of the left one are passed
from left to right until its last atom stands in front of the operator. -/
theorem Derives.between {category : Category} {left right : List Token} {f : Formula}
    {symbol : String} {op : BinaryOp} (h : Derives category left f)
    (hop : (symbol, op) ∈ binaryOperators) (hright : IsExpression right) :
    IsExpression (left ++ .operator symbol :: right) := by
  induction h generalizing symbol op right with
  | number value => exact .behind_atom hop (.number value) hright
  | name word => exact .behind_atom hop (.name word) hright
  | group inside => exact .behind_atom hop (.group inside) hright
  | call word inside => exact .behind_atom hop (.call word inside) hright
  | powerOfAtom _ ih | signedOfPower _ ih | productOfSigned _ ih | sumOfProduct _ ih =>
    exact ih hop hright
  | sign s _ ih => exact (ih hop hright).sign s
  | power _ _ ihl ihr =>
    rw [List.append_assoc]
    exact @ihl _ "^" .power (by decide) (ihr hop hright)
  | @product symbol' op' hop' _ _ _ _ _ _ ihl ihr | @sum symbol' op' hop' _ _ _ _ _ _ ihl ihr =>
    have hbinary : (symbol', op') ∈ binaryOperators := by simp [binaryOperators, hop']
    rw [List.append_assoc]
    exact ihl hbinary (ihr hop hright)

/-! ## Behind an operator -/

/-- An operand stands at the beginning, possibly behind signs, functions and parentheses. -/
inductive BeginsOperand : List Token → Prop
  | number (value : Binary64) (rest : List Token) : BeginsOperand (.number value :: rest)
  | name (word : String) (rest : List Token) : BeginsOperand (.name word :: rest)
  | sign (s : Sign) {rest : List Token} (h : BeginsOperand rest) :
      BeginsOperand (.sign s.symbol :: rest)
  | group {rest : List Token} (h : BeginsOperand rest) : BeginsOperand (.openParen :: rest)
  | call (word : String) {rest : List Token} (h : BeginsOperand rest) :
      BeginsOperand (.function word :: .openParen :: rest)

/-- What follows does not matter. -/
theorem BeginsOperand.append {front : List Token} (h : BeginsOperand front) (back : List Token) :
    BeginsOperand (front ++ back) := by
  induction h with
  | number value rest => exact .number value _
  | name word rest => exact .name word _
  | sign s _ ih => exact .sign s ih
  | group _ ih => exact .group ih
  | call word _ ih => exact .call word ih

/-- An expression begins with an operand. -/
theorem Derives.beginsOperand {category : Category} {tokens : List Token} {f : Formula}
    (h : Derives category tokens f) : BeginsOperand tokens := by
  induction h with
  | number value => exact .number value []
  | name word => exact .name word []
  | group _ ih => exact .group (ih.append _)
  | call word _ ih => exact .call word (ih.append _)
  | powerOfAtom _ ih | signedOfPower _ ih | productOfSigned _ ih | sumOfProduct _ ih => exact ih
  | sign s _ ih => exact .sign s ih
  | power _ _ ih _ | product _ _ _ ih _ | sum _ _ _ ih _ => exact ih.append _

/-- Behind every operator an operand begins. -/
def Chains (tokens : List Token) : Prop :=
  ∀ front symbol back, tokens = front ++ .operator symbol :: back → BeginsOperand back

namespace Chains

theorem singleton {token : Token} (h : ∀ symbol, token ≠ .operator symbol) : Chains [token] := by
  intro front symbol back hsplit
  have hmem : Token.operator symbol ∈ [token] := by simp [hsplit]
  exact absurd (List.mem_singleton.1 hmem).symm (h symbol)

theorem append {left right : List Token} (hleft : Chains left) (hright : Chains right) :
    Chains (left ++ right) := by
  intro front symbol back hsplit
  rcases List.append_eq_append_iff.1 hsplit with ⟨middle, rfl, hmiddle⟩ | ⟨middle, rfl, hmiddle⟩
  · exact hright middle symbol back hmiddle
  · cases middle with
    | nil => exact hright [] symbol back hmiddle.symm
    | cons token middle =>
      obtain ⟨rfl, rfl⟩ := List.cons.inj hmiddle
      exact (hleft front symbol middle rfl).append right

theorem operator (symbol : String) {tokens : List Token} (hbegins : BeginsOperand tokens)
    (h : Chains tokens) : Chains (.operator symbol :: tokens) := by
  intro front symbol' back hsplit
  cases front with
  | nil =>
    obtain ⟨-, rfl⟩ := List.cons.inj hsplit
    exact hbegins
  | cons token front => exact h front symbol' back (List.cons.inj hsplit).2

end Chains

/-- Behind every operator of an expression an operand begins. -/
theorem Derives.chains {category : Category} {tokens : List Token} {f : Formula}
    (h : Derives category tokens f) : Chains tokens := by
  have hopen : Chains [.openParen] := .singleton nofun
  have hclose : Chains [.closeParen] := .singleton nofun
  induction h with
  | number | name => exact .singleton nofun
  | group _ ih => exact hopen.append (ih.append hclose)
  | call word _ ih =>
    have hword : Chains [.function word] := .singleton nofun
    exact hword.append (hopen.append (ih.append hclose))
  | powerOfAtom _ ih | signedOfPower _ ih | productOfSigned _ ih | sumOfProduct _ ih => exact ih
  | sign s _ ih =>
    have hsign : Chains [.sign s.symbol] := .singleton nofun
    exact hsign.append ih
  | power _ hright ihl ihr | product _ _ hright ihl ihr | sum _ _ hright ihl ihr =>
    exact ihl.append (ihr.operator _ hright.beginsOperand)

end PostfixCalc
