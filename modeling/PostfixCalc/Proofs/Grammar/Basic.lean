import PostfixCalc.Bindings
import PostfixCalc.Expr.Basic
import PostfixCalc.Token.Basic

/-!
# The infix grammar

The grammar of expressions over tokens, from the loosest binding to the tightest:

- a sum is a product, or a sum, `+` or `-` and a product;
- a product is a signed expression, or a product, `*`, `/`, `%` or `mod` and a signed expression;
- a signed expression is a power, or a sign and a signed expression;
- a power is an atom, or an atom, `^` and a signed expression;
- an atom is a number, a name, a sum in parentheses, or a function and a sum in parentheses.

A derivation gives the tokens a syntax tree, the `Formula`, in which words still stand for
themselves.

Main results:

- `Derives.exists_resolve?`: a formula whose words are known stands for an expression.
- `Derives.names_eq`: the names among the tokens are those of the formula in the same order.
- `Derives.endsOperand`: the last token is the end of an operand.
-/

namespace PostfixCalc

/-- The syntax tree of an expression, in which names and functions are words. -/
inductive Formula where
  | number (value : Binary64)
  | name (word : String)
  | call (word : String) (argument : Formula)
  | sign (s : Sign) (operand : Formula)
  | binary (op : BinaryOp) (left right : Formula)
  deriving DecidableEq

namespace Formula

/-- The expression that a formula stands for, if all of its words are known. -/
def resolve? (bindings : Bindings) : Formula → Option Expr
  | number value => some (.operand value)
  | name word => (bindings.get? word).map .operand
  | call word argument =>
    (NamedFunction.ofName? word).bind fun f =>
      (argument.resolve? bindings).map (.unary (.function f))
  | sign s operand => (operand.resolve? bindings).map (.unary (.sign s))
  | binary op left right =>
    (left.resolve? bindings).bind fun l => (right.resolve? bindings).map (.binary op l)

/-- The names in a formula from left to right. -/
def names : Formula → List String
  | number _ => []
  | name word => [word]
  | call _ argument => argument.names
  | sign _ operand => operand.names
  | binary _ left right => left.names ++ right.names

end Formula

/-! ## Derivations -/

/-- The categories of the grammar, from the loosest binding to the tightest. -/
inductive Category where
  | sum
  | product
  | signed
  | power
  | atom
  deriving DecidableEq

/-- The operators between the terms of a sum, by their texts. -/
def sumOperators : List (String × BinaryOp) := [("+", .plus), ("-", .minus)]

/-- The operators between the factors of a product, by their texts. -/
def productOperators : List (String × BinaryOp) :=
  [("*", .multiply), ("/", .divide), ("%", .modulo), ("mod", .modulo)]

/-- The operators between two operands, by their texts; the remainder has two. -/
def binaryOperators : List (String × BinaryOp) :=
  sumOperators ++ productOperators ++ [("^", .power)]

/-- The grammar derives a token list in a category, and the formula is its syntax tree. -/
inductive Derives : Category → List Token → Formula → Prop
  | number (value : Binary64) : Derives .atom [.number value] (.number value)
  | name (word : String) : Derives .atom [.name word] (.name word)
  | group {tokens : List Token} {f : Formula} (inside : Derives .sum tokens f) :
      Derives .atom (.openParen :: (tokens ++ [.closeParen])) f
  | call (word : String) {tokens : List Token} {f : Formula} (inside : Derives .sum tokens f) :
      Derives .atom (.function word :: .openParen :: (tokens ++ [.closeParen])) (.call word f)
  | powerOfAtom {tokens : List Token} {f : Formula} (h : Derives .atom tokens f) :
      Derives .power tokens f
  | power {left right : List Token} {f g : Formula} (base : Derives .atom left f)
      (exponent : Derives .signed right g) :
      Derives .power (left ++ .operator "^" :: right) (.binary .power f g)
  | signedOfPower {tokens : List Token} {f : Formula} (h : Derives .power tokens f) :
      Derives .signed tokens f
  | sign (s : Sign) {tokens : List Token} {f : Formula} (operand : Derives .signed tokens f) :
      Derives .signed (.sign s.symbol :: tokens) (.sign s f)
  | productOfSigned {tokens : List Token} {f : Formula} (h : Derives .signed tokens f) :
      Derives .product tokens f
  | product {symbol : String} {op : BinaryOp} (hop : (symbol, op) ∈ productOperators)
      {left right : List Token} {f g : Formula} (front : Derives .product left f)
      (factor : Derives .signed right g) :
      Derives .product (left ++ .operator symbol :: right) (.binary op f g)
  | sumOfProduct {tokens : List Token} {f : Formula} (h : Derives .product tokens f) :
      Derives .sum tokens f
  | sum {symbol : String} {op : BinaryOp} (hop : (symbol, op) ∈ sumOperators)
      {left right : List Token} {f g : Formula} (front : Derives .sum left f)
      (term : Derives .product right g) :
      Derives .sum (left ++ .operator symbol :: right) (.binary op f g)

/-! ## Words -/

/-- If the names among the tokens have values and the functions exist, the formula of a derivation
stands for an expression. -/
theorem Derives.exists_resolve? {bindings : Bindings} {category : Category} {tokens : List Token}
    {f : Formula} (h : Derives category tokens f)
    (hnames : ∀ word, .name word ∈ tokens → (bindings.get? word).isSome)
    (hfunctions : ∀ word, .function word ∈ tokens → (NamedFunction.ofName? word).isSome) :
    ∃ e, f.resolve? bindings = some e := by
  induction h with
  | number value => exact ⟨.operand value, rfl⟩
  | name word =>
    obtain ⟨value, hvalue⟩ := Option.isSome_iff_exists.1 (hnames word (by simp))
    exact ⟨.operand value, by simp [Formula.resolve?, hvalue]⟩
  | group _ ih =>
    exact ih (fun word hword => hnames word (by simp [hword]))
      fun word hword => hfunctions word (by simp [hword])
  | call word _ ih =>
    obtain ⟨function, hfunction⟩ := Option.isSome_iff_exists.1 (hfunctions word (by simp))
    obtain ⟨e, he⟩ :=
      ih (fun other hother => hnames other (by simp [hother]))
        fun other hother => hfunctions other (by simp [hother])
    exact ⟨.unary (.function function) e, by simp [Formula.resolve?, hfunction, he]⟩
  | powerOfAtom _ ih | signedOfPower _ ih | productOfSigned _ ih | sumOfProduct _ ih =>
    exact ih hnames hfunctions
  | sign s _ ih =>
    obtain ⟨e, he⟩ :=
      ih (fun word hword => hnames word (by simp [hword]))
        fun word hword => hfunctions word (by simp [hword])
    exact ⟨.unary (.sign s) e, by simp [Formula.resolve?, he]⟩
  | power _ _ ihl ihr | product _ _ _ ihl ihr | sum _ _ _ ihl ihr =>
    obtain ⟨l, hl⟩ :=
      ihl (fun word hword => hnames word (by simp [hword]))
        fun word hword => hfunctions word (by simp [hword])
    obtain ⟨r, hr⟩ :=
      ihr (fun word hword => hnames word (by simp [hword]))
        fun word hword => hfunctions word (by simp [hword])
    exact ⟨.binary _ l r, by rw [Formula.resolve?, hl, hr]; rfl⟩

/-- The word of a token that is a name. -/
def Token.name? : Token → Option String
  | .name word => some word
  | _ => none

/-- The names among the tokens of a derivation are those of its formula. -/
theorem Derives.names_eq {category : Category} {tokens : List Token} {f : Formula}
    (h : Derives category tokens f) : tokens.filterMap Token.name? = f.names := by
  induction h with
  | number | name => rfl
  | powerOfAtom _ ih | signedOfPower _ ih | productOfSigned _ ih | sumOfProduct _ ih => exact ih
  | group _ ih | call _ _ ih | sign _ _ ih =>
    simpa [Token.name?, List.filterMap_cons, Formula.names] using ih
  | power _ _ ihl ihr | product _ _ _ ihl ihr | sum _ _ _ ihl ihr =>
    simp [Token.name?, List.filterMap_cons, Formula.names, ihl, ihr]

/-! ## The last token -/

/-- What follows decides about the last token. -/
theorem Token.getLast?_append_endsOperand {back : List Token}
    (h : back.getLast?.any Token.endsOperand = true) (front : List Token) :
    (front ++ back).getLast?.any Token.endsOperand = true := by
  obtain ⟨last, hlast, hends⟩ := (Option.any_eq_true _ _).1 h
  rw [List.getLast?_append, hlast]
  exact hends

/-- The last token of what the grammar derives ends an operand. -/
theorem Derives.endsOperand {category : Category} {tokens : List Token} {f : Formula}
    (h : Derives category tokens f) : tokens.getLast?.any Token.endsOperand = true := by
  have hclose : [Token.closeParen].getLast?.any Token.endsOperand = true := rfl
  induction h with
  | number | name => rfl
  | @group tokens _ _ _ => exact Token.getLast?_append_endsOperand hclose (.openParen :: tokens)
  | @call word tokens _ _ _ =>
    exact Token.getLast?_append_endsOperand hclose (.function word :: .openParen :: tokens)
  | powerOfAtom _ ih | signedOfPower _ ih | productOfSigned _ ih | sumOfProduct _ ih => exact ih
  | sign s _ ih => exact Token.getLast?_append_endsOperand ih [.sign s.symbol]
  | power _ _ _ ih | product _ _ _ _ ih | sum _ _ _ _ ih =>
    exact Token.getLast?_append_endsOperand (Token.getLast?_append_endsOperand ih [.operator _]) _

end PostfixCalc
