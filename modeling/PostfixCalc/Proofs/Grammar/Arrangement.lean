import PostfixCalc.Proofs.Grammar.Basic

/-!
# Operands out of place

The grammar loosened so that, where it has an operand, there may be none, or several side by side.
It says nothing about how many operands there are, only in which order operands and operators come
to stand.

Main results:

- `Derives.arranges`: what the grammar derives, the loosened grammar derives with the nodes of the
  tree in postfix order.
-/

namespace PostfixCalc

/-- The grammar in which an operand may be missing, or several may stand side by side, with the
nodes of the tokens in postfix order. -/
inductive Arranges (bindings : Bindings) : Category → List Token → PostfixExpr → Prop
  | missing : Arranges bindings .atom [] []
  | beside {left right : List Token} {nodes nodes' : PostfixExpr}
      (front : Arranges bindings .atom left nodes) (back : Arranges bindings .atom right nodes') :
      Arranges bindings .atom (left ++ right) (nodes ++ nodes')
  | number (value : Binary64) : Arranges bindings .atom [.number value] [.operand value]
  | name {word : String} {value : Binary64} (hword : bindings.get? word = some value) :
      Arranges bindings .atom [.name word] [.operand value]
  | group {tokens : List Token} {nodes : PostfixExpr}
      (inside : Arranges bindings .sum tokens nodes) :
      Arranges bindings .atom (.openParen :: (tokens ++ [.closeParen])) nodes
  | call {word : String} {f : NamedFunction} (hword : NamedFunction.ofName? word = some f)
      {tokens : List Token} {nodes : PostfixExpr} (inside : Arranges bindings .sum tokens nodes) :
      Arranges bindings .atom (.function word :: .openParen :: (tokens ++ [.closeParen]))
        (nodes ++ [.unary (.function f)])
  | powerOfAtom {tokens : List Token} {nodes : PostfixExpr}
      (h : Arranges bindings .atom tokens nodes) : Arranges bindings .power tokens nodes
  | power {left right : List Token} {nodes nodes' : PostfixExpr}
      (base : Arranges bindings .atom left nodes)
      (exponent : Arranges bindings .signed right nodes') :
      Arranges bindings .power (left ++ .operator "^" :: right)
        (nodes ++ nodes' ++ [.binary .power])
  | signedOfPower {tokens : List Token} {nodes : PostfixExpr}
      (h : Arranges bindings .power tokens nodes) : Arranges bindings .signed tokens nodes
  | sign (s : Sign) {tokens : List Token} {nodes : PostfixExpr}
      (operand : Arranges bindings .signed tokens nodes) :
      Arranges bindings .signed (.sign s.symbol :: tokens) (nodes ++ [.unary (.sign s)])
  | productOfSigned {tokens : List Token} {nodes : PostfixExpr}
      (h : Arranges bindings .signed tokens nodes) : Arranges bindings .product tokens nodes
  | product {symbol : String} {op : BinaryOp} (hop : (symbol, op) ∈ productOperators)
      {left right : List Token} {nodes nodes' : PostfixExpr}
      (front : Arranges bindings .product left nodes)
      (factor : Arranges bindings .signed right nodes') :
      Arranges bindings .product (left ++ .operator symbol :: right)
        (nodes ++ nodes' ++ [.binary op])
  | sumOfProduct {tokens : List Token} {nodes : PostfixExpr}
      (h : Arranges bindings .product tokens nodes) : Arranges bindings .sum tokens nodes
  | sum {symbol : String} {op : BinaryOp} (hop : (symbol, op) ∈ sumOperators)
      {left right : List Token} {nodes nodes' : PostfixExpr}
      (front : Arranges bindings .sum left nodes)
      (term : Arranges bindings .product right nodes') :
      Arranges bindings .sum (left ++ .operator symbol :: right) (nodes ++ nodes' ++ [.binary op])

/-- What the grammar derives, the loosened grammar derives with the nodes of the tree. -/
theorem Derives.arranges {bindings : Bindings} {category : Category} {tokens : List Token}
    {f : Formula} (h : Derives category tokens f) {e : Expr} (he : f.resolve? bindings = some e) :
    Arranges bindings category tokens e.postorder := by
  induction h generalizing e with
  | number value =>
    simp only [Formula.resolve?, Option.some.injEq] at he
    exact he ▸ .number value
  | name word =>
    obtain ⟨value, hvalue, rfl⟩ := Option.map_eq_some_iff.1 he
    exact .name hvalue
  | group _ ih => exact .group (ih he)
  | call word _ ih =>
    obtain ⟨function, hfunction, hrest⟩ := Option.bind_eq_some_iff.1 he
    obtain ⟨argument, hargument, rfl⟩ := Option.map_eq_some_iff.1 hrest
    exact .call hfunction (ih hargument)
  | powerOfAtom _ ih => exact .powerOfAtom (ih he)
  | signedOfPower _ ih => exact .signedOfPower (ih he)
  | productOfSigned _ ih => exact .productOfSigned (ih he)
  | sumOfProduct _ ih => exact .sumOfProduct (ih he)
  | sign s _ ih =>
    obtain ⟨operand, hoperand, rfl⟩ := Option.map_eq_some_iff.1 he
    exact .sign s (ih hoperand)
  | power _ _ ihl ihr =>
    obtain ⟨left, hleft, hrest⟩ := Option.bind_eq_some_iff.1 he
    obtain ⟨right, hright, rfl⟩ := Option.map_eq_some_iff.1 hrest
    exact .power (ihl hleft) (ihr hright)
  | product hop _ _ ihl ihr =>
    obtain ⟨left, hleft, hrest⟩ := Option.bind_eq_some_iff.1 he
    obtain ⟨right, hright, rfl⟩ := Option.map_eq_some_iff.1 hrest
    exact .product hop (ihl hleft) (ihr hright)
  | sum hop _ _ ihl ihr =>
    obtain ⟨left, hleft, hrest⟩ := Option.bind_eq_some_iff.1 he
    obtain ⟨right, hright, rfl⟩ := Option.map_eq_some_iff.1 hrest
    exact .sum hop (ihl hleft) (ihr hright)

end PostfixCalc
