import PostfixCalc.Proofs.Evaluation.Tree

/-!
# Operations outside their domain

The domains of the operations as they are documented, and what a walk that meets an operation
outside of its domain records.

Main results:

- `Evaluation.failureOf_eq_none_iff`: an operation fails exactly outside of its domain.
- `Evaluation.failure_walk_eq_none_iff`: a walk ends without a failure exactly if it met no
  operation outside of its domain.
-/

namespace PostfixCalc

namespace Evaluation

/-- An operation is outside of its domain for the values on a stack, the latest first. -/
inductive Undefined : List Binary64 → Node → Prop
  | sqrt {x : Binary64} {below : List Binary64} (h : x.lt .zero = true) :
      Undefined (x :: below) (.unary (.function .sqrt))
  | ln {x : Binary64} {below : List Binary64} (h : x.le .zero = true) :
      Undefined (x :: below) (.unary (.function .ln))
  | log10 {x : Binary64} {below : List Binary64} (h : x.le .zero = true) :
      Undefined (x :: below) (.unary (.function .log10))
  | acos {x : Binary64} {below : List Binary64}
      (h : x.lt (.neg .one) = true ∨ Binary64.one.lt x = true) :
      Undefined (x :: below) (.unary (.function .acos))
  | asin {x : Binary64} {below : List Binary64}
      (h : x.lt (.neg .one) = true ∨ Binary64.one.lt x = true) :
      Undefined (x :: below) (.unary (.function .asin))
  | division {left right : Binary64} {below : List Binary64} (h : right.isZero = true) :
      Undefined (right :: left :: below) (.binary .divide)
  | zeroPower {left right : Binary64} {below : List Binary64} (hbase : left.isZero = true)
      (hexponent : right.isZero = true) : Undefined (right :: left :: below) (.binary .power)
  | rootOfNegative {left right : Binary64} {below : List Binary64} (hbase : left.lt .zero = true)
      (hexponent : right.isInteger = false) : Undefined (right :: left :: below) (.binary .power)

/-! ## One operation -/

/-- A function fails exactly outside of its domain. -/
theorem undefined_function_iff (f : NamedFunction) (x : Binary64) (below : List Binary64) :
    Undefined (x :: below) (.unary (.function f)) ↔ f.isDefinedAt x = false := by
  constructor
  · intro h
    cases h with
    | sqrt h | ln h | log10 h => simp only [NamedFunction.isDefinedAt, h, Bool.not_true]
    | acos h | asin h =>
      simpa only [NamedFunction.isDefinedAt, Bool.not_eq_false', Bool.or_eq_true] using h
  · intro h
    cases f with
    | sin | cos | tan | atan => exact Bool.noConfusion h
    | sqrt | ln | log10 | acos | asin =>
      simp only [NamedFunction.isDefinedAt, Bool.not_eq_false', Bool.or_eq_true] at h
      constructor
      exact h

/-- A power fails exactly outside of its domain. -/
theorem undefined_power_iff (left right : Binary64) (below : List Binary64) :
    Undefined (right :: left :: below) (.binary .power) ↔
      BinaryOp.isInvalidPower left right = true := by
  simp only [BinaryOp.isInvalidPower, Bool.or_eq_true, Bool.and_eq_true, Bool.not_eq_true']
  constructor
  · intro h
    cases h with
    | zeroPower hbase hexponent => exact Or.inl ⟨hbase, hexponent⟩
    | rootOfNegative hbase hexponent => exact Or.inr ⟨hbase, hexponent⟩
  · rintro (⟨hbase, hexponent⟩ | ⟨hbase, hexponent⟩)
    · exact .zeroPower hbase hexponent
    · exact .rootOfNegative hbase hexponent

/-- A division fails exactly outside of its domain. -/
theorem undefined_division_iff (left right : Binary64) (below : List Binary64) :
    Undefined (right :: left :: below) (.binary .divide) ↔ right.isZero = true := by
  constructor
  · intro h
    cases h with
    | division h => exact h
  · exact .division

theorem failureOf_unary_eq_none_iff (op : UnaryOp) (x : Binary64) (below : List Binary64) :
    failureOf (op.apply x) = none ↔ ¬Undefined (x :: below) (.unary op) := by
  cases op with
  | sign s =>
    refine iff_of_true rfl ?_
    intro h
    cases h
  | function f =>
    rw [undefined_function_iff, UnaryOp.apply, NamedFunction.apply]
    by_cases hdefined : f.isDefinedAt x = true
    · rw [if_pos hdefined, hdefined]
      exact iff_of_true rfl (by decide)
    · rw [if_neg hdefined]
      simp [failureOf, hdefined]

theorem failureOf_binary_eq_none_iff (op : BinaryOp) (left right : Binary64)
    (below : List Binary64) :
    failureOf (op.apply left right) = none ↔ ¬Undefined (right :: left :: below) (.binary op) := by
  cases op with
  | plus | minus | multiply | modulo =>
    refine iff_of_true rfl ?_
    intro h
    cases h
  | divide =>
    rw [undefined_division_iff, BinaryOp.apply]
    by_cases hzero : right.isZero = true
    · rw [if_pos hzero]
      simp [failureOf, hzero]
    · rw [if_neg hzero]
      exact iff_of_true rfl hzero
  | power =>
    rw [undefined_power_iff, BinaryOp.apply]
    by_cases hinvalid : BinaryOp.isInvalidPower left right = true
    · rw [if_pos hinvalid]
      simp [failureOf, hinvalid]
    · rw [if_neg hinvalid]
      exact iff_of_true rfl hinvalid

/-- A node that finds its operands fails exactly outside of its domain. -/
theorem failureOf_eq_none_iff {stack below : List Binary64} {node : Node}
    {result : Except DomainError Binary64} (h : operate? stack node = some (result, below)) :
    failureOf result = none ↔ ¬Undefined stack node := by
  cases node with
  | operand value =>
    simp only [operate?, Option.some.injEq, Prod.mk.injEq] at h
    rw [← h.1]
    refine iff_of_true rfl ?_
    intro hundefined
    cases hundefined
  | unary op =>
    rcases stack with _ | ⟨x, stack⟩
    · simp [operate?] at h
    · simp only [operate?, Option.some.injEq, Prod.mk.injEq] at h
      rw [← h.1]
      exact failureOf_unary_eq_none_iff op x stack
  | binary op =>
    rcases stack with _ | ⟨right, _ | ⟨left, stack⟩⟩
    · simp [operate?] at h
    · simp [operate?] at h
    · simp only [operate?, Option.some.injEq, Prod.mk.injEq] at h
      rw [← h.1]
      exact failureOf_binary_eq_none_iff op left right stack

/-! ## Walks -/

/-- A walk meets an operation outside of its domain: the nodes before it are walked over, and leave
values that it is undefined for. -/
def MeetsUndefined (s : State) (nodes : PostfixExpr) : Prop :=
  ∃ front node back t,
    nodes = front ++ node :: back ∧ walk s front = .ok t ∧ Undefined t.stack node

theorem not_meetsUndefined_nil (s : State) : ¬MeetsUndefined s [] := by
  rintro ⟨front, node, back, t, hsplit, -, -⟩
  simp at hsplit

/-- A walk meets such an operation at its first node or later. -/
theorem meetsUndefined_cons_iff {s : State} {node : Node} {below : List Binary64}
    {result : Except DomainError Binary64} (h : operate? s.stack node = some (result, below))
    (nodes : PostfixExpr) :
    MeetsUndefined s (node :: nodes) ↔
      Undefined s.stack node ∨
        MeetsUndefined ⟨handedOn result :: below, (failureOf result).or s.failure⟩ nodes := by
  have hwalk := walk_cons_of_operate? h
  constructor
  · rintro ⟨front, node', back, u, hsplit, hfront, hundefined⟩
    rcases front with _ | ⟨first, front⟩
    · simp only [walk_nil, Except.ok.injEq] at hfront
      simp only [List.nil_append, List.cons.injEq] at hsplit
      subst hfront
      exact Or.inl (hsplit.1 ▸ hundefined)
    · simp only [List.cons_append, List.cons.injEq] at hsplit
      obtain ⟨rfl, hsplit⟩ := hsplit
      rw [hwalk] at hfront
      exact Or.inr ⟨front, node', back, u, hsplit, hfront, hundefined⟩
  · rintro (hundefined | ⟨front, node', back, u, rfl, hfront, hundefined⟩)
    · exact ⟨[], node, nodes, s, rfl, rfl, hundefined⟩
    · exact ⟨node :: front, node', back, u, rfl, (hwalk front).trans hfront, hundefined⟩

/-- A walk ends without a failure exactly if there was none before it and it met no operation
outside of its domain. -/
theorem failure_walk_eq_none_iff {s t : State} {nodes : PostfixExpr} (h : walk s nodes = .ok t) :
    t.failure = none ↔ s.failure = none ∧ ¬MeetsUndefined s nodes := by
  induction nodes generalizing s with
  | nil =>
    simp only [walk_nil, Except.ok.injEq] at h
    subst h
    simp [not_meetsUndefined_nil]
  | cons node nodes ih =>
    cases hoperate : operate? s.stack node with
    | none =>
      rw [walk_cons, State.step_of_operate?_eq_none hoperate] at h
      cases h
    | some found =>
      obtain ⟨result, below⟩ := found
      -- The rest starts with the failure of this node, or else with the one before it.
      rw [walk_cons_of_operate? hoperate] at h
      rw [ih h, meetsUndefined_cons_iff hoperate, Option.or_eq_none_iff,
        failureOf_eq_none_iff hoperate, not_or]
      constructor
      · rintro ⟨⟨hdefined, hfailure⟩, hrest⟩
        exact ⟨hfailure, hdefined, hrest⟩
      · rintro ⟨hfailure, hdefined, hrest⟩
        exact ⟨⟨hdefined, hfailure⟩, hrest⟩

end Evaluation

end PostfixCalc
