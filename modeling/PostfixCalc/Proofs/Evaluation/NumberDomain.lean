import Mathlib.Data.Set.Basic
import PostfixCalc.Proofs.Evaluation.Domain
import PostfixCalc.Proofs.Results.ExactValue

/-!
# Domains as sets of numbers

The functions and operators are documented as functions of numbers, and each has a domain of
numbers.  The comparisons of doubles that decide whether an operation fails decide whether the exact
values of its operands are in that domain.

Main results:

- `NamedFunction.isDefinedAt_iff`: a function is defined at a double exactly if the number is in its
  domain.
- `Evaluation.undefined_iff_exactValue`: an operation on finite operands is outside of its domain
  exactly if their exact values are.
- `Evaluation.failureOf_eq_none_iff_inDomain`: it succeeds exactly if they are in it.
-/

namespace PostfixCalc

variable {x : Binary64}

namespace NamedFunction

/-- The numbers that a function is defined for. -/
def domain : NamedFunction → Set ℚ
  | sqrt => {q | 0 ≤ q}
  | ln | log10 => {q | 0 < q}
  | acos | asin => {q | -1 ≤ q ∧ q ≤ 1}
  | sin | cos | tan | atan => Set.univ

/-- A function is defined at a double exactly if its exact value is in the domain. -/
theorem isDefinedAt_iff (f : NamedFunction) (h : x.isNaN = false) :
    f.isDefinedAt x = true ↔ x.exactValue ∈ f.domain := by
  have hzero : Binary64.zero.isNaN = false := by decide
  have hone : Binary64.one.isNaN = false := by decide
  have hnegOne : Binary64.one.neg.isNaN = false := by decide
  cases f with
  | sin | cos | tan | atan => exact iff_of_true rfl trivial
  | sqrt =>
    rw [isDefinedAt, Bool.not_eq_true', ← Bool.not_eq_true, Binary64.lt_iff_exactValue_lt h hzero,
      Binary64.exactValue_zero, not_lt]
    rfl
  | ln | log10 =>
    rw [isDefinedAt, Bool.not_eq_true', ← Bool.not_eq_true, Binary64.le_iff_exactValue_le h hzero,
      Binary64.exactValue_zero, not_le]
    rfl
  | acos | asin =>
    rw [isDefinedAt, Bool.not_eq_true', ← Bool.not_eq_true, Bool.or_eq_true, not_or,
      Binary64.lt_iff_exactValue_lt h hnegOne, Binary64.lt_iff_exactValue_lt hone h,
      Binary64.exactValue_neg, Binary64.exactValue_one, not_lt, not_lt]
    rfl

/-- What is not a number is in no domain, but no function fails on it. -/
theorem isDefinedAt_of_isNaN (f : NamedFunction) (h : x.isNaN = true) :
    f.isDefinedAt x = true := by
  cases f <;> simp [isDefinedAt, Binary64.lt, Binary64.le, h]

end NamedFunction

namespace BinaryOp

/-- The pairs of a left and a right number that an operator is defined for.  A remainder by zero is
not a number, but no failure. -/
def domain : BinaryOp → Set (ℚ × ℚ)
  | divide => {q | q.2 ≠ 0}
  | power => {q | (q.1 ≠ 0 ∨ q.2 ≠ 0) ∧ (0 ≤ q.1 ∨ ∃ n : ℤ, q.2 = n)}
  | plus | minus | multiply | modulo => Set.univ

/-- A power is invalid exactly if it is the power of zero with exponent zero, or the power of a
negative number with an exponent that is no integer. -/
theorem isInvalidPower_iff {left right : Binary64} (hleft : left.isNaN = false)
    (hright : right.isFinite = true) :
    isInvalidPower left right = true ↔ (left.exactValue, right.exactValue) ∉ power.domain := by
  have hzero : Binary64.zero.isNaN = false := by decide
  have hnegative := Binary64.lt_iff_exactValue_lt hleft hzero
  rw [Binary64.exactValue_zero] at hnegative
  rw [isInvalidPower, Bool.or_eq_true, Bool.and_eq_true, Bool.and_eq_true, Binary64.isZero_iff,
    Binary64.isZero_iff, hnegative, Bool.not_eq_true', ← Bool.not_eq_true,
    Binary64.isInteger_iff hright, domain, Set.mem_ofPred_eq, not_and_or, not_or, not_or,
    not_ne_iff, not_ne_iff, not_le]

end BinaryOp

namespace Evaluation

/-- The numbers on a stack, the latest first, are in the domain of an operation on them. -/
def InDomain : Node → List ℚ → Prop
  | .unary (.function f), q :: _ => q ∈ f.domain
  | .binary op, right :: left :: _ => (left, right) ∈ op.domain
  | _, _ => True

/-- An operation on finite operands is outside of its domain exactly if their exact values are. -/
theorem undefined_iff_exactValue (node : Node) {stack : List Binary64}
    (h : ∀ x ∈ stack, x.isFinite = true) :
    Undefined stack node ↔ ¬InDomain node (stack.map Binary64.exactValue) := by
  have hnumber : ∀ x : Binary64, x.isFinite = true → x.isNaN = false := fun x hx =>
    Bool.eq_false_iff.2 fun hnan => Binary64.not_isFinite_of_isNaN hnan hx
  -- Only functions, divisions and powers with all their operands can be outside of a domain.
  have htotal {stack : List Binary64} {node : Node} (hdefined : ¬Undefined stack node) :
      Undefined stack node ↔ ¬True := iff_of_false hdefined (not_not_intro trivial)
  cases node with
  | operand value => exact htotal (by rintro ⟨⟩)
  | unary op =>
    rcases stack with _ | ⟨x, below⟩
    · cases op with
      | sign s => exact htotal (by rintro ⟨⟩)
      | function f => exact htotal (by rintro ⟨⟩)
    · cases op with
      | sign s => exact htotal (by rintro ⟨⟩)
      | function f =>
        have hx := hnumber x (h x List.mem_cons_self)
        rw [undefined_function_iff, ← Bool.not_eq_true, f.isDefinedAt_iff hx]
        rfl
  | binary op =>
    rcases stack with _ | ⟨right, _ | ⟨left, below⟩⟩
    · exact htotal (by rintro ⟨⟩)
    · exact htotal (by rintro ⟨⟩)
    · have hright := h right List.mem_cons_self
      have hleft := hnumber left (h left (List.mem_cons_of_mem _ List.mem_cons_self))
      cases op with
      | plus | minus | multiply | modulo => exact htotal (by rintro ⟨⟩)
      | divide =>
        rw [undefined_division_iff, Binary64.isZero_iff]
        exact not_ne_iff.symm
      | power => exact (undefined_power_iff ..).trans (BinaryOp.isInvalidPower_iff hleft hright)

/-- An operation on finite operands succeeds exactly if their exact values are in its domain. -/
theorem failureOf_eq_none_iff_inDomain {node : Node} {stack below : List Binary64}
    {result : Except DomainError Binary64} (hfinite : ∀ x ∈ stack, x.isFinite = true)
    (h : operate? stack node = some (result, below)) :
    failureOf result = none ↔ InDomain node (stack.map Binary64.exactValue) := by
  rw [failureOf_eq_none_iff h, undefined_iff_exactValue node hfinite, not_not]

end Evaluation

end PostfixCalc
