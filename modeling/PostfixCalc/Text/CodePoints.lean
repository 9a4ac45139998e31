/-!
# Ranges of code points

A property of characters is given by the closed ranges of the code points that have it.

Main results:

- `CodeRanges.covers_eq_false`: ranges that ascend from a code point cover none below it.
-/

namespace PostfixCalc

/-- Closed ranges of code points. -/
abbrev CodeRanges := List (Nat × Nat)

namespace CodeRanges

/-- Whether the code point of a character lies in one of the ranges. -/
def covers (ranges : CodeRanges) (c : Char) : Bool :=
  ranges.any fun range => decide (range.1 ≤ c.toNat ∧ c.toNat ≤ range.2)

/-- A list of ranges covers what its first range or the others do. -/
theorem covers_cons (range : Nat × Nat) (ranges : CodeRanges) (c : Char) :
    covers (range :: ranges) c =
      (decide (range.1 ≤ c.toNat ∧ c.toNat ≤ range.2) || covers ranges c) := rfl

/-- Whether every range ends after its beginning and lies behind the one before it, all of them from
a given code point on. -/
def isAscendingFrom (start : Nat) : CodeRanges → Bool
  | [] => true
  | (first, last) :: ranges =>
    decide (start ≤ first ∧ first ≤ last) && isAscendingFrom (last + 1) ranges

/-- Ranges that ascend from a code point cover none below it. -/
theorem covers_eq_false {start : Nat} {ranges : CodeRanges} {c : Char}
    (hascending : isAscendingFrom start ranges = true) (hc : c.toNat < start) :
    covers ranges c = false := by
  induction ranges generalizing start with
  | nil => rfl
  | cons range ranges ih =>
    obtain ⟨first, last⟩ := range
    simp only [isAscendingFrom, Bool.and_eq_true, decide_eq_true_eq] at hascending
    obtain ⟨⟨hfirst, hlast⟩, hrest⟩ := hascending
    have hout : ¬(first ≤ c.toNat ∧ c.toNat ≤ last) := by omega
    have hbelow := ih hrest (by omega)
    rw [covers_cons, hbelow, decide_eq_false hout]
    rfl

end CodeRanges

end PostfixCalc
