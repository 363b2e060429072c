/-
  Code ranges — sets of characters, given by ranges of code points.

  * `CodeRanges.contains`: a character lies in one of the ranges.
-/
namespace Scriptling

/-- The first and the last code point of each range. -/
abbrev CodeRanges := List (Nat × Nat)

/-- The character lies in one of the ranges. -/
def CodeRanges.contains (ranges : CodeRanges) (c : Char) : Bool :=
  ranges.any fun r => r.1 ≤ c.toNat && c.toNat ≤ r.2

theorem CodeRanges.contains_iff {ranges : CodeRanges} {c : Char} :
    ranges.contains c = true ↔ ∃ r ∈ ranges, r.1 ≤ c.toNat ∧ c.toNat ≤ r.2 := by
  simp only [contains, List.any_eq_true, Bool.and_eq_true, decide_eq_true_eq]

end Scriptling
