/-
  Shortest decimals — the fewest digits that read back to a number.

  For up to 17 digits the two neighbours of the magnitude on that decimal grid are tried;
  the first grid on which one of them reads back gives the answer, and of two the nearer
  one (`Tie` says what happens half way).

  * `shortest tie pattern`: the decimal chosen, without trailing zeros.

  The search ends on the exact decimal expansion, so the result reads back even without
  the fact that seventeen digits always do.
-/
import Scriptling.Number.Decimal

namespace Scriptling

/-- Where the choice between two equally near decimals goes. -/
inductive Tie where
  /-- To the greater one. -/
  | up
  /-- To the one with an even last digit. -/
  | even
deriving DecidableEq

namespace Decimal

/-- Drops the trailing zeros of the coefficient. -/
def trim (d : Decimal) : Decimal :=
  if h : d.coefficient ≠ 0 ∧ d.coefficient % 10 = 0 then
    trim ⟨d.coefficient / 10, d.exponent + 1⟩
  else d
termination_by d.coefficient
decreasing_by omega

/-- The exact decimal expansion of a number of units. -/
def ofUnits (units : Nat) : Decimal := ⟨units * Nat.pow 5 1074, -1074⟩

/-- The exponent of the leading digit of a positive number of units. -/
def leadingExponent (units : Nat) : Int :=
  let scaled := units * Nat.pow 10 324 / unitsPerOne
  let guess := scaled.log2 * 1233 / 4096
  (if Nat.pow 10 (guess + 1) ≤ scaled then guess + 1 else guess : Nat) - 324

/-- Of the two neighbours of a magnitude among the multiples of `10 ^ exponent`, the one
    to write: it must read back, and of two the nearer is taken. -/
def neighbour? (tie : Tie) (pattern : Nat) (exponent : Int) : Option Decimal :=
  let (num, den) := match exponent with
    | .ofNat k => (unitsOf pattern, unitsPerOne * Nat.pow 10 k)
    | .negSucc k => (unitsOf pattern * Nat.pow 10 (k + 1), unitsPerOne)
  let below : Decimal := ⟨num / den, exponent⟩
  let above : Decimal := ⟨num / den + 1, exponent⟩
  let r := num % den
  match below.pattern == pattern, above.pattern == pattern with
  | false, false => none
  | true, false => some below
  | false, true => some above
  | true, true =>
    if 2 * r < den then some below
    else if den < 2 * r then some above
    else match tie with
      | .up => some above
      | .even => if below.coefficient % 2 = 0 then some below else some above

/-- The numbers of digits to try, less one.  Two decimals of fifteen digits never read back
    to the same number of full precision, so that one with fewer digits is found among
    those with fifteen, as one that ends in zeros; below the least number of full precision
    the search starts at one digit. -/
def digitCounts (pattern : Nat) : List Nat :=
  if pattern < patternsPerExponent then List.range 17 else [14, 15, 16]

/-- The shortest decimal that reads back to a finite magnitude pattern. -/
def shortest (tie : Tie) (pattern : Nat) : Decimal :=
  if pattern = 0 then ⟨0, 0⟩
  else
    let leading := leadingExponent (unitsOf pattern)
    let found := (digitCounts pattern).findSome? fun k : Nat =>
      neighbour? tie pattern (leading - k)
    (found.getD (ofUnits (unitsOf pattern))).trim

end Decimal

end Scriptling
