/-
  Number layouts — the ways in which numbers are written.

  A `Layout` fixes which exponents are written positionally, what marks a whole number,
  how an exponent is written, how ties are settled and what stands for the values that
  have no digits.  The layouts in use:

  * `Layout.display`: what `print` shows, such as `3`, `2.5`, `1e+06`, `+Inf`;
  * `Layout.plain`: never an exponent;
  * `Layout.json`: what a token list in JSON holds.

  `Number.literal` and `Number.listing` write number literals, whole ones exactly.
-/
import Scriptling.Number.Shortest

namespace Scriptling

/-! ## Digits -/

namespace Decimal

/-- The digits of the coefficient. -/
def digits (d : Decimal) : List Char := Nat.toDigits 10 d.coefficient

/-- The exponent of the leading digit. -/
def order (d : Decimal) : Int := d.exponent + (d.digits.length - 1 : Nat)

/-- Positional notation: zeros up to the units place, or a point with a digit on each
    side. -/
def positional (d : Decimal) : List Char :=
  match d.exponent with
  | .ofNat k => d.digits ++ List.replicate k '0'
  | .negSucc k =>
    let ds := List.replicate (k + 2 - d.digits.length) '0' ++ d.digits
    ds.take (ds.length - (k + 1)) ++ '.' :: ds.drop (ds.length - (k + 1))

/-- The leading digit, and the others after a point. -/
def mantissa (d : Decimal) : List Char :=
  match d.digits with
  | [] => []
  | [c] => [c]
  | c :: cs => c :: '.' :: cs

end Decimal

/-! ## Layouts -/

/-- The decisions of one way of writing numbers. -/
structure Layout where
  /-- Numbers whose leading digit has this exponent are written positionally. -/
  isPositional : Int → Bool
  /-- Written after a whole number in positional notation. -/
  wholeMark : String
  /-- Least number of digits of an exponent. -/
  exponentWidth : Nat
  /-- The choice between two equally near shortest decimals. -/
  tie : Tie
  /-- Positive infinity. -/
  infinity : String
  /-- Negative infinity. -/
  negativeInfinity : String
  /-- What is not a number. -/
  nan : String

namespace Layout

/-- An exponent: `e`, its sign, and its digits. -/
def exponent (l : Layout) (e : Int) : List Char :=
  let ds := Nat.toDigits 10 e.natAbs
  'e' :: (if e < 0 then '-' else '+') :: (List.replicate (l.exponentWidth - ds.length) '0' ++ ds)

/-- A finite magnitude, given by its shortest decimal. -/
def magnitude (l : Layout) (d : Decimal) : List Char :=
  if l.isPositional d.order then
    d.positional ++ if 0 ≤ d.exponent then l.wholeMark.toList else []
  else d.mantissa ++ l.exponent d.order

/-- The text of a number. -/
def write (l : Layout) (n : Number) : String :=
  if n.isNaN then l.nan
  else if n.isInfinite then if n.isNegative then l.negativeInfinity else l.infinity
  else
    let digits := l.magnitude (.shortest l.tie n.magnitude)
    String.ofList (if n.isNegative then '-' :: digits else digits)

/-- Printed numbers: positional from `10 ^ -4` up to below `10 ^ 6`, else with an exponent
    of two digits or more. -/
def display : Layout :=
  ⟨fun e => -4 ≤ e && e ≤ 5, "", 2, .up, "+Inf", "-Inf", "NaN"⟩

/-- Plain decimals: no number is written with an exponent. -/
def plain : Layout := ⟨fun _ => true, "", 1, .up, "inf", "-inf", "NaN"⟩

/-- Numbers in JSON: a digit after the point is kept, and what is not finite is `null`. -/
def json : Layout :=
  ⟨fun e => -5 ≤ e && e ≤ 15, ".0", 1, .even, "null", "null", "null"⟩

end Layout

namespace Number

/-- The exact digits of a whole number, with one decimal. -/
def exactWhole (n : Number) : String :=
  String.ofList ((if n.isNegative then ['-'] else []) ++ Nat.toDigits 10 n.whole ++ ['.', '0'])

/-- A number literal in a token list: whole numbers below `2 ^ 63` are written exactly. -/
def literal (n : Number) : String :=
  if n.isWhole && n.whole < Nat.pow 2 63 then n.exactWhole else Layout.plain.write n

/-- A number literal in a listing of the syntax tree: whole numbers are written exactly. -/
def listing (n : Number) : String :=
  if n.isWhole then n.exactWhole else Layout.plain.write n

/-- The text of a printed number. -/
def display (n : Number) : String := Layout.display.write n

end Number

end Scriptling
