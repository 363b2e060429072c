/-
  Decimals — exact decimal numbers, their rounding to numbers and their reading.

  A decimal is `coefficient · 10 ^ exponent`.

  * `nearestPattern num den` is the magnitude pattern nearest to the ratio `num / den`,
    a tie going to the even pattern;
  * `Decimal.pattern` rounds a decimal, without computing powers of ten that cannot
    matter;
  * `Decimal.read` reads the decimal notation with optional fraction and exponent, and
    `Number.read` the notation of numbers in text: a sign, then `inf`, `infinity` or
    `nan` in any case, or a decimal.
-/
import Scriptling.Number.Basic

namespace Scriptling

/-! ## Rounding -/

/-- The integer nearest to `num / den`; a half goes to the even neighbour. -/
def roundHalfEven (num den : Nat) : Nat :=
  let q := num / den
  let r := num % den
  if 2 * r < den then q else if den < 2 * r then q + 1 else q + q % 2

/-- The magnitude pattern nearest to `num / den`.  Between two powers of two the
    representable magnitudes are `2 ^ k` units apart; the pattern counts them, so
    rounding up into the next power of two carries by itself. -/
def nearestPattern (num den : Nat) : Nat :=
  let k := (num * unitsPerOne / den).log2 - 52
  min (k * patternsPerExponent + roundHalfEven (num * unitsPerOne) (den * Nat.pow 2 k))
    infinityPattern

/-- The number nearest to a natural number. -/
def Number.ofNat (n : Nat) : Number := .ofParts false (nearestPattern n 1)

/-- The decimal `coefficient · 10 ^ exponent`. -/
structure Decimal where
  coefficient : Nat
  exponent : Int
deriving DecidableEq, Inhabited

namespace Decimal

/-- The magnitude pattern nearest to the decimal.  Above `10 ^ 400` that is infinity,
    and zero when the coefficient has less than `2 ^ (k - 400)` for `10 ^ -k`. -/
def pattern (d : Decimal) : Nat :=
  if d.coefficient = 0 then 0
  else match d.exponent with
    | .ofNat k =>
      if 400 < k then infinityPattern else nearestPattern (d.coefficient * Nat.pow 10 k) 1
    | .negSucc k =>
      if d.coefficient.log2 + 400 < k then 0
      else nearestPattern d.coefficient (Nat.pow 10 (k + 1))

/-! ## Reading -/

/-- The digit that a character is. -/
def digit (c : Char) : Nat := c.toNat - '0'.toNat

/-- The natural number that a list of decimal digits writes. -/
def valueOfDigits (cs : List Char) : Nat := cs.foldl (fun n c => 10 * n + digit c) 0

private theorem foldl_digits (cs : List Char) (n : Nat) :
    cs.foldl (fun n c => 10 * n + digit c) n = n * Nat.pow 10 cs.length + valueOfDigits cs := by
  induction cs generalizing n with
  | nil => simp [valueOfDigits]
  | cons c cs ih =>
    simp only [valueOfDigits, List.foldl_cons, List.length_cons]
    have hten : Nat.pow 10 (cs.length + 1) = Nat.pow 10 cs.length * 10 := rfl
    rw [ih (10 * n + digit c), ih (10 * 0 + digit c), hten]
    rw [Nat.add_mul, Nat.mul_zero, Nat.zero_add, Nat.add_assoc]
    rw [show 10 * n * Nat.pow 10 cs.length = n * (Nat.pow 10 cs.length * 10) by
      rw [Nat.mul_comm 10 n, Nat.mul_assoc, Nat.mul_comm 10]]

theorem valueOfDigits_append (as bs : List Char) :
    valueOfDigits (as ++ bs) = valueOfDigits as * Nat.pow 10 bs.length + valueOfDigits bs := by
  rw [valueOfDigits, List.foldl_append, foldl_digits]
  rfl

/-- The same number, from the numbers that the two halves write: long lists of digits are
    read much faster so. -/
def valueByHalves : Nat → List Char → Nat
  | 0, cs => valueOfDigits cs
  | depth + 1, cs =>
    let half := cs.length / 2
    let back := cs.drop half
    valueByHalves depth (cs.take half) * Nat.pow 10 back.length + valueByHalves depth back

theorem valueByHalves_eq (depth : Nat) (cs : List Char) :
    valueByHalves depth cs = valueOfDigits cs := by
  induction depth generalizing cs with
  | zero => rfl
  | succ depth ih =>
    rw [valueByHalves, ih, ih, ← valueOfDigits_append, List.take_append_drop]

/-- The natural number that a list of decimal digits writes, read by halves down to some
    dozens of digits. -/
def natOfDigits (cs : List Char) : Nat := valueByHalves (cs.length / 32).log2 cs

theorem natOfDigits_eq (cs : List Char) : natOfDigits cs = valueOfDigits cs :=
  valueByHalves_eq _ cs

/-- The decimal written by the digits before and after a point, times `10 ^ exponent`. -/
def ofDigits (whole fraction : List Char) (exponent : Int) : Decimal :=
  ⟨natOfDigits (whole ++ fraction), exponent - fraction.length⟩

/-- The optional sign in front of a number: whether it is a minus, and what follows. -/
def splitSign : List Char → Bool × List Char
  | '-' :: cs => (true, cs)
  | '+' :: cs => (false, cs)
  | cs => (false, cs)

/-- Where exponents stop to grow. -/
def exponentCap : Nat := Nat.pow 2 16

/-- The exponent that digits write: digits after it has reached the cap are not counted. -/
def exponentOfDigits (cs : List Char) : Nat :=
  cs.foldl (fun n c => if n < exponentCap then 10 * n + digit c else n) 0

/-- An exponent: nothing at all, or `e` or `E`, an optional sign, and digits. -/
def readExponent : List Char → Option Int
  | [] => some 0
  | c :: cs =>
    if c = 'e' || c = 'E' then
      let (negative, digits) := splitSign cs
      if digits.isEmpty || !digits.all Char.isDigit then none
      else
        let n : Int := exponentOfDigits digits
        some (if negative then -n else n)
    else none

/-- Digits, optionally a point and digits, and an exponent; a digit must stand on one
    side of the point. -/
def read (cs : List Char) : Option Decimal :=
  let whole := cs.takeWhile Char.isDigit
  let (fraction, rest) := match cs.dropWhile Char.isDigit with
    | '.' :: r => (r.takeWhile Char.isDigit, r.dropWhile Char.isDigit)
    | r => ([], r)
  if whole.isEmpty && fraction.isEmpty then none
  else (readExponent rest).map (ofDigits whole fraction)

end Decimal

namespace Number

/-- The pattern that stands for no number. -/
def nanPattern : Nat := infinityPattern + Nat.pow 2 51

/-- The magnitude pattern written by a text without sign. -/
def readMagnitude (cs : List Char) : Option Nat :=
  let word := String.ofList (cs.map Char.toLower)
  if word = "inf" || word = "infinity" then some infinityPattern
  else if word = "nan" then some nanPattern
  else (Decimal.read cs).map Decimal.pattern

/-- The number that a text writes, if the whole of it is one. -/
def read (text : String) : Option Number :=
  let (negative, cs) := Decimal.splitSign text.toList
  (readMagnitude cs).map (ofParts negative)

/-- The number that digits before and after a point write. -/
def ofDigits (whole fraction : List Char) : Number :=
  ofParts false (Decimal.ofDigits whole fraction 0).pattern

end Number

end Scriptling
