/-
  Numbers — binary64 values, held as their bit patterns.

  A number is a sign and a magnitude pattern (the low 63 bits).  Finite magnitude
  patterns are ordered as the magnitudes they stand for, and every finite magnitude
  is a whole number of units of `2⁻¹⁰⁷⁴`:

  * `Number.magnitude`, `Number.isNegative`: the two parts, with `ofParts` to join them;
  * `unitsOf`, `Number.units`: the exact magnitude in units, so that conversions to and
    from decimal text are arithmetic on `Nat`;
  * `Number.rank`: an integer that orders the numbers (`Number.lt`, `Number.le`,
    `Number.equals`), both zeros having rank `0`.
-/
namespace Scriptling

/-- A binary64 number. -/
structure Number where
  /-- The bit pattern: sign, eleven bits of exponent, fifty-two bits of fraction. -/
  bits : UInt64
deriving DecidableEq, Inhabited

/-- How many units one is: a unit is the least positive magnitude. -/
def unitsPerOne : Nat := Nat.pow 2 1074

/-- How many patterns there are for each exponent. -/
def patternsPerExponent : Nat := Nat.pow 2 52

/-- The magnitude pattern of the infinities; greater patterns are not numbers. -/
def infinityPattern : Nat := 0x7ff * patternsPerExponent

/-- The magnitude in units that a finite pattern stands for. -/
def unitsOf (pattern : Nat) : Nat :=
  if pattern < patternsPerExponent then pattern
  else (patternsPerExponent + pattern % patternsPerExponent) *
    Nat.pow 2 (pattern / patternsPerExponent - 1)

namespace Number

/-! ## Parts -/

/-- How many patterns there are with each sign. -/
def patternsPerSign : Nat := Nat.pow 2 63

/-- The pattern without its sign. -/
def magnitude (n : Number) : Nat := n.bits.toNat % patternsPerSign

/-- The sign bit. -/
def isNegative (n : Number) : Bool := patternsPerSign ≤ n.bits.toNat

/-- The number with the given sign and magnitude pattern. -/
def ofParts (negative : Bool) (pattern : Nat) : Number :=
  ⟨UInt64.ofNat (pattern + if negative then patternsPerSign else 0)⟩

/-- Patterns above the infinities stand for no number. -/
def isNaN (n : Number) : Bool := infinityPattern < n.magnitude

/-- One of the two infinities. -/
def isInfinite (n : Number) : Bool := n.magnitude == infinityPattern

/-- Neither infinite nor outside the numbers. -/
def isFinite (n : Number) : Bool := n.magnitude < infinityPattern

/-- One of the two zeros. -/
def isZero (n : Number) : Bool := n.magnitude == 0

/-- The magnitude of a finite number, in units. -/
def units (n : Number) : Nat := unitsOf n.magnitude

/-- A finite number without fractional part. -/
def isWhole (n : Number) : Bool := n.isFinite && n.units % unitsPerOne == 0

/-- The integer part of the magnitude. -/
def whole (n : Number) : Nat := n.units / unitsPerOne

/-! ## Order -/

/-- The place of a number in the order of the numbers. -/
def rank (n : Number) : Int := if n.isNegative then -(n.magnitude : Int) else n.magnitude

/-- Numeric equality: the zeros are equal, and what is not a number equals nothing. -/
def equals (a b : Number) : Bool := !a.isNaN && !b.isNaN && a.rank == b.rank

/-- Numeric order, strict. -/
def lt (a b : Number) : Bool := !a.isNaN && !b.isNaN && a.rank < b.rank

/-- Numeric order. -/
def le (a b : Number) : Bool := !a.isNaN && !b.isNaN && a.rank ≤ b.rank

/-! ## Arithmetic -/

/-- The number as the hardware computes with it. -/
def toFloat (n : Number) : Float := Float.ofBits n.bits

/-- The number that the hardware computed. -/
def ofFloat (x : Float) : Number := ⟨x.toBits⟩

/-- The number with the other sign. -/
def neg (n : Number) : Number := ⟨n.bits ^^^ 0x8000000000000000⟩

/-- Rounded sum. -/
def add (a b : Number) : Number := ofFloat (a.toFloat + b.toFloat)

/-- Rounded difference. -/
def sub (a b : Number) : Number := ofFloat (a.toFloat - b.toFloat)

/-- Rounded product. -/
def mul (a b : Number) : Number := ofFloat (a.toFloat * b.toFloat)

/-- Rounded quotient. -/
def div (a b : Number) : Number := ofFloat (a.toFloat / b.toFloat)

end Number

end Scriptling
