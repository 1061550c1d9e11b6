import TypedBus.Number.Binary

/-!
# Doubles

A double is its 64 bits: a sign, eleven bits of exponent, 52 bits of fraction. Everything is decided
on the bits and on exact integers.

* `Double.eq` is numerical equality: no NaN equals anything, and the two zeros are equal.
* NaNs are told apart by marks, which stand in their bits; `Double.isSameNaN` compares them.
* `Double.ofInt?` and `Double.truncate` go between doubles and integers.
* `Double.ofDecimal` is the nearest double to a decimal numeral.

Model of built-in floating point numbers under what the program does to them: `float`, `int`,
`math.isfinite`, `math.isnan`, comparison, and being one and the same object.
-/

namespace TypedBus

/-- A double, by its bits. -/
structure Double where
  bits : UInt64
  deriving DecidableEq, Repr

namespace Double

/-- One more than the greatest fraction, which has 52 bits. -/
def fractions : Nat := 0x10000000000000

/-- One more than the greatest exponent, which has eleven bits. -/
def exponents : Nat := 0x800

/-- The sign bit. -/
def sign : Nat := fractions * exponents

/-- The 52 bits of the fraction. -/
def fraction (d : Double) : Nat := d.bits.toNat % fractions

/-- The eleven bits of the exponent. -/
def exponent (d : Double) : Nat := d.bits.toNat / fractions % exponents

/-- The sign bit is set. -/
def isNegative (d : Double) : Bool := sign ≤ d.bits.toNat

/-- Not a number. -/
def isNaN (d : Double) : Bool := d.exponent == 2047 && d.fraction != 0

/-- One of the two infinities. -/
def isInfinite (d : Double) : Bool := d.exponent == 2047 && d.fraction == 0

/-- Neither an infinity nor a NaN. -/
def isFinite (d : Double) : Bool := d.exponent != 2047

/-- One of the two zeros. -/
def isZero (d : Double) : Bool := d.exponent == 0 && d.fraction == 0

/-- The magnitude of a finite double. -/
def magnitude (d : Double) : Magnitude :=
  if d.exponent = 0 then ⟨d.fraction, -1074⟩
  else ⟨fractions + d.fraction, (d.exponent : Int) - 1075⟩

/-- The NaN with a mark. -/
def markedNaN (mark : Nat) : Double := ⟨0x7FF8000000000000 + UInt64.ofNat mark⟩

/-- A NaN that has just been made. It bears the mark zero and is the same as no other. -/
def nan : Double := markedNaN 0

/-- One NaN, met twice: both have the same mark, which is not zero. -/
def isSameNaN (a b : Double) : Bool := a.isNaN && a.bits == b.bits && a.bits != nan.bits

/-- The same number, a NaN made anew. -/
def renewed (d : Double) : Double := if d.isNaN then nan else d

/-- The sign bit as it is set. -/
def signBit (negative : Bool) : Nat := if negative then sign else 0

/-- The infinity of a sign. -/
def infinity (negative : Bool) : Double := ⟨UInt64.ofNat (signBit negative + 0x7FF0000000000000)⟩

/-- The zero of a sign. -/
def zero (negative : Bool) : Double := ⟨UInt64.ofNat (signBit negative)⟩

/-- The double with a sign and a magnitude on the grid of doubles. -/
def ofMagnitude (negative : Bool) (x : Magnitude) : Double :=
  if BinaryFormat.double.isTooLarge x then infinity negative
  else ⟨UInt64.ofNat (signBit negative + (x.power + 1074).toNat * fractions + x.significand)⟩

/-- The nearest double to a fraction. -/
def ofFraction (negative : Bool) (num den : Nat) : Double :=
  if num = 0 then zero negative else ofMagnitude negative (BinaryFormat.double.round num den)

/-- The nearest double to an integer, unless that is beyond the finite ones. -/
def ofInt? (n : Int) : Option Double :=
  let d := ofFraction (n < 0) n.natAbs 1
  if d.isFinite then some d else none

/-- How many decimal digits a natural number has. -/
def decimalLength (n : Nat) : Nat := (Nat.toDigits 10 n).length

/-- The nearest double to `digits` times ten to the `exponent`. Beyond four hundred places on either
side nothing but an infinity or a zero is near. -/
def ofDecimal (negative : Bool) (digits : Nat) (exponent : Int) : Double :=
  let top := exponent + (decimalLength digits : Int)
  if digits = 0 then zero negative
  else if 400 < top then infinity negative
  else if top < -400 then zero negative
  else if 0 ≤ exponent then ofFraction negative (digits * Nat.pow 10 exponent.natAbs) 1
  else ofFraction negative digits (Nat.pow 10 exponent.natAbs)

/-- Numerical equality. -/
def eq (a b : Double) : Bool :=
  !a.isNaN && !b.isNaN && (a.bits == b.bits || (a.isZero && b.isZero))

/-- The double is numerically this integer. -/
def eqInt (d : Double) (n : Int) : Bool :=
  d.isFinite && d.magnitude.isNat n.natAbs && (n == 0 || d.isNegative == decide (n < 0))

/-- The integer that is left when the fraction of a finite double is cut off. -/
def truncate (d : Double) : Int :=
  if d.isNegative then -(d.magnitude.floor : Int) else d.magnitude.floor

/-- The least integer that is not below a finite double. -/
def ceiling (d : Double) : Int :=
  let (num, den) := d.magnitude.toFraction
  if d.isNegative then -(num / den : Nat) else ((num + den - 1) / den : Nat)

/-- The nearest number of a format, held as a double. A NaN is made anew. -/
def rounded (format : BinaryFormat) (d : Double) : Double :=
  if d.isNaN then nan
  else if !d.isFinite || d.isZero then d
  else
    let (num, den) := d.magnitude.toFraction
    let x := format.round num den
    if format.isTooLarge x then infinity d.isNegative
    else
      let (num', den') := x.toFraction
      ofFraction d.isNegative num' den'

/-- A NaN is not equal to itself, and every other double is. -/
theorem eq_self (d : Double) : d.eq d = !d.isNaN := by
  cases h : d.isNaN <;> simp [eq, h]

/-- A NaN that has just been made is not even the same as itself. -/
theorem isSameNaN_nan (d : Double) : nan.isSameNaN d = false := by
  cases h : nan.bits == d.bits <;> simp [isSameNaN]

/-- Numerical equality goes both ways. -/
theorem eq_comm (a b : Double) : a.eq b = b.eq a := by
  simp only [eq]
  rw [Bool.beq_comm (a := a.bits)]
  cases a.isNaN <;> cases b.isNaN <;> cases a.isZero <;> cases b.isZero <;> simp

end Double

end TypedBus
