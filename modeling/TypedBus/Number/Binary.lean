/-!
# Binary floating point grids

A magnitude is a natural number times a power of two. `BinaryFormat` says which magnitudes a
floating point format holds: those with at most `precision` bits and no power below `leastPower`.
`BinaryFormat.round` takes a positive fraction to the nearest of them, the even one of two that are
equally near.

Model of the rounding by which an exact number is taken into a floating point format, the product of
a time and a constant among them (`Timeout.nanoseconds`). Out of scope: any other arithmetic in such
a format, of which the program does none.
-/

namespace TypedBus

/-- The natural number `significand` times two to the `power`. -/
structure Magnitude where
  significand : Nat
  power : Int
  deriving DecidableEq, Repr

namespace Magnitude

/-- Two to an integer power, as a fraction. -/
def twoTo (power : Int) : Nat × Nat :=
  if power < 0 then (1, Nat.pow 2 power.natAbs) else (Nat.pow 2 power.natAbs, 1)

/-- The magnitude as a fraction. -/
def toFraction (x : Magnitude) : Nat × Nat :=
  let (up, down) := twoTo x.power
  (x.significand * up, down)

/-- The whole part. -/
def floor (x : Magnitude) : Nat :=
  let (num, den) := x.toFraction
  num / den

/-- The magnitude is this natural number. -/
def isNat (x : Magnitude) (n : Nat) : Bool :=
  let (num, den) := x.toFraction
  num == n * den

end Magnitude

/-- The nearest natural number to a fraction, the even one when two are equally near. -/
def roundHalfEven (num den : Nat) : Nat :=
  let whole := num / den
  let twice := 2 * (num % den)
  if twice < den then whole
  else if den < twice then whole + 1
  else if whole % 2 = 0 then whole else whole + 1

/-- A binary floating point format: how many bits a significand has, the least power it is scaled
by, and the greatest power with which a full significand is still finite. -/
structure BinaryFormat where
  precision : Nat
  leastPower : Int
  greatestPower : Int

namespace BinaryFormat

/-- Doubles have 53 bits. -/
def double : BinaryFormat := ⟨53, -1074, 971⟩

/-- Single precision numbers have 24 bits. -/
def single : BinaryFormat := ⟨24, -149, 104⟩

/-- Half precision numbers have eleven bits. -/
def half : BinaryFormat := ⟨11, -24, 5⟩

/-- The least natural number with more bits than a significand has. -/
def full (f : BinaryFormat) : Nat := Nat.pow 2 f.precision

/-- The power of the grid on which a positive fraction lies. -/
def gridPower (f : BinaryFormat) (num den : Nat) : Int :=
  let guess : Int := (Nat.log2 num : Int) - (Nat.log2 den : Int) - (f.precision : Int)
  let (up, down) := Magnitude.twoTo guess
  let power := if num * down / (den * up) < f.full then guess else guess + 1
  max power f.leastPower

/-- The nearest magnitude of the format, without its upper end. -/
def round (f : BinaryFormat) (num den : Nat) : Magnitude :=
  let power := f.gridPower num den
  let (up, down) := Magnitude.twoTo power
  let significand := roundHalfEven (num * down) (den * up)
  if significand = f.full then ⟨f.full / 2, power + 1⟩ else ⟨significand, power⟩

/-- A rounded magnitude lies beyond the format's upper end. -/
def isTooLarge (f : BinaryFormat) (x : Magnitude) : Bool := f.greatestPower < x.power

end BinaryFormat

end TypedBus
