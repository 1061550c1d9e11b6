import TypedBus.Number.Binary

/-!
# The fewest decimal digits that read back

Every magnitude of a binary format is the nearest one to a whole interval of numbers. The shortest
numeral in that interval is the one to write. `shortestDecimal` tries one digit, two digits and so
on: of the numbers with that many digits only the two neighbours of the magnitude can lie in the
interval, and the first count with a hit wins, of two hits the nearer.

Model of the digits that the text of a floating point number has.
-/

namespace TypedBus

/-- Decimal digits and the place of the point: the value is 0.d₁d₂… times ten to the `point`. -/
structure Decimal where
  digits : Nat
  point : Int
  deriving DecidableEq, Repr

namespace Decimal

/-- Ten to an integer power, as a fraction. -/
def tenTo (power : Int) : Nat × Nat :=
  if power < 0 then (1, Nat.pow 10 power.natAbs) else (Nat.pow 10 power.natAbs, 1)

/-- The least power of ten above a positive fraction, sought upwards from `guess`. -/
def pointFrom (num den : Nat) : Nat → Int → Int
  | 0, guess => guess
  | steps + 1, guess =>
    let (up, down) := tenTo guess
    if num * down < den * up then guess else pointFrom num den steps (guess + 1)

/-- The least power of ten above a positive fraction. -/
def pointOf (num den : Nat) : Int :=
  let bits : Int := (Nat.log2 num : Int) - (Nat.log2 den : Int) - 1
  pointFrom num den 4 (Int.fdiv (bits * 30103) 100000 - 1)

/-- The digits without the zeros at their end. -/
def trimmed : Nat → Nat → Nat
  | 0, n => n
  | steps + 1, n => if n % 10 = 0 then trimmed steps (n / 10) else n

end Decimal

/-- What rounds to a magnitude, in quarters of its unit: the magnitude stands at `4 * significand`,
its lower end nearer by half when the grid is finer below, and the ends belong to it when the
significand is even. -/
structure RoundingInterval where
  low : Nat
  high : Nat
  closed : Bool

/-- The rounding interval of a magnitude of a format. -/
def BinaryFormat.interval (f : BinaryFormat) (x : Magnitude) : RoundingInterval :=
  let finerBelow := x.significand = f.full / 2 ∧ f.leastPower < x.power
  ⟨4 * x.significand - (if finerBelow then 1 else 2), 4 * x.significand + 2,
    x.significand % 2 == 0⟩

/-- The number `n / d` of quarter units lies in the interval. -/
def RoundingInterval.holds (r : RoundingInterval) (n d : Nat) : Bool :=
  if r.closed then r.low * d ≤ n && n ≤ r.high * d else r.low * d < n && n < r.high * d

/-- The neighbours of a magnitude among the numerals with `count` digits, if one of them reads
back: the nearer one, the even one when both are equally near. -/
def BinaryFormat.decimalWith? (f : BinaryFormat) (x : Magnitude) (point : Int) (count : Nat) :
    Option Nat :=
  let (num, den) := x.toFraction
  let (up, down) := Decimal.tenTo (point - count)
  -- The magnitude is `num * down / (den * up)` units of the last digit.
  let below := num * down / (den * up)
  -- A numeral of `c` units is `c * up * den * 4 * significand / (num * down)` quarter units.
  let reads (c : Nat) : Bool :=
    (f.interval x).holds (c * up * den * (4 * x.significand)) (num * down)
  let twice := 2 * (num * down % (den * up))
  match reads below, reads (below + 1) with
  | true, true =>
    some (if twice < den * up then below
      else if den * up < twice then below + 1
      else if below % 2 = 0 then below else below + 1)
  | true, false => some below
  | false, true => some (below + 1)
  | false, false => none

/-- The shortest decimal numeral that reads back as a positive magnitude of the format. -/
def BinaryFormat.shortestDecimal (f : BinaryFormat) (x : Magnitude) : Decimal :=
  let (num, den) := x.toFraction
  let point := Decimal.pointOf num den
  match (List.range 17).findSome? fun k => (f.decimalWith? x point (k + 1)).map (k + 1, ·) with
  | some (count, n) =>
    -- One unit above a row of nines is the next power of ten.
    if n = Nat.pow 10 count then ⟨1, point + 1⟩ else ⟨Decimal.trimmed count n, point⟩
  | none => ⟨x.significand, point⟩

end TypedBus
