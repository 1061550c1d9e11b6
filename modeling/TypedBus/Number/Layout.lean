import TypedBus.Number.Double
import TypedBus.Number.Shortest
import TypedBus.Text.Basic

/-!
# Writing doubles

A double is written with the fewest digits that read back. The layouts in use are all records of
`DoubleLayout`: the one of messages and displays, those of numbers with fewer bits there, and the
one of JSON documents.

Model of the text of a floating point number, built-in, of a numeric library or in JSON.
-/

namespace TypedBus

/-- How a number is laid out. Positional digits stand while the point lies within bounds; beyond
them an exponent follows the first digit. -/
structure DoubleLayout where
  /-- The least place of the point with positional digits. -/
  leastPoint : Int
  /-- The greatest place of the point with positional digits. -/
  greatestPoint : Int
  /-- What stands before an exponent that is not negative. -/
  positiveSign : Text
  /-- The least number of digits of an exponent. -/
  exponentWidth : Nat

namespace DoubleLayout

/-- Displays: 0.0001 and 9999999999999998.0 are positional, 1e-05 and 1e+16 are not. -/
def display : DoubleLayout := ⟨-3, 16, "+", 2⟩

/-- Displays of numbers with fewer bits: positional up to so many digits before the point. -/
def short (digits : Nat) : DoubleLayout := { display with greatestPoint := digits }

/-- JSON documents: 0.00001 and 1e+16, and an exponent has no zeros in front. -/
def json : DoubleLayout := ⟨-4, 16, "+", 1⟩

/-- Displays of a number below a ten-thousandth: 1e-04, even where the digits alone would be those
of a number that is not. -/
def exponential : DoubleLayout := { display with leastPoint := 1, greatestPoint := 0 }

/-- A row of zeros. -/
def zeros (n : Nat) : Text := List.replicate n (.scalar '0')

/-- The text of a decimal numeral. -/
def write (layout : DoubleLayout) (x : Decimal) : Text :=
  let digits := Text.ofNat x.digits
  if layout.leastPoint ≤ x.point ∧ x.point ≤ layout.greatestPoint then
    let whole := x.point.toNat
    if x.point ≤ 0 then .concat ["0.", zeros x.point.natAbs, digits]
    else if whole < digits.length then .concat [digits.take whole, ".", digits.drop whole]
    else .concat [digits, zeros (whole - digits.length), ".0"]
  else
    let exponent := x.point - 1
    let places := Text.ofNat exponent.natAbs
    .concat [digits.take 1, if digits.length = 1 then [] else ".", digits.drop 1, "e",
      if exponent < 0 then "-" else layout.positiveSign,
      zeros (layout.exponentWidth - places.length), places]

end DoubleLayout

namespace Double

/-- A double with the shortest digits of a format it fits. -/
def writtenAs (format : BinaryFormat) (x : Magnitude) (layout : DoubleLayout) (d : Double) : Text :=
  let sign : Text := if d.isNegative then "-" else []
  if d.isNaN then "nan"
  else if d.isInfinite then sign ++ "inf"
  else if d.isZero then sign ++ "0.0"
  else sign ++ layout.write (format.shortestDecimal x)

/-- A double as it is displayed. -/
def display (d : Double) : Text := d.writtenAs .double d.magnitude .display

/-- A number of a shorter format as it is displayed. Its digits may be those of a ten-thousandth
while the number itself is below that. -/
def displayShort (format : BinaryFormat) (digits : Nat) (d : Double) : Text :=
  let (num, den) := d.magnitude.toFraction
  d.writtenAs format (format.round num den)
    (if num * 10000 < den then .exponential else .short digits)

/-- A finite double as a JSON number. -/
def json (d : Double) : Text := d.writtenAs .double d.magnitude .json

end Double

end TypedBus
