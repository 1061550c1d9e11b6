import TypedBus.Number.Layout
import TypedBus.Value.Grid

/-!
# Showing machine scalars and grids

A grid is shown as its scalars in nested brackets, all in columns of one width and in lines of at
most 75 characters. Of a grid with more than a thousand scalars only the ends of its long axes are
shown. There are two forms: `Grid.display`, which tells the type, and `Grid.plain`.

Numbers with a point are aligned at it. They have the fewest digits that read back, but no more than
eight places, and either all of them have exponents or none has: they do when the greatest is large,
the least is small, or the two are far apart.

Model of `repr` and `str` of numeric scalars and arrays under the usual print options.
-/

namespace TypedBus

namespace Text

/-- A row of blanks. -/
def spaces (n : Nat) : Text := List.replicate n (.scalar ' ')

/-- The text with blanks in front, if it is shorter than this. -/
def alignRight (width : Nat) (t : Text) : Text := spaces (width - t.length) ++ t

/-- The text with blanks behind, if it is shorter than this. -/
def alignLeft (width : Nat) (t : Text) : Text := t ++ spaces (width - t.length)

/-- The length of the longest text. -/
def width (ts : List Text) : Nat := (ts.map List.length).foldl max 0

/-- The text without the code points at its end that are this character. -/
def withoutLast (c : Char) (t : Text) : Text := (t.reverse.dropWhile (·.is c)).reverse

end Text

/-- The shape in parentheses. -/
def Shape.display (shape : Shape) : Text :=
  match shape with
  | [n] => .concat ["(", .ofNat n, ",)"]
  | ns => .concat ["(", .join ", " (ns.map Text.ofNat), ")"]

namespace MachineType

/-- A grid of the type is shown without the name of its type. -/
def isUsual : MachineType → Bool
  | boolean | floating .double | integer .int64 => true
  | integer _ | floating _ => false

end MachineType

namespace Scalar

/-- A machine scalar without its type. -/
def plain : Scalar → Text
  | boolean b => if b then "True" else "False"
  | integer _ n => .ofInt n
  | floating .double d => d.display
  | floating f d => d.displayShort f.format f.digits

/-- A machine scalar with its type. -/
def display : Scalar → Text
  | boolean b => if b then "np.True_" else "np.False_"
  | s => .concat ["np.", s.type.name, "(", s.plain, ")"]

/-- The double of a scalar that is a floating point number. -/
def double? : Scalar → Option Double
  | floating _ d => some d
  | boolean _ | integer _ _ => none

end Scalar

/-! ## Numbers with a point -/

/-- A number before it is aligned: what stands before the point, what stands after it, and the
exponent, if it has one. -/
structure PointedText where
  whole : Text
  places : Text
  exponent : Option Int

namespace PointedText

/-- How many places a number of a grid has at most. -/
def greatestPlaces : Nat := 8

/-- The digits without the zeros at their end. -/
def trim (digits : Text) : Text := digits.withoutLast '0'

/-- The sign of a number. -/
def sign (d : Double) : Text := if d.isNegative then "-" else []

/-- A finite number without an exponent. -/
def positional (format : BinaryFormat) (d : Double) : PointedText :=
  if d.isZero then ⟨sign d ++ "0", [], none⟩
  else
    let (num, den) := d.magnitude.toFraction
    let x := format.shortestDecimal (format.round num den)
    let places : Int := (Text.ofNat x.digits).length - x.point
    let unit := Nat.pow 10 greatestPlaces
    let units :=
      if places ≤ greatestPlaces then x.digits * Nat.pow 10 (greatestPlaces - places).toNat
      else roundHalfEven (num * unit) den
    let rest := Text.ofNat (units % unit)
    ⟨sign d ++ Text.ofNat (units / unit),
      trim (DoubleLayout.zeros (greatestPlaces - rest.length) ++ rest), none⟩

/-- A finite number with an exponent. -/
def scientific (format : BinaryFormat) (d : Double) : PointedText :=
  if d.isZero then ⟨sign d ++ "0", [], some 0⟩
  else
    let (num, den) := d.magnitude.toFraction
    let x := format.shortestDecimal (format.round num den)
    let digits := Text.ofNat x.digits
    let (digits, point) :=
      if digits.length ≤ greatestPlaces + 1 then (digits, x.point)
      else
        let (up, down) := Decimal.tenTo (x.point - (greatestPlaces + 1))
        let n := roundHalfEven (num * down) (den * up)
        if n = Nat.pow 10 (greatestPlaces + 1) then (Text.ofNat 1, x.point + 1)
        else (Text.ofNat n, x.point)
    ⟨sign d ++ digits.take 1, trim (digits.drop 1), some (point - 1)⟩

/-- The digits of an exponent, of which there are two at least. -/
def exponentDigits (e : Int) : Text :=
  let digits := Text.ofNat e.natAbs
  DoubleLayout.zeros (2 - digits.length) ++ digits

/-- A number with so many characters before the point, so many after it, and so many digits of the
exponent. -/
def align (whole places exponent : Nat) (x : PointedText) : Text :=
  match x.exponent with
  | none => .concat [x.whole.alignRight whole, ".", x.places.alignLeft places]
  | some e =>
    let digits := exponentDigits e
    .concat [x.whole.alignRight whole, ".", x.places,
      DoubleLayout.zeros (places - x.places.length), "e", if e < 0 then "-" else "+",
      DoubleLayout.zeros (exponent - digits.length), digits]

end PointedText

namespace Double

/-- The magnitude of a finite double is below that of another. -/
def isNearerZero (a b : Double) : Bool :=
  let (num, den) := a.magnitude.toFraction
  let (num', den') := b.magnitude.toFraction
  num * den' < num' * den

/-- The quotient of the magnitudes of two finite numbers of a type, the second not zero. -/
def ratio (f : MachineFloat) (a b : Double) : Double :=
  let (num, den) := a.magnitude.toFraction
  let (num', den') := b.magnitude.toFraction
  (ofFraction false (num * den') (den * num')).rounded f.format

/-- The least and the greatest magnitude among finite doubles. -/
def extremes : List Double → Option (Double × Double)
  | [] => none
  | d :: ds =>
    some <| ds.foldl
      (fun e d =>
        (if d.isNearerZero e.1 then d else e.1, if e.2.isNearerZero d then d else e.2))
      (d, d)

/-- A number of a type near a decimal one. -/
def ofDecimalAs (f : MachineFloat) (digits : Nat) (exponent : Int) : Double :=
  (ofDecimal false digits exponent).rounded f.format

/-- Numbers of a type are shown with exponents: one is as large as the type has digits, or reaches a
hundred million, one is below a ten-thousandth, or one is more than a thousand times another. Zeros
do not count. -/
def wantExponents (f : MachineFloat) (ds : List Double) : Bool :=
  match extremes (ds.filter fun d => !d.isZero) with
  | none => false
  | some (least, greatest) =>
    !greatest.isNearerZero (ofDecimalAs f 1 (min 8 f.digits)) ||
      least.isNearerZero (ofDecimalAs f 1 (-4)) ||
      (ofDecimalAs f 1000 0).isNearerZero (ratio f greatest least)

/-- The text of a number that is not finite. -/
def unboundedText (d : Double) : Text :=
  if d.isNaN then "nan" else if d.isNegative then "-inf" else "inf"

/-- Numbers of a type in columns. -/
def columns (f : MachineFloat) (ds : List Double) : List Text :=
  let finite := ds.filter isFinite
  let layOut := if wantExponents f finite then PointedText.scientific else PointedText.positional
  let numbers := finite.map (layOut f.format)
  let whole := Text.width (numbers.map PointedText.whole)
  let places := Text.width (numbers.map PointedText.places)
  let exponents := numbers.filterMap fun x => x.exponent.map PointedText.exponentDigits
  let exponent := Text.width exponents
  -- The mark and the sign of an exponent take two more.
  let behind := places + (if exponents.isEmpty then 0 else exponent + 2)
  let unbounded := (ds.filter fun d => !d.isFinite).map unboundedText
  let whole := max whole (Text.width unbounded - (behind + 1))
  ds.map fun d =>
    if d.isFinite then (layOut f.format d).align whole places exponent
    else d.unboundedText.alignRight (whole + behind + 1)

end Double

/-! ## Lines -/

namespace Grid

/-- The scalars of a grid as texts of one width. -/
def words (g : Grid) : List Text :=
  match g.type with
  | .boolean => g.cells.map fun s => s.plain.alignRight (if g.shape.isEmpty then 0 else 5)
  | .integer _ =>
    let words := g.cells.map Scalar.plain
    words.map (Text.alignRight (Text.width words))
  | .floating f => Double.columns f (g.cells.filterMap Scalar.double?)

/-- Lines are at most so long. -/
def lineWidth : Nat := 75

/-- Go on with a word: in the same line if it fits within a limit, or in a new line behind the
indent. A line that has only just begun takes any word. -/
def addWord (indent limit : Nat) (lines : Text × Text) (word : Text) : Text × Text :=
  if limit < lines.2.length + word.length ∧ indent < lines.2.length then
    (.concat [lines.1, lines.2.withoutLast ' ', "\n"], Text.spaces indent ++ word)
  else (lines.1, lines.2 ++ word)

/-- The words of a row in lines, with a separator between neighbours. -/
def rowLines (separator : Text) (indent limit : Nat) (words : List Text) : Text :=
  let (done, line) := words.dropLast.foldl
    (fun lines word =>
      let (done, line) := addWord indent limit lines word
      (done, line ++ separator))
    (([] : Text), Text.spaces indent)
  let (done, line) := (words.drop (words.length - 1)).foldl (addWord indent limit) (done, line)
  (done ++ line).drop indent

/-- The number of places along an axis, and whether some in its middle are left out. -/
structure Axis where
  size : Nat
  isCut : Bool

/-- Parts along an axis, with dots in its middle where some are left out. -/
def Axis.mark (axis : Axis) (parts : List Text) : List Text :=
  if axis.isCut then parts.take edge ++ (("..." : Text) :: parts.drop edge) else parts

/-- Words in brackets. The rows of a grid of several axes stand in lines of their own, with empty
lines between where there are more than two axes. -/
def bracketed (separator : Text) : List Axis → (indent width : Nat) → List Text → Text
  | [], _, _, words => .concat words
  | [axis], indent, width, words =>
    .concat ["[", rowLines separator indent (width - 1) (axis.mark words), "]"]
  | axis :: next :: axes, indent, width, words =>
    let size := Shape.size ((next :: axes).map Axis.size)
    let parts := (List.range axis.size).map fun i =>
      bracketed separator (next :: axes) (indent + 1) (width - 1)
        ((words.drop (i * size)).take size)
    let between := .concat [separator.withoutLast ' ',
      List.replicate (axes.length + 1) (.scalar '\n'), Text.spaces indent]
    .concat ["[", .join between (axis.mark parts), "]"]

/-- How many scalars of a grid are shown at most before its middle is left out. -/
def greatestSize : Nat := 1000

/-- The grid has too many scalars for all of them to be shown. -/
def isLarge (g : Grid) : Bool := greatestSize < g.cells.length

/-- The brackets of a grid; a grid without scalars has but one pair. -/
def brackets (separator : Text) (indent width : Nat) (g : Grid) : Text :=
  if g.cells.isEmpty then "[]"
  else
    let shown := if g.isLarge then g.edges else g
    let axes := (shown.shape.zip g.shape).map fun n => Axis.mk n.1 (n.1 != n.2)
    bracketed separator axes indent width shown.words

/-- A grid without its type. -/
def plain (g : Grid) : Text :=
  match g.shape, g.cells with
  | [], [s] => s.plain
  | _, _ => g.brackets " " 1 lineWidth

/-- What is told of a grid behind its brackets: its shape where the scalars do not show it, and its
type unless that can be seen. -/
def extras (g : Grid) : List Text :=
  (if (g.cells.isEmpty && g.shape != [0]) || g.isLarge then
      [.concat ["shape=", Shape.display g.shape]]
    else []) ++
    (if g.cells.isEmpty || !g.type.isUsual then [.concat ["dtype=", g.type.name]] else [])

/-- A grid with its type, which goes into a new line where the last one would become too long. -/
def display (g : Grid) : Text :=
  let opened : Text := "array("
  let body : Text := opened ++ g.brackets ", " (opened.length + 1) (lineWidth - 1)
  match g.extras with
  | [] => .concat [body, ")"]
  | extras =>
    let told := .concat [.join ", " extras, ")"]
    let lastLine := (body.reverse.takeWhile fun p => !p.is '\n').length + 1
    let space : Text :=
      if lineWidth < lastLine + told.length + 1 then "\n" ++ Text.spaces opened.length else " "
    .concat [body, ",", space, told]

end Grid

end TypedBus
