import TypedBus.Value.Scalar

/-!
# Grids

Machine scalars of one type along axes, as numeric libraries hold them: a row has one axis, a table
two, and a grid without axes is a single scalar. The scalars stand in one list, row by row;
`Grid.rows` takes a grid apart along its first axis, and `Grid.edges` leaves out the middle of long
axes.

Model of numeric arrays as far as the program looks at them: the type and number of their axes and
their elements. Out of scope: arrays of text, of objects or of complex or extended numbers, and
arrays that share their elements.
-/

namespace TypedBus

/-- How many places a grid has along each axis, the outermost first. -/
abbrev Shape := List Nat

namespace Shape

/-- How many scalars a grid of this shape has. -/
def size (shape : Shape) : Nat := shape.foldl (· * ·) 1

/-- The axes along which two shapes agree, from the outermost on. -/
def common : Shape → Shape → Shape
  | m :: s, n :: t => if m = n then m :: common s t else []
  | _, _ => []

end Shape

/-- A grid: the type of its scalars, its shape, and the scalars row by row. -/
structure Grid where
  type : MachineType
  shape : Shape
  cells : List Scalar
  deriving DecidableEq, Repr

namespace Grid

/-- The parts of a grid along its first axis, each with one axis less. -/
def rows (g : Grid) : List Grid :=
  match g.shape with
  | [] => []
  | n :: shape =>
    let size := Shape.size shape
    (List.range n).map fun i => ⟨g.type, shape, (g.cells.drop (i * size)).take size⟩

/-- How many places are kept at either end of a long axis. -/
def edge : Nat := 3

/-- An axis has more places than are kept at its ends. -/
def isLong (n : Nat) : Bool := 2 * edge < n

/-- What stands at the ends of a row, if it is long. -/
def ends {α : Type} (xs : List α) : List α :=
  if isLong xs.length then xs.take edge ++ xs.drop (xs.length - edge) else xs

/-- The scalars at the ends of every axis of a shape. -/
def edgeCells : Shape → List Scalar → List Scalar
  | [], cells => cells
  | n :: shape, cells =>
    let size := Shape.size shape
    (ends (List.range n)).flatMap fun i => edgeCells shape ((cells.drop (i * size)).take size)

/-- The grid of what stands at the ends of every axis. -/
def edges (g : Grid) : Grid :=
  ⟨g.type, g.shape.map fun n => min n (2 * edge), edgeCells g.shape g.cells⟩

end Grid

end TypedBus
