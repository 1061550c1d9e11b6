import TypedBus.Value.Convert

/-!
# Values that bear their type

A caller may hand over a value together with its type: an integer of a fixed width, a handle, an
object path or a signature, or a scalar or a grid of a machine type. `BasicType.construct` and
`MachineType.construct` make such a value out of another one. Text is taken as it is; whether it is
a path or a signature is asked later, when it is written.

* `BasicType.construct` takes any number by its value, and text as a numeral, where
  `BasicType.convert` refuses the one for being a double and the other for being text.
* `MachineType.construct` takes a list for a grid of one axis, a list of lists for one of two, and
  anything that is no row for a scalar.

Model of `_Integer` with `Byte` to `UInt64`, of `UnixFD`, `ObjectPath` and `Signature` as they are
made of a value (`BasicType.construct`), and of the scalars and arrays of a numeric library as they
are made of one.
-/

namespace TypedBus

namespace BasicType

/-- A value that bears a basic type. -/
def construct (b : BasicType) (v : Value) : Except Fault Value :=
  match b with
  | integer w => do w.make (← v.toInteger)
  | boolean => do .ok (.boolean (← v.toTruth))
  | double => do .ok (.double (← v.toDouble))
  | string => do .ok (.text (← v.plain))
  | objectPath => do .ok (.path (← v.plain))
  | signature => do .ok (.signature (← v.plain))
  | handle => do .ok (.handle (← v.toInteger))

/-- The value that a basic type starts from: zero, or nothing. -/
def initial : BasicType → Value
  | integer w => .fixed w 0
  | boolean => .boolean false
  | double => .double (.zero false)
  | string => .text []
  | objectPath => .path []
  | signature => .signature []
  | handle => .handle 0

/-- What a type starts from is made of itself. -/
theorem construct_initial (b : BasicType) : b.construct b.initial = .ok b.initial := by
  rcases b with ⟨_ | _⟩ | _ <;> rfl

end BasicType

namespace MachineInt

/-- A machine integer given as an integer, by this value. -/
def given (i : MachineInt) (n : Int) (v : Value) : Except Fault Scalar :=
  if ¬ i.FitsWord n then .error .beyondWord
  else if i.Holds n then .ok (.integer i n)
  else v.refuse fun shown => .outOfBounds shown i

/-- A machine integer made of a value: of an integer or a numeral when it is one of the type, of any
other number by what is left of it in so many bits. -/
def ofValue (i : MachineInt) (v : Value) : Except Fault Scalar := do
  match v with
  | .boolean _ | .integer _ | .fixed _ _ | .handle _ => do
    i.given (← v.toInteger) v
  | .text _ | .path _ | .signature _ | .bytes _ => do
    let n ← v.toInteger
    i.given n (.integer n)
  | v => do
    let n ← v.toInteger
    if i.FitsWord n then .ok (.integer i (i.wrap n)) else .error .beyondWord

end MachineInt

namespace Value

/-- The elements of a value that makes a row of a grid. -/
def gridRow? : Value → Option (List Value)
  | list _ vs => some vs
  | grid g => gridElements? g
  | v => v.row?

end Value

namespace MachineType

/-- A scalar of a machine type. -/
def scalar (t : MachineType) (v : Value) : Except Fault Scalar :=
  match t, v with
  | boolean, v => do .ok (.boolean (← v.toTruth))
  | integer i, v => i.ofValue v
  | floating f, .null => .ok (.floating f .nan)
  | floating f, v => do .ok (.floating f ((← v.toDouble).rounded f.format))

end MachineType

namespace Shape

/-- The shape of rows that are together one row of a grid: whether they have one shape, and as much
of it as they have in common. -/
def together : List (Bool × Shape) → Bool × Shape
  | [] => (true, [])
  | [x] => x
  | (whole, shape) :: xs =>
    let (whole', shape') := together xs
    (whole && whole' && shape == shape', shape.common shape')

end Shape

namespace Value

/-- The shape of the grid that a value makes, and the values of its places, taken apart so many
times at most. Where rows disagree, the shape is what they have in common. -/
def gridPlan : Nat → Value → (Bool × Shape) × List Value
  | 0, v => ((true, []), [v])
  | n + 1, v =>
    match v.gridRow? with
    | none => ((true, []), [v])
    | some vs =>
      let plans := vs.map (gridPlan n)
      let (whole, shape) := Shape.together (plans.map Prod.fst)
      ((whole, vs.length :: shape), plans.flatMap Prod.snd)

end Value

namespace MachineType

/-- A grid of a machine type made out of a number, of a list of numbers, of lists of one length, and
so on, or of another grid. -/
def grid (t : MachineType) (v : Value) : Except Fault Grid := do
  match v with
  | .grid g => .ok ⟨t, g.shape, ← g.cells.mapM fun s => t.scalar (.scalar s)⟩
  | v =>
    let ((whole, shape), vs) := v.gridPlan v.depth
    if whole then .ok ⟨t, shape, ← vs.mapM t.scalar⟩ else .error (.ragged shape)

/-- A scalar of a machine type, or a grid where a value has more axes than none. -/
def construct (t : MachineType) (v : Value) : Except Fault Value := do
  .ok (Value.grid (← t.grid v)).withoutAxes

end MachineType

end TypedBus
