import TypedBus.Number.Double
import TypedBus.Wire.WireType

/-!
# Machine scalars

Numbers of a machine type, as they come out of numeric columns. A machine type whose width the wire
has corresponds to a wire type (`MachineType.wireType?`); 8 bit signed integers and floating point
numbers with less than 64 bits do not.

Model of the numeric scalars that `_numpy_aliases` names (`MachineType.wireType?`), and of those of
other widths, which `canonical` refuses.
-/

namespace TypedBus

/-- The machine's integer types. -/
inductive MachineInt
  | int8
  | int16
  | int32
  | int64
  | uint8
  | uint16
  | uint32
  | uint64
  deriving DecidableEq, Repr

namespace MachineInt

/-- The name of a machine integer type. -/
def name : MachineInt → String
  | int8 => "int8"
  | int16 => "int16"
  | int32 => "int32"
  | int64 => "int64"
  | uint8 => "uint8"
  | uint16 => "uint16"
  | uint32 => "uint32"
  | uint64 => "uint64"

/-- All machine integer types. -/
def all : List MachineInt := [int8, int16, int32, int64, uint8, uint16, uint32, uint64]

/-- The least integer of the type. -/
def least : MachineInt → Int
  | int8 => -0x80
  | int16 => -0x8000
  | int32 => -0x80000000
  | int64 => -0x8000000000000000
  | uint8 | uint16 | uint32 | uint64 => 0

/-- The greatest integer of the type. -/
def greatest : MachineInt → Int
  | int8 => 0x7F
  | int16 => 0x7FFF
  | int32 => 0x7FFFFFFF
  | int64 => 0x7FFFFFFFFFFFFFFF
  | uint8 => 0xFF
  | uint16 => 0xFFFF
  | uint32 => 0xFFFFFFFF
  | uint64 => 0xFFFFFFFFFFFFFFFF

/-- The integer has a place in the type. -/
def Holds (i : MachineInt) (n : Int) : Prop := i.least ≤ n ∧ n ≤ i.greatest

instance (i : MachineInt) (n : Int) : Decidable (i.Holds n) := inferInstanceAs (Decidable (_ ∧ _))

/-- The integer of the type that differs from a given one by a multiple of how many the type has. -/
def wrap (i : MachineInt) (n : Int) : Int :=
  i.least + (n - i.least) % (i.greatest - i.least + 1)

/-- The greatest integer of a word that numbers pass through on their way into the type. The wide
unsigned types take unsigned words. -/
def greatestWord : MachineInt → Int
  | uint32 | uint64 => 0xFFFFFFFFFFFFFFFF
  | int8 | int16 | int32 | int64 | uint8 | uint16 => 0x7FFFFFFFFFFFFFFF

/-- The integer fits a word on its way into the type. -/
def FitsWord (i : MachineInt) (n : Int) : Prop := -0x8000000000000000 ≤ n ∧ n ≤ i.greatestWord

instance (i : MachineInt) (n : Int) : Decidable (i.FitsWord n) :=
  inferInstanceAs (Decidable (_ ∧ _))

/-- What wraps is of the type. -/
theorem holds_wrap (i : MachineInt) (n : Int) : i.Holds (i.wrap n) := by
  have h : 0 < i.greatest - i.least + 1 := by cases i <;> decide
  have := Int.emod_nonneg (n - i.least) (Int.ne_of_gt h)
  have := Int.emod_lt_of_pos (n - i.least) h
  unfold Holds wrap
  omega

/-- The wire's integer width of the same range. -/
def width? : MachineInt → Option IntWidth
  | int8 => none
  | int16 => some .int16
  | int32 => some .int32
  | int64 => some .int64
  | uint8 => some .byte
  | uint16 => some .uint16
  | uint32 => some .uint32
  | uint64 => some .uint64

end MachineInt

/-- The machine's floating point types. -/
inductive MachineFloat
  | half
  | single
  | double
  deriving DecidableEq, Repr

namespace MachineFloat

/-- The name of a floating point type. -/
def name : MachineFloat → String
  | half => "float16"
  | single => "float32"
  | double => "float64"

/-- All floating point types. -/
def all : List MachineFloat := [half, single, double]

/-- The numbers that a type has. -/
def format : MachineFloat → BinaryFormat
  | half => .half
  | single => .single
  | double => .double

/-- How many decimal digits a number of the type can be relied on to keep. -/
def digits : MachineFloat → Nat
  | half => 3
  | single => 6
  | double => 15

end MachineFloat

/-- The types of machine scalars. -/
inductive MachineType
  | boolean
  | integer (i : MachineInt)
  | floating (f : MachineFloat)
  deriving DecidableEq, Repr

namespace MachineType

/-- The name of a machine type. -/
def name : MachineType → String
  | boolean => "bool"
  | integer i => i.name
  | floating f => f.name

/-- All machine types. -/
def all : List MachineType :=
  boolean :: (MachineFloat.all.map floating ++ MachineInt.all.map integer)

/-- Other names of machine types, which tell of their use or of their size in words. -/
def otherNames : List (String × MachineType) :=
  [("bool_", boolean), ("byte", integer .int8), ("short", integer .int16), ("intc", integer .int32),
    ("int_", integer .int64), ("intp", integer .int64), ("long", integer .int64),
    ("ubyte", integer .uint8), ("ushort", integer .uint16), ("uintc", integer .uint32),
    ("uint", integer .uint64), ("uintp", integer .uint64), ("ulong", integer .uint64),
    ("half", floating .half), ("single", floating .single), ("double", floating .double)]

/-- The machine type with a given name. -/
def ofName? (name : Text) : Option MachineType :=
  ((all.map fun t => (t.name, t)) ++ otherNames).findSome? fun t =>
    if Text.ofString t.1 = name then some t.2 else none

/-- The wire type that holds the same numbers. -/
def wireType? : MachineType → Option WireType
  | boolean => some (.basic .boolean)
  | integer i => i.width?.map fun w => .basic (.integer w)
  | floating .double => some (.basic .double)
  | floating _ => none

end MachineType

/-- A number of a machine type. A floating point number is kept as the double of its value. -/
inductive Scalar
  | boolean (b : Bool)
  | integer (i : MachineInt) (n : Int)
  | floating (f : MachineFloat) (d : Double)
  deriving DecidableEq, Repr

namespace Scalar

/-- The type of a machine scalar. -/
def type : Scalar → MachineType
  | boolean _ => .boolean
  | integer i _ => .integer i
  | floating f _ => .floating f

/-- A machine scalar counts as true unless it is false or zero. -/
def truth : Scalar → Bool
  | boolean b => b
  | integer _ n => n != 0
  | floating _ d => !d.isZero

end Scalar

end TypedBus
