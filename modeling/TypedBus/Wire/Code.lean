import TypedBus.Text.Basic

/-!
# Basic types and their codes

The basic types of the wire: integers of seven widths, booleans, doubles, strings, object paths,
signatures and descriptor handles. Each has a one-letter code and a name.

`BasicType.ofCode?_eq_some_iff`: the code identifies the type.

Model of the codes and of the tables `_markers` and `_builtin_codes`, and of `minimum` and `maximum`
of `_Integer` (`IntWidth.least`, `IntWidth.greatest`).
-/

namespace TypedBus

/-- The fixed integer widths. -/
inductive IntWidth
  | byte
  | int16
  | uint16
  | int32
  | uint32
  | int64
  | uint64
  deriving DecidableEq, Repr

namespace IntWidth

/-- The least integer of the width. -/
def least : IntWidth → Int
  | byte | uint16 | uint32 | uint64 => 0
  | int16 => -0x8000
  | int32 => -0x80000000
  | int64 => -0x8000000000000000

/-- The greatest integer of the width. -/
def greatest : IntWidth → Int
  | byte => 0xFF
  | int16 => 0x7FFF
  | uint16 => 0xFFFF
  | int32 => 0x7FFFFFFF
  | uint32 => 0xFFFFFFFF
  | int64 => 0x7FFFFFFFFFFFFFFF
  | uint64 => 0xFFFFFFFFFFFFFFFF

/-- The integer has a place in the width. -/
def Holds (w : IntWidth) (n : Int) : Prop := w.least ≤ n ∧ n ≤ w.greatest

instance (w : IntWidth) (n : Int) : Decidable (w.Holds n) := inferInstanceAs (Decidable (_ ∧ _))

/-- The name of the width. -/
def name : IntWidth → String
  | byte => "Byte"
  | int16 => "Int16"
  | uint16 => "UInt16"
  | int32 => "Int32"
  | uint32 => "UInt32"
  | int64 => "Int64"
  | uint64 => "UInt64"

end IntWidth

/-- The basic types. A handle is a descriptor that travels beside the message. -/
inductive BasicType
  | integer (w : IntWidth)
  | boolean
  | double
  | string
  | objectPath
  | signature
  | handle
  deriving DecidableEq, Repr

namespace BasicType

/-- The letter that stands for a basic type in a signature. -/
def letter : BasicType → Char
  | integer .byte => 'y'
  | boolean => 'b'
  | integer .int16 => 'n'
  | integer .uint16 => 'q'
  | integer .int32 => 'i'
  | integer .uint32 => 'u'
  | integer .int64 => 'x'
  | integer .uint64 => 't'
  | double => 'd'
  | string => 's'
  | objectPath => 'o'
  | signature => 'g'
  | handle => 'h'

/-- The code of a basic type: its letter as a code point. -/
def code (b : BasicType) : CodePoint := .scalar b.letter

/-- The basic type with a given code. -/
def ofCode? : CodePoint → Option BasicType
  | .scalar 'y' => some (integer .byte)
  | .scalar 'b' => some boolean
  | .scalar 'n' => some (integer .int16)
  | .scalar 'q' => some (integer .uint16)
  | .scalar 'i' => some (integer .int32)
  | .scalar 'u' => some (integer .uint32)
  | .scalar 'x' => some (integer .int64)
  | .scalar 't' => some (integer .uint64)
  | .scalar 'd' => some double
  | .scalar 's' => some string
  | .scalar 'o' => some objectPath
  | .scalar 'g' => some signature
  | .scalar 'h' => some handle
  | _ => none

/-- The name of a basic type. -/
def name : BasicType → String
  | integer w => w.name
  | boolean => "bool"
  | double => "float"
  | string => "str"
  | objectPath => "ObjectPath"
  | signature => "Signature"
  | handle => "UnixFD"

/-- All basic types. -/
def all : List BasicType :=
  [integer .byte, boolean, integer .int16, integer .uint16, integer .int32, integer .uint32,
    integer .int64, integer .uint64, double, string, objectPath, signature, handle]

/-- The basic type with a given name. -/
def ofName? (name : Text) : Option BasicType := all.find? fun b => Text.ofString b.name = name

@[simp] theorem ofCode?_code (b : BasicType) : ofCode? b.code = some b := by
  rcases b with ⟨_ | _⟩ | _ <;> rfl

/-- A code belongs to one basic type. -/
theorem ofCode?_eq_some_iff {p : CodePoint} {b : BasicType} : ofCode? p = some b ↔ p = b.code := by
  constructor
  · intro h
    unfold ofCode? at h
    split at h <;> cases h <;> rfl
  · rintro rfl
    exact ofCode?_code b

end BasicType

end TypedBus
