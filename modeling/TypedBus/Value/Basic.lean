import TypedBus.Value.Grid
import TypedBus.Wire.Container

/-!
# Values

What a program hands to a message, and gets back from one. Beside plain values there are those that
bear their wire type with them (`fixed`, `handle`, `path`, `signature`), the `entry` of a dict, the
`variant`, a box that holds a payload and its type or nothing at all, the container markers, machine
scalars alone or in grids, and any other `thing`, which no message takes.

A dict keeps its entries in the order in which their keys were first set.

Lists and variants can change after they have been handed over, so two that look the same are not
therefore one: a mark tells them apart. Functions of this library make new ones without a mark,
which is right as long as nobody else refers to them.

Model of the values that the functions of the program take and give: the built-in ones, those of the
classes `Byte` to `UInt64` (`fixed`), `UnixFD` (`handle`), `ObjectPath`, `Signature`, `DictEntry`,
`Variant`, `Container` and `ContainerEnd`, and the scalars and arrays of a numeric library. A
`thing` is a message, a stream, a transport or a registry.

Out of scope, here and in everything that speaks of values:
* values of classes that a caller derives from any of these, which may override how they are shown,
  compared, converted or gone through;
* classes in the place of values, and objects of other classes, such as those with an attribute
  `code` or `items` of their own;
* what can be gone through but is none of the above: sets, generators, ranges, the views of a dict,
  arrays of bytes that can change.
-/

namespace TypedBus

/-- What tells a value that can change from all others; one that has just been made has none yet. -/
abbrev Mark := Option Nat

/-- Something that is no value of any type, such as a message. It is told from others of its kind by
a number, and is known by how it was shown and by whether it counted as true when it was handed
over. -/
structure Thing where
  kind : String
  number : Nat
  shown : Text
  truth : Bool
  /-- Copies of it can be made. -/
  canBeCopied : Bool
  deriving DecidableEq, Repr

/-- A value. -/
inductive Value
  | null
  | boolean (b : Bool)
  | integer (n : Int)
  | double (d : Double)
  | text (t : Text)
  | bytes (bs : List UInt8)
  | list (mark : Mark) (vs : List Value)
  | tuple (vs : List Value)
  | dict (es : List (Value × Value))
  | entry (key value : Value)
  | fixed (w : IntWidth) (n : Int)
  | handle (n : Int)
  | path (t : Text)
  | signature (t : Text)
  | variant (mark : Mark) (payload : Value) (type : Option WireType)
  | opening (c : Container)
  | closing
  | scalar (s : Scalar)
  | grid (g : Grid)
  | thing (x : Thing)
  deriving Repr, Inhabited

namespace Value

/-- The variant that holds nothing. -/
abbrev emptyVariant : Value := .variant none .null none

/-- The text of a string, an object path or a signature. -/
def text? : Value → Option Text
  | text t | path t | signature t => some t
  | _ => none

/-- A double, plain or of the machine. -/
def isDouble : Value → Bool
  | double _ | scalar (.floating .double _) => true
  | _ => false

/-- The integer of an integer or a truth value of any kind but a machine scalar. -/
def integer? : Value → Option Int
  | boolean b => some (if b then 1 else 0)
  | integer n | fixed _ n | handle n => some n
  | _ => none

/-- The elements of a tuple or of a dict entry. -/
def row? : Value → Option (List Value)
  | tuple vs => some vs
  | entry k v => some [k, v]
  | _ => none

/-- A row of bytes. -/
def isBytes : Value → Bool
  | bytes _ => true
  | _ => false

/-- A dict. -/
def isDict : Value → Bool
  | dict _ => true
  | _ => false

/-- The name of a value's kind. -/
def kindName : Value → String
  | null => "NoneType"
  | boolean _ => "bool"
  | integer _ => "int"
  | double _ => "float"
  | text _ => "str"
  | bytes _ => "bytes"
  | list _ _ => "list"
  | tuple _ => "tuple"
  | dict _ => "dict"
  | entry _ _ => "DictEntry"
  | fixed w _ => w.name
  | handle _ => "UnixFD"
  | path _ => "ObjectPath"
  | signature _ => "Signature"
  | variant _ _ _ => "Variant"
  | opening _ => "Container"
  | closing => "ContainerEnd"
  | scalar s => "numpy." ++ s.type.name
  | grid _ => "numpy.ndarray"
  | thing x => x.kind

/-! ## Elements -/

/-- The parts of a grid along its first axis: scalars, if that is its only one. -/
def gridElements? (g : Grid) : Option (List Value) :=
  match g.shape with
  | [] => none
  | [_] => some (g.cells.map scalar)
  | _ => some (g.rows.map grid)

/-- The values that a value yields one by one: the characters of a text, the bytes of a row of
bytes, the keys of a dict, the key and the value of an entry. -/
def elements? : Value → Option (List Value)
  | text t | path t | signature t => some (t.map fun p => .text [p])
  | bytes bs => some (bs.map fun b => .integer b.toNat)
  | list _ vs | tuple vs => some vs
  | grid g => gridElements? g
  | dict es => some (es.map Prod.fst)
  | entry k v => some [k, v]
  | _ => none

/-- The values among which a dict's entries are sought: the entries of a dict as pairs, and the
elements of anything else. -/
def pairs? : Value → Option (List Value)
  | dict es => some (es.map fun e => .tuple [e.1, e.2])
  | v => v.elements?

/-! ## Sizes -/

mutual

/-- How deep values lie inside a value. -/
def depth : Value → Nat
  | list _ vs | tuple vs => depths vs + 1
  | dict es => entryDepths es + 1
  | entry k v => max (depth k) (depth v) + 1
  | variant _ p _ => depth p + 1
  | grid g => g.shape.length + 1
  | _ => 1

/-- The greatest depth in a row of values. -/
def depths : List Value → Nat
  | [] => 0
  | v :: vs => max (depth v) (depths vs)

/-- The greatest depth among the entries of a dict. -/
def entryDepths : List (Value × Value) → Nat
  | [] => 0
  | (k, v) :: es => max (max (depth k) (depth v)) (entryDepths es)

end

end Value

/-- A variant: its payload, the type it has been given, if it is not empty, and its mark. -/
structure Variant where
  payload : Value
  type : Option WireType
  mark : Mark := none
  deriving Repr, Inhabited

namespace Variant

/-- The variant that holds nothing. -/
def empty : Variant := ⟨.null, none, none⟩

/-- The signature of what a variant holds; empty when it holds nothing. -/
def signature (x : Variant) : Text :=
  match x.type with
  | some t => t.signature
  | none => []

/-- The variant as a value. -/
def toValue (x : Variant) : Value := .variant x.mark x.payload x.type

end Variant

end TypedBus
