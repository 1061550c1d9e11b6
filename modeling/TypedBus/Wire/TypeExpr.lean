import TypedBus.Value.Infer
import TypedBus.Text.Quoted
import TypedBus.Wire.Reference

/-!
# Type expressions

A caller names a type by an expression. Beside the wire types themselves, the plain integer, the
machine types and the generic lists, dicts and tuples stand for wire types, which
`TypeExpr.canonical` finds; everything else is refused. The containers of the wire take only
parameters that are wire types, so building one of them (`TypeExpr.array` and so on) may fail; a
generic takes any parameter and is judged when it is used.

`TypeExpr.display` shows an expression as it was given.

Model of `canonical`, of `parse` and `_parse` (`ofSignature`), of `_name`, and of `Array`, `Dict`,
`Struct`, `Tuple` and `DictEntry` with parameters (`array`, `dict`, `struct`, `tuple`, `entry`).
`signature_of` of an expression is `WireType.signature` of its canonical type. Out of scope: classes
derived from `Variant` or from a class of integers, and other objects with an attribute `code` of
their own, in the place of types.
-/

namespace TypedBus

/-- The generic containers. -/
inductive GenericKind
  | list
  | dict
  | tuple
  deriving DecidableEq, Repr

namespace GenericKind

/-- The name of a generic container. -/
def name : GenericKind → String
  | list => "list"
  | dict => "dict"
  | tuple => "tuple"

/-- The name of a generic container in its other spelling. -/
def typingName : GenericKind → String
  | list => "typing.List"
  | dict => "typing.Dict"
  | tuple => "typing.Tuple"

/-- How many parameters a generic container takes; a tuple takes any number. -/
def arity? : GenericKind → Option Nat
  | list => some 1
  | dict => some 2
  | tuple => none

end GenericKind

/-- An expression that may name a wire type. -/
inductive TypeExpr
  /-- A wire type. -/
  | wire (t : WireType)
  /-- The type of plain integers. -/
  | plainInteger
  /-- A machine type. -/
  | machine (t : MachineType)
  /-- A generic container with parameters. -/
  | generic (kind : GenericKind) (typing : Bool) (parameters : List TypeExpr)
  /-- A class that is no wire type, by its name. -/
  | plainClass (name : Text)
  /-- The three dots. -/
  | dots
  /-- A text. -/
  | text (t : Text)
  /-- A text that stands for a type to be looked up later. -/
  | reference (t : Text)
  /-- Something else, by the text that shows it. -/
  | other (shown : Text)
  deriving Repr, Inhabited

namespace BasicType

/-- The name of the class of a basic type's values. -/
def className : BasicType → Text
  | boolean => "bool"
  | double => "float"
  | string => "str"
  | b => .concat ["dbuswire.signature.", b.name]

end BasicType

namespace TypeExpr

/-- A class as it is shown. -/
def displayClass (name : Text) : Text := .concat ["<class '", name, "'>"]

mutual

/-- An expression as it is shown inside the brackets of another. -/
def displayInside : TypeExpr → Text
  | wire (.basic b) => b.className
  | wire .variant => "dbuswire.variant.Variant"
  | wire t => t.name
  | plainInteger => "int"
  | machine t => .concat ["numpy.", t.name]
  | generic kind typing ps =>
    .concat [if typing then kind.typingName else kind.name, "[",
      if ps.isEmpty then "()" else .join ", " (displaysInside ps), "]"]
  | plainClass name => name
  | dots => "..."
  | text t => t.quoted
  | reference t => .concat ["ForwardRef(", t.quoted, ")"]
  | other shown => shown

/-- The expressions of a row as they are shown inside brackets. -/
def displaysInside : List TypeExpr → List Text
  | [] => []
  | e :: es => displayInside e :: displaysInside es

end

/-- An expression as it is shown. -/
def display : TypeExpr → Text
  | wire (.basic b) => displayClass b.className
  | wire .variant => displayClass "dbuswire.variant.Variant"
  | dots => "Ellipsis"
  | plainInteger => displayClass "int"
  | machine t => displayClass (.concat ["numpy.", t.name])
  | plainClass name => displayClass name
  | e => e.displayInside

/-- The expression is the three dots. -/
def isDots : TypeExpr → Bool
  | dots => true
  | _ => false

mutual

/-- The wire type that an expression names. -/
def canonical : TypeExpr → Except Fault WireType
  | wire t => .ok t
  | plainInteger => .ok .int32
  | machine t => t.wireType
  | generic .list _ [e] => do .ok (.array (← canonical e))
  | generic .dict _ [k, v] => do .ok (.dict (← canonical k) (← canonical v))
  | generic .tuple typing (e :: es) =>
    if ((e :: es).getLast?.map isDots).getD false then
      .error (.notWireType (generic .tuple typing (e :: es)).display)
    else do .ok (.tuple ((← canonical e) :: (← canonicals es)))
  | e => .error (.notWireType e.display)

/-- The wire types that a row of expressions names. -/
def canonicals : List TypeExpr → Except Fault (List WireType)
  | [] => .ok []
  | e :: es => do .ok ((← canonical e) :: (← canonicals es))

end

/-! ## Building expressions -/

/-- How the absence of a type is shown. -/
def absentName : Text := "None"

/-- The absence of a type. -/
def absent : TypeExpr := other absentName

/-- An array. -/
def array (e : TypeExpr) : Except Fault TypeExpr := do
  .ok (wire (.array (← e.canonical)))

/-- The two parameters of a dict or an entry. -/
def twoOf {α : Type} (es : List α) : Except Fault (α × α) :=
  match es with
  | [k, v] => .ok (k, v)
  | _ :: _ :: _ :: _ => .error .tooManyParts
  | es => .error (.tooFewParts es.length)

/-- A dict. -/
def dict (es : List TypeExpr) : Except Fault TypeExpr := do
  let (k, v) ← twoOf es
  .ok (wire (.dict (← k.canonical) (← v.canonical)))

/-- A dict entry. -/
def entry (es : List TypeExpr) : Except Fault TypeExpr := do
  let (k, v) ← twoOf es
  .ok (wire (.entry (← k.canonical) (← v.canonical)))

/-- A struct. -/
def struct (es : List TypeExpr) : Except Fault TypeExpr := do
  .ok (wire (.struct (← canonicals es)))

/-- A tuple. -/
def tuple (es : List TypeExpr) : Except Fault TypeExpr := do
  .ok (wire (.tuple (← canonicals es)))

/-- The type that a complete type spells, told from its first letter (`_parse`). An array goes on
with its element; what stands between the brackets of a struct or of a dict entry is split anew. The
first argument bounds the nesting. -/
def ofSignature : Nat → Text → Except Fault WireType
  | 0, _ => .error .tooDeep
  | _ + 1, [] => .error (.noPlace .text)
  | n + 1, p :: rest =>
    match BasicType.ofCode? p with
    | some b => .ok (.basic b)
    | none =>
      if p = .scalar 'v' then .ok .variant
      else if p = .scalar 'a' then do .ok (.array (← ofSignature n rest))
      else do
        let parts ← (Signature.split rest.dropLast).mapError .malformed
        let fs ← parts.mapM (ofSignature n)
        if p = .scalar '(' then .ok (.struct fs)
        else do
          let (k, v) ← twoOf fs
          .ok (.entry k v)

/-- The type of a signature of exactly one complete type. -/
def parse (s : Text) : Except Fault TypeExpr := do
  if Signature.isSingle s then .ok (wire (← ofSignature s.length s))
  else .error (.notSingleType s)

/-- A parameter of a generic container in its other spelling. -/
def asParameter : TypeExpr → Except Fault TypeExpr
  | text t => if Reference.isExpression t then .ok (reference t) else .error (.notAnExpression t)
  | other shown => .ok (if shown = absentName then plainClass "NoneType" else other shown)
  | e => .ok e

/-- A generic container. In its other spelling the parameters and their number are checked at once,
and a text among them becomes a reference to a type. -/
def ofGeneric (kind : GenericKind) (typing : Bool) (es : List TypeExpr) :
    Except Fault TypeExpr := do
  if typing then
    let ps ← es.mapM asParameter
    match kind.arity? with
    | some n =>
      if ps.length = n then .ok (generic kind true ps)
      else .error (.parameterCount kind.typingName ps.length n)
    | none => .ok (generic kind true ps)
  else .ok (generic kind false es)

/-- The expressions with names of their own. -/
def named : List (String × TypeExpr) :=
  [("Byte", wire (.basic (.integer .byte))), ("bool", wire (.basic .boolean)),
    ("Int16", wire (.basic (.integer .int16))), ("UInt16", wire (.basic (.integer .uint16))),
    ("Int32", wire .int32), ("int", plainInteger),
    ("UInt32", wire (.basic (.integer .uint32))), ("Int64", wire (.basic (.integer .int64))),
    ("UInt64", wire (.basic (.integer .uint64))), ("float", wire (.basic .double)),
    ("str", wire .string), ("ObjectPath", wire (.basic .objectPath)),
    ("Signature", wire (.basic .signature)), ("UnixFD", wire (.basic .handle)),
    ("Variant", wire .variant),
    ("Array", plainClass "dbuswire.signature.Array"),
    ("Dict", plainClass "dbuswire.signature.Dict"),
    ("Struct", plainClass "dbuswire.signature.Struct"),
    ("Tuple", plainClass "dbuswire.signature.Tuple"),
    ("DictEntry", plainClass "dbuswire.signature.DictEntry"),
    ("list", plainClass "list"), ("dict", plainClass "dict"), ("tuple", plainClass "tuple"),
    ("bytes", plainClass "bytes"), ("object", plainClass "object"),
    ("None", absent), ("...", dots), ("typing.List", other "typing.List"),
    ("typing.Dict", other "typing.Dict"), ("typing.Any", other "typing.Any")]
  ++ MachineType.all.map fun t => ("np." ++ t.name, machine t)

/-- The expression with a given name. -/
def ofName? (name : Text) : Option TypeExpr :=
  (named.find? fun e => Text.ofString e.1 = name).map Prod.snd

end TypeExpr

end TypedBus
