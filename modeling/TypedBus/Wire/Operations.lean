import TypedBus.Wire.Container
import TypedBus.Wire.Reduced
import TypedBus.Wire.TypeExpr

/-!
# Operations tables

What handles the values of a type is bundled in a table, made from the tables of the parts of the
type. A table tells the signature of its values, put together from the signatures of these tables,
and the container that brackets them on the wire, if one does.

Model of `operations` and `_build`, and of the attributes `signature`, `container` and `entry` of
the tables that they give. What the tables do to values, `copy`, `encode`, `decode` and `format`, is
defined by recursion on the type (`WireType.copy`, `WireType.encode` and so on). Out of scope: that
a table is made once and kept, and the lock around that.
-/

namespace TypedBus

/-- The operations table of a type. The tables of basic types and of the variant are made of nothing
else; any other keeps its signature and its container. -/
inductive Operations
  | basic (b : BasicType)
  | variant
  | array (signature : Text) (container : Container) (element : Operations)
  | dict (signature : Text) (container : Container) (entry : Operations)
  | entry (signature : Text) (container : Container) (key value : Operations)
  | struct (signature : Text) (container : Container) (fields : List Operations)
  | tuple (signature : Text) (fields : List Operations)
  deriving Repr, Inhabited

namespace Operations

/-- The signature of the values that a table handles. -/
def signature : Operations → Text
  | basic b => [b.code]
  | variant => [.scalar 'v']
  | array s _ _ | dict s _ _ | entry s _ _ _ | struct s _ _ | tuple s _ => s

/-- What brackets the values that a table handles. That of a variant depends on what it holds. -/
def container? : Operations → Option Container
  | array _ c _ | dict _ c _ | entry _ c _ _ | struct _ c _ => some c
  | basic _ | variant | tuple _ _ => none

/-- The name of the kind of a table. -/
def kindName : Operations → String
  | basic _ => "Basic"
  | variant => "Variant"
  | array _ _ _ => "Array"
  | dict _ _ _ => "Dict"
  | entry _ _ _ _ => "DictEntry"
  | struct _ _ _ => "Struct"
  | tuple _ _ => "Tuple"

/-- A table as it is shown. -/
def display (t : Operations) : Text := .concat [t.kindName, "Operations(", t.signature, ")"]

/-! ## Making tables -/

/-- The table of an array. -/
def ofArray (element : Operations) : Operations :=
  array (.scalar 'a' :: element.signature) ⟨.array, element.signature⟩ element

/-- The table of a dict entry. -/
def ofEntry (key value : Operations) : Operations :=
  let content := key.signature ++ value.signature
  entry (.scalar '{' :: (content ++ [.scalar '}'])) ⟨.dictEntry, content⟩ key value

/-- The table of a dict, which is an array of the entries that another table handles. -/
def ofDict (key value : Operations) : Operations :=
  let e := ofEntry key value
  dict (.scalar 'a' :: e.signature) ⟨.array, e.signature⟩ e

/-- What brackets a struct of these fields. -/
def structContainer (fields : List Operations) : Container := ⟨.struct, fields.flatMap signature⟩

/-- The table of a struct. -/
def ofStruct (fields : List Operations) : Operations :=
  let c := structContainer fields
  struct (.scalar '(' :: (c.content ++ [.scalar ')'])) c fields

/-- The table of a tuple. Its signature is the content that a struct of its values would have. -/
def ofTuple (fields : List Operations) : Operations := tuple (structContainer fields).content fields

end Operations

namespace WireType

mutual

/-- The operations table of a type. -/
def operations : WireType → Operations
  | basic b => .basic b
  | variant => .variant
  | array e => .ofArray (operations e)
  | dict k x => .ofDict (operations k) (operations x)
  | entry k x => .ofEntry (operations k) (operations x)
  | struct fs => .ofStruct (operationsOfAll fs)
  | tuple fs => .ofTuple (operationsOfAll fs)

/-- The operations tables of a row of types. -/
def operationsOfAll : List WireType → List Operations
  | [] => []
  | t :: ts => operations t :: operationsOfAll ts

end

/-- The operations of a type as they are shown. -/
def displayOperations (t : WireType) : Text := t.operations.display

end WireType

/-! ## What an expression stands for -/

namespace TypeExpr

/-- The signature of the type that an expression names. -/
def signature (e : TypeExpr) : Except Fault Text := do
  let t ← e.canonical
  .ok t.signature

/-- The expression with every dict spelt as an array of dict entries. -/
def reduce (e : TypeExpr) : Except Fault TypeExpr := do
  let t ← e.canonical
  .ok (wire t.reduce)

/-- The operations table of the type that an expression names. -/
def operations (e : TypeExpr) : Except Fault Operations := do
  let t ← e.canonical
  .ok t.operations

end TypeExpr

end TypedBus
