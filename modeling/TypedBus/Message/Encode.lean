import TypedBus.Message.Containers
import TypedBus.Value.Copy

/-!
# Writing values of a type

`WireType.encode` writes a value as one of a type, item by item. What does not fit is recorded on
the message. In the place of a variant, a variant is written as its own type, an empty one not at
all, and any other value is boxed first; what stops the boxing stops the caller.

Model of `encode` of the same operations tables that `decode` is read from, with `marshall` for
`encodeFields`, `_elements` for `collection` and `_fields` for `fields`; `Variant.write_to_message`
is what stands inside the brackets of `encodeBoxed`. Out of scope: values that hold themselves, and
types or values nested so deeply that the stack runs out.
-/

namespace TypedBus

open Message

namespace BasicType

/-- Write a value as one of a basic type (`BasicOperations.encode`). -/
def encode (b : BasicType) (v : Value) : Action Unit := do
  let x ← Action.liftOrFail .conversion (b.convert v)
  match x with
  | .handle descriptor => do
    let index ← attach descriptor
    writeBasic [b.code] (.integer index)
  | x => writeBasic [b.code] x.carried

end BasicType

namespace Value

/-- The elements of a collection (`_elements`). -/
def collection (v : Value) (elements : Value → Option (List Value)) : Action (List Value) :=
  if v.text?.isSome || v.isBytes then Action.refuse v .notACollection
  else
    match elements v with
    | some vs => pure vs
    | none => Action.refuse v .notACollection

/-- The fields of a struct or a tuple (`_fields`). -/
def fields (v : Value) : Action (List Value) :=
  if v.text?.isSome || v.isBytes || v.isDict then Action.refuse v .notFields
  else
    match v.elements? with
    | some vs => pure vs
    | none => Action.refuse v .notFields

/-- The key and the value of a dict entry. -/
def entryParts (v : Value) : Action (Value × Value) :=
  if v.text?.isSome || v.isBytes then Action.refuse v .notAnEntry
  else
    match v.elements? with
    | some [a, b] => pure (a, b)
    | _ => Action.refuse v .notAnEntry

end Value

namespace WireType

/-- What brackets a value of an array type with elements of this type. -/
def arrayOf (element : WireType) : Container := ⟨.array, element.signature⟩

/-- What brackets a dict entry. -/
def entryOf (key value : WireType) : Container := ⟨.dictEntry, key.signature ++ value.signature⟩

/-- What brackets a struct. -/
def structOf (fields : List WireType) : Container := ⟨.struct, signatures fields⟩

/-- What brackets a variant that holds a value of this type. -/
def variantOf (content : WireType) : Container := ⟨.variant, content.signature⟩

mutual

/-- Write a value as one of a type, given how to write a variant. -/
def encodeWith (box : Value → Action Unit) : WireType → Value → Action Unit
  | basic b, v => b.encode v
  | variant, v => box v
  | array e, v => do
    let vs ← v.collection Value.elements?
    openContainer (arrayOf e)
    vs.forM (encodeWith box e)
    closeContainer
  | dict k x, v => do
    let ps ← v.collection Value.pairs?
    openContainer (arrayOf (entry k x))
    ps.forM fun p => do
      let (a, b) ← p.entryParts
      openContainer (entryOf k x)
      encodeWith box k a
      encodeWith box x b
      closeContainer
    closeContainer
  | entry k x, v => do
    let (a, b) ← v.entryParts
    openContainer (entryOf k x)
    encodeWith box k a
    encodeWith box x b
    closeContainer
  | struct fs, v => do
    let vs ← v.fields
    if vs.length ≠ fs.length then
      Action.fail (.fieldCount (struct fs).signature fs.length vs.length)
    openContainer (structOf fs)
    encodeFields box fs vs
    closeContainer
  | tuple fs, v => do
    let vs ← v.fields
    if vs.length ≠ fs.length then Action.fail (.valueCount fs.length vs.length)
    encodeFields box fs vs

/-- Write values as ones of a row of types (`marshall`). -/
def encodeFields (box : Value → Action Unit) : List WireType → List Value → Action Unit
  | [], _ => pure ()
  | _ :: _, [] => pure ()
  | f :: fs, v :: vs => do
    encodeWith box f v
    encodeFields box fs vs

end

/-- Write a value in the place of a variant, given how to write a value as one of a type
(`VariantOperations.encode`). -/
def encodeBoxed (encode : WireType → Value → Action Unit) (v : Value) : Action Unit := do
  match ← Action.lift (boxed v) with
  | .variant _ p (some t) => do
    openContainer (variantOf t)
    encode t p
    closeContainer
  | _ => pure ()

/-- Write a value as one of a type, in which so many variants lie inside one another. -/
def encodeWithin : Nat → WireType → Value → Action Unit
  | 0 => encodeWith fun _ => Action.raise .tooDeep
  | n + 1 => encodeWith (encodeBoxed (encodeWithin n))

/-- Write a value as one of a type. -/
def encode (t : WireType) (v : Value) : Action Unit :=
  Action.ifValid (encodeWithin v.depth t v)

end WireType

end TypedBus
