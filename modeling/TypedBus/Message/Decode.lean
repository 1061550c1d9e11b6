import TypedBus.Message.Encode
import TypedBus.Registry

/-!
# Reading values of a type

`WireType.decode` reads a value of a type, item by item. The number of elements of an array is not
known beforehand: elements are read until the closing marker of the array is next. The content of a
variant is read as the type that a registry has for its signature.

Where the element of an array takes no items, because it is a row of no values, reading the array
would go on for ever unless it is at its end already; that is `Stop.endless`.

Model of `decode` of every operations table (`BasicOperations`, `ArrayOperations`,
`DictEntryOperations`, `DictOperations`, `StructOperations`, `TupleOperations`,
`VariantOperations`), with `unmarshall` for `decodeFields`. Out of scope: types nested so deeply
that the stack runs out.
-/

namespace TypedBus

open Message

namespace BasicType

/-- Read a value of a basic type (`BasicOperations.decode`). -/
def decode (b : BasicType) : Action Value := do
  let v ← readBasic [b.code]
  match b with
  | .handle =>
    match v with
    | .integer n | .fixed _ n | .handle n => resolve n
    | v => Action.refuse v .notADescriptorIndex
  | b => Action.liftOrFail (.badValue [b.code]) (b.convert v)

end BasicType

namespace Message

/-- Repeat a step until the end of the innermost container, so many times at most. A step that takes
no item would be repeated for ever. -/
def untilEnd {β : Type} (step : β → Action β) : Nat → β → Action β
  | 0, _ => Action.stop .endless
  | n + 1, b => do
    let before ← Action.get
    if before.atEnd then pure b
    else do
      let b ← step b
      let after ← Action.get
      if before.stream.cursor < after.stream.cursor then untilEnd step n b
      else Action.stop .endless

/-- Repeat a step until the end of the innermost container. -/
def repeatUntilEnd {β : Type} (step : β → Action β) (b : β) : Action β := do
  let m ← Action.get
  untilEnd step (m.rest.length + 1) b

end Message

namespace WireType

mutual

/-- Read a value of a type, given how to read a variant. -/
def decodeWith (unbox : Action Value) : WireType → Action Value
  | basic b => b.decode
  | variant => unbox
  | array e => do
    enterContainer (arrayOf e)
    let vs ← repeatUntilEnd
      (fun vs => do
        let v ← decodeWith unbox e
        pure (vs ++ [v]))
      []
    exitContainer
    pure (.list none vs)
  | dict k x => do
    enterContainer (arrayOf (entry k x))
    let es ← repeatUntilEnd
      (fun es => do
        enterContainer (entryOf k x)
        let a ← decodeWith unbox k
        let b ← decodeWith unbox x
        exitContainer
        Action.lift (Value.insertKey a b es))
      []
    exitContainer
    pure (.dict es)
  | entry k x => do
    enterContainer (entryOf k x)
    let a ← decodeWith unbox k
    let b ← decodeWith unbox x
    exitContainer
    pure (.entry a b)
  | struct fs => do
    enterContainer (structOf fs)
    let vs ← decodeFields unbox fs
    exitContainer
    pure (.tuple vs)
  | tuple fs => do
    let vs ← decodeFields unbox fs
    pure (.tuple vs)

/-- Read a value of each of a row of types (`unmarshall`). -/
def decodeFields (unbox : Action Value) : List WireType → Action (List Value)
  | [] => pure []
  | f :: fs => do
    let v ← decodeWith unbox f
    let vs ← decodeFields unbox fs
    pure (v :: vs)

end

/-- Read a variant, given how to read a value of a type (`VariantOperations.decode`). Where no
variant is next, entering one records what is there instead. -/
def decodeBoxed (registry : Registry) (decode : WireType → Action Value) : Action Value := do
  let m ← Action.get
  let (code, content) := m.peekType
  if code = [Kind.variant.code] then
    match registry.lookup? content with
    | none => Action.fail (.unregistered content)
    | some t => do
      enterContainer (variantOf t)
      let v ← decode t
      exitContainer
      pure (.variant none v (some t))
  else do
    enterContainer ⟨.variant, content⟩
    Action.fail (.unregistered content)

/-- Read a value of a type, in which so many variants lie inside one another. -/
def decodeWithin (registry : Registry) : Nat → WireType → Action Value
  | 0 => decodeWith (Action.stop .endless)
  | n + 1 => decodeWith (decodeBoxed registry (decodeWithin registry n))

/-- Read a value of a type. Every variant takes an item, which bounds how many lie inside one
another. -/
def decode (registry : Registry) (t : WireType) : Action Value :=
  Action.ifValid do
    let m ← Action.get
    decodeWithin registry (m.rest.length + 1) t

end WireType

end TypedBus
