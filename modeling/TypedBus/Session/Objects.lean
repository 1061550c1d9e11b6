import TypedBus.Session.Basic

/-!
# Transports, registries, variants and streams in a session

Model of `LoopbackTransport`, `Registry` and `Variant` as they are made, of `register_type`,
`lookup_type`, `freeze`, `Variant.copy`, `set_data` (`setVariant`) and `set_raw_data`
(`setRawVariant`), of appending to a payload that is a list, and of the streams that `allocate`
gives.
-/

namespace TypedBus

namespace Session

/-! ## Transports and registries -/

/-- Make a transport; its name. Without a name it is numbered. -/
def makeTransport (slot : Text) (name : Value) : SessionM Value := do
  let name ←
    match name with
    | .null => do
      let n := (← get).unnamed + 1
      modify fun s => { s with unnamed := n }
      pure (.text (Loopback.numberedName n))
    | name => pure name
  let place ← addTransport { name }
  store slot (.transport place)
  pure name

/-- Make a registry, with the common types if so asked; how many types it has. -/
def makeRegistry (slot : Text) (common : Bool) : SessionM Nat := do
  let r := if common then Registry.common else {}
  let place ← addRegistry r
  store slot (.registry place)
  pure r.types.length

/-- Put the common registry into a slot; how many types it has. -/
def useCommonRegistry (slot : Text) : SessionM Nat := do
  store slot (.registry 0)
  pure ((← get).registry 0).types.length

/-- The place of the registry in a slot, or of the common one. -/
def registryOrCommon (slot : Text) : SessionM Nat := do
  pure (((← get).registryPlace? slot).getD 0)

/-- Register a type; the one that its signature then has. -/
def register (slot : Text) (type : TypeExpr) : SessionM WireType := do
  let place ← registryOrCommon slot
  let (t, r) ← lift (((← get).registry place).register type)
  setRegistry place r
  pure t

/-- The type registered for a signature. -/
def lookup (slot : Text) (signature : Text) : SessionM (Option WireType) := do
  pure (((← get).registry (← registryOrCommon slot)).lookup? signature)

/-- Freeze the registry at a place. -/
def freeze (place : Nat) : SessionM Unit := do
  setRegistry place ((← get).registry place).freeze

/-! ## Variants -/

/-- Put a new variant into a slot. -/
def storeVariant (slot : Text) (x : Variant) : SessionM Variant := do
  store slot (.value x.toValue)
  pure x

/-- Make a variant. -/
def makeVariant (slot : Text) (v : Value) (type : Option TypeExpr) : SessionM Variant := do
  storeVariant slot (← lift (Variant.make v type))

/-- Copy a variant. -/
def copyVariant (slot : Text) (x : Variant) : SessionM Variant := do
  storeVariant slot (← lift x.copy)

/-- Change what a variant holds, wherever the variant is. -/
def changeVariant (x new : Variant) : SessionM Variant := do
  let new := { new with mark := x.mark }
  revise x.mark new.toValue
  pure new

/-- Set what a variant holds. -/
def setVariant (x : Variant) (v : Value) (type : Option TypeExpr) : SessionM Variant := do
  changeVariant x (← lift (Variant.hold v type))

/-- Set the payload and the type of a variant as they are. -/
def setRawVariant (x : Variant) (v : Value) (type : Option TypeExpr) : SessionM Variant := do
  let type ← lift (type.mapM TypeExpr.canonical)
  changeVariant x { payload := v, type }

/-- Append a value to the list that a variant holds, wherever the list is. -/
def appendToVariant (x : Variant) (v : Value) : SessionM Variant := do
  match x.payload with
  | .list m vs => do
    let longer := Value.list m (vs ++ [v])
    revise m longer
    pure { x with payload := longer }
  | p => raise (.noMethod p.kindName "append")

/-! ## Streams -/

/-- Make a stream. -/
def makeStream (slot : Text) (envelope : Option Envelope) : SessionM Unit := do
  let place ← addStream { envelope := envelope.getD {} }
  store slot (.stream place)

/-- Change the stream at a place. -/
def changeStream (place : Nat) (f : Stream → Except Fault Stream) : SessionM Unit := do
  setStream place (← lift (f ((← get).stream place)))

/-- Take the next item of the stream at a place. -/
def nextItem (place : Nat) : SessionM Item := do
  let (item, stream) ← lift ((← get).stream place).next
  setStream place stream
  pure item

end Session

end TypedBus
