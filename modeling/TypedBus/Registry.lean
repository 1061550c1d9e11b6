import TypedBus.Wire.Operations

/-!
# Registries

A variant on the wire announces its content by signature alone. A registry says which type to read
it as: at most one type for each signature, the one registered first. Only types in reduced form are
registered, so that the signature tells the type but for the spelling of dicts.

Model of `Registry`: `lookup_type` (`lookup?`), `register_type` (`register`), `freeze`,
`signatures`, membership and how it is shown; `default_types` is `commonTypes`. A table stands for
its type, as `operations` has one table for each. Out of scope: threads that register while others
look up, and what is logged.
-/

namespace TypedBus

/-- The types by which variants are read, in the order of registration. -/
structure Registry where
  types : List (Text × WireType) := []
  isFrozen : Bool := false
  deriving Repr, Inhabited

namespace Registry

/-- The type registered for a signature (`lookup_type`). -/
def lookup? (r : Registry) (signature : Text) : Option WireType :=
  (r.types.find? fun e => e.1 = signature).map Prod.snd

/-- The signature has a type. -/
def contains (r : Registry) (signature : Text) : Bool := (r.lookup? signature).isSome

/-- The registered signatures. -/
def signatures (r : Registry) : List Text := r.types.map Prod.fst

/-- Add a type unless its signature has one already; the type that the signature then has. -/
def add (t : WireType) (r : Registry) : WireType × Registry :=
  match r.lookup? t.signature with
  | some existing => (existing, r)
  | none => (t, { r with types := r.types ++ [(t.signature, t)] })

/-- Register a type (`register_type`). -/
def register (e : TypeExpr) (r : Registry) : Except Fault (WireType × Registry) :=
  if r.isFrozen then .error .frozenRegistry
  else do
    let t ← e.canonical
    if t.isReduced then .ok (r.add t) else .error (.notReduced e.display)

/-- Refuse every later registration. -/
def freeze (r : Registry) : Registry := { r with isFrozen := true }

/-- The types that are commonly found in variants (`default_types`). -/
def commonTypes : List WireType :=
  [.string, .basic (.integer .byte), .basic .boolean, .basic (.integer .int16),
    .basic (.integer .uint16), .int32, .basic (.integer .uint32), .basic (.integer .int64),
    .basic (.integer .uint64), .basic .double, .basic .objectPath, .basic .signature,
    .basic .handle, .variant, .array .string, .dict .string .variant, .dict .string .string]

/-- The registry of the common types. -/
def common : Registry := commonTypes.foldl (fun r t => (r.add t).2) {}

/-- A registry as it is shown. -/
def display (r : Registry) : Text :=
  .concat ["Registry(", .join ", " (Text.sort r.signatures), ")"]

end Registry

end TypedBus
