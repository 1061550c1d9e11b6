import TypedBus.Registry
import TypedBus.Value.Copy
import TypedBus.Value.Display

/-!
# Variants

A variant holds one value of any wire type together with that type. It is set as a whole, so that
its signature and its payload go together, and it copies what it is given.

Model of `Variant`: making one (`make`), `set_data` (`hold`), `copy` and `data_as` (`payloadAs`);
`set_raw_data` is `Session.setRawVariant`, `format` is in `Value.display`. Out of scope: classes
derived from it.
-/

namespace TypedBus

namespace Variant

/-- A copy of a variant, its payload copied as its type. -/
def copy (x : Variant) : Except Fault Variant :=
  match x.type with
  | none => .ok empty
  | some t => do .ok { payload := ← t.copy x.payload, type := some t }

/-- A variant that holds a value of a type, or of the type inferred from it (`set_data`). A variant
given without a type is copied. -/
def hold (v : Value) (type : Option TypeExpr) : Except Fault Variant :=
  match v, type with
  | .variant _ p t, none => copy { payload := p, type := t }
  | v, type => do
    let t ←
      match type with
      | some e => e.canonical
      | none => v.infer
    .ok { payload := ← t.copy v, type := some t }

/-- A variant made out of a value; without a value and a type it is empty. -/
def make (v : Value) (type : Option TypeExpr) : Except Fault Variant :=
  match v, type with
  | .null, none => .ok empty
  | v, type => hold v type

/-- The payload of a variant that holds a value of this type (`data_as`). -/
def payloadAs (x : Variant) (type : TypeExpr) : Except Fault Value := do
  let t ← type.canonical
  if x.signature = t.signature then .ok x.payload
  else .error (.otherPayload x.signature t.signature)

end Variant

end TypedBus
