import TypedBus.Value.Convert
import TypedBus.Value.Infer

/-!
# Values of a type

`WireType.copy` makes a value of a type out of another value: an independent one in which every part
is of exactly the part of the type that it stands for. In the place of a variant, a variant is
copied as its own type, null becomes the empty variant, and any other value is boxed as the type
inferred from it.

`copyWith` goes down the type; what it does in the place of a variant is a parameter, since that
goes on with another type. `copyWithin` ties the knot, for so many variants inside one another; the
depth of a value bounds them.

Model of `copy` of every operations table, with that of `VariantOperations` as `boxed`. Out of
scope: values that hold themselves.
-/

namespace TypedBus

namespace WireType

mutual

/-- A value of a type made out of another, given how to make a variant. -/
def copyWith (box : Value → Except Fault Value) : WireType → Value → Except Fault Value
  | basic b, v => b.convert v
  | variant, v => box v
  | array e, v => do
    let vs ← v.elements
    .ok (.list none (← vs.mapM (copyWith box e)))
  | dict k x, v => do
    let ps ← v.pairs
    let es ← ps.foldlM
      (fun es p => do
        let (a, b) ← p.pair
        Value.insertKey (← copyWith box k a) (← copyWith box x b) es)
      []
    .ok (.dict es)
  | entry k x, v => do
    let (a, b) ← v.pair
    .ok (.entry (← copyWith box k a) (← copyWith box x b))
  | struct fs, v => do
    let vs ← v.elements
    .ok (.tuple (← copyFields box fs vs))
  | tuple fs, v => do
    let vs ← v.elements
    .ok (.tuple (← copyFields box fs vs))

/-- Values of a row of types made out of others, as many as there are of both. -/
def copyFields (box : Value → Except Fault Value) :
    List WireType → List Value → Except Fault (List Value)
  | [], _ => .ok []
  | _ :: _, [] => .ok []
  | f :: fs, v :: vs => do .ok ((← copyWith box f v) :: (← copyFields box fs vs))

end

/-- A variant made out of a value, given how to make one of a type (`VariantOperations.copy`). -/
def boxWith (copy : WireType → Value → Except Fault Value) : Value → Except Fault Value
  | .variant _ _ none => .ok .emptyVariant
  | .variant _ p (some t) => do .ok (.variant none (← copy t p) (some t))
  | .null => .ok .emptyVariant
  | v => do
    let t ← v.infer
    .ok (.variant none (← copy t v) (some t))

/-- A value of a type made out of another, in which so many variants lie inside one another. -/
def copyWithin : Nat → WireType → Value → Except Fault Value
  | 0 => copyWith fun _ => .error .tooDeep
  | n + 1 => copyWith (boxWith (copyWithin n))

/-- A value of a type made out of another. -/
def copy (t : WireType) (v : Value) : Except Fault Value := copyWithin v.depth t v

/-- The variant that stands for a value in the place of a variant: itself, if it is one. -/
def boxed : Value → Except Fault Value
  | .variant m p t => .ok (.variant m p t)
  | v => boxWith copy v

end WireType

end TypedBus
