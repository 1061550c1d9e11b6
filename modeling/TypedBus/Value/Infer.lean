import TypedBus.Value.Display

/-!
# Inferring the type of a value

A value that bears its type has that type; a plain integer is one of 32 bits; a tuple is a struct; a
list is an array and a dict a dict, provided that their elements all have one type and there is at
least one. Nothing else has a wire type.

Model of `infer` and `_homogeneous` (`WireType.common`). Out of scope: what is out of scope for
values; an object with an attribute `code` of its own would be taken for a marker.
-/

namespace TypedBus

/-- The wire type of a machine type. -/
def MachineType.wireType (t : MachineType) : Except Fault WireType :=
  match t.wireType? with
  | some w => .ok w
  | none => .error (.notWireType (.concat ["<class 'numpy.", t.name, "'>"]))

/-- The types of a row without repetitions, in order of first appearance. -/
def WireType.distinct (ts : List WireType) : List WireType :=
  (ts.foldl (fun seen t => if seen.contains t then seen else t :: seen) []).reverse

/-- The one type of a row of elements (`_homogeneous`). -/
def WireType.common (ts : List WireType) : Except Fault WireType :=
  match distinct ts with
  | [] => .error .noElements
  | [t] => .ok t
  | ts => .error (.mixedElements ts)

namespace Value

mutual

/-- The wire type of a value. -/
def infer : Value → Except Fault WireType
  | boolean _ => .ok (.basic .boolean)
  | fixed w _ => .ok (.basic (.integer w))
  | handle _ => .ok (.basic .handle)
  | path _ => .ok (.basic .objectPath)
  | signature _ => .ok (.basic .signature)
  | variant _ _ _ => .ok .variant
  | grid g =>
    match g.shape with
    | [_] => do .ok (.array (← g.type.wireType))
    | _ => .error .notOneDimensional
  | scalar s => s.type.wireType
  | integer _ => .ok .int32
  | double _ => .ok (.basic .double)
  | text _ => .ok .string
  | entry k v => do .ok (.entry (← infer k) (← infer v))
  | tuple [] => .error .emptyTuple
  | tuple (v :: vs) => do .ok (.struct ((← infer v) :: (← inferAll vs)))
  | list _ vs => do .ok (.array (← WireType.common (← inferAll vs)))
  | dict es => do
    let key ← WireType.common (← inferKeys es)
    let value ← WireType.common (← inferValues es)
    .ok (.dict key value)
  | v => v.refuse .noWireType

/-- The wire types of a row of values. -/
def inferAll : List Value → Except Fault (List WireType)
  | [] => .ok []
  | v :: vs => do .ok ((← infer v) :: (← inferAll vs))

/-- The wire types of the keys of a dict. -/
def inferKeys : List (Value × Value) → Except Fault (List WireType)
  | [] => .ok []
  | (k, _) :: es => do .ok ((← infer k) :: (← inferKeys es))

/-- The wire types of the values of a dict. -/
def inferValues : List (Value × Value) → Except Fault (List WireType)
  | [] => .ok []
  | (_, v) :: es => do .ok ((← infer v) :: (← inferValues es))

end

end Value

end TypedBus
