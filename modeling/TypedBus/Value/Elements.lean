import TypedBus.Value.Equality
import TypedBus.Fault.Basic

/-!
# Taking values apart

The elements of a value, the two parts of a pair, and the part at a place of a row or under a key.

Model of going through a value, taking it apart in two and asking for a part of it, as `_pairs`,
`DictEntryOperations` and `decode_items` do.
-/

namespace TypedBus

namespace Value

/-- A value is a grid, though without axes. -/
def isGrid : Value → Bool
  | grid _ => true
  | _ => false

/-- The elements of a value. -/
def elements (v : Value) : Except Fault (List Value) :=
  match v.elements? with
  | some vs => .ok vs
  | none => .error (if v.isGrid then .noAxis else .notIterable v.kindName)

/-- The values among which the entries of a dict are sought. -/
def pairs (v : Value) : Except Fault (List Value) :=
  match v.pairs? with
  | some vs => .ok vs
  | none => .error (if v.isGrid then .noAxis else .notIterable v.kindName)

/-- The two parts of a value that has exactly two. -/
def pair (v : Value) : Except Fault (Value × Value) :=
  match v.elements? with
  | none => .error (if v.isGrid then .noAxis else .notUnpackable v.kindName)
  | some [a, b] => .ok (a, b)
  | some (_ :: _ :: _ :: _) => .error .tooManyParts
  | some vs => .error (.tooFewParts vs.length)

/-- The value at a place of a row of values. -/
def atPlace (row : RowKind) (vs : List Value) (i : Nat) : Except Fault Value :=
  match vs[i]? with
  | some v => .ok v
  | none => .error (.noPlace row)

/-- The part of a value at a place, or under that number as a key. -/
def part (v : Value) (i : Nat) : Except Fault Value :=
  match v with
  | list _ vs => atPlace .list vs i
  | grid g =>
    match gridElements? g with
    | some vs => atPlace (.axis vs.length i) vs i
    | none => .error (.noPlace .point)
  | scalar _ => .error (.noPlace .scalar)
  | tuple vs => atPlace .tuple vs i
  | entry a b => atPlace .tuple [a, b] i
  | text t | path t | signature t => atPlace .text (t.map fun p => .text [p]) i
  | bytes bs => atPlace .bytes (bs.map fun b => .integer b.toNat) i
  | dict es =>
    match lookup? (.integer i) es with
    | some x => .ok x
    | none => .error (.noKey i)
  | _ => .error (.notSubscriptable v.kindName)

/-- Set a key of a dict, which must be one that can serve as a key. -/
def insertKey (key value : Value) (es : List (Value × Value)) :
    Except Fault (List (Value × Value)) :=
  match key.unhashable? with
  | some part => .error (.unhashable part.kindName)
  | none => .ok (insert key value es)

/-- The dict of a row of entries, each set in turn. -/
def dictOf : List (Value × Value) → List (Value × Value) → Except Fault (List (Value × Value))
  | es, [] => .ok es
  | es, (k, v) :: rest => do dictOf (← insertKey k v es) rest

end Value

end TypedBus
