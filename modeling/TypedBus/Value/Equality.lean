import TypedBus.Value.Basic

/-!
# Equality of values

Numbers are equal across their kinds when they have the same value, and so are the kinds of text
when they have the same code points; a dict entry equals the tuple of its key and value; two dicts
are equal when they hold equal entries, in whatever order. A NaN equals nothing under `Value.eq`,
nor does a variant that holds one; but the parts of two rows, and the keys of dicts, also pass for
equal when they are one and the same (`Value.isSame`). Under `Value.alike` every NaN equals every
NaN, so that a value is like itself whatever it holds.

Dict keys are compared by `Value.agree` (`Value.insert`, `Value.lookup?`). Values that can change
hold no place as a key (`Value.unhashable?`).

Model of equality of values, with the one that `Variant`, `Container` and `ContainerEnd` define, and
of the keys of a dict. Out of scope: hashes themselves, and comparing grids, which gives no truth
value.
-/

namespace TypedBus

/-- A number of any kind. -/
inductive Number
  | integer (n : Int)
  | double (d : Double)

namespace Number

/-- The numbers have the same value, all NaNs taken for one if so asked. -/
def eqWith (oneNaN : Bool) : Number → Number → Bool
  | integer a, integer b => a == b
  | double a, double b => a.eq b || (oneNaN && a.isNaN && b.isNaN)
  | integer a, double b => b.eqInt a
  | double a, integer b => a.eqInt b

end Number

namespace Value

/-- The number that a value is. -/
def number? : Value → Option Number
  | boolean b | scalar (.boolean b) => some (.integer (if b then 1 else 0))
  | integer n | fixed _ n | handle n | scalar (.integer _ n) => some (.integer n)
  | double d | scalar (.floating _ d) => some (.double d)
  | _ => none

/-- Two machine scalars are of one type and equal, NaNs being taken for one. -/
def scalarAlike (a b : Scalar) : Bool :=
  a.type == b.type &&
    match (scalar a).number?, (scalar b).number? with
    | some x, some y => x.eqWith true y
    | _, _ => false

/-- Two grids are of one type and shape and have like scalars. -/
def gridAlike (g h : Grid) : Bool :=
  g.type == h.type && g.shape == h.shape && (g.cells.zip h.cells).all fun c => scalarAlike c.1 c.2

/-- Two values without parts are equal. Grids are no more than like each other. -/
def plainEq (oneNaN : Bool) (a b : Value) : Bool :=
  match a.number?, b.number? with
  | some x, some y => x.eqWith oneNaN y
  | none, none =>
    match a.text?, b.text? with
    | some s, some t => s == t
    | none, none =>
      match a, b with
      | null, null => true
      | bytes s, bytes t => s == t
      | opening c, opening d => c == d
      | closing, closing => true
      | grid g, grid h => oneNaN && gridAlike g h
      | thing x, thing y => x.kind == y.kind && x.number == y.number
      | _, _ => false
    | _, _ => false
  | _, _ => false

/-- The signature of an optional type. -/
def signatureOf (type : Option WireType) : Text :=
  match type with
  | some t => t.signature
  | none => []

/-- The values are one and the same, where that makes a difference: a value that is not equal to
itself is yet the same as itself. -/
def isSame : Value → Value → Bool
  | double a, double b => a.isSameNaN b
  | scalar (.floating f a), scalar (.floating g b) => f == g && a.isSameNaN b
  | variant (some m) _ _, variant (some n) _ _ => m == n
  | _, _ => false

mutual

/-- The values are equal, all NaNs taken for one if so asked. -/
def eqWith (oneNaN : Bool) : Value → Value → Bool
  | list _ xs, b =>
    match b with
    | list _ ys => eqAllWith oneNaN xs ys
    | _ => false
  | tuple xs, b =>
    match b.row? with
    | some ys => eqAllWith oneNaN xs ys
    | none => false
  | entry k v, b =>
    match b.row? with
    | some [k', v'] => (isSame k k' || eqWith oneNaN k k') && (isSame v v' || eqWith oneNaN v v')
    | _ => false
  | dict xs, b =>
    match b with
    | dict ys => xs.length == ys.length && eqEntriesWith oneNaN xs ys
    | _ => false
  | variant _ p t, b =>
    match b with
    | variant _ q u => signatureOf t == signatureOf u && eqWith oneNaN p q
    | _ => false
  | a, b => plainEq oneNaN a b

/-- The rows have parts that are the same or equal, one by one. -/
def eqAllWith (oneNaN : Bool) : List Value → List Value → Bool
  | [], [] => true
  | a :: as, b :: bs => (isSame a b || eqWith oneNaN a b) && eqAllWith oneNaN as bs
  | _, _ => false

/-- Every one of the first entries is among the second ones. -/
def eqEntriesWith (oneNaN : Bool) : List (Value × Value) → List (Value × Value) → Bool
  | [], _ => true
  | (k, v) :: es, fs =>
    (fs.any fun f =>
      (isSame k f.1 || eqWith oneNaN k f.1) && (isSame v f.2 || eqWith oneNaN v f.2)) &&
      eqEntriesWith oneNaN es fs

end

/-- The values are equal. -/
def eq (a b : Value) : Bool := eqWith false a b

/-- The values are equal but for NaNs, which are all alike. -/
def alike (a b : Value) : Bool := eqWith true a b

/-- The values are the same or equal. -/
def agree (a b : Value) : Bool := isSame a b || eq a b

/-! ## Dict keys -/

mutual

/-- The first part of a value that keeps it from being a dict key. -/
def unhashable? : Value → Option Value
  | list m vs => some (list m vs)
  | dict es => some (dict es)
  | variant m p t => some (variant m p t)
  | grid g => some (grid g)
  | tuple vs => unhashableAmong? vs
  | entry k v => (unhashable? k).or (unhashable? v)
  | _ => none

/-- The first such part in a row of values. -/
def unhashableAmong? : List Value → Option Value
  | [] => none
  | v :: vs => (unhashable? v).or (unhashableAmong? vs)

end

/-- What a dict holds for a key. -/
def lookup? (key : Value) : List (Value × Value) → Option Value
  | [] => none
  | (k, v) :: es => if agree k key then some v else lookup? key es

/-- Set a key of a dict. A key that is there already keeps its place and its first spelling. -/
def insert (key value : Value) : List (Value × Value) → List (Value × Value)
  | [] => [(key, value)]
  | (k, v) :: es => if agree k key then (k, value) :: es else (k, v) :: insert key value es

end Value

end TypedBus
