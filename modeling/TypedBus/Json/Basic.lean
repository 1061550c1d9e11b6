import TypedBus.Value.Equality
import TypedBus.Fault.Basic

/-!
# JSON documents

A JSON document as a tree. `Json.ofValue` makes one out of a value and `Json.toValue` a value out of
one. Text and the values that bear their type are written as plain text and numbers, tuples as
arrays; NaN and the infinities, which JSON has no numbers for, become null.

Model of what `dumps` takes and of what `loads` gives, with `orjson` for a backend. Out of scope:
the other backends, which differ in what they refuse; what is proved of unpacking and of relaying
takes `loads` as a parameter for that reason.
-/

namespace TypedBus

/-- A JSON document. -/
inductive Json
  | null
  | boolean (b : Bool)
  | integer (n : Int)
  | double (d : Double)
  | text (t : Text)
  | array (xs : List Json)
  | object (members : List (Text × Json))
  deriving Repr, Inhabited

namespace Json

mutual

/-- The value of a document. -/
def toValue : Json → Value
  | null => .null
  | boolean b => .boolean b
  | integer n => .integer n
  | double d => .double d
  | text t => .text t
  | array xs => .list none (toValues xs)
  | object ms => .dict (toEntries ms)

/-- The values of a row of documents. -/
def toValues : List Json → List Value
  | [] => []
  | x :: xs => toValue x :: toValues xs

/-- The dict entries of the members of an object. -/
def toEntries : List (Text × Json) → List (Value × Value)
  | [] => []
  | (k, x) :: ms => (.text k, toValue x) :: toEntries ms

end

/-- The integers that a document may hold: those of 64 bits, signed or not. -/
def Holds (n : Int) : Prop := -0x8000000000000000 ≤ n ∧ n ≤ 0xFFFFFFFFFFFFFFFF

instance (n : Int) : Decidable (Holds n) := inferInstanceAs (Decidable (_ ∧ _))

/-- Refuse an array or an object at a level of a document that is written, the outermost at level
one. Levels are counted in 256s, and what would open the last of them is refused. -/
def checkLevel (level : Nat) : Except Fault Unit :=
  if level % 256 = 255 then .error .jsonDepth else .ok ()

/-- An integer as a document. -/
def ofInteger (n : Int) : Except Fault Json :=
  if Holds n then .ok (integer n) else .error .jsonInteger

/-- A text as a document. -/
def ofText (t : Text) : Except Fault Json :=
  if t.any CodePoint.isSurrogate then .error .jsonText else .ok (text t)

/-- The name of a member. -/
def nameOf : Value → Except Fault Text
  | .text t => if t.any CodePoint.isSurrogate then .error .jsonText else .ok t
  | _ => .error .jsonKey

mutual

/-- The document of a value whose parts are at a level. A row of fixed length counts as a level but
is not refused at any. -/
def ofValueAt (level : Nat) : Value → Except Fault Json
  | .null => .ok null
  | .boolean b => .ok (boolean b)
  | .integer n | .fixed _ n | .handle n => ofInteger n
  | .double d => .ok (if d.isFinite then double d else null)
  | .text t | .path t | .signature t => ofText t
  | .tuple vs => do .ok (array (← ofValuesAt (level + 1) vs))
  | .list _ vs => do
    checkLevel level
    .ok (array (← ofValuesAt (level + 1) vs))
  | .dict es => do
    checkLevel level
    .ok (object (← ofEntriesAt (level + 1) es))
  | v => .error (.jsonValue v.kindName)

/-- The documents of a row of values. -/
def ofValuesAt (level : Nat) : List Value → Except Fault (List Json)
  | [] => .ok []
  | v :: vs => do .ok ((← ofValueAt level v) :: (← ofValuesAt level vs))

/-- The members of the entries of a dict. -/
def ofEntriesAt (level : Nat) : List (Value × Value) → Except Fault (List (Text × Json))
  | [] => .ok []
  | (k, v) :: es => do
    let name ← nameOf k
    .ok ((name, ← ofValueAt level v) :: (← ofEntriesAt level es))

end

/-- The document of a value. -/
def ofValue (v : Value) : Except Fault Json := ofValueAt 1 v

end Json

end TypedBus
