import TypedBus.Number.Layout
import TypedBus.Number.Numeral
import TypedBus.Text.Quoted
import TypedBus.Value.Elements
import TypedBus.Value.Grid.Layout

/-!
# Showing values

A value is shown in two ways: `Value.display`, in which text is quoted and every kind can be told
from the others, and `Value.plain`, which leaves out the quotes of a text and the names of integers
at the outermost level. `WireType.format` shows a value as one of its type: text without quotes, a
pair in parentheses, paths and signatures by name.

Showing fails where a variant has been given a payload that is none of its type, and where an
integer has too many digits (`Value.displayInteger`).

All three go through the parts of values and types; `Value.weight` and `WireType.height` bound the
steps.

Model of `repr` (`display`) and `str` (`plain`) of every kind of value, with those that the library
defines for its own classes, and of `format` of every operations table and of `Variant`. Out of
scope: values that hold themselves, which are shown with an ellipsis, and values nested so deeply
that the stack runs out.
-/

namespace TypedBus

mutual

/-- How deep types lie inside a type. -/
def WireType.height : WireType → Nat
  | .basic _ | .variant => 1
  | .array e => e.height + 1
  | .dict k v | .entry k v => max k.height v.height + 1
  | .struct fs | .tuple fs => WireType.heights fs + 1

/-- The greatest height in a row of types. -/
def WireType.heights : List WireType → Nat
  | [] => 0
  | t :: ts => max t.height (WireType.heights ts)

end

namespace Value

mutual

/-- How deep values lie inside a value, the types of variants counted in. -/
def weight : Value → Nat
  | list _ vs | tuple vs => weights vs + 1
  | dict es => entryWeights es + 1
  | entry k v => max (weight k) (weight v) + 1
  | variant _ p t => weight p + (t.map WireType.height).getD 0 + 1
  | _ => 1

/-- The greatest weight in a row of values. -/
def weights : List Value → Nat
  | [] => 0
  | v :: vs => max (weight v) (weights vs)

/-- The greatest weight among the entries of a dict. -/
def entryWeights : List (Value × Value) → Nat
  | [] => 0
  | (k, v) :: es => max (max (weight k) (weight v)) (entryWeights es)

end

/-- A truth value. -/
def displayBoolean (b : Bool) : Text := if b then "True" else "False"

/-- An integer, which may have only so many digits. -/
def displayInteger (n : Int) : Except Fault Text :=
  if Numeral.digitCount n ≤ Numeral.maximumDigits then .ok (.ofInt n) else .error .tooLongToShow

mutual

/-- A value within so many steps, text quoted. -/
def displayIn : Nat → Value → Except Fault Text
  | 0, _ => .error .tooDeep
  | n + 1, v =>
    match v with
    | null => .ok "None"
    | boolean b => .ok (displayBoolean b)
    | integer i => displayInteger i
    | double d => .ok d.display
    | text t => .ok t.quoted
    | bytes bs => .ok (.quotedBytes bs)
    | list _ vs => do .ok (.concat ["[", .join ", " (← vs.mapM (displayIn n)), "]"])
    | tuple [x] => do .ok (.concat ["(", ← displayIn n x, ",)"])
    | tuple vs => do .ok (.concat ["(", .join ", " (← vs.mapM (displayIn n)), ")"])
    | dict es => do
      let parts ← es.mapM fun e => do .ok (.concat [← displayIn n e.1, ": ", ← displayIn n e.2])
      .ok (.concat ["\x7b", .join ", " parts, "\x7d"])
    | entry k x => do .ok (.concat ["DictEntry(", ← displayIn n k, ", ", ← displayIn n x, ")"])
    | fixed w i => do .ok (.concat [w.name, "(", ← displayInteger i, ")"])
    | handle i => do .ok (.concat ["UnixFD(", ← displayInteger i, ")"])
    | path t => .ok (.concat ["ObjectPath(", t, ")"])
    | signature t => .ok (.concat ["Signature(", t, ")"])
    | variant _ _ none => .ok "Variant(sig=, content=)"
    | variant _ p (some t) => do
      .ok (.concat ["Variant(sig=", t.signature, ", content=", ← formatIn n t p, ")"])
    | opening c => .ok c.display
    | closing => .ok "ContainerEnd()"
    | scalar s => .ok s.display
    | grid g => .ok g.display
    | thing x => .ok x.shown

/-- A value within so many steps, without quotes or names at the outermost level. -/
def plainIn : Nat → Value → Except Fault Text
  | 0, _ => .error .tooDeep
  | n + 1, v =>
    match v with
    | text t | path t | signature t => .ok t
    | fixed _ i | handle i => displayInteger i
    | scalar s => .ok s.plain
    | grid g => .ok g.plain
    | v => displayIn n v

/-- A value as one of a type, within so many steps. -/
def formatIn : Nat → WireType → Value → Except Fault Text
  | 0, _, _ => .error .tooDeep
  | n + 1, t, v =>
    match t with
    | .basic .objectPath => do .ok (.concat ["ObjectPath(", ← plainIn n v, ")"])
    | .basic .signature => do .ok (.concat ["Signature(", ← plainIn n v, ")"])
    | .basic _ | .variant => plainIn n v
    | .array e => do
      let parts ← (← v.elements).mapM (formatIn n e)
      .ok (.concat ["[", .join ", " parts, "]"])
    | .dict k x => do
      let parts ← (← v.pairs).mapM fun p => formatPairIn n k x p
      .ok (.concat ["[", .join ", " parts, "]"])
    | .entry k x => formatPairIn n k x v
    | .struct fs | .tuple fs => do
      let parts ← formatFieldsIn n fs (← v.elements)
      .ok (.concat ["(", .join ", " parts, ")"])

/-- A pair as a key and a value of their types. -/
def formatPairIn : Nat → WireType → WireType → Value → Except Fault Text
  | 0, _, _, _ => .error .tooDeep
  | n + 1, k, x, p => do
    let (a, b) ← p.pair
    .ok (.concat ["(", ← formatIn n k a, ", ", ← formatIn n x b, ")"])

/-- Values as fields of their types, as many as there are of both. -/
def formatFieldsIn : Nat → List WireType → List Value → Except Fault (List Text)
  | 0, _, _ => .error .tooDeep
  | n + 1, fs, vs => (fs.zip vs).mapM fun p => formatIn n p.1 p.2

end

/-- A value with its text quoted. -/
def display (v : Value) : Except Fault Text := displayIn (4 * v.weight) v

/-- A value without quotes or names at the outermost level. -/
def plain (v : Value) : Except Fault Text := plainIn (4 * v.weight + 1) v

/-- The first two hundred code points of a value with its text quoted. Of a long row of bytes no
more than as many bytes are looked at. -/
def excerpt (v : Value) : Except Fault Text := do
  match v with
  | bytes bs => .ok ((← (bytes (bs.take 200)).display).take 200)
  | v => .ok ((← v.display).take 200)

/-- A fault that shows a value, or the one that keeps it from being shown. -/
def refuse {α : Type} (v : Value) (fault : Text → Fault) : Except Fault α := do
  .error (fault (← v.display))

end Value

/-- A value as one of a type. -/
def WireType.format (t : WireType) (v : Value) : Except Fault Text :=
  Value.formatIn (4 * (t.height + v.weight)) t v

namespace Variant

/-- What a variant holds, as one of its type; nothing when it is empty. -/
def format (x : Variant) : Except Fault Text :=
  match x.type with
  | some t => t.format x.payload
  | none => .ok []

/-- The variant with its signature and its contents. -/
def display (x : Variant) : Except Fault Text := do
  .ok (.concat ["Variant(sig=", x.signature, ", content=", ← x.format, ")"])

end Variant

end TypedBus
