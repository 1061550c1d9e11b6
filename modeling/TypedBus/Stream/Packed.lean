import TypedBus.Json.Reader
import TypedBus.Stream.Basic
import TypedBus.Value.Convert
import TypedBus.Value.Display

/-!
# Packed streams

A stream is packed as a JSON document of its envelope, its items and its descriptors. A basic value
is packed as its code and its value, an opening marker as `open` with its kind and its content, a
closing one as `close`. JSON has no numbers for NaN and the infinities, so doubles that are not
finite are packed as words.

Unpacking checks the structure of the document alone. The values are checked when they are read from
the message.

Model of `pack` and `unpack`, of `encode_items` (`packAll`) and `decode_items` (`unpackAll`), and of
`encode_float` and `decode_float` (`Double.packed`, `Double.unpacked`). Out of scope: streams of
another class than the built-in one.
-/

namespace TypedBus

/-! ## Malformed documents -/

/-- Faults of these kinds mean that a document is no packed stream: it cannot be read, or something
in it is missing, of the wrong kind or not among what is allowed. -/
def FaultKind.isMalformation : FaultKind → Bool
  | operation | place | key | kind | value | encoding | jsonReading | jsonWriting => true
  | _ => false

/-! ## Doubles -/

namespace Double

/-- The words for the doubles that are not finite. All NaNs that are written so are one. -/
def words : List (String × Double) :=
  [("NaN", .markedNaN 1), ("Infinity", .infinity false), ("-Infinity", .infinity true)]

/-- A double as it is packed (`encode_float`). -/
def packed (d : Double) : Value :=
  if d.isFinite then .double d
  else if d.isNaN then .text "NaN"
  else if d.isNegative then .text "-Infinity"
  else .text "Infinity"

/-- The value of a packed double (`decode_float`): words are taken back, anything else is left
alone. -/
def unpacked (v : Value) : Value :=
  match v.text? with
  | some t =>
    match words.find? fun w => Text.ofString w.1 = t with
    | some w => .double w.2
    | none => v
  | none => v

end Double

/-! ## Kinds of containers -/

/-- The kind whose name a value is. -/
def Kind.ofValue (v : Value) : Except Fault Kind := do
  let sought ← v.soleScalar
  match sought.text?.bind Kind.ofName? with
  | some k => .ok k
  | none => v.refuse .notAKind

/-- The container of a kind and a content, which is taken as text. -/
def Container.ofValues (kind content : Value) : Except Fault Container := do
  .ok ⟨← Kind.ofValue kind, ← content.plain⟩

/-! ## Items -/

namespace Item

/-- The tag of an opening marker. -/
def openTag : Text := "open"

/-- The tag of a closing marker. -/
def closeTag : Text := "close"

/-- The code of doubles. -/
def doubleCode : Text := [BasicType.double.code]

/-- An item as it is packed. -/
def packed : Item → Except Fault Value
  | opening c => .ok (.list none [.text openTag, .text c.kind.name, .text c.content])
  | closing => .ok (.list none [.text closeTag])
  | basic code v =>
    if code = doubleCode then do .ok (.list none [.text code, (← v.toDouble).packed])
    else .ok (.list none [.text code, v])

/-- Items as they are packed (`encode_items`). -/
def packAll (items : List Item) : Except Fault (List Value) := items.mapM packed

/-- The item of a packed one. -/
def unpacked (v : Value) : Except Fault Item := do
  let tag ← v.part 0
  let sought ← tag.soleScalar
  match sought.text? with
  | none => tag.refuse .unknownTag
  | some t =>
    if t = openTag then do
      let kind ← Kind.ofValue (← v.part 1)
      .ok (opening ⟨kind, ← (← v.part 2).plain⟩)
    else if t = closeTag then .ok closing
    else if t = doubleCode then do .ok (basic t (Double.unpacked (← v.part 1)))
    else if t.length = 1 then do .ok (basic t (← v.part 1))
    else tag.refuse .unknownTag

/-- The items of packed ones (`decode_items`). -/
def unpackAll (v : Value) : Except Fault (List Item) := do (← v.elements).mapM unpacked

end Item

/-! ## Streams -/

namespace Stream

/-- The document of a stream. -/
def pack (s : Stream) : Except Fault Json := do
  let envelope ← s.envelope.copied
  let items ← Item.packAll s.items
  let document := Value.dict
    [(.text "envelope", envelope), (.text "items", .list none items),
      (.text "fds", .list none s.descriptors)]
  match Json.ofValue document with
  | .ok x => .ok x
  | .error f => .error (.cannotPack f)

/-- A part of a document, which may be missing. -/
def member (document : Value) (name : String) (missing : Value) : Except Fault Value :=
  match document with
  | .dict es => .ok ((Value.lookup? (.text name) es).getD missing)
  | v => .error (.noMethod v.kindName "get")

/-- The stream of a document, sealed and at its start. -/
def ofDocument (document : Value) : Except Fault Stream := do
  let envelope ← Envelope.ofValue (← member document "envelope" (.dict []))
  let descriptors ← (← member document "fds" (.tuple [])).elements
  let items ← Item.unpackAll (← member document "items" (.tuple []))
  .ok { envelope, items, descriptors, isSealed := true }

/-- The stream of a packed one. What means that the document is none is told so; any other fault is
passed on. -/
def unpack (x : Except Fault Json) : Except Fault Stream :=
  match x.bind fun x => ofDocument x.toValue with
  | .ok s => .ok s
  | .error f => .error (if f.kind.isMalformation then .malformedPacked f else f)

end Stream

end TypedBus
