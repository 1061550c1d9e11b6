import TypedBus.Value.Copy

/-!
# Envelopes

What travels with a message beside its values: what kind of message it is, whom it goes to and comes
from, and so on. The fields other than the kind are not checked.

An envelope goes to and from a dict of its fields (`Envelope.toFields`, `Envelope.ofValue`); what is
handed out or packed is a copy of that dict (`Envelope.copied`).

Model of `Envelope` and `MessageType`: `to_dict` is `toFields` and `copied`, `from_dict` is
`ofEntries`, and `ofValue` takes what may be given for a dict. Out of scope: an envelope whose kind
has been set to what is no `MessageType`.
-/

namespace TypedBus

namespace Value

mutual

/-- A value copied part by part, its variants as their own types. A dict entry cannot be copied. -/
def copied : Value → Except Fault Value
  | entry _ _ => .error .entryNotCopied
  | thing x => if x.canBeCopied then .ok (thing x) else .error .notCopyable
  | list _ vs => do .ok (.list none (← copiedAll vs))
  | tuple vs => do .ok (.tuple (← copiedAll vs))
  | dict es => do .ok (.dict (← copiedEntries es))
  | variant _ _ none => .ok emptyVariant
  | variant _ p (some t) => do .ok (.variant none (← t.copy p) (some t))
  | v => .ok v

/-- A row of values copied part by part. -/
def copiedAll : List Value → Except Fault (List Value)
  | [] => .ok []
  | v :: vs => do .ok ((← copied v) :: (← copiedAll vs))

/-- The keys and values of a dict copied part by part. -/
def copiedEntries : List (Value × Value) → Except Fault (List (Value × Value))
  | [] => .ok []
  | (k, v) :: es => do
    let k ← copied k
    let v ← copied v
    .ok ((k, v) :: (← copiedEntries es))

end

end Value

/-- The kinds of messages. -/
inductive MessageType
  | invalid
  | methodCall
  | reply
  | error
  | signal
  deriving DecidableEq, Repr

namespace MessageType

/-- The number of a kind of message. -/
def number : MessageType → Nat
  | invalid => 0
  | methodCall => 1
  | reply => 2
  | error => 3
  | signal => 4

/-- The name of a kind of message. -/
def name : MessageType → String
  | invalid => "INVALID"
  | methodCall => "METHOD_CALL"
  | reply => "REPLY"
  | error => "ERROR"
  | signal => "SIGNAL"

/-- The kinds of messages in the order of their numbers. -/
def all : List MessageType := [invalid, methodCall, reply, error, signal]

/-- The kind of message whose number a value equals. A grid counts for its one scalar. -/
def ofValue (v : Value) : Except Fault MessageType := do
  let sought ← v.soleScalar
  match all.find? fun t => Value.eq sought (.integer t.number) with
  | some t => .ok t
  | none => v.refuse .notAMessageType

end MessageType

/-- The envelope of a message. -/
structure Envelope where
  type : MessageType := .invalid
  destination : Value := .null
  sender : Value := .null
  path : Value := .null
  interface : Value := .null
  member : Value := .null
  errorName : Value := .null
  errorMessage : Value := .null
  serial : Value := .integer 0
  replySerial : Value := .integer 0
  deriving Repr, Inhabited

namespace Envelope

/-- The fields of an envelope by name, in order (`to_dict`). -/
def toFields (e : Envelope) : List (String × Value) :=
  [("type", .integer e.type.number), ("destination", e.destination), ("sender", e.sender),
    ("path", e.path), ("interface", e.interface), ("member", e.member),
    ("error_name", e.errorName), ("error_message", e.errorMessage), ("serial", e.serial),
    ("reply_serial", e.replySerial)]

/-- The dict of an envelope's fields. -/
def toValue (e : Envelope) : Value := .dict (e.toFields.map fun f => (.text f.1, f.2))

/-- The dict of an envelope's fields, copied part by part. -/
def copied (e : Envelope) : Except Fault Value := e.toValue.copied

/-- The envelope with something done to each of its fields but the kind. -/
def mapFields {f : Type → Type} [Monad f] (change : Value → f Value) (e : Envelope) :
    f Envelope := do
  pure
    { type := e.type
      destination := ← change e.destination
      sender := ← change e.sender
      path := ← change e.path
      interface := ← change e.interface
      member := ← change e.member
      errorName := ← change e.errorName
      errorMessage := ← change e.errorMessage
      serial := ← change e.serial
      replySerial := ← change e.replySerial }

/-- Two envelopes have equal fields. -/
def eq (a b : Envelope) : Bool := Value.eq a.toValue b.toValue

/-- Two envelopes have fields that are alike. -/
def alike (a b : Envelope) : Bool := Value.alike a.toValue b.toValue

/-- Set a field by its name; the kind of message is set elsewhere. -/
def setField (e : Envelope) (name : Text) (v : Value) : Except Fault Envelope :=
  if name = Text.ofString "type" then .ok e
  else if name = Text.ofString "destination" then .ok { e with destination := v }
  else if name = Text.ofString "sender" then .ok { e with sender := v }
  else if name = Text.ofString "path" then .ok { e with path := v }
  else if name = Text.ofString "interface" then .ok { e with interface := v }
  else if name = Text.ofString "member" then .ok { e with member := v }
  else if name = Text.ofString "error_name" then .ok { e with errorName := v }
  else if name = Text.ofString "error_message" then .ok { e with errorMessage := v }
  else if name = Text.ofString "serial" then .ok { e with serial := v }
  else if name = Text.ofString "reply_serial" then .ok { e with replySerial := v }
  else if name = Text.ofString "self" then .error (.fieldGivenTwice "self")
  else .error (.unknownField name)

/-- The names of a dict's entries, which must all be text. -/
def fieldNames : List (Value × Value) → Except Fault (List (Text × Value))
  | [] => .ok []
  | (k, v) :: es =>
    match k.text? with
    | some name => do .ok ((name, v) :: (← fieldNames es))
    | none => .error .fieldNameNotText

/-- The envelope with the fields of a dict (`from_dict`). -/
def ofEntries (es : List (Value × Value)) : Except Fault Envelope := do
  let type ← MessageType.ofValue ((Value.lookup? (.text "type") es).getD (.integer 0))
  let named ← fieldNames es
  named.foldlM (fun e f => e.setField f.1 f.2) { type }

/-- The entries of a dict given as a row of pairs, from a place onwards. -/
def entriesFrom : Nat → List (Value × Value) → List Value → Except Fault (List (Value × Value))
  | _, es, [] => .ok es
  | i, es, v :: vs =>
    match v.elements? with
    | none => .error (.notAPair i)
    | some [a, b] => do entriesFrom (i + 1) (← Value.insertKey a b es) vs
    | some parts => .error (.pairLength i parts.length)

/-- The envelope with the fields of a dict, or of a row of pairs. -/
def ofValue (v : Value) : Except Fault Envelope :=
  match v with
  | .dict es => ofEntries es
  | v => do ofEntries (← entriesFrom 0 [] (← v.elements))

end Envelope

end TypedBus
