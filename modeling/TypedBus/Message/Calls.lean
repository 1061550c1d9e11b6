import TypedBus.Message.Decode

/-!
# Calls on a message

What a caller does with a message: write and read values, seal it and start over, ask for its
failure, and derive other messages from it.

Model of the methods `write`, `read`, `check`, `reset_error` (`resetFailure`), `rewind`, `copy`,
`create_reply` (`reply`), `create_error` (`errorReply`) and `set_destination`, and of how a message
is shown. Reading a marker is `enterContainer` or `exitContainer`. Out of scope: a type given as
anything but a type expression or a marker.
-/

namespace TypedBus

namespace Message

/-! ## Values -/

/-- Write a value as one of a type, or as one of the type inferred from it. A marker opens or closes
a container instead. -/
def write (v : Value) (type : Option TypeExpr) : Action Unit :=
  match v with
  | .opening c => openContainer c
  | .closing => closeContainer
  | v =>
    Action.ifValid do
      let t ← Action.lift <|
        match type with
        | some e => e.canonical
        | none => v.infer
      t.encode v

/-- Read a value of a type. -/
def read (registry : Registry) (type : TypeExpr) : Action Value :=
  Action.ifValid do
    let t ← Action.lift type.canonical
    t.decode registry

/-! ## Validity -/

/-- Raise the recorded failure, if there is one. -/
def check (m : Message) : Except Fault Unit :=
  match m.failure with
  | some f => .error (.recordedFailure f.text)
  | none => .ok ()

/-- Forget a failure that happened while reading (`reset_error`). -/
def resetFailure (m : Message) : Except Fault Message :=
  if m.writeFailed then .error .incompleteMessage else .ok { m with failure := none }

/-! ## Sealing -/

/-- Move the cursor back to the first value. A message that is still being written is sealed first;
its containers must be closed, unless writing has failed. -/
def rewind (m : Message) : Except Fault Message :=
  match m.frames with
  | f :: fs =>
    if !m.stream.isSealed && !m.writeFailed then
      .error (.stillOpen (f :: fs).length f.container)
    else .ok { m with stream := m.stream.sealUp.rewind, frames := [] }
  | [] => .ok { m with stream := m.stream.sealUp.rewind }

/-! ## Derived messages -/

/-- An independent message with the same envelope, values and validity, and its cursor at the
start. -/
def copy (m : Message) : Message :=
  { m with
    stream := m.stream.rewind
    frames := if m.stream.isSealed then [] else m.frames }

/-- An empty reply to the sender of a message (`create_reply`). -/
def reply (m : Message) : Message :=
  ofEnvelope
    { type := .reply
      destination := m.stream.envelope.sender
      replySerial := m.stream.envelope.serial }

/-- An error reply to the sender of a message, which holds the text of the error, if there is any
(`create_error`). -/
def errorReply (m : Message) (name text : Value) : Except Stop Unit × Message :=
  let empty := ofEnvelope
    { type := .error
      destination := m.stream.envelope.sender
      replySerial := m.stream.envelope.serial
      errorName := name
      errorMessage := text }
  match text with
  | .null => (.ok (), empty)
  | text => (write text (some (.wire .string))).run empty

/-- Address a message to another destination (`set_destination`). -/
def setDestination (destination : Value) (m : Message) : Message :=
  { m with stream := { m.stream with envelope := { m.stream.envelope with destination } } }

/-- The state of a message: valid, or why it is not, for which it must have been given a text. -/
def displayState (m : Message) : Except Fault Text :=
  match m.failure with
  | none => .ok "valid"
  | some f =>
    match f.reason.text? with
    | some t => .ok (.concat ["invalid: ", t])
    | none => .error (.notJoined f.reason.kindName)

/-- A message as it is shown. -/
def display (m : Message) : Except Fault Text := do
  .ok <| .concat
    ["Message(", m.stream.envelope.type.name, ", sig=", m.stream.signature, ", ",
      .ofNat m.stream.items.length, " items, ", ← m.displayState, ")"]

end Message

end TypedBus
