import TypedBus.Session.Basic

/-!
# Messages in a session

Making messages, deriving them from others, sending and receiving them, and reading and writing
through the slots.

Model of `Message` as it is made, of `method_call`, `signal`, `receive`, `send`, `copy`,
`create_reply`, `create_error`, `read` and `write`, and of `Variant.write_to_message`
(`writePayload`), each with the objects that it makes and shares.
-/

namespace TypedBus

namespace Session

/-- What a new message is made with: an envelope, a stream, and the slots of its transport and its
registry. -/
structure Making where
  envelope : Option Envelope := none
  stream : Option Text := none
  transport : Option Text := none
  registry : Option Text := none

/-- The place of the transport in a slot, or of the common one. -/
def transportOf (slot : Option Text) : SessionM Nat := do
  pure ((slot.bind (← get).transportPlace?).getD 0)

/-- The place of the registry in a slot, if there is one. -/
def registryOf (slot : Option Text) : SessionM (Option Nat) := do
  pure (slot.bind (← get).registryPlace?)

/-- Make a message. -/
def makeMessage (slot : Text) (making : Making) : SessionM Unit := do
  let transport ← transportOf making.transport
  let registry ← registryOf making.registry
  let place ←
    match making.stream.bind (← get).streamPlace? with
    | some place => pure place
    | none => addStream { envelope := making.envelope.getD {} }
  store slot (.message { stream := place, transport, registry })

/-- The envelope of a method call. -/
def methodCall (destination path interface member : Value) : Envelope :=
  { type := .methodCall, destination, path, interface, member }

/-- The envelope of a signal. -/
def signal (path interface member : Value) : Envelope :=
  { type := .signal, path, interface, member }

/-- Make a message over an unpacked stream. -/
def makeUnpacked (slot : Text) (document : Except Fault Json)
    (transport registry : Option Text) : SessionM Unit := do
  let stream ← lift (Stream.unpack document)
  let transport ← transportOf transport
  let registry ← registryOf registry
  let place ← addStream stream
  store slot (.message { stream := place, transport, registry })

/-- Receive a message. -/
def receive (slot : Text) (transport registry : Option Text) (timeout : Value) :
    SessionM Unit := do
  let transport ← transportOf transport
  let registry ← registryOf registry
  let (answer, l) := ((← get).transport transport).receive timeout
  setTransport transport l
  let place ← addStream (← lift answer)
  store slot (.message { stream := place, transport, registry })

/-- Send the stream at a place through a transport. -/
def sendStream (place transport : Nat) : SessionM Unit := do
  let s ← get
  let (answer, stream, l) := (s.transport transport).send (s.stream place)
  setStream place stream
  setTransport transport l
  lift answer

/-- Send a message, which is sealed by it. An invalid one is never sent. -/
def send (slot : Text) (o : MessageObject) : SessionM Unit := do
  let s ← get
  let (answer, m, l) := (s.message o).send (s.transport o.transport)
  storeMessage slot o m
  setTransport o.transport l
  lift answer

/-- How a copy compares with the message it was made from. -/
structure CopyReport where
  sameFailure : Bool
  sameRegistry : Bool
  sameTransport : Bool
  equalEnvelope : Bool

/-- Copy a message. -/
def copyMessage (slot : Text) (o : MessageObject) : SessionM CopyReport := do
  let m := (← get).message o
  let copy := m.copy
  let place ← addStream copy.stream
  let duplicate := { o with
    stream := place, number := none, frames := copy.frames, failure := copy.failure,
    writeFailed := copy.writeFailed }
  store slot (.message duplicate)
  pure
    { sameFailure := (m.failure.map Failure.text) == (copy.failure.map Failure.text)
      sameRegistry := o.registry == duplicate.registry
      sameTransport := o.transport == duplicate.transport
      equalEnvelope := m.stream.envelope.alike copy.stream.envelope }

/-- Put a message derived from another into a slot. -/
def storeDerived (slot : Text) (o : MessageObject) (m : Message) : SessionM Unit := do
  let place ← addStream m.stream
  store slot <| .message
    { stream := place, frames := m.frames, failure := m.failure, writeFailed := m.writeFailed,
      transport := o.transport, registry := o.registry }

/-- Make a reply to a message. -/
def makeReply (slot : Text) (o : MessageObject) : SessionM Unit := do
  storeDerived slot o ((← get).message o).reply

/-- Make an error reply to a message. -/
def makeErrorReply (slot : Text) (o : MessageObject) (name text : Value) : SessionM Unit := do
  let (answer, m) := ((← get).message o).errorReply name text
  match answer with
  | .ok _ | .error .failed => storeDerived slot o m
  | .error stop => throw stop

/-- The registry of a message. -/
def registryOfMessage (o : MessageObject) : SessionM Registry := do
  pure ((← get).registry (o.registry.getD 0))

/-- Read a value of a type. -/
def read (slot : Text) (o : MessageObject) (type : TypeExpr) : SessionM Value := do
  let registry ← registryOfMessage o
  pure ((← act slot o (Message.read registry type)).getD .null)

/-- Read a value of a type, by the operations of the type alone. -/
def decode (slot : Text) (o : MessageObject) (type : TypeExpr) : SessionM Value := do
  let registry ← registryOfMessage o
  let t ← lift type.canonical
  pure ((← act slot o (t.decode registry)).getD .null)

/-- Write a value, or open or close a container. -/
def write (slot : Text) (o : MessageObject) (v : Value) (type : Option TypeExpr) :
    SessionM Unit := do
  let _ ← act slot o (Message.write v type)

/-- Write a value as one of a type, by the operations of the type alone. -/
def encode (slot : Text) (o : MessageObject) (v : Value) (type : TypeExpr) : SessionM Unit := do
  let t ← lift type.canonical
  let _ ← act slot o (t.encode v)

/-- Write what a variant holds, without the container around it. -/
def writePayload (slot : Text) (o : MessageObject) (x : Variant) : SessionM Unit := do
  match x.type with
  | none => pure ()
  | some t => do
    let _ ← act slot o (t.encode x.payload)

end Session

end TypedBus
