import TypedBus.Message.Send
import TypedBus.Value.Marks
import TypedBus.Variant

/-!
# Sessions

A session holds the objects that a program works with under names of its own choice, its slots:
messages, streams, transports, registries and values. Several messages may be over one stream or
use one transport or registry, so these are kept in tables and referred to by place. The first
transport and the first registry serve messages that have been given none.

Whatever a session takes in is marked (`Session.adopt`), so that a list or a variant that changes
can be found in all the places where it is (`Session.revise`).

`SessionM` is what is done to a session: an answer, or the reason for stopping, and the session
left. A failure recorded on a message stops nothing here.

Model of what calls of the program share: one stream, transport or registry under several messages,
`default` and `default_registry` under those that have none, one list or variant in several places.
-/

namespace TypedBus

/-- A message of a session: its stream, transport and registry by place. -/
structure MessageObject where
  stream : Nat
  /-- What tells the message from others; given when it is put into a slot for the first time. -/
  number : Mark := none
  frames : List Frame := []
  failure : Option Failure := none
  writeFailed : Bool := false
  transport : Nat := 0
  registry : Option Nat := none
  deriving Repr

/-- What a slot holds. -/
inductive Object
  | message (m : MessageObject)
  | stream (place : Nat)
  | transport (place : Nat)
  | registry (place : Nat)
  | value (v : Value)
  deriving Repr

/-- The objects of a program. -/
structure Session where
  slots : List (Text × Object) := []
  streams : List Stream := []
  transports : List Loopback := [.common]
  registries : List Registry := [.common]
  /-- How many transports have been made without a name. -/
  unnamed : Nat := 0
  /-- The mark to be given next. The first is that of the NaN of packed words. -/
  mark : Nat := 2
  deriving Repr

/-- What is done to a session. -/
abbrev SessionM := ExceptT Stop (StateM Session)

namespace Session

/-- A new session. -/
def start : Session := {}

/-- What a slot holds. -/
def object? (s : Session) (slot : Text) : Option Object :=
  (s.slots.find? fun e => e.1 = slot).map Prod.snd

/-- Put an object into a slot. -/
def put (slot : Text) (o : Object) (s : Session) : Session :=
  { s with slots := (slot, o) :: s.slots.filter fun e => e.1 ≠ slot }

/-- The slot holds an object other than null. -/
def holds (s : Session) (slot : Text) : Bool :=
  match s.object? slot with
  | none | some (.value .null) => false
  | some _ => true

/-- The stream at a place. -/
def stream (s : Session) (place : Nat) : Stream := s.streams.getD place {}

/-- The transport at a place. -/
def transport (s : Session) (place : Nat) : Loopback := s.transports.getD place .common

/-- The registry at a place. -/
def registry (s : Session) (place : Nat) : Registry := s.registries.getD place {}

/-- The message of an object of a session. -/
def message (s : Session) (m : MessageObject) : Message :=
  { stream := s.stream m.stream
    frames := m.frames
    failure := m.failure
    writeFailed := m.writeFailed }

/-- The message in a slot. -/
def message? (s : Session) (slot : Text) : Option Message :=
  match s.object? slot with
  | some (.message m) => some (s.message m)
  | _ => none

/-- The place of the transport in a slot. -/
def transportPlace? (s : Session) (slot : Text) : Option Nat :=
  match s.object? slot with
  | some (.transport place) => some place
  | _ => none

/-- The place of the registry in a slot. -/
def registryPlace? (s : Session) (slot : Text) : Option Nat :=
  match s.object? slot with
  | some (.registry place) => some place
  | _ => none

/-- What a slot holds, as a value. -/
def valueOrThing? (s : Session) (slot : Text) : Option Value :=
  match s.object? slot with
  | none => none
  | some (.value v) => some v
  | some (.message m) =>
    let message := s.message m
    some <| .thing
      { kind := "Message", number := m.number.getD 0, shown := (message.display.toOption).getD [],
        truth := message.isValid, canBeCopied := false }
  | some (.stream place) =>
    let stream := s.stream place
    some <| .thing
      { kind := "MemoryStream", number := place, shown := [], truth := !stream.items.isEmpty,
        canBeCopied := true }
  | some (.transport place) =>
    some <| .thing
      { kind := "LoopbackTransport", number := place, shown := [], truth := true,
        canBeCopied := false }
  | some (.registry place) =>
    let registry := s.registry place
    some <| .thing
      { kind := "Registry", number := place, shown := registry.display,
        truth := !registry.types.isEmpty, canBeCopied := true }

/-- The place of the stream in a slot, that of a message's stream included. -/
def streamPlace? (s : Session) (slot : Text) : Option Nat :=
  match s.object? slot with
  | some (.stream place) => some place
  | some (.message m) => some m.stream
  | _ => none

/-! ## Steps -/

/-- Stop because of a fault. -/
def raise {α : Type} (f : Fault) : SessionM α := throw (.raised f)

/-- Go on with an outcome, or stop because of its fault. -/
def lift {α : Type} (x : Except Fault α) : SessionM α :=
  match x with
  | .ok a => pure a
  | .error f => raise f

/-- Do something that gives marks. -/
def marking {α : Type} (x : StateM Nat α) : SessionM α := do
  let s ← get
  let (a, mark) := x.run s.mark
  set { s with mark }
  pure a

/-- Mark a value. -/
def adopt (v : Value) : SessionM Value := marking v.marked

/-- Put an object into a slot. -/
def store (slot : Text) (o : Object) : SessionM Unit := do
  let o ←
    match o with
    | .value v => do pure (Object.value (← adopt v))
    | .message m => do pure (Object.message { m with number := ← marking m.number.orNext })
    | o => pure o
  modify (put slot o)

/-- Change the stream at a place. -/
def setStream (place : Nat) (x : Stream) : SessionM Unit := do
  let x ← marking (x.mapValues Value.marked)
  modify fun s => { s with streams := s.streams.set place x }

/-- Change the transport at a place. -/
def setTransport (place : Nat) (x : Loopback) : SessionM Unit :=
  modify fun s => { s with transports := s.transports.set place x }

/-- Change the registry at a place. -/
def setRegistry (place : Nat) (x : Registry) : SessionM Unit :=
  modify fun s => { s with registries := s.registries.set place x }

/-- The session with another value in every place of the one with a mark. -/
def replace (mark : Nat) (new : Value) (s : Session) : Session :=
  { s with
    slots := s.slots.map fun e =>
      (e.1,
        match e.2 with
        | .value v => .value (Value.replace mark new v)
        | o => o)
    streams := s.streams.map fun x =>
      Id.run (x.mapValues fun v => pure (Value.replace mark new v)) }

/-- Change a value that has a mark, wherever it is. -/
def revise (mark : Mark) (new : Value) : SessionM Unit := do
  match mark with
  | some mark => do
    let new ← adopt new
    modify (replace mark new)
  | none => pure ()

/-- Add a stream; its place. -/
def addStream (x : Stream) : SessionM Nat := do
  let x ← marking (x.mapValues Value.marked)
  let s ← get
  set { s with streams := s.streams ++ [x] }
  pure s.streams.length

/-- Add a transport; its place. -/
def addTransport (x : Loopback) : SessionM Nat := do
  let s ← get
  set { s with transports := s.transports ++ [x] }
  pure s.transports.length

/-- Add a registry; its place. -/
def addRegistry (x : Registry) : SessionM Nat := do
  let s ← get
  set { s with registries := s.registries ++ [x] }
  pure s.registries.length

/-- Put a message back into its slot and its stream into the table. -/
def storeMessage (slot : Text) (o : MessageObject) (m : Message) : SessionM Unit := do
  setStream o.stream m.stream
  store slot <| .message
    { o with frames := m.frames, failure := m.failure, writeFailed := m.writeFailed }

/-- Do something to a message in its slot. A failure that is recorded on the message gives no
answer. -/
def act {α : Type} (slot : Text) (o : MessageObject) (x : Action α) : SessionM (Option α) := do
  let (answer, m) := x.run ((← get).message o)
  storeMessage slot o m
  match answer with
  | .ok a => pure (some a)
  | .error .failed => pure none
  | .error stop => throw stop

/-- Change a message in its slot. -/
def change (slot : Text) (o : MessageObject) (f : Message → Except Fault Message) :
    SessionM Unit := do
  storeMessage slot o (← lift (f ((← get).message o)))

end Session

end TypedBus
