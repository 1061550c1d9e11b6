import TypedBus.Message.Basic
import TypedBus.Value.Convert

/-!
# Containers and basic values in a message

The steps that reading and writing are made of. When writing, every value is checked against the
innermost open container before it is added (`Message.expect`); when reading, the item under the
cursor must be just what is asked for.

* `openContainer`, `closeContainer` and `writeBasic` add an item each.
* `enterContainer`, `exitContainer` and `readBasic` take items.

Model of the methods `open`, `close`, `enter`, `exit`, `end` (`atEnd`), `peek_type`, `_write_basic`,
`_read_basic`, `_attach_fd`, `_resolve_fd` (`resolve`), `_expect`, `_readable` and `_writable`;
`_where` and `_describe` are in the wording of `Failure`. Out of scope: opening or entering what is
no container, and what the log says.
-/

namespace TypedBus

namespace Message

/-- Add an item to the stream. -/
def push (item : Item) (m : Message) : Message :=
  { m with stream := { m.stream with items := m.stream.items ++ [item] } }

/-- Move the cursor on by so many items. -/
def skip (n : Nat) (m : Message) : Message :=
  { m with stream := { m.stream with cursor := m.stream.cursor + n } }

/-- The items from the cursor on. -/
def rest (m : Message) : List Item := m.stream.rest

/-! ## Writing -/

/-- Only a valid message that has not been sealed is written to (`_writable`). -/
def writable : Action Unit := do
  let m ← Action.get
  if !m.isValid then Action.stop .failed
  else if m.stream.isSealed then
    Action.modify fun m => { m with writeFailed := true }
    Action.fail .alreadySealed
  else pure ()

/-- Check the signature of a value that is about to be written against the innermost open container,
and count it there (`_expect`). -/
def expect (signature : Text) : Action Unit := do
  let m ← Action.get
  match m.frames with
  | [] =>
    if signature.head? = some (.scalar '{') then Action.fail .entryOutsideArray else pure ()
  | f :: fs =>
    let c := f.container
    if c.kind = .array then
      if signature = c.content then pure ()
      else Action.fail (.otherExpected c c.content signature)
    else
      match f.fields[f.index]? with
      | none => Action.fail (.alreadyComplete c signature)
      | some expected => do
        Action.modify fun m => { m with frames := { f with index := f.index + 1 } :: fs }
        if signature = expected then pure ()
        else Action.fail (.otherExpected c expected signature)

/-- Put a container on the row of open ones. -/
def pushFrame (c : Container) : Action Unit :=
  match c.fields with
  | .ok fields => Action.modify fun m => { m with frames := { container := c, fields } :: m.frames }
  | .error e => Action.raise (.malformed e)

/-- Begin to write a composite value (`open`). -/
def openContainer (c : Container) : Action Unit := do
  writable
  if !c.isValid then Action.fail (.invalidContainer c)
  expect c.signature
  Action.modify (push (.opening c))
  pushFrame c

/-- Finish writing the innermost open composite value (`close`). -/
def closeContainer : Action Unit := do
  writable
  let m ← Action.get
  match m.frames with
  | [] => Action.raise .nothingToClose
  | f :: fs =>
    if f.container.kind ≠ .array ∧ f.index ≠ f.fields.length then
      Action.fail (.closedEarly f.container f.index f.fields.length)
    else Action.modify fun m => push .closing { m with frames := fs }

/-- Write a basic value (`_write_basic`). -/
def writeBasic (code : Text) (v : Value) : Action Unit := do
  writable
  expect code
  Action.modify (push (.basic code v))

/-- Add a descriptor to the table (`_attach_fd`); its place there. -/
def attach (descriptor : Int) : Action Nat := do
  let m ← Action.get
  Action.modify fun m => { m with stream := m.stream.addDescriptor (.integer descriptor) }
  pure m.stream.descriptors.length

/-! ## Reading -/

/-- Only a valid message that has been sealed is read from (`_readable`). Reading too early does no
harm to what has been written. -/
def readable : Action Unit := do
  let m ← Action.get
  if !m.isValid then Action.stop .failed
  else if !m.stream.isSealed then
    Action.modify fun m => { m with failure := some .notYetSealed }
    Action.stop .failed
  else pure ()

/-- The cursor is at the close of the innermost open container, or at the end of the message
(`end`). A message that is still being written, or that is invalid, is at its end always. -/
def atEnd (m : Message) : Bool :=
  if m.isValid && m.stream.isSealed then
    match m.stream.peek with
    | some item => item.isClosing
    | none => true
  else true

/-- The code and the content of the next value (`peek_type`): both empty at the end, the content
empty unless it is a container. -/
def peekType (m : Message) : Text × Text :=
  if m.stream.isSealed then
    match m.stream.peek with
    | none | some .closing => ([], [])
    | some (.opening c) => ([c.kind.code], c.content)
    | some (.basic code _) => (code, [])
  else ([], [])

/-- Begin to read a composite value, whose marker must be this one (`enter`). -/
def enterContainer (c : Container) : Action Unit := do
  readable
  let m ← Action.get
  match m.stream.peek with
  | none | some .closing => Action.fail (.endBeforeContainer c m.surrounding)
  | some (.opening d) =>
    if c = d then do
      Action.modify (skip 1)
      pushFrame c
    else Action.fail (.otherThanContainer c (.opening d))
  | some item => Action.fail (.otherThanContainer c item)

/-- Finish reading the innermost entered composite value (`exit`). Elements of an array that have
not been read are passed over; fields of any other container must have been read. -/
def exitContainer : Action Unit := do
  readable
  let m ← Action.get
  match m.frames with
  | [] => Action.raise .nothingToExit
  | f :: fs =>
    if f.container.kind = .array then
      match Item.toClosing 0 m.rest with
      | none => do
        Action.modify (skip m.rest.length)
        Action.fail (.noClosing f.container)
      | some n => Action.modify fun m => skip (n + 1) { m with frames := fs }
    else
      match m.stream.peek with
      | some .closing => Action.modify fun m => skip 1 { m with frames := fs }
      | _ => Action.fail (.unread f.container)

/-- Read a basic value of a code, as the stream carries it (`_read_basic`). -/
def readBasic (code : Text) : Action Value := do
  readable
  let m ← Action.get
  match m.stream.peek with
  | none | some .closing => Action.fail (.endBeforeValue code m.surrounding)
  | some (.opening c) => Action.fail (.otherThanValue code (.opening c))
  | some (.basic found v) =>
    if found = code then do
      Action.modify (skip 1)
      pure v
    else Action.fail (.otherThanValue code (.basic found v))

/-- The handle of the descriptor at a place of the table (`_resolve_fd`). -/
def resolve (index : Int) : Action Value := do
  let m ← Action.get
  match (if 0 ≤ index then m.stream.descriptors[index.toNat]? else none) with
  | none => Action.refuse (.integer index) .noDescriptor
  | some descriptor =>
    match descriptor.toInteger with
    | .ok n => pure (.handle n)
    | .error f =>
      if f.kind = .range then Action.raise f
      else Action.refuse descriptor (.badDescriptor index)

end Message

end TypedBus
