import TypedBus.Message.Calls
import TypedBus.Proofs.Message.Building
import TypedBus.Proofs.Value.Dict

/-!
# Calls that run their course

`Action` stops where a failure is recorded. A `Course` does not: it records the failure and goes on,
and whoever is to leave the message alone from then on must look at it and return. Each call is
written here in this way, with every look at the message in its place; only what is raised ends a
course early. A course also remembers every message that it passes through (`History`), so that it
can be said of the whole of a composite read or write what it does after its first failure.

A read that gives no value answers `Value.null`.
-/

namespace TypedBus

open Message WireType

/-- A message as it is now, and as it has been, the latest first. -/
structure History where
  now : Message
  past : List Message := []

namespace History

/-- All that the message has been up to now, the latest first. -/
def states (h : History) : List Message := h.now :: h.past

end History

/-- Why a course ends early. -/
inductive Halt
  | raised (f : Fault)
  | endless

/-- What is done to a message step by step, whether or not it is valid: an answer or the reason for
ending early, and the history left. -/
def Course (α : Type) : Type := History → Except Halt α × History

namespace Course

variable {α β : Type}

/-- What a course does to a history. -/
def run (c : Course α) (h : History) : Except Halt α × History := c h

instance : Monad Course where
  pure a := fun h => (.ok a, h)
  bind c f := fun h =>
    match c h with
    | (.ok a, h') => f a h'
    | (.error halt, h') => (.error halt, h')

/-- The message as it stands. -/
def now : Course Message := fun h => (.ok h.now, h)

/-- Change the message. -/
def step (f : Message → Message) : Course Unit :=
  fun h => (.ok (), { now := f h.now, past := h.states })

/-- Change the message, and forget what it has been. -/
def restart (m : Message) : Course Unit := fun _ => (.ok (), { now := m })

/-- End early. -/
def halt (s : Halt) : Course α := fun h => (.error s, h)

/-- Raise a fault. -/
def raise (f : Fault) : Course α := halt (.raised f)

/-- Go on with an outcome, or raise its fault. -/
def lift (x : Except Fault α) : Course α :=
  match x with
  | .ok a => pure a
  | .error f => raise f

/-- Go on if the message is valid, and return something else if it is not. -/
def ifValid (other : α) (c : Course α) : Course α := do
  let m ← now
  if m.isValid then c else pure other

/-- Go on if the step before says so. -/
def onlyIf (other : α) (condition : Bool) (c : Course α) : Course α :=
  if condition then c else pure other

/-! ## Failures -/

/-- Record a failure, unless there is one. -/
def fail (f : Failure) : Course Unit :=
  ifValid () do
    step fun m => { m with failure := some f }
    let m ← now
    if m.stream.isSealed then pure () else step fun m => { m with writeFailed := true }

/-- Record a failure that shows a value. -/
def refuse (v : Value) (failure : Text → Failure) : Course Unit := do
  let shown ← lift v.display
  fail (failure shown)

/-- What has been found, or nothing, for which the value it was sought in is refused. -/
def orRefuse (v : Value) (failure : Text → Failure) (o : Option α) : Course (Option α) :=
  match o with
  | some a => pure (some a)
  | none => do
    refuse v failure
    pure none

/-- An outcome, or nothing, for which a failure made of its fault is recorded. -/
def liftOrFail (failure : Fault → Failure) (x : Except Fault α) : Course (Option α) :=
  match x with
  | .ok a => pure (some a)
  | .error f => do
    fail (failure f)
    pure none

/-! ## Writing items -/

/-- The message can be written to. -/
def writable : Course Bool :=
  ifValid false do
    let m ← now
    if m.stream.isSealed then
      fail .alreadySealed
      step fun m => { m with writeFailed := true }
      pure false
    else pure true

/-- The signature is one that may come next, and has been counted. -/
def expect (signature : Text) : Course Bool := do
  let m ← now
  match m.frames with
  | [] =>
    if signature.head? = some (.scalar '{') then
      fail .entryOutsideArray
      pure false
    else pure true
  | f :: fs =>
    let c := f.container
    if c.kind = .array then
      if signature = c.content then pure true
      else
        fail (.otherExpected c c.content signature)
        pure false
    else
      match f.fields[f.index]? with
      | none =>
        fail (.alreadyComplete c signature)
        pure false
      | some expected =>
        step fun m => { m with frames := { f with index := f.index + 1 } :: fs }
        if signature = expected then pure true
        else
          fail (.otherExpected c expected signature)
          pure false

/-- Put a container on the row of open ones. -/
def pushFrame (c : Container) : Course Unit :=
  match c.fields with
  | .ok fields => step fun m => { m with frames := { container := c, fields } :: m.frames }
  | .error e => raise (.malformed e)

/-- Begin to write a composite value. -/
def openContainer (c : Container) : Course Unit := do
  let ok ← writable
  onlyIf () ok do
    if !c.isValid then fail (.invalidContainer c)
    else do
      let ok ← expect c.signature
      onlyIf () ok do
        step (push (.opening c))
        pushFrame c

/-- Finish writing the innermost open composite value. -/
def closeContainer : Course Unit := do
  let ok ← writable
  onlyIf () ok do
    let m ← now
    match m.frames with
    | [] => raise .nothingToClose
    | f :: fs =>
      if f.container.kind ≠ .array ∧ f.index ≠ f.fields.length then
        fail (.closedEarly f.container f.index f.fields.length)
      else do
        step fun m => { m with frames := fs }
        step (push .closing)

/-- Write a basic value. -/
def writeBasic (code : Text) (v : Value) : Course Unit := do
  let ok ← writable
  onlyIf () ok do
    let ok ← expect code
    onlyIf () ok (step (push (.basic code v)))

/-- Add a descriptor to the table; its place there. -/
def attach (descriptor : Int) : Course Nat := do
  let m ← now
  step fun m => { m with stream := m.stream.addDescriptor (.integer descriptor) }
  pure m.stream.descriptors.length

/-! ## Reading items -/

/-- The message can be read from. -/
def readable : Course Bool :=
  ifValid false do
    let m ← now
    if m.stream.isSealed then pure true
    else
      step fun m => { m with failure := some .notYetSealed }
      pure false

/-- Begin to read a composite value. -/
def enterContainer (c : Container) : Course Unit := do
  let ok ← readable
  onlyIf () ok do
    let m ← now
    match m.stream.peek with
    | none | some .closing => fail (.endBeforeContainer c m.surrounding)
    | some (.opening d) =>
      if c = d then do
        step (skip 1)
        pushFrame c
      else fail (.otherThanContainer c (.opening d))
    | some item => fail (.otherThanContainer c item)

/-- Take items until the container is closed, in which so many are open. -/
def passOver (c : Container) (fs : List Frame) : Nat → List Item → Course Unit
  | _, [] => fail (.noClosing c)
  | 0, .closing :: _ => do
    step (skip 1)
    step fun m => { m with frames := fs }
  | n + 1, .closing :: items => do
    step (skip 1)
    passOver c fs n items
  | n, .opening _ :: items => do
    step (skip 1)
    passOver c fs (n + 1) items
  | n, .basic _ _ :: items => do
    step (skip 1)
    passOver c fs n items

/-- Finish reading the innermost entered composite value. -/
def exitContainer : Course Unit := do
  let ok ← readable
  onlyIf () ok do
    let m ← now
    match m.frames with
    | [] => raise .nothingToExit
    | f :: fs =>
      if f.container.kind = .array then passOver f.container fs 0 m.rest
      else
        match m.stream.peek with
        | some .closing => do
          step (skip 1)
          step fun m => { m with frames := fs }
        | _ => fail (.unread f.container)

/-- Read a basic value of a code. -/
def readBasic (code : Text) : Course Value := do
  let ok ← readable
  onlyIf .null ok do
    let m ← now
    match m.stream.peek with
    | none | some .closing => do
      fail (.endBeforeValue code m.surrounding)
      pure .null
    | some (.opening c) => do
      fail (.otherThanValue code (.opening c))
      pure .null
    | some (.basic found v) =>
      if found = code then do
        step (skip 1)
        pure v
      else do
        fail (.otherThanValue code (.basic found v))
        pure .null

/-- The handle of the descriptor at a place of the table. -/
def resolve (index : Int) : Course Value := do
  let m ← now
  match (if 0 ≤ index then m.stream.descriptors[index.toNat]? else none) with
  | none => do
    refuse (.integer index) .noDescriptor
    pure .null
  | some descriptor =>
    match descriptor.toInteger with
    | .ok n => pure (.handle n)
    | .error f =>
      if f.kind = .range then raise f
      else do
        refuse descriptor (.badDescriptor index)
        pure .null

/-! ## Writing values -/

/-- Write a value as one of a basic type. -/
def encodeBasic (b : BasicType) (v : Value) : Course Unit :=
  ifValid () do
    match ← liftOrFail .conversion (b.convert v) with
    | none => pure ()
    | some (.handle descriptor) => do
      let index ← attach descriptor
      writeBasic [b.code] (.integer index)
    | some x => writeBasic [b.code] x.carried

/-- Write one after the other, as long as the message stays valid; whether it has. -/
def each (write : α → Course Unit) : List α → Course Bool
  | [] => pure true
  | a :: as => do
    write a
    ifValid false (each write as)

/-- Write a dict entry, given how to write its key and its value. -/
def encodeEntry (k x : WireType) (key value : Value → Course Unit) (v : Value) : Course Unit :=
  ifValid () do
    match ← orRefuse v .notAnEntry v.entryParts? with
    | none => pure ()
    | some (a, b) => do
      openContainer (entryOf k x)
      ifValid () do
        key a
        ifValid () do
          value b
          ifValid () closeContainer

mutual

/-- Write a value as one of a type, given how to write a variant. -/
def encodeWith (box : Value → Course Unit) : WireType → Value → Course Unit
  | basic b, v => encodeBasic b v
  | variant, v => box v
  | array e, v => ifValid () do
    match ← orRefuse v .notACollection (v.collection? Value.elements?) with
    | none => pure ()
    | some vs => do
      openContainer (arrayOf e)
      ifValid () do
        let ok ← each (encodeWith box e) vs
        onlyIf () ok closeContainer
  | dict k x, v => ifValid () do
    match ← orRefuse v .notACollection (v.collection? Value.pairs?) with
    | none => pure ()
    | some ps => do
      openContainer (arrayOf (entry k x))
      ifValid () do
        let ok ← each (encodeEntry k x (encodeWith box k) (encodeWith box x)) ps
        onlyIf () ok closeContainer
  | entry k x, v => encodeEntry k x (encodeWith box k) (encodeWith box x) v
  | struct fs, v => ifValid () do
    match ← orRefuse v .notFields v.fields? with
    | none => pure ()
    | some vs =>
      if vs.length ≠ fs.length then
        fail (.fieldCount (struct fs).signature fs.length vs.length)
      else do
        openContainer (structOf fs)
        ifValid () do
          encodeFields box fs vs
          ifValid () closeContainer
  | tuple fs, v => ifValid () do
    match ← orRefuse v .notFields v.fields? with
    | none => pure ()
    | some vs =>
      if vs.length ≠ fs.length then fail (.valueCount fs.length vs.length)
      else encodeFields box fs vs

/-- Write values as ones of a row of types. -/
def encodeFields (box : Value → Course Unit) : List WireType → List Value → Course Unit
  | f :: fs, v :: vs => ifValid () do
    encodeWith box f v
    encodeFields box fs vs
  | _, _ => pure ()

end

/-- Write a value in the place of a variant, given how to write a value as one of a type. -/
def encodeBoxed (encode : WireType → Value → Course Unit) (v : Value) : Course Unit :=
  ifValid () do
    match ← lift (boxed v) with
    | .variant _ p (some t) => do
      openContainer (variantOf t)
      ifValid () do
        encode t p
        ifValid () closeContainer
    | _ => pure ()

/-- Write a value as one of a type, in which so many variants lie inside one another. -/
def encodeWithin : Nat → WireType → Value → Course Unit
  | 0 => encodeWith fun _ => raise .tooDeep
  | n + 1 => encodeWith (encodeBoxed (encodeWithin n))

/-! ## Reading values -/

/-- Read a value of a basic type. -/
def decodeBasic (b : BasicType) : Course Value := do
  let v ← readBasic [b.code]
  ifValid .null do
    match b with
    | .handle =>
      match v with
      | .integer n | .fixed _ n | .handle n => resolve n
      | v => do
        refuse v .notADescriptorIndex
        pure .null
    | b => do
      let w ← liftOrFail (.badValue [b.code]) (b.convert v)
      pure (w.getD .null)

/-- Repeat a pass until the end of the innermost container, so many times at most; nothing, if one
returns early. -/
def untilEnd (pass : β → Course (Option β)) : Nat → β → Course (Option β)
  | 0, _ => halt .endless
  | n + 1, b => do
    let before ← now
    if before.atEnd then pure (some b)
    else do
      match ← pass b with
      | none => pure none
      | some b => do
        let after ← now
        if before.stream.cursor < after.stream.cursor then untilEnd pass n b else halt .endless

/-- Repeat a pass until the end of the innermost container. -/
def repeatUntilEnd (pass : β → Course (Option β)) (b : β) : Course (Option β) := do
  let m ← now
  untilEnd pass (m.rest.length + 1) b

/-- Read an element and put it to what has been gathered. -/
def gather (element : Course Value) (put : β → Value → Except Fault β) (b : β) :
    Course (Option β) := do
  let v ← element
  ifValid none do
    let b ← lift (put b v)
    pure (some b)

/-- Read all elements of an array, and make a value of them. -/
def decodeArray (c : Container) (element : Course Value) (put : β → Value → Except Fault β) (b : β)
    (whole : β → Value) : Course Value := do
  enterContainer c
  ifValid .null do
    match ← repeatUntilEnd (gather element put) b with
    | none => pure .null
    | some b => do
      exitContainer
      ifValid .null (pure (whole b))

/-- Read a dict entry, given how to read its key and its value. -/
def decodeEntry (k x : WireType) (key value : Course Value) : Course Value := do
  enterContainer (entryOf k x)
  ifValid .null do
    let a ← key
    ifValid .null do
      let b ← value
      ifValid .null do
        exitContainer
        ifValid .null (pure (.entry a b))

mutual

/-- Read a value of a type, given how to read a variant. -/
def decodeWith (unbox : Course Value) : WireType → Course Value
  | basic b => decodeBasic b
  | variant => unbox
  | array e =>
    decodeArray (arrayOf e) (decodeWith unbox e) (fun vs v => .ok (vs ++ [v])) [] (.list none)
  | dict k x =>
    decodeArray (arrayOf (entry k x)) (decodeEntry k x (decodeWith unbox k) (decodeWith unbox x))
      Value.addEntry [] .dict
  | entry k x => decodeEntry k x (decodeWith unbox k) (decodeWith unbox x)
  | struct fs => do
    enterContainer (structOf fs)
    ifValid .null do
      let v ← decodeFields unbox fs []
      ifValid () exitContainer
      ifValid .null (pure v)
  | tuple fs => decodeFields unbox fs []

/-- Read a value of each of a row of types, behind those that have been read. -/
def decodeFields (unbox : Course Value) : List WireType → List Value → Course Value
  | [], vs => ifValid .null (pure (.tuple vs))
  | f :: fs, vs => ifValid .null do
    let v ← decodeWith unbox f
    decodeFields unbox fs (vs ++ [v])

end

/-- Read a variant, given how to read a value of a type. -/
def decodeBoxed (registry : Registry) (decode : WireType → Course Value) : Course Value :=
  ifValid .null do
    let m ← now
    let (code, content) := m.peekType
    if code = [Kind.variant.code] then
      match registry.lookup? content with
      | none => do
        fail (.unregistered content)
        pure .null
      | some t => do
        enterContainer (variantOf t)
        ifValid .null do
          let v ← decode t
          ifValid () exitContainer
          ifValid .null (pure (.variant none v (some t)))
    else do
      enterContainer ⟨.variant, content⟩
      ifValid .null do
        fail (.unregistered content)
        pure .null

/-- Read a value of a type, in which so many variants lie inside one another. -/
def decodeWithin (registry : Registry) : Nat → WireType → Course Value
  | 0 => decodeWith (halt .endless)
  | n + 1 => decodeWith (decodeBoxed registry (decodeWithin registry n))

/-! ## Calls -/

/-- Write a value as one of a type, or as one of the type inferred from it. -/
def write (v : Value) (type : Option TypeExpr) : Course Unit :=
  match v with
  | .opening c => openContainer c
  | .closing => closeContainer
  | v => ifValid () do
    let t ← lift <|
      match type with
      | some e => e.canonical
      | none => v.infer
    encodeWithin v.depth t v

/-- Read a value of a type. -/
def read (registry : Registry) (type : TypeExpr) : Course Value :=
  ifValid .null do
    let t ← lift type.canonical
    let m ← now
    decodeWithin registry (m.rest.length + 1) t

end Course

end TypedBus
