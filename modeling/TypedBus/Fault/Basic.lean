import TypedBus.Value.Grid
import TypedBus.Wire.Container

/-!
# Faults

A fault stops a call. Each constructor is one cause, with what its wording needs: a value that it
speaks of is there as it is shown, or by the name of its kind. The wording is `Fault.message`.
`Fault.kind` sorts the causes into the kinds that a caller tells apart: breaches of
the library's contract, values that do not fit, failures of a transport or of a JSON document.

Model of the errors that leave a call: `ContractError`, `StreamError`, `TransportError`,
`TransportTimeout`, `EncodeError` and `DecodeError`, and those that built-in operations raise inside
the modelled functions. Out of scope: where an error was raised, and running out of stack or memory.
-/

namespace TypedBus

/-- The kinds of faults. -/
inductive FaultKind
  /-- A rule of the library was broken by its caller. -/
  | contract
  /-- The recorded failure of a message, raised on demand. -/
  | recorded
  /-- A transport could not do its work. -/
  | transport
  /-- No message arrived in time. -/
  | timeout
  /-- A document cannot be written as JSON. -/
  | jsonWriting
  /-- The input is no JSON document. -/
  | jsonReading
  /-- A number is out of range. -/
  | range
  /-- A value is of the wrong kind. -/
  | kind
  /-- A value is of the right kind but not among those allowed. -/
  | value
  /-- A text cannot be encoded. -/
  | encoding
  /-- A text does not read as what it should be. -/
  | spelling
  /-- A place beyond the end of a row. -/
  | place
  /-- A key that is not there. -/
  | key
  /-- A value lacks the operation asked of it. -/
  | operation
  deriving DecidableEq, Repr

/-- A row of something whose places are numbered. -/
inductive RowKind
  | list
  | tuple
  | text
  | bytes
  /-- A machine scalar, which has no places at all. -/
  | scalar
  /-- The first axis of a grid, of this size, when this place of it is sought. -/
  | axis (size place : Nat)
  /-- A grid without axes. -/
  | point
  deriving DecidableEq, Repr

/-- Why a call stopped. -/
inductive Fault
  -- Type expressions.
  | notWireType (shown : Text)
  | notSingleType (s : Text)
  | parameterCount (generic : String) (actual expected : Nat)
  | notAnExpression (t : Text)
  -- Inference.
  | emptyTuple
  | notOneDimensional
  | noWireType (shown : Text)
  | noElements
  | mixedElements (types : List WireType)
  -- Use of messages, variants and registries.
  | otherPayload (held asked : Text)
  | incompleteMessage
  | stillOpen (count : Nat) (innermost : Container)
  | nothingToClose
  | nothingToExit
  | frozenRegistry
  | notReduced (shown : Text)
  | notCopyable
  | notJoined (kind : String)
  | recordedFailure (text : Text)
  -- Conversion to a basic type.
  | notAnInteger (shown : Text)
  | notABoolean (shown : Text)
  | notANumber (shown : Text)
  | notAString (shown : Text)
  | outOfRange (shown : Text) (w : IntWidth)
  | outOfBounds (shown : Text) (i : MachineInt)
  | beyondWord
  | tooLargeForDouble
  | infinityToInteger
  | nanToInteger
  | noInteger (kind : String)
  | noDouble (kind : String)
  | badInteger (shown : Text)
  | badDouble (shown : Text)
  | tooManyDigits (count : Nat)
  | tooLongToShow
  | nulInText
  | loneSurrogates (t : Text)
  | invalidPath (t : Text)
  | invalidSignature (t : Text)
  | severalTruths
  | noTruth
  | notOneNumber
  | ragged (shape : Shape)
  -- Shapes of values.
  | notIterable (kind : String)
  | noAxis
  | notUnpackable (kind : String)
  | notSubscriptable (kind : String)
  | tooFewParts (count : Nat)
  | tooManyParts
  | unhashable (kind : String)
  | noPlace (row : RowKind)
  | noKey (key : Nat)
  | noMethod (kind : String) (name : String)
  | notAPair (index : Nat)
  | pairLength (index length : Nat)
  | malformed (m : Malformed)
  -- Envelopes, containers and packed items.
  | notAKind (shown : Text)
  | notAMessageType (shown : Text)
  | unknownField (name : Text)
  | fieldGivenTwice (name : String)
  | fieldNameNotText
  | entryNotCopied
  | unknownTag (shown : Text)
  -- Streams and transports.
  | sealedStream
  | unsealedStream
  | noMessage (timeout : Text)
  | notATime (kind : String)
  | noIndex
  | nanTime
  | negativeTime
  | tooLongTime
  | tooLongWait
  | cannotPack (cause : Fault)
  | malformedPacked (cause : Fault)
  -- Settings.
  | nulInVariable
  | unknownLevel (shown : Text)
  | notALevel (shown : Text)
  -- JSON documents.
  | jsonSyntax
  | jsonInteger
  | jsonKey
  | jsonText
  | jsonDepth
  | jsonValue (kind : String)
  -- Values nested beyond every bound; no call that starts with enough steps ends so.
  | tooDeep
  deriving Repr, Inhabited

namespace Fault

/-- The kind of a fault. -/
def kind : Fault → FaultKind
  | notWireType _ | notSingleType _ | emptyTuple | notOneDimensional | noWireType _ | noElements
  | mixedElements _ | otherPayload _ _ | incompleteMessage | stillOpen _ _ | nothingToClose
  | nothingToExit | frozenRegistry | notReduced _ => .contract
  | recordedFailure _ => .recorded
  | sealedStream | unsealedStream | cannotPack _ | malformedPacked _ => .transport
  | noMessage _ => .timeout
  | jsonSyntax => .jsonReading
  | jsonInteger | jsonKey | jsonText | jsonDepth | jsonValue _ => .jsonWriting
  | outOfRange _ _ | outOfBounds _ _ | beyondWord | tooLargeForDouble | infinityToInteger
  | tooLongTime | tooLongWait | tooDeep => .range
  | parameterCount _ _ _ | notCopyable | notJoined _ | notAnInteger _ | notABoolean _ | notANumber _
  | notAString _ | noInteger _ | noDouble _ | notIterable _ | noAxis | notUnpackable _
  | notSubscriptable _ | unhashable _ | notAPair _ | unknownField _ | fieldGivenTwice _
  | fieldNameNotText | entryNotCopied | notOneNumber | notATime _ | noIndex | notALevel _ =>
    .kind
  | nanToInteger | badInteger _ | badDouble _ | tooManyDigits _ | tooLongToShow | nulInText
  | invalidPath _ | invalidSignature _ | severalTruths | noTruth | ragged _ | tooFewParts _
  | tooManyParts | pairLength _ _ | malformed _ | notAKind _ | notAMessageType _ | unknownTag _
  | nanTime | negativeTime | nulInVariable | unknownLevel _ => .value
  | loneSurrogates _ => .encoding
  | notAnExpression _ => .spelling
  | noPlace _ => .place
  | noKey _ => .key
  | noMethod _ _ => .operation

end Fault

end TypedBus
