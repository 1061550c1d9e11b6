import TypedBus.Fault.Message
import TypedBus.Stream.Basic

/-!
# Recorded failures

A read or write that does not succeed is recorded on its message instead of stopping the caller.
Each constructor is one cause, with the values it speaks of as they were shown when it was recorded;
`Failure.text` words it.

Model of `StreamError` and of the texts that `fail` and `_invalidate` are called with: those of the
methods of `Message`, of `_elements`, `_fields` and `_expect`, and of `encode` and `decode` of the
operations tables.
-/

namespace TypedBus

/-- The value that surrounds a place in a message: a container, or the message itself. -/
inductive Surrounding
  | container (c : Container)
  | message
  deriving Repr

/-- The surrounding value in words. -/
def Surrounding.display : Surrounding → Text
  | container c => c.display
  | message => "the message"

/-- Why a message became invalid. -/
inductive Failure
  /-- A failure that the caller declared, for whatever reason. -/
  | declared (reason : Value)
  /-- A value is none of the type that it was to be written as. -/
  | conversion (cause : Fault)
  | notACollection (shown : Text)
  | notFields (shown : Text)
  | notAnEntry (shown : Text)
  | fieldCount (signature : Text) (needed got : Nat)
  | valueCount (needed got : Nat)
  /-- Writing. -/
  | invalidContainer (c : Container)
  | entryOutsideArray
  | alreadyComplete (c : Container) (signature : Text)
  | otherExpected (c : Container) (expected signature : Text)
  | closedEarly (c : Container) (done needed : Nat)
  | alreadySealed
  /-- Reading. -/
  | notYetSealed
  | endBeforeContainer (c : Container) (inside : Surrounding)
  | otherThanContainer (c : Container) (found : Item)
  | noClosing (c : Container)
  | unread (c : Container)
  | endBeforeValue (code : Text) (inside : Surrounding)
  | otherThanValue (code : Text) (found : Item)
  | notADescriptorIndex (shown : Text)
  | badValue (code : Text) (cause : Fault)
  | noDescriptor (shown : Text)
  | badDescriptor (index : Int) (shown : Text)
  | unregistered (signature : Text)
  deriving Repr

namespace Failure

/-- The name under which a failure is relayed to another program. -/
def errorName : Text := "org.freedesktop.DBus.Error.InvalidArgs"

/-- A failure in words. -/
def text : Failure → Text
  | declared reason => reason.plain.toOption.getD []
  | conversion cause => cause.message
  | notACollection shown => .concat ["expected a collection, got ", shown]
  | notFields shown => .concat ["expected a sequence of fields, got ", shown]
  | notAnEntry shown => .concat ["a dict entry needs exactly a key and a value, got ", shown]
  | fieldCount signature needed got =>
    .concat [signature, " needs ", .ofNat needed, " fields, got ", .ofNat got]
  | valueCount needed got => .concat [.ofNat needed, " values expected, got ", .ofNat got]
  | invalidContainer c => .concat ["invalid signature for ", c.display]
  | entryOutsideArray => "dict entries can only be written inside an array"
  | alreadyComplete c signature =>
    .concat [c.display, " is already complete, cannot add '", signature, "'"]
  | otherExpected c expected signature =>
    .concat [c.display, " expects '", expected, "', not '", signature, "'"]
  | closedEarly c done needed =>
    .concat [c.display, " closed after ", .ofNat done, " of ", .ofNat needed, " values"]
  | alreadySealed => "message is sealed; no further values can be written"
  | notYetSealed => "message is still being written; rewind() it before reading"
  | endBeforeContainer c inside =>
    .concat ["expected ", c.display, ", found the end of ", inside.display]
  | otherThanContainer c found =>
    .concat ["expected ", c.display, ", found ", found.display.quoted]
  | noClosing c => .concat [c.display, " has no close marker"]
  | unread c => .concat [c.display, " has unread content"]
  | endBeforeValue code inside =>
    .concat ["expected '", code, "', found the end of ", inside.display]
  | otherThanValue code found => .concat ["expected '", code, "', found '", found.display, "'"]
  | notADescriptorIndex shown =>
    .concat ["descriptor index must be an integer, got ", shown]
  | badValue code cause => .concat ["bad '", code, "' value in stream: ", cause.message]
  | noDescriptor shown => .concat ["descriptor index ", shown, " is out of range"]
  | badDescriptor index shown =>
    .concat ["bad descriptor at index ", .ofInt index, ": ", shown]
  | unregistered signature =>
    .concat ["no type registered for variant signature '", signature, "'"]

/-- The reason of a failure: its wording, or what the caller gave for one. -/
def reason : Failure → Value
  | declared reason => reason
  | f => .text f.text

/-- The name and the reason of a failure, as they are shown. -/
def display (f : Failure) : Except Fault Text := do
  .ok (.concat ["StreamError(", errorName.quoted, ", ", ← f.reason.display, ")"])

end Failure

end TypedBus
