import TypedBus.Fault.Basic
import TypedBus.Number.Numeral
import TypedBus.Text.Quoted
import TypedBus.Value.Grid.Layout

/-!
# The wording of faults

`Fault.message` words a fault, `Malformed.message` what is wrong with a signature.

Model of the texts that errors are raised with, in `canonical`, `_complete`, `parse`, `infer`,
`convert`, `register_type`, `rewind`, `close`, `exit`, `data_as`, `send`, `recv`, `pack` and
`unpack`, and of the texts of built-in errors, which become part of recorded failures and of the
texts of other errors.
-/

namespace TypedBus

/-- What is wrong with a signature, in words. -/
def Malformed.message : Malformed → Text
  | .tooLong => .concat ["signature longer than ", .ofNat Signature.maximumLength, " characters"]
  | .truncated => "truncated signature"
  | .arraysTooDeep => "arrays nested too deeply"
  | .structsTooDeep => "structs nested too deeply"
  | .noElement => "array with no element type"
  | .truncatedEntry => "truncated dict entry"
  | .keyNotBasic => "dict entry keys must be basic types"
  | .entryNotPair => "dict entry must hold exactly two types"
  | .emptyStruct => "empty structs are not allowed"
  | .entryOutsideArray => "dict entries are only allowed as array elements"
  | .unknownCode p => .concat ["unknown type code: ", Text.quoted [p]]

namespace Text

/-- The place of the first surrogate in a text, and the run of surrogates that starts there. -/
def surrogateRun (t : Text) : Nat × List CodePoint :=
  let before := t.takeWhile fun p => !p.isSurrogate
  (before.length, (t.drop before.length).takeWhile CodePoint.isSurrogate)

/-- A text with surrogates cannot be encoded; this says where the first ones stand. -/
def encodingFailure (t : Text) : Text :=
  let (start, run) := t.surrogateRun
  let place : Text :=
    match run with
    | [p] => .concat ["character '", numericEscape p.toNat, "' in position ", .ofNat start]
    | run =>
      .concat ["characters in position ", .ofNat start, "-", .ofNat (start + run.length - 1)]
  .concat ["'utf-8' codec can't encode ", place, ": surrogates not allowed"]

end Text

namespace Fault

/-- The name of a kind in quotes. -/
def quotedKind (kind : String) : Text := .concat ["'", kind, "'"]

/-- A fault in words. -/
def message : Fault → Text
  | notWireType shown => .concat ["not a wire type expression: ", shown]
  | notSingleType s => .concat ["not a single complete type: ", s.quoted]
  | parameterCount generic actual expected =>
    .concat [if actual < expected then "Too few" else "Too many", " arguments for ", generic,
      "; actual ", .ofNat actual, ", expected ", .ofNat expected]
  | notAnExpression t => .concat ["Forward reference must be an expression -- got ", t.quoted]
  | emptyTuple => "cannot marshal an empty struct"
  | notOneDimensional => "only one-dimensional arrays can be marshalled"
  | noWireType shown => .concat ["cannot infer a wire type for ", shown]
  | noElements => "cannot infer the element type of an empty container"
  | mixedElements types =>
    .concat ["mixed element types: [",
      .join ", " ((Text.sort (types.map WireType.name)).map Text.quoted), "]"]
  | otherPayload held asked => .concat ["variant holds '", held, "', not '", asked, "'"]
  | incompleteMessage => "a message that failed while being written cannot be reset"
  | stillOpen count innermost =>
    .concat [.ofNat count, " container(s) still open: ", innermost.display]
  | nothingToClose => "no open container to close"
  | nothingToExit => "no open container to exit"
  | frozenRegistry => "the registry is frozen; no further types can be registered"
  | notReduced shown =>
    .concat [shown, " is not in reduced form; remove the redundant tuple from it"]
  | notCopyable => "cannot pickle '_thread.lock' object"
  | notJoined kind => .concat ["can only concatenate str (not \"", kind, "\") to str"]
  | recordedFailure text => text
  | notAnInteger shown => .concat ["expected an integer, got ", shown]
  | notABoolean shown => .concat ["expected a boolean, got ", shown]
  | notANumber shown => .concat ["expected a number, got ", shown]
  | notAString shown => .concat ["expected a string, got ", shown]
  | outOfRange shown w => .concat [shown, " is out of range for ", w.name]
  | outOfBounds shown i => .concat ["Python integer ", shown, " out of bounds for ", i.name]
  | beyondWord => "Python int too large to convert to C long"
  | tooLargeForDouble => "int too large to convert to float"
  | infinityToInteger => "cannot convert float infinity to integer"
  | nanToInteger => "cannot convert float NaN to integer"
  | noInteger kind =>
    .concat ["int() argument must be a string, a bytes-like object or a real number, not ",
      quotedKind kind]
  | noDouble kind =>
    .concat ["float() argument must be a string or a real number, not ", quotedKind kind]
  | badInteger shown => .concat ["invalid literal for int() with base 10: ", shown]
  | badDouble shown => .concat ["could not convert string to float: ", shown]
  | tooManyDigits count =>
    .concat ["Exceeds the limit (", .ofNat Numeral.maximumDigits,
      " digits) for integer string conversion: value has ", .ofNat count,
      " digits; use sys.set_int_max_str_digits() to increase the limit"]
  | tooLongToShow =>
    .concat ["Exceeds the limit (", .ofNat Numeral.maximumDigits,
      " digits) for integer string conversion; ",
      "use sys.set_int_max_str_digits() to increase the limit"]
  | nulInText => "strings cannot contain NUL characters"
  | loneSurrogates t => t.encodingFailure
  | invalidPath t => .concat ["invalid ObjectPath: ", t]
  | invalidSignature t => .concat ["invalid Signature: ", t]
  | severalTruths =>
    "The truth value of an array with more than one element is ambiguous. Use a.any() or a.all()"
  | noTruth =>
    .concat ["The truth value of an empty array is ambiguous. ",
      "Use `array.size > 0` to check that an array is not empty."]
  | notOneNumber => "only 0-dimensional arrays can be converted to Python scalars"
  | ragged shape =>
    .concat ["setting an array element with a sequence. The requested array has an inhomogeneous ",
      "shape after ", .ofNat shape.length, " dimensions. The detected shape was ",
      Shape.display shape, " + inhomogeneous part."]
  | notIterable kind => .concat [quotedKind kind, " object is not iterable"]
  | noAxis => "iteration over a 0-d array"
  | notUnpackable kind => .concat ["cannot unpack non-iterable ", kind, " object"]
  | notSubscriptable kind => .concat [quotedKind kind, " object is not subscriptable"]
  | tooFewParts count =>
    .concat ["not enough values to unpack (expected 2, got ", .ofNat count, ")"]
  | tooManyParts => "too many values to unpack (expected 2)"
  | unhashable kind => .concat ["unhashable type: ", quotedKind kind]
  | noPlace .list => "list index out of range"
  | noPlace .tuple => "tuple index out of range"
  | noPlace .text => "string index out of range"
  | noPlace .bytes => "index out of range"
  | noPlace .scalar => "invalid index to scalar variable."
  | noPlace .point =>
    "too many indices for array: array is 0-dimensional, but 1 were indexed"
  | noPlace (.axis size place) =>
    .concat ["index ", .ofNat place, " is out of bounds for axis 0 with size ", .ofNat size]
  | noKey key => .ofNat key
  | noMethod kind name => .concat [quotedKind kind, " object has no attribute '", name, "'"]
  | notAPair index =>
    .concat ["cannot convert dictionary update sequence element #", .ofNat index,
      " to a sequence"]
  | pairLength index length =>
    .concat ["dictionary update sequence element #", .ofNat index, " has length ",
      .ofNat length, "; 2 is required"]
  | malformed m => m.message
  | notAKind shown => .concat [shown, " is not a valid Kind"]
  | notAMessageType shown => .concat [shown, " is not a valid MessageType"]
  | unknownField name =>
    .concat ["Envelope.__init__() got an unexpected keyword argument '", name, "'"]
  | fieldGivenTwice name =>
    .concat ["Envelope.__init__() got multiple values for argument '", name, "'"]
  | fieldNameNotText => "keywords must be strings"
  | entryNotCopied => "DictEntry.__new__() missing 1 required positional argument: 'value'"
  | unknownTag shown => .concat ["unknown item tag: ", shown]
  | sealedStream => "cannot append to a sealed stream"
  | unsealedStream => "only sealed streams can be sent"
  | noMessage timeout => .concat ["no message received in ", timeout, " sec"]
  | notATime kind => .concat [quotedKind kind, " object cannot be interpreted as an integer"]
  | noIndex => "only integer scalar arrays can be converted to a scalar index"
  | nanTime => "Invalid value NaN (not a number)"
  | negativeTime => "'timeout' must be a non-negative number"
  | tooLongTime => "timestamp too large to convert to C _PyTime_t"
  | tooLongWait => "timeout value is too large"
  | nulInVariable => "embedded null byte"
  | unknownLevel shown => .concat ["Unknown level: ", shown]
  | notALevel shown => .concat ["Level not an integer or a valid string: ", shown]
  | cannotPack cause => .concat ["cannot pack message: ", cause.message]
  | malformedPacked cause => .concat ["malformed packed stream: ", cause.message]
  | jsonSyntax => "not a JSON document"
  | jsonInteger => "Integer exceeds 64-bit range"
  | jsonKey => "Dict key must be str"
  | jsonText => "str is not valid UTF-8: surrogates not allowed"
  | jsonDepth => "Recursion limit reached"
  | jsonValue kind => .concat ["Type is not JSON serializable: ", kind]
  | tooDeep => "values are nested too deeply"

end Fault

end TypedBus
