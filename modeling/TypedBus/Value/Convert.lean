import TypedBus.Number.Numeral
import TypedBus.Value.Display
import TypedBus.Wire.ObjectPath

/-!
# Conversion to basic types

`BasicType.convert` makes a value of a basic type out of another value, or says why it cannot.
Integers and truth values are not made out of text or doubles, doubles not out of text, and text not
out of anything else; apart from that a number is taken by its value. Text must be free of NUL
characters and lone surrogates, and object paths and signatures must be valid.

Model of `BasicOperations.convert`, and of `int`, `float`, `bool` and the classes of integers as it
applies them (`toInteger`, `toDouble`, `toTruth`, `IntWidth.make`).
-/

namespace TypedBus

/-- The one scalar that a grid holds. -/
def Grid.sole (g : Grid) : Except Fault Scalar :=
  match g.cells with
  | [s] => .ok s
  | [] => .error .noTruth
  | _ => .error .severalTruths

namespace Value

/-- The integer that a row of characters spells. Too long a row of digits is refused before what
comes behind it is looked at. -/
def integerFrom (v : Value) (cs : List Char) : Except Fault Int :=
  let count := Numeral.leadingDigits cs
  if Numeral.maximumDigits < count then .error (.tooManyDigits count)
  else
    match Numeral.integer? cs with
    | some n => .ok n
    | none => do .error (.badInteger (← v.excerpt))

/-- The integer part of a double. -/
def integerOfDouble (d : Double) : Except Fault Int :=
  if d.isNaN then .error .nanToInteger
  else if d.isInfinite then .error .infinityToInteger
  else .ok d.truncate

/-- The scalar of a grid without axes, for which the grid stands; anything else itself. -/
def withoutAxes : Value → Value
  | grid ⟨_, [], [s]⟩ => scalar s
  | v => v

/-- The integer of a number, or the one that a text spells. -/
def toInteger (v : Value) : Except Fault Int :=
  match v.withoutAxes with
  | boolean b | scalar (.boolean b) => .ok (if b then 1 else 0)
  | integer n | fixed _ n | handle n | scalar (.integer _ n) => .ok n
  | double d | scalar (.floating _ d) => integerOfDouble d
  | text t | path t | signature t => integerFrom v (Numeral.ofText t)
  | bytes bs => integerFrom v (Numeral.ofBytes bs)
  | grid _ => .error .notOneNumber
  | v => .error (.noInteger v.kindName)

/-- The double that a row of characters spells. -/
def doubleFrom (v : Value) (cs : List Char) : Except Fault Double :=
  match Numeral.double? cs with
  | some d => .ok d
  | none => v.refuse .badDouble

/-- The double nearest to an integer. -/
def doubleOfInteger (n : Int) : Except Fault Double :=
  match Double.ofInt? n with
  | some d => .ok d
  | none => .error .tooLargeForDouble

/-- The double of a number, or the one that a text spells. -/
def toDouble (v : Value) : Except Fault Double :=
  match v.withoutAxes with
  | boolean b | scalar (.boolean b) => doubleOfInteger (if b then 1 else 0)
  | integer n | fixed _ n | handle n | scalar (.integer _ n) => doubleOfInteger n
  | double d => .ok d
  | scalar (.floating _ d) => .ok d.renewed
  | text t | path t | signature t => doubleFrom v (Numeral.ofText t)
  | bytes bs => doubleFrom v (Numeral.ofBytes bs)
  | grid _ => .error .notOneNumber
  | v => .error (.noDouble v.kindName)

/-- A value counts as true unless it is null, false, zero or empty. A grid counts for its one
scalar; one with none or several is neither true nor false. -/
def toTruth (v : Value) : Except Fault Bool :=
  match v with
  | null => .ok false
  | boolean b => .ok b
  | integer n | fixed _ n | handle n => .ok (n != 0)
  | double d => .ok !d.isZero
  | text t | path t | signature t => .ok !t.isEmpty
  | bytes bs => .ok !bs.isEmpty
  | list _ vs | tuple vs => .ok !vs.isEmpty
  | dict es => .ok !es.isEmpty
  | entry _ _ | variant _ _ _ | opening _ | closing => .ok true
  | scalar s => .ok s.truth
  | grid g => do .ok (← g.sole).truth
  | thing x => .ok x.truth

/-- The value that is compared with others in the place of a value: of a grid its one scalar, of
anything else itself. -/
def soleScalar (v : Value) : Except Fault Value :=
  match v with
  | grid g => do .ok (.scalar (← g.sole))
  | v => .ok v

end Value

/-- An integer of a fixed width (`_Integer`). -/
def IntWidth.make (w : IntWidth) (n : Int) : Except Fault Value :=
  if w.Holds n then .ok (.fixed w n) else (Value.integer n).refuse fun shown => .outOfRange shown w

/-- Text that may stand on the wire holds neither NUL characters nor lone surrogates. -/
def Text.check (t : Text) : Except Fault Text :=
  if t.any (·.is '\x00') then .error .nulInText
  else if t.any CodePoint.isSurrogate then .error (.loneSurrogates t)
  else .ok t

namespace BasicType

/-- A value of a basic type made out of another value (`BasicOperations.convert`). -/
def convert (b : BasicType) (v : Value) : Except Fault Value :=
  match b with
  | integer w =>
    if v.isDouble || v.text?.isSome then v.refuse .notAnInteger
    else do w.make (← v.toInteger)
  | handle =>
    if v.isDouble || v.text?.isSome then v.refuse .notAnInteger
    else do .ok (.handle (← v.toInteger))
  | boolean =>
    if v.isDouble || v.text?.isSome then v.refuse .notABoolean
    else do .ok (.boolean (← v.toTruth))
  | double =>
    if v.text?.isSome then v.refuse .notANumber
    else do .ok (.double (← v.toDouble))
  | string =>
    match v.text? with
    | none => v.refuse .notAString
    | some t => do .ok (.text (← t.check))
  | objectPath =>
    match v.text? with
    | none => v.refuse .notAString
    | some t => do
      let t ← t.check
      if ObjectPath.isValid t then .ok (.path t) else .error (.invalidPath t)
  | signature =>
    match v.text? with
    | none => v.refuse .notAString
    | some t => do
      let t ← t.check
      if Signature.isValid t then .ok (.signature t) else .error (.invalidSignature t)

end BasicType

/-- What a message carries for a value of a basic type: the plain value. For a handle it is a place
in the table of descriptors instead, which the message assigns. -/
def Value.carried : Value → Value
  | .fixed _ n => .integer n
  | .path t | .signature t => .text t
  | v => v

end TypedBus
