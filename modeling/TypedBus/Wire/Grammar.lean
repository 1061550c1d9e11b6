import TypedBus.Wire.WireType

/-!
# The signature grammar

A signature is a row of complete types. A complete type is a basic code or `v`; an `a` before its
element, which is a complete type or a dict entry, that is a basic key and a complete value between
braces; or one or more complete types between parentheses. Nothing is longer than 255 code points,
and nothing lies inside more than 32 arrays, or more than 32 structs and dict entries together.

* `Signature.types` reads a signature into the types that it spells, or says what is wrong.
* `Signature.split` is the same as texts; `Signature.isValid`, `Signature.isSingle` and
  `Signature.single?` ask for any number of types, or exactly one.

Model of `_complete`, `split`, `is_valid` and `is_single`. `_complete` walks over one complete type
and gives the place behind it; `readType` also gives the type that it has walked over. Out of scope:
a signature that is no text.
-/

namespace TypedBus

/-- What can be wrong with a signature. -/
inductive Malformed
  | tooLong
  | truncated
  | arraysTooDeep
  | structsTooDeep
  | noElement
  | truncatedEntry
  | keyNotBasic
  | entryNotPair
  | emptyStruct
  | entryOutsideArray
  | unknownCode (p : CodePoint)
  deriving DecidableEq, Repr

namespace Signature

/-- The greatest length of a signature. -/
def maximumLength : Nat := 255

/-- How many arrays, and how many structs and dict entries, may lie around a type. -/
def maximumDepth : Nat := 32

mutual

/-- Read one complete type that lies inside so many arrays and so many structs, and what follows it
(`_complete`). The first argument bounds the steps. -/
def readType : Nat → Nat → Nat → Text → Except Malformed (WireType × Text)
  | 0, _, _, _ => .error .truncated
  | _ + 1, _, _, [] => .error .truncated
  | n + 1, arrays, structs, p :: rest =>
    match p with
    | .scalar 'v' => .ok (.variant, rest)
    | .scalar 'a' =>
      if arrays < maximumDepth then
        match rest with
        | [] => .error .noElement
        | .scalar '{' :: inside => do
          let (e, rest) ← readEntry n (arrays + 1) structs inside
          .ok (.array e, rest)
        | _ => do
          let (e, rest) ← readType n (arrays + 1) structs rest
          .ok (.array e, rest)
      else .error .arraysTooDeep
    | .scalar '(' =>
      if structs < maximumDepth then
        match rest with
        | .scalar ')' :: _ => .error .emptyStruct
        | _ => do
          let (fs, rest) ← readFields n arrays (structs + 1) rest
          .ok (.struct fs, rest)
      else .error .structsTooDeep
    | .scalar '{' => .error .entryOutsideArray
    | _ =>
      match BasicType.ofCode? p with
      | some b => .ok (.basic b, rest)
      | none => .error (.unknownCode p)

/-- Read the rest of a dict entry, after its opening brace. -/
def readEntry : Nat → Nat → Nat → Text → Except Malformed (WireType × Text)
  | 0, _, _, _ => .error .truncated
  | n + 1, arrays, structs, inside =>
    if structs < maximumDepth then
      match inside with
      | [] => .error .truncatedEntry
      | p :: rest =>
        match BasicType.ofCode? p with
        | none => .error .keyNotBasic
        | some k => do
          let (v, rest) ← readType n arrays (structs + 1) rest
          match rest with
          | .scalar '}' :: rest => .ok (.entry (.basic k) v, rest)
          | _ => .error .entryNotPair
    else .error .structsTooDeep

/-- Read the fields of a struct up to and with its closing parenthesis. -/
def readFields : Nat → Nat → Nat → Text → Except Malformed (List WireType × Text)
  | 0, _, _, _ => .error .truncated
  | n + 1, arrays, structs, s =>
    match s with
    | .scalar ')' :: rest => .ok ([], rest)
    | _ => do
      let (f, rest) ← readType n arrays structs s
      let (fs, rest) ← readFields n arrays structs rest
      .ok (f :: fs, rest)

end

/-- Enough steps to read a text: two for each code point. -/
def stepsFor (s : Text) : Nat := 2 * s.length + 2

/-- Read complete types up to the end of the text. -/
def readTypes : Nat → Text → Except Malformed (List WireType)
  | _, [] => .ok []
  | 0, _ => .error .truncated
  | n + 1, s => do
    let (t, rest) ← readType (stepsFor s) 0 0 s
    let ts ← readTypes n rest
    .ok (t :: ts)

/-- The complete types that a signature spells. -/
def types (s : Text) : Except Malformed (List WireType) :=
  if maximumLength < s.length then .error .tooLong else readTypes s.length s

/-- The complete types of a signature, as signatures of their own. -/
def split (s : Text) : Except Malformed (List Text) :=
  (types s).map fun ts => ts.map WireType.signature

/-- The text is a signature. -/
def isValid (s : Text) : Bool := (types s).toBool

/-- The type that a signature spells, if it spells exactly one. -/
def single? (s : Text) : Option WireType :=
  match types s with
  | .ok [t] => some t
  | _ => none

/-- The text is the signature of exactly one complete type. -/
def isSingle (s : Text) : Bool := (single? s).isSome

end Signature

end TypedBus
