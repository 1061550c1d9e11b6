import TypedBus.Json.Basic
import TypedBus.Number.Numeral

/-!
# Reading JSON

`Json.read` reads the text of a document and takes nothing but JSON: no byte order mark, no comma
too many, no control character or half a surrogate pair inside a text, and at most 1024 arrays and
objects inside one another. A number with neither point nor exponent is an integer if it has a place
among those of 64 bits, and a double otherwise; a number too large for a double is no number. Of
members with one name the last counts, in the place of the first.

`Json.readLenient` also takes integers of any size, numbers too large for a double, surrogates that
stand alone and documents of any depth.

Model of `loads`, as `readBytes`, with `orjson` for a backend; every input that is refused is
refused with one error. Out of scope: the other backends, and the place in the input that an error
tells.
-/

namespace TypedBus

namespace Json

/-- How many arrays and objects may lie inside one another in a document that is read. -/
def maximumReadDepth : Nat := 1024

/-- What a reader makes of documents that are doubtful. -/
inductive Manner
  | strict
  | lenient
  deriving DecidableEq

/-- White space between the parts of a document. -/
def isSpace (c : Char) : Bool := c = ' ' || c = '\t' || c = '\n' || c = '\r'

/-- The characters after white space. -/
def afterSpace (cs : List Char) : List Char := cs.dropWhile isSpace

/-- Set a member of an object. -/
def setMember (name : Text) (x : Json) : List (Text × Json) → List (Text × Json)
  | [] => [(name, x)]
  | (k, y) :: ms => if k = name then (k, x) :: ms else (k, y) :: setMember name x ms

/-! ## Texts -/

/-- The value of a hexadecimal digit. -/
def hexDigit? (c : Char) : Option Nat :=
  if c.isDigit then some (c.toNat - '0'.toNat)
  else if 'a' ≤ c ∧ c ≤ 'f' then some (c.toNat - 'a'.toNat + 10)
  else if 'A' ≤ c ∧ c ≤ 'F' then some (c.toNat - 'A'.toNat + 10)
  else none

/-- The number that four hexadecimal digits spell. -/
def hex4? (a b c d : Char) : Option Nat := do
  some (((← hexDigit? a) * 16 + (← hexDigit? b)) * 256 + (← hexDigit? c) * 16 + (← hexDigit? d))

/-- The character of an escape of one letter. -/
def escaped? : Char → Option Char
  | '"' => some '"'
  | '\\' => some '\\'
  | '/' => some '/'
  | 'b' => some '\x08'
  | 'f' => some '\x0c'
  | 'n' => some '\n'
  | 'r' => some '\r'
  | 't' => some '\t'
  | _ => none

/-- The scalar value of a surrogate pair. -/
def pair? (high low : CodePoint) : Option CodePoint :=
  if 0xD800 ≤ high.toNat ∧ high.toNat < 0xDC00 ∧ 0xDC00 ≤ low.toNat ∧ low.toNat < 0xE000 then
    CodePoint.ofNat? (0x10000 + (high.toNat - 0xD800) * 0x400 + (low.toNat - 0xDC00))
  else none

/-- A text with a scalar value in the place of every surrogate pair. -/
def joinPairs : Text → Text
  | p :: q :: t =>
    match pair? p q with
    | some r => r :: joinPairs t
    | none => p :: joinPairs (q :: t)
  | t => t

/-- The code points of a text after its opening quote, and what follows the closing one. -/
def readPoints : List Char → Option (Text × List Char)
  | [] => none
  | '"' :: cs => some ([], cs)
  | '\\' :: 'u' :: a :: b :: c :: d :: cs => do
    let p ← (hex4? a b c d).bind CodePoint.ofNat?
    let (t, rest) ← readPoints cs
    some (p :: t, rest)
  | '\\' :: e :: cs => do
    let c ← escaped? e
    let (t, rest) ← readPoints cs
    some (.scalar c :: t, rest)
  | c :: cs =>
    if c = '\\' ∨ c.toNat < 0x20 then none
    else do
      let (t, rest) ← readPoints cs
      some (.scalar c :: t, rest)

/-- The rest of a text after its opening quote, and what follows the closing one. -/
def readText (m : Manner) (cs : List Char) : Option (Text × List Char) := do
  let (t, rest) ← readPoints cs
  let t := joinPairs t
  if m = .lenient ∨ t.any CodePoint.isSurrogate = false then some (t, rest) else none

/-! ## Numbers -/

/-- One digit or more at the start of the characters, and what follows them. -/
def digits? (cs : List Char) : Option (List Char × List Char) :=
  match cs.takeWhile Char.isDigit with
  | [] => none
  | ds => some (ds, cs.dropWhile Char.isDigit)

/-- A whole number without a sign: a zero, or digits that do not start with one. -/
def wholeDigits? (cs : List Char) : Option (List Char × List Char) :=
  match cs with
  | '0' :: rest => some (['0'], rest)
  | cs => digits? cs

/-- The digits of a fraction, if there is one. -/
def fraction? (cs : List Char) : Option (List Char × List Char) :=
  match cs with
  | '.' :: cs => digits? cs
  | cs => some ([], cs)

/-- A number with its sign. -/
def withSign (negative : Bool) (n : Nat) : Int := if negative then -n else n

/-- The exponent of a number, if there is one. -/
def exponent? (cs : List Char) : Option (Option Int × List Char) :=
  match cs with
  | c :: cs =>
    if c = 'e' ∨ c = 'E' then do
      let (negative, ds) := Numeral.signed cs
      let (ds, cs) ← digits? ds
      some (some (withSign negative (Numeral.number 0 ds)), cs)
    else some (none, c :: cs)
  | [] => some (none, [])

/-- A number whose parts have been read. -/
def numberOf? (m : Manner) (negative : Bool) (whole fraction : List Char) (exponent : Option Int) :
    Option Json :=
  let digits := Numeral.number (Numeral.number 0 whole) fraction
  let n := withSign negative digits
  if fraction.isEmpty ∧ exponent.isNone ∧ (m = .lenient ∨ Holds n) then some (integer n)
  else
    let d := Double.ofDecimal negative digits (exponent.getD 0 - fraction.length)
    if m = .lenient ∨ d.isFinite then some (double d) else none

/-- A number, and what follows it. -/
def readNumber (m : Manner) (cs : List Char) : Option (Json × List Char) := do
  let (negative, cs) :=
    match cs with
    | '-' :: cs => (true, cs)
    | cs => (false, cs)
  let (whole, cs) ← wholeDigits? cs
  let (fraction, cs) ← fraction? cs
  let (exponent, cs) ← exponent? cs
  some (← numberOf? m negative whole fraction exponent, cs)

/-! ## Documents -/

mutual

/-- Read a document that lies inside so many arrays and objects, and what follows it. The first
argument bounds the steps. -/
def readAt (m : Manner) : Nat → Nat → List Char → Option (Json × List Char)
  | 0, _, _ => none
  | n + 1, depth, cs =>
    match afterSpace cs with
    | 'n' :: 'u' :: 'l' :: 'l' :: cs => some (null, cs)
    | 't' :: 'r' :: 'u' :: 'e' :: cs => some (boolean true, cs)
    | 'f' :: 'a' :: 'l' :: 's' :: 'e' :: cs => some (boolean false, cs)
    | '"' :: cs => (readText m cs).map fun (t, rest) => (text t, rest)
    | '[' :: cs =>
      if m = .lenient ∨ depth < maximumReadDepth then
        match afterSpace cs with
        | ']' :: rest => some (array [], rest)
        | cs => (readElements m n (depth + 1) cs).map fun (xs, rest) => (array xs, rest)
      else none
    | '{' :: cs =>
      if m = .lenient ∨ depth < maximumReadDepth then
        match afterSpace cs with
        | '}' :: rest => some (object [], rest)
        | cs => (readMembers m n (depth + 1) [] cs).map fun (ms, rest) => (object ms, rest)
      else none
    | cs => readNumber m cs

/-- Read the elements of an array up to its closing bracket. -/
def readElements (m : Manner) : Nat → Nat → List Char → Option (List Json × List Char)
  | 0, _, _ => none
  | n + 1, depth, cs => do
    let (x, cs) ← readAt m n depth cs
    match afterSpace cs with
    | ',' :: cs => do
      let (xs, rest) ← readElements m n depth cs
      some (x :: xs, rest)
    | ']' :: rest => some ([x], rest)
    | _ => none

/-- Read the members of an object up to its closing brace, after those read already. -/
def readMembers (m : Manner) : Nat → Nat → List (Text × Json) → List Char →
    Option (List (Text × Json) × List Char)
  | 0, _, _, _ => none
  | n + 1, depth, ms, cs =>
    match afterSpace cs with
    | '"' :: cs => do
      let (name, cs) ← readText m cs
      match afterSpace cs with
      | ':' :: cs => do
        let (x, cs) ← readAt m n depth cs
        let ms := setMember name x ms
        match afterSpace cs with
        | ',' :: cs => readMembers m n depth ms cs
        | '}' :: rest => some (ms, rest)
        | _ => none
      | _ => none
    | _ => none

end

/-- Read the text of a document in a manner. -/
def readIn (m : Manner) (cs : List Char) : Except Fault Json :=
  match readAt m (2 * cs.length + 1) 0 cs with
  | some (x, rest) => if (afterSpace rest).isEmpty then .ok x else .error .jsonSyntax
  | none => .error .jsonSyntax

/-- Read the text of a document. -/
def readChars (cs : List Char) : Except Fault Json := readIn .strict cs

/-- Read the text of a document that need not be strict. -/
def readLenient (cs : List Char) : Except Fault Json := readIn .lenient cs

/-- Read the text of a document. -/
def read (t : Text) : Except Fault Json :=
  match t.toChars? with
  | some cs => readChars cs
  | none => .error .jsonSyntax

/-- Read a document from bytes, which must be valid UTF-8. -/
def readBytes (bs : List UInt8) : Except Fault Json :=
  match String.fromUTF8? ⟨bs.toArray⟩ with
  | some s => readChars s.toList
  | none => .error .jsonSyntax

end Json

end TypedBus
