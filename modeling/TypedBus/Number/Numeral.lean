import TypedBus.Number.Double
import TypedBus.Text.Classes

/-!
# Reading numerals

A numeral is read from text or from bytes. White space may stand around it and a sign before it,
single underscores may stand between its digits, and a decimal digit of any script counts as the
ASCII digit of its value. `Numeral.integer?` reads whole numbers, `Numeral.double?` decimal ones, in
which case the words for infinity and NaN count as well.

Model of `int` and `float` applied to text and to bytes, with the limit of 4300 digits at its usual
value. Out of scope: other bases than ten.
-/

namespace TypedBus

namespace Numeral

/-- The greatest number of digits that a whole number may begin with when it is read, and that it
may have when it is shown. -/
def maximumDigits : Nat := 4300

/-- How many digits an integer has. -/
def digitCount (n : Int) : Nat := (Nat.toDigits 10 n.natAbs).length

/-- ASCII white space. -/
def isSpace (c : Char) : Bool := c = ' ' || (0x9 ≤ c.toNat && c.toNat ≤ 0xD)

/-- A code point as the ASCII character that it stands for in a numeral. What stands for none
becomes a question mark, which is part of no numeral. -/
def asciiOf (p : CodePoint) : Char :=
  match p with
  | .surrogate _ => '?'
  | .scalar c =>
    if c.toNat < 0x7F then c
    else if p.isBlank then ' '
    else
      match p.digit? with
      | some d => Nat.digitChar d
      | none => '?'

/-- The characters of a numeral without the white space around it. -/
def ofText (t : Text) : List Char :=
  (((t.map asciiOf).dropWhile isSpace).reverse.dropWhile isSpace).reverse

/-- The same for bytes. -/
def ofBytes (bs : List UInt8) : List Char :=
  ofText (bs.map fun b => .scalar (if b.toNat < 0x7F then Char.ofNat b.toNat else '?'))

/-- A sign and what follows it; no sign is a plus. -/
def signed : List Char → Bool × List Char
  | '-' :: cs => (true, cs)
  | '+' :: cs => (false, cs)
  | cs => (false, cs)

/-- The value of a digit. -/
def digitValue (c : Char) : Nat := c.toNat - '0'.toNat

/-- The number that a row of digits spells after a number spelt so far. -/
def number (soFar : Nat) (cs : List Char) : Nat := cs.foldl (fun n c => 10 * n + digitValue c) soFar

/-- The characters without their underscores, each of which must stand between two digits. -/
def withoutUnderscores? : Option Char → List Char → Option (List Char)
  | _, [] => some []
  | before, '_' :: c :: cs =>
    if (before.map Char.isDigit).getD false && c.isDigit then
      withoutUnderscores? (some c) cs |>.map (c :: ·)
    else none
  | _, ['_'] => none
  | _, c :: cs => withoutUnderscores? (some c) cs |>.map (c :: ·)

/-- The digits and the sign of a whole number. -/
def integerDigits? (cs : List Char) : Option (Bool × List Char) :=
  let (negative, digits) := signed cs
  match withoutUnderscores? none digits with
  | some (d :: ds) => if (d :: ds).all Char.isDigit then some (negative, d :: ds) else none
  | _ => none

/-- How many digits stand together at the beginning, behind a sign, underscores left out. -/
def leadingDigits (cs : List Char) : Nat :=
  let run := (signed cs).2.takeWhile fun c => c.isDigit || c = '_'
  ((withoutUnderscores? none run).map List.length).getD 0

/-- A whole number. -/
def integer? (cs : List Char) : Option Int :=
  (integerDigits? cs).map fun (negative, digits) =>
    if negative then -(number 0 digits : Int) else number 0 digits

/-- The value of an exponent with an optional sign. -/
def exponent? (cs : List Char) : Option Int :=
  match signed cs with
  | (negative, d :: ds) =>
    if (d :: ds).all Char.isDigit then
      some (if negative then -(number 0 (d :: ds) : Int) else number 0 (d :: ds))
    else none
  | _ => none

/-- A decimal number without a sign: its digits as one number, and the power of ten of the last. -/
def decimal? (cs : List Char) : Option (Nat × Int) :=
  let whole := cs.takeWhile Char.isDigit
  let rest := cs.dropWhile Char.isDigit
  let (fraction, rest) :=
    match rest with
    | '.' :: r => (r.takeWhile Char.isDigit, r.dropWhile Char.isDigit)
    | r => ([], r)
  if whole.isEmpty && fraction.isEmpty then none
  else
    let digits := number (number 0 whole) fraction
    match rest with
    | [] => some (digits, -(fraction.length : Int))
    | c :: r =>
      if c = 'e' ∨ c = 'E' then (exponent? r).map fun e => (digits, e - fraction.length) else none

/-- A decimal number, an infinity or a NaN. -/
def double? (cs : List Char) : Option Double :=
  let (negative, rest) := signed cs
  let word := String.ofList (rest.map Char.toLower)
  if word = "inf" ∨ word = "infinity" then some (.infinity negative)
  else if word = "nan" then some .nan
  else
    (withoutUnderscores? none rest).bind fun cs =>
      (decimal? cs).map fun (digits, exponent) => .ofDecimal negative digits exponent

end Numeral

end TypedBus
