import TypedBus.Text.Printable

/-!
# Quoted text and bytes

How text and bytes are shown inside a message. Text stands between single quotes, or between double
quotes when it holds a single quote and no double one; the quote in use and the backslash are
escaped, as are line feed, carriage return and tab; another code point that is not printable is
written by its number, in two, four or eight hexadecimal digits. Bytes are shown likewise after the
letter `b`, every byte beyond the printable ASCII range by its number.

Model of `repr` of text and of bytes.
-/

namespace TypedBus

namespace Text

/-- A number in lower case hexadecimal digits, padded with zeros to a width. -/
def hexadecimal (width n : Nat) : Text :=
  ofString (String.ofList (go width n))
where
  /-- The last `k` digits. -/
  go : Nat → Nat → List Char
    | 0, _ => []
    | k + 1, n => go k (n / 16) ++ [Nat.digitChar (n % 16)]

/-- A code point by its number, in the shortest of the three escapes. -/
def numericEscape (n : Nat) : Text :=
  if n < 0x100 then "\\x" ++ hexadecimal 2 n
  else if n < 0x10000 then "\\u" ++ hexadecimal 4 n
  else "\\U" ++ hexadecimal 8 n

/-- The quote that encloses a text with the given code points. -/
def quoteFor (t : Text) : Char :=
  if t.any (·.is '\'') && !(t.any (·.is '"')) then '"' else '\''

/-- A code point inside the given quote. -/
def quotedPoint (quote : Char) (p : CodePoint) : Text :=
  if p.is quote || p.is '\\' then single '\\' ++ [p]
  else if p.is '\n' then "\\n"
  else if p.is '\r' then "\\r"
  else if p.is '\t' then "\\t"
  else if p.isPrintable then [p]
  else numericEscape p.toNat

/-- A text in quotes. -/
def quoted (t : Text) : Text :=
  let quote := quoteFor t
  single quote ++ t.flatMap (quotedPoint quote) ++ single quote

/-- A byte inside the given quote. -/
def quotedByte (quote : Char) (b : UInt8) : Text :=
  let p := CodePoint.scalar (Char.ofNat b.toNat)
  if b.toNat < 0x7F then quotedPoint quote p else "\\x" ++ hexadecimal 2 b.toNat

/-- Bytes in quotes. -/
def quotedBytes (bs : List UInt8) : Text :=
  let quote := quoteFor (bs.map fun b => .scalar (Char.ofNat b.toNat))
  single 'b' ++ single quote ++ bs.flatMap (quotedByte quote) ++ single quote

end Text

end TypedBus
