import TypedBus.Json.Basic
import TypedBus.Number.Layout
import TypedBus.Text.Quoted

/-!
# Writing JSON

`Json.write` is the compact text of a document: no white space, members in order, and in a text only
quotes, backslashes and control characters are escaped.

Model of the bytes that `dumps` gives, with `orjson` for a backend.
-/

namespace TypedBus

namespace Json

/-- A code point of a text. -/
def writePoint (p : CodePoint) : Text :=
  match p with
  | .scalar '"' => "\\\""
  | .scalar '\\' => "\\\\"
  | .scalar '\x08' => "\\b"
  | .scalar '\t' => "\\t"
  | .scalar '\n' => "\\n"
  | .scalar '\x0c' => "\\f"
  | .scalar '\r' => "\\r"
  | p => if p.toNat < 0x20 then .concat ["\\u", Text.hexadecimal 4 p.toNat] else [p]

/-- A text in quotes. -/
def writeText (t : Text) : Text := .concat ["\"", t.flatMap writePoint, "\""]

mutual

/-- The text of a document. -/
def write : Json → Text
  | null => "null"
  | boolean b => if b then "true" else "false"
  | integer n => .ofInt n
  | double d => d.json
  | text t => writeText t
  | array xs => .concat ["[", .join "," (writeAll xs), "]"]
  | object ms => .concat ["\x7b", .join "," (writeMembers ms), "\x7d"]

/-- The texts of a row of documents. -/
def writeAll : List Json → List Text
  | [] => []
  | x :: xs => write x :: writeAll xs

/-- The texts of the members of an object. -/
def writeMembers : List (Text × Json) → List Text
  | [] => []
  | (k, x) :: ms => .concat [writeText k, ":", write x] :: writeMembers ms

end

end Json

end TypedBus
