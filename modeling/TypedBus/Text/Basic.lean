/-!
# Text as code points

Text that reaches a bus program may hold a surrogate that stands alone, which no UTF-8 document can
carry. `CodePoint` therefore has two cases, the Unicode scalar values and the surrogates, and
`Text` is a list of them, so that every list lemma applies to it.

* `CodePoint.toNat` and `CodePoint.ofNat?` go between a code point and its number.
* `Text.ofString` embeds a string; a string literal is a text wherever one is expected.
* `Text.isBelow` is the order by code point number.

Model of built-in text and of its order. Out of scope: text of classes derived from the built-in
one, which may be shown otherwise.
-/

namespace TypedBus

/-- A code point: a Unicode scalar value, or one of the 2048 surrogates. -/
inductive CodePoint
  | scalar (c : Char)
  | surrogate (offset : Fin 2048)
  deriving DecidableEq, Repr

/-- A text is a sequence of code points. -/
abbrev Text := List CodePoint

instance : Inhabited CodePoint := ⟨.scalar ' '⟩

namespace CodePoint

/-- The first surrogate. -/
def firstSurrogate : Nat := 0xD800

/-- The number of a code point. -/
def toNat : CodePoint → Nat
  | scalar c => c.toNat
  | surrogate s => firstSurrogate + s.val

/-- The code point with a given number, if there is one. -/
def ofNat? (n : Nat) : Option CodePoint :=
  if h : n.isValidChar then some (.scalar (Char.ofNatAux n h))
  else if h : firstSurrogate ≤ n ∧ n < firstSurrogate + 2048 then
    some (.surrogate ⟨n - firstSurrogate, by omega⟩)
  else none

/-- The character of a code point that is not a surrogate. -/
def char? : CodePoint → Option Char
  | scalar c => some c
  | surrogate _ => none

/-- Surrogates are the code points that no UTF-8 document can hold. -/
def isSurrogate : CodePoint → Bool
  | scalar _ => false
  | surrogate _ => true

/-- The code point is this character. -/
def is (p : CodePoint) (c : Char) : Bool := p == .scalar c

end CodePoint

namespace Text

/-- The text of a string. -/
def ofString (s : String) : Text := s.toList.map .scalar

instance : Coe String Text := ⟨ofString⟩

/-- The text that holds one character. -/
def single (c : Char) : Text := [.scalar c]

/-- The characters of a text without surrogates. -/
def toChars? (t : Text) : Option (List Char) := t.mapM CodePoint.char?

/-- The string of a text without surrogates. -/
def toString? (t : Text) : Option String := t.toChars?.map String.ofList

/-- The texts put together. -/
def concat (ts : List Text) : Text := ts.flatten

/-- The texts with a separator between neighbours. -/
def join (separator : Text) : List Text → Text
  | [] => []
  | [t] => t
  | t :: rest => t ++ separator ++ join separator rest

/-- A natural number in decimal digits. -/
def ofNat (n : Nat) : Text := ofString (toString n)

/-- An integer in decimal digits, with a sign when it is negative. -/
def ofInt (n : Int) : Text :=
  if n < 0 then single '-' ++ ofNat n.natAbs else ofNat n.natAbs

/-- The order by code point numbers, a proper beginning first. -/
def isBelow : Text → Text → Bool
  | [], [] => false
  | [], _ :: _ => true
  | _ :: _, [] => false
  | p :: s, q :: t =>
    if p.toNat < q.toNat then true
    else if q.toNat < p.toNat then false
    else isBelow s t

/-- The texts in the order of `isBelow`; equal ones keep their places. -/
def sort (ts : List Text) : List Text := ts.mergeSort fun s t => !isBelow t s

end Text

@[simp] theorem Text.ofString_append (s t : String) :
    Text.ofString (s ++ t) = Text.ofString s ++ Text.ofString t := by
  simp [Text.ofString]

end TypedBus
