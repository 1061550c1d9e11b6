import TypedBus.Text.Basic

/-!
# References

A text may refer to a type that is to be looked up later. It does so by an expression: names,
numbers and quoted texts, taken apart and put together by dots, calls, subscripts, brackets and
operators. `Reference.isExpression` decides whether a text reads as one.

Each of the readers below takes an expression, or a row of them, off the front of a row of
characters and gives what is left. They read within so many steps; no more than four of them go by
without a character taken.

Model of the check that `typing.ForwardRef` makes of a text. Out of scope: comments, numbers that
begin with a point, and `not` behind a star.
-/

namespace TypedBus

namespace Reference

/-- Words that are no names. -/
def keywords : List String :=
  ["and", "as", "assert", "async", "await", "break", "class", "continue", "def", "del", "elif",
    "else", "except", "finally", "for", "from", "global", "if", "import", "in", "is", "lambda",
    "nonlocal", "not", "or", "pass", "raise", "return", "try", "while", "with", "yield"]

/-- The words that join two operands. -/
def joiningWords : List String := ["and", "or", "in", "is"]

/-- The signs that join two operands, the longer ones first. -/
def joiningSigns : List String :=
  ["**", "//", "<<", ">>", "<=", ">=", "==", "!=", "+", "-", "*", "/", "%", "@", "&", "|", "^", "<",
    ">"]

/-- A character that a name may begin with. -/
def beginsName (c : Char) : Bool := c.isAlpha || c = '_' || 0x7F < c.toNat

/-- A character of a name. -/
def isInName (c : Char) : Bool := beginsName c || c.isDigit

/-- A row of characters without the blanks in front. -/
def skip (cs : List Char) : List Char := cs.dropWhile fun c => c = ' ' || c = '\t'

/-- The rest of a row of characters behind a word in front. -/
def behind? (word : String) (cs : List Char) : Option (List Char) :=
  if word.toList.isPrefixOf cs then some (cs.drop word.length) else none

/-- The rest behind a number, which has no zero in front, and behind the places after its point. -/
def behindNumber? (cs : List Char) : Option (List Char) :=
  let digits := cs.takeWhile Char.isDigit
  let rest := cs.dropWhile Char.isDigit
  let (hasPoint, rest) :=
    match rest with
    | '.' :: rest => (true, rest.dropWhile Char.isDigit)
    | rest => (false, rest)
  if (rest.head?.map isInName).getD false then none
  else if hasPoint || digits.head? ≠ some '0' || digits.all (· = '0') then some rest
  else none

/-- The rest behind a quoted text. -/
def behindQuoted? (quote : Char) (cs : List Char) : Option (List Char) :=
  match cs.dropWhile fun c => c ≠ quote && c ≠ '\\' && c ≠ '\n' with
  | c :: rest => if c = quote then some rest else none
  | [] => none

/-- The rest behind what joins an operand to the next one. -/
def behindJoin? (cs : List Char) : Option (List Char) :=
  let word := String.ofList (cs.takeWhile isInName)
  if joiningWords.contains word then some (cs.dropWhile isInName)
  else joiningSigns.findSome? fun sign => behind? sign cs

/-- The bracket that closes what a bracket opens. -/
def closing? (c : Char) : Option Char :=
  match c with
  | '(' => some ')'
  | '[' => some ']'
  | '\x7b' => some '\x7d'
  | _ => none

mutual

/-- The rest behind an expression. -/
def expression? : Nat → List Char → Option (List Char)
  | 0, _ => none
  | n + 1, cs => do
    let rest ← operand? n (skip cs)
    match behindJoin? (skip rest) with
    | some rest => expression? n rest
    | none => some rest

/-- The rest behind an operand. -/
def operand? : Nat → List Char → Option (List Char)
  | 0, _ => none
  | _ + 1, [] => none
  | n + 1, c :: cs =>
    if c = '-' || c = '+' || c = '~' then operand? n (skip cs)
    else if c.isDigit then (behindNumber? (c :: cs)).bind (trailers? n)
    else if c = '\'' || c = '"' then (behindQuoted? c cs).bind (trailers? n)
    else if beginsName c then
      let word := String.ofList ((c :: cs).takeWhile isInName)
      let rest := (c :: cs).dropWhile isInName
      if word = "not" then operand? n (skip rest)
      else if keywords.contains word then none
      else trailers? n rest
    else (closing? c).bind fun close => (items? n close cs).bind (trailers? n)

/-- The rest behind dots, calls and subscripts, of which there may be none. -/
def trailers? : Nat → List Char → Option (List Char)
  | 0, _ => none
  | n + 1, cs =>
    match skip cs with
    | '.' :: rest =>
      let name := (skip rest).takeWhile isInName
      if (name.head?.map beginsName).getD false && !keywords.contains (String.ofList name) then
        trailers? n ((skip rest).dropWhile isInName)
      else none
    | '(' :: rest => (items? n ')' rest).bind (trailers? n)
    | '[' :: rest =>
      if (skip rest).head? = some ']' then none else (items? n ']' rest).bind (trailers? n)
    | _ => some cs

/-- The rest behind a row of expressions with commas between them, of which one may stand behind the
last, and a closing bracket. -/
def items? : Nat → Char → List Char → Option (List Char)
  | 0, _, _ => none
  | n + 1, close, cs =>
    if (skip cs).head? = some close then some ((skip cs).drop 1)
    else do
      match skip (← expression? n cs) with
      | ',' :: rest => items? n close rest
      | c :: rest => if c = close then some rest else none
      | [] => none

end

/-- A row of characters reads as an expression, or as a row of them. -/
def isExpressionRow (cs : List Char) : Bool :=
  match cs with
  | [] => false
  | c :: _ => c ≠ ' ' && c ≠ '\t' && items? (4 * cs.length + 8) ')' (cs ++ [')']) == some []

/-- A text reads as an expression, in front of which a star may stand. -/
def isExpression (t : Text) : Bool :=
  match t.toChars? with
  | some ('*' :: cs) => isExpressionRow cs
  | some cs => isExpressionRow cs
  | none => false

end Reference

end TypedBus
