import TypedBus.Text.Basic

/-!
# Object paths

An object path is a single slash, or a row of elements with a slash before each of them. An element
is a row of one or more letters, digits and underscores of ASCII, after which one line feed may
stand.

Model of `ObjectPath.is_valid` with the pattern `_path_element` (`isElement`).
-/

namespace TypedBus

namespace ObjectPath

/-- A code point of an element. -/
def isWordPoint : CodePoint → Bool
  | .scalar c => c.isAlphanum || c = '_'
  | .surrogate _ => false

/-- The pieces of a text between slashes. -/
def pieces : Text → List Text
  | [] => [[]]
  | p :: rest =>
    if p.is '/' then [] :: pieces rest
    else
      match pieces rest with
      | [] => [[p]]
      | e :: es => (p :: e) :: es

/-- The text without one line feed at its end. -/
def withoutLineFeed (t : Text) : Text :=
  if t.getLast? = some (.scalar '\n') then t.dropLast else t

/-- The text is an element of a path. -/
def isElement (t : Text) : Bool :=
  let word := withoutLineFeed t
  !word.isEmpty && word.all isWordPoint

/-- The text is an object path. -/
def isValid (t : Text) : Bool :=
  match t with
  | [.scalar '/'] => true
  | .scalar '/' :: rest =>
    if t.getLast? = some (.scalar '/') then false else (pieces rest).all isElement
  | _ => false

end ObjectPath

end TypedBus
