import TypedBus.Wire.Grammar

/-!
# Container markers

A composite value stands on the wire between an opening marker, its `Container`, and a closing one.
The content of a container announces what lies inside: the element type of an array, the fields of
a struct or a dict entry one after the other, the type of what a variant holds.

Model of `Container` and `Kind`: `signature`, `fields`, how a container is shown, and
`_is_container_valid` (`isValid`). Out of scope: contents that are no text, which are shown first
(`Container.ofValues`).
-/

namespace TypedBus

/-- The kinds of composite values. -/
inductive Kind
  | array
  | struct
  | dictEntry
  | variant
  deriving DecidableEq, Repr

namespace Kind

/-- The name of a kind. -/
def name : Kind → String
  | array => "array"
  | struct => "struct"
  | dictEntry => "dict_entry"
  | variant => "variant"

/-- The kinds in their order of declaration. -/
def all : List Kind := [array, struct, dictEntry, variant]

/-- The kind with a given name. -/
def ofName? (name : Text) : Option Kind := all.find? fun k => Text.ofString k.name = name

/-- The code that a container of the kind shows to a reader who looks ahead. -/
def code : Kind → CodePoint
  | array => .scalar 'a'
  | struct => .scalar '('
  | dictEntry => .scalar '{'
  | variant => .scalar 'v'

end Kind

/-- The opening marker of a composite value. Its content is not checked. -/
structure Container where
  kind : Kind
  content : Text
  deriving DecidableEq, Repr

namespace Container

/-- The signature of the bracketed value. -/
def signature (c : Container) : Text :=
  match c.kind with
  | .array => .scalar 'a' :: c.content
  | .struct => .scalar '(' :: (c.content ++ [.scalar ')'])
  | .dictEntry => .scalar '{' :: (c.content ++ [.scalar '}'])
  | .variant => [.scalar 'v']

/-- The complete types that must stand inside, in order. The one type of an array may stand there
any number of times. -/
def fields (c : Container) : Except Malformed (List Text) :=
  match c.kind with
  | .array | .variant => .ok [c.content]
  | .struct | .dictEntry => Signature.split c.content

/-- The container can be opened (`_is_container_valid`): what it brackets is a complete type, or for
a variant, what it holds is one. A dict entry is complete as the element of an array. -/
def isValid (c : Container) : Bool :=
  match c.kind with
  | .variant => Signature.isSingle c.content
  | .dictEntry => Signature.isSingle (.scalar 'a' :: c.signature)
  | .array | .struct => Signature.isSingle c.signature

/-- The container as it is shown. -/
def display (c : Container) : Text :=
  .concat ["Container(", c.kind.name, ", ", c.content, ")"]

end Container

end TypedBus
