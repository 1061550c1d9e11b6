import TypedBus.Wire.Grammar

/-!
# Reduced form

`WireType.reduce` spells every dict as an array of dict entries, as a signature does. A type is in
reduced form if reducing it gives the type that its signature spells; a tuple inside it stands in
the way of that, since a signature does not tell a tuple from its fields.

Model of `reduce` and `is_reduced`.
-/

namespace TypedBus

namespace WireType

mutual

/-- The type with every dict spelt as an array of dict entries. -/
def reduce : WireType → WireType
  | basic b => basic b
  | variant => variant
  | array e => array (reduce e)
  | dict k v => array (entry (reduce k) (reduce v))
  | entry k v => entry (reduce k) (reduce v)
  | struct fs => struct (reduceAll fs)
  | tuple fs => tuple (reduceAll fs)

/-- A row of types, each with every dict spelt as an array of dict entries. -/
def reduceAll : List WireType → List WireType
  | [] => []
  | t :: ts => reduce t :: reduceAll ts

end

/-- The type is the one that its signature spells, but for the spelling of dicts. -/
def isReduced (t : WireType) : Bool := Signature.single? t.signature = some t.reduce

end WireType

end TypedBus
