import TypedBus.Stream.Envelope
import TypedBus.Wire.Container

/-!
# Streams

A stream holds the items of a message in order: basic values with their codes, and the markers that
open and close composite values. Descriptors travel beside the items, in a table that items refer
to by place. Items are added until the stream is sealed; from then on a cursor goes over them.

Model of `MemoryStream`: `append`, `peek`, `next`, `seal` (`sealUp`), `rewind`, `items` and
`position`, its descriptors, and `Message.signature` (`Stream.signature`). Out of scope: streams of
any other kind, and items that are neither markers nor pairs with a text for a code.
-/

namespace TypedBus

/-- An item of a stream. -/
inductive Item
  | basic (code : Text) (v : Value)
  | opening (c : Container)
  | closing
  deriving Repr, Inhabited

namespace Item

/-- The item closes a composite value. -/
def isClosing : Item → Bool
  | closing => true
  | _ => false

/-- An item as a reader is told of it: a container as it is shown, a basic value by its code. -/
def display : Item → Text
  | basic code _ => code
  | opening c => c.display
  | closing => "ContainerEnd()"

/-- The item with something done to its value. -/
def mapValue {f : Type → Type} [Monad f] (change : Value → f Value) : Item → f Item
  | basic code v => do pure (basic code (← change v))
  | opening c => pure (opening c)
  | closing => pure closing

/-- How many items come before the closing marker that ends so many containers and the one around
them. -/
def toClosing : Nat → List Item → Option Nat
  | _, [] => none
  | 0, closing :: _ => some 0
  | n + 1, closing :: items => (toClosing n items).map (· + 1)
  | n, opening _ :: items => (toClosing (n + 1) items).map (· + 1)
  | n, basic _ _ :: items => (toClosing n items).map (· + 1)

/-- The signatures of the values at the outermost level of a row of items, in which so many
containers are open. -/
def topLevel : Int → List Item → List Text
  | _, [] => []
  | depth, opening c :: items =>
    (if depth = 0 then [c.signature] else []) ++ topLevel (depth + 1) items
  | depth, closing :: items => topLevel (depth - 1) items
  | depth, basic code _ :: items => (if depth = 0 then [code] else []) ++ topLevel depth items

end Item

/-- A row of items with its envelope and its descriptors. -/
structure Stream where
  envelope : Envelope := {}
  items : List Item := []
  descriptors : List Value := []
  isSealed : Bool := false
  cursor : Nat := 0
  deriving Repr, Inhabited

namespace Stream

/-- The item under the cursor. -/
def peek (s : Stream) : Option Item := s.items[s.cursor]?

/-- Add an item at the end of a stream that is not sealed. -/
def append (s : Stream) (item : Item) : Except Fault Stream :=
  if s.isSealed then .error .sealedStream else .ok { s with items := s.items ++ [item] }

/-- Add a descriptor to the table. -/
def addDescriptor (s : Stream) (descriptor : Value) : Stream :=
  { s with descriptors := s.descriptors ++ [descriptor] }

/-- Take the item under the cursor. -/
def next (s : Stream) : Except Fault (Item × Stream) :=
  match s.peek with
  | some item => .ok (item, { s with cursor := s.cursor + 1 })
  | none => .error (.noPlace .list)

/-- Finish adding items. -/
def sealUp (s : Stream) : Stream := { s with isSealed := true }

/-- Move the cursor back to the first item. -/
def rewind (s : Stream) : Stream := { s with cursor := 0 }

/-- The items from the cursor on. -/
def rest (s : Stream) : List Item := s.items.drop s.cursor

/-- The stream with something done to every value in it: those of its envelope, its items and its
descriptors. -/
def mapValues {f : Type → Type} [Monad f] (change : Value → f Value) (s : Stream) : f Stream := do
  let envelope ← s.envelope.mapFields change
  let items ← s.items.mapM (Item.mapValue change)
  let descriptors ← s.descriptors.mapM change
  pure { s with envelope, items, descriptors }

/-- The signature of the values in a stream, one after the other. -/
def signature (s : Stream) : Text := .concat (Item.topLevel 0 s.items)

end Stream

end TypedBus
