import TypedBus.Proofs.Wire.Container
import TypedBus.Stream.Basic

/-!
# Rows of complete values

`Item.Spells` is the grammar of what a stream may hold: a row of complete values, each a basic item
or an opening marker, the values that the container announces, and its closing marker. Which basic
items and which containers are taken is a parameter (`Item.Rules`), since a writer and a reader ask
for different things; that the children of a container are what its content says is not.

A dict entry stands nowhere but in an array.
-/

namespace TypedBus

/-- The values inside a container have just the signatures that its content announces: any number
of its one type in an array, and its fields in order in anything else. -/
def Container.Children (c : Container) (ss : List Text) : Prop :=
  match c.kind with
  | .array => ∃ n, ss = List.replicate n c.content
  | _ => c.fields = .ok ss

namespace Item

/-- What is asked of basic items and of containers. -/
structure Rules where
  basic : Text → Value → Prop
  container : Container → Prop

/-- The items are complete values of these signatures, one after the other, directly inside a
container of this kind or at the outermost level. -/
inductive Spells (R : Rules) : Option Kind → List Text → List Item → Prop
  | nil {parent : Option Kind} : Spells R parent [] []
  | basic {parent : Option Kind} {code : Text} {v : Value} {ss : List Text} {items : List Item}
      (hb : R.basic code v) (hs : Spells R parent ss items) :
      Spells R parent (code :: ss) (.basic code v :: items)
  | container {parent : Option Kind} {c : Container} {inner ss : List Text}
      {inside items : List Item} (hc : R.container c)
      (hp : c.kind = .dictEntry → parent = some .array) (hch : c.Children inner)
      (hin : Spells R (some c.kind) inner inside) (hs : Spells R parent ss items) :
      Spells R parent (c.signature :: ss) (.opening c :: (inside ++ .closing :: items))

namespace Spells

variable {R : Rules} {parent : Option Kind} {ss ts : List Text} {items more : List Item}

/-- A row of complete values behind another is one row. -/
theorem append (h : Spells R parent ss items) (hts : Spells R parent ts more) :
    Spells R parent (ss ++ ts) (items ++ more) := by
  induction h with
  | nil => exact hts
  | basic hb _ ih => exact .basic hb (ih hts)
  | container hc hp hch hin _ _ ih =>
    rw [List.cons_append, List.cons_append, List.append_assoc, List.cons_append]
    exact .container hc hp hch hin (ih hts)

/-- One complete value in a bracket. -/
theorem bracket {c : Container} {inner : List Text} {inside : List Item} (hc : R.container c)
    (hp : c.kind = .dictEntry → parent = some .array) (hch : c.Children inner)
    (hin : Spells R (some c.kind) inner inside) :
    Spells R parent [c.signature] (.opening c :: (inside ++ [.closing])) :=
  .container hc hp hch hin .nil

/-- One complete value that is basic. -/
theorem one {code : Text} {v : Value} (hb : R.basic code v) :
    Spells R parent [code] [.basic code v] :=
  .basic hb .nil

end Spells

end Item

end TypedBus
