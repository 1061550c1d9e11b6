import TypedBus.Value.Basic

/-!
# Marks

A program keeps values under names and hands the same one over more than once. When a list or a
variant changes, it changes wherever it is, and what tells it from others is its mark.
`Value.marked` gives a mark to everything in a value that has none, NaNs included, and
`Value.replace` puts a changed value in every place of the one with its mark.

A value that holds itself is not followed for ever: `Value.replace` does not look into what it has
put in.

Model of lists, variants and NaNs as objects: what is one and the same, and what a change such as
`set_data` or appending to a list does to the places where it is. Dicts that change after they have
been handed over are out of scope.
-/

namespace TypedBus

/-- The next mark, which nothing has yet. -/
def nextMark : StateM Nat Nat := modifyGet fun n => (n, n + 1)

/-- The mark itself, or a new one where there is none. -/
def Mark.orNext (m : Mark) : StateM Nat Mark := do
  match m with
  | some n => pure (some n)
  | none => pure (some (← nextMark))

/-- How many marks NaNs can bear, beside that of one that has just been made. -/
def Double.marks : Nat := fractions / 2 - 1

/-- The double itself, or a NaN with a new mark for one that has just been made. -/
def Double.orMarked (d : Double) : StateM Nat Double := do
  if d.bits = nan.bits then pure (markedNaN ((← nextMark) % marks + 1)) else pure d

namespace Value

mutual

/-- The value with marks on everything that can change, and on every NaN. -/
def marked : Value → StateM Nat Value
  | double d => do pure (double (← d.orMarked))
  | scalar (.floating f d) => do pure (scalar (.floating f (← d.orMarked)))
  | list m vs => do pure (list (← m.orNext) (← markedAll vs))
  | tuple vs => do pure (tuple (← markedAll vs))
  | dict es => do pure (dict (← markedEntries es))
  | entry k v => do pure (entry (← marked k) (← marked v))
  | variant m p t => do pure (variant (← m.orNext) (← marked p) t)
  | v => pure v

/-- A row of values with marks. -/
def markedAll : List Value → StateM Nat (List Value)
  | [] => pure []
  | v :: vs => do pure ((← marked v) :: (← markedAll vs))

/-- The entries of a dict with marks. -/
def markedEntries : List (Value × Value) → StateM Nat (List (Value × Value))
  | [] => pure []
  | (k, v) :: es => do
    let k ← marked k
    let v ← marked v
    pure ((k, v) :: (← markedEntries es))

end

mutual

/-- The value with another in every place of the one with this mark. -/
def replace (mark : Nat) (new : Value) : Value → Value
  | list m vs => if m = some mark then new else list m (replaceAll mark new vs)
  | tuple vs => tuple (replaceAll mark new vs)
  | dict es => dict (replaceEntries mark new es)
  | entry k v => entry (replace mark new k) (replace mark new v)
  | variant m p t => if m = some mark then new else variant m (replace mark new p) t
  | v => v

/-- A row of values with another in every place of the one with this mark. -/
def replaceAll (mark : Nat) (new : Value) : List Value → List Value
  | [] => []
  | v :: vs => replace mark new v :: replaceAll mark new vs

/-- The entries of a dict with another value in every place of the one with this mark. -/
def replaceEntries (mark : Nat) (new : Value) : List (Value × Value) → List (Value × Value)
  | [] => []
  | (k, v) :: es => (replace mark new k, replace mark new v) :: replaceEntries mark new es

end

/-- The value with this mark becomes the new one. -/
theorem replace_variant (mark : Nat) (new p : Value) (t : Option WireType) :
    replace mark new (variant (some mark) p t) = new := by
  simp [replace]

/-- The list with this mark becomes the new one. -/
theorem replace_list (mark : Nat) (new : Value) (vs : List Value) :
    replace mark new (list (some mark) vs) = new := by
  simp [replace]

end Value

end TypedBus
