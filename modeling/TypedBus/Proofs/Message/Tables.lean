import TypedBus.Proofs.Message.Building
import TypedBus.Proofs.Message.Decode
import TypedBus.Wire.Operations

/-!
# Operations tables and their signatures

The signature of a type is derived twice, from the type (`WireType.signature`) and from the tables
of its parts (`Operations.signature`), and so are the containers that bracket its values. Both ways
come to the same:

* `WireType.signature_operations`: the table of a type has the signature of the type.
* `WireType.exists_type_of_reaches`: what can be reached from it are tables of types, each of which
  has a container of its own signature (`WireType.signature_of_container`).
* `WireType.encodeWith_operations`, `WireType.decodeWith_operations`: to write and to read by the
  table is to write and to read by the type.

`TypeExpr.signature_unique` puts the signatures together for every expression that names a type.
-/

namespace TypedBus

open Message WireType

/-! ## Signatures of tables -/

namespace WireType

mutual

/-- **The table of a type has the signature of the type.** -/
theorem signature_operations : ∀ t : WireType, t.operations.signature = t.signature
  | .basic _ | .variant => rfl
  | .array e => by
    rw [operations, Operations.ofArray, signature, ← signature_operations e]
    rfl
  | .dict k x => by
    rw [operations, Operations.ofDict, signature, ← signature_operations k,
      ← signature_operations x]
    rfl
  | .entry k x => by
    rw [operations, Operations.ofEntry, signature, ← signature_operations k,
      ← signature_operations x]
    rfl
  | .struct fs => by
    rw [operations, Operations.ofStruct, signature, ← signatures_operations fs]
    rfl
  | .tuple fs => by
    rw [operations, Operations.ofTuple, signature, ← signatures_operations fs]
    rfl

theorem signatures_operations :
    ∀ ts : List WireType, (operationsOfAll ts).flatMap Operations.signature = signatures ts
  | [] => rfl
  | t :: ts => by
    rw [operationsOfAll, List.flatMap_cons, signatures, signature_operations t,
      signatures_operations ts]

end

theorem operationsOfAll_eq_map (ts : List WireType) : operationsOfAll ts = ts.map operations := by
  induction ts with
  | nil => rfl
  | cons t ts ih => rw [operationsOfAll, ih, List.map_cons]

variable {t e k x : WireType} {fs : List WireType}

theorem operations_array :
    (array e).operations = .array (array e).signature (arrayOf e) e.operations := by
  rw [operations, Operations.ofArray, signature_operations]
  rfl

theorem operations_entry :
    (entry k x).operations =
      .entry (entry k x).signature (entryOf k x) k.operations x.operations := by
  rw [operations, Operations.ofEntry, signature_operations, signature_operations]
  rfl

theorem operations_dict :
    (dict k x).operations =
      .dict (dict k x).signature (arrayOf (entry k x)) (entry k x).operations := by
  have hentry := signature_operations (entry k x)
  rw [operations] at hentry
  rw [operations, Operations.ofDict, operations, hentry]
  rfl

theorem operations_struct :
    (struct fs).operations =
      .struct (struct fs).signature (structOf fs) (operationsOfAll fs) := by
  rw [operations, Operations.ofStruct, Operations.structContainer, signatures_operations]
  rfl

theorem operations_tuple :
    (tuple fs).operations = .tuple (tuple fs).signature (operationsOfAll fs) := by
  rw [operations, Operations.ofTuple, Operations.structContainer, signatures_operations]
  rfl

/-- **The container of a table has the signature of the table.** -/
theorem signature_of_container {c : Container} (h : t.operations.container? = some c) :
    c.signature = t.operations.signature := by
  rw [signature_operations]
  cases t with
  | basic | variant => cases h
  | array e =>
    rw [operations_array] at h
    cases h
    rfl
  | dict k x =>
    rw [operations_dict] at h
    cases h
    rfl
  | entry k x =>
    rw [operations_entry] at h
    cases h
    simp [Container.signature, entryOf, signature]
  | struct fs =>
    rw [operations_struct] at h
    cases h
    rfl
  | tuple fs =>
    rw [operations_tuple] at h
    cases h

end WireType

/-! ## Tables inside tables -/

/-- The second table is the first one or lies in it, at whatever depth. -/
inductive Operations.Reaches : Operations → Operations → Prop
  | self (o : Operations) : Reaches o o
  | element {s : Text} {c : Container} {o u : Operations} (h : Reaches o u) :
      Reaches (.array s c o) u
  | pair {s : Text} {c : Container} {o u : Operations} (h : Reaches o u) : Reaches (.dict s c o) u
  | key {s : Text} {c : Container} {o p u : Operations} (h : Reaches o u) :
      Reaches (.entry s c o p) u
  | value {s : Text} {c : Container} {o p u : Operations} (h : Reaches p u) :
      Reaches (.entry s c o p) u
  | field {s : Text} {c : Container} {os : List Operations} {o u : Operations} (ho : o ∈ os)
      (h : Reaches o u) : Reaches (.struct s c os) u
  | part {s : Text} {os : List Operations} {o u : Operations} (ho : o ∈ os) (h : Reaches o u) :
      Reaches (.tuple s os) u

namespace WireType

mutual

/-- **What lies in the table of a type is the table of a type.** -/
theorem exists_type_of_reaches :
    ∀ {t : WireType} {u : Operations}, t.operations.Reaches u → ∃ t' : WireType, u = t'.operations
  | .basic b, _, h => by
    rw [operations] at h
    cases h
    exact ⟨basic b, by rw [operations]⟩
  | .variant, _, h => by
    rw [operations] at h
    cases h
    exact ⟨variant, by rw [operations]⟩
  | .array e, _, h => by
    rw [operations_array] at h
    cases h with
    | self => exact ⟨array e, operations_array.symm⟩
    | element h => exact exists_type_of_reaches h
  | .dict k x, _, h => by
    rw [operations_dict] at h
    cases h with
    | self => exact ⟨dict k x, operations_dict.symm⟩
    | pair h =>
      rw [operations_entry] at h
      cases h with
      | self => exact ⟨entry k x, operations_entry.symm⟩
      | key h => exact exists_type_of_reaches h
      | value h => exact exists_type_of_reaches h
  | .entry k x, _, h => by
    rw [operations_entry] at h
    cases h with
    | self => exact ⟨entry k x, operations_entry.symm⟩
    | key h => exact exists_type_of_reaches h
    | value h => exact exists_type_of_reaches h
  | .struct fs, _, h => by
    rw [operations_struct] at h
    cases h with
    | self => exact ⟨struct fs, operations_struct.symm⟩
    | field ho h => exact exists_type_of_reachesAll ho h
  | .tuple fs, _, h => by
    rw [operations_tuple] at h
    cases h with
    | self => exact ⟨tuple fs, operations_tuple.symm⟩
    | part ho h => exact exists_type_of_reachesAll ho h

theorem exists_type_of_reachesAll :
    ∀ {ts : List WireType} {o u : Operations}, o ∈ operationsOfAll ts → o.Reaches u →
      ∃ t' : WireType, u = t'.operations
  | t :: ts, o, u, ho, h => by
    rw [operationsOfAll] at ho
    rcases List.mem_cons.mp ho with rfl | ho
    · exact exists_type_of_reaches h
    · exact exists_type_of_reachesAll ho h

end

end WireType

/-! ## Writing and reading by tables -/

namespace Operations

mutual

/-- Write a value by a table, given how to write a variant. -/
def encodeWith (box : Value → Action Unit) : Operations → Value → Action Unit
  | basic b, v => b.encode v
  | variant, v => box v
  | array _ c e, v => do
    let vs ← v.collection Value.elements?
    openContainer c
    vs.forM (encodeWith box e)
    closeContainer
  | dict _ c e, v => do
    let ps ← v.collection Value.pairs?
    openContainer c
    ps.forM (encodeWith box e)
    closeContainer
  | entry _ c k x, v => do
    let (a, b) ← v.entryParts
    openContainer c
    encodeWith box k a
    encodeWith box x b
    closeContainer
  | struct s c fs, v => do
    let vs ← v.fields
    if vs.length ≠ fs.length then Action.fail (.fieldCount s fs.length vs.length)
    openContainer c
    encodeFields box fs vs
    closeContainer
  | tuple _ fs, v => do
    let vs ← v.fields
    if vs.length ≠ fs.length then Action.fail (.valueCount fs.length vs.length)
    encodeFields box fs vs

/-- Write values by a row of tables. -/
def encodeFields (box : Value → Action Unit) : List Operations → List Value → Action Unit
  | [], _ => pure ()
  | _ :: _, [] => pure ()
  | f :: fs, v :: vs => do
    encodeWith box f v
    encodeFields box fs vs

end

mutual

/-- Read a value by a table, given how to read a variant. -/
def decodeWith (unbox : Action Value) : Operations → Action Value
  | basic b => b.decode
  | variant => unbox
  | array _ c e => do
    enterContainer c
    let vs ← repeatUntilEnd
      (fun vs => do
        let v ← decodeWith unbox e
        pure (vs ++ [v]))
      []
    exitContainer
    pure (.list none vs)
  | dict _ c e => do
    enterContainer c
    let es ← repeatUntilEnd
      (fun es => do
        let v ← decodeWith unbox e
        Action.lift (Value.addEntry es v))
      []
    exitContainer
    pure (.dict es)
  | entry _ c k x => do
    enterContainer c
    let a ← decodeWith unbox k
    let b ← decodeWith unbox x
    exitContainer
    pure (.entry a b)
  | struct _ c fs => do
    enterContainer c
    let vs ← decodeFields unbox fs
    exitContainer
    pure (.tuple vs)
  | tuple _ fs => do
    let vs ← decodeFields unbox fs
    pure (.tuple vs)

/-- Read a value by each of a row of tables. -/
def decodeFields (unbox : Action Value) : List Operations → Action (List Value)
  | [] => pure []
  | f :: fs => do
    let v ← decodeWith unbox f
    let vs ← decodeFields unbox fs
    pure (v :: vs)

end

end Operations

namespace WireType

mutual

/-- **To write by the table of a type is to write as the type.** -/
theorem encodeWith_operations (box : Value → Action Unit) :
    ∀ (t : WireType) (v : Value), t.operations.encodeWith box v = encodeWith box t v
  | .basic _, _ | .variant, _ => by rw [operations, Operations.encodeWith, encodeWith]
  | .array e, v => by
    rw [operations_array, Operations.encodeWith, encodeWith,
      funext (encodeWith_operations box e)]
  | .dict k x, v => by
    have hentry : (entry k x).operations.encodeWith box = encodeWith box (entry k x) := by
      funext v
      rw [operations_entry, Operations.encodeWith, encodeWith,
        funext (encodeWith_operations box k), funext (encodeWith_operations box x)]
    rw [operations_dict, Operations.encodeWith, encodeWith_dict, hentry]
  | .entry k x, v => by
    rw [operations_entry, Operations.encodeWith, encodeWith,
      funext (encodeWith_operations box k), funext (encodeWith_operations box x)]
  | .struct fs, v => by
    rw [operations_struct, Operations.encodeWith, encodeWith, operationsOfAll_eq_map,
      List.length_map, ← operationsOfAll_eq_map, funext (encodeFields_operations box fs)]
  | .tuple fs, v => by
    rw [operations_tuple, Operations.encodeWith, encodeWith, operationsOfAll_eq_map,
      List.length_map, ← operationsOfAll_eq_map, funext (encodeFields_operations box fs)]

theorem encodeFields_operations (box : Value → Action Unit) :
    ∀ (ts : List WireType) (vs : List Value),
      Operations.encodeFields box (operationsOfAll ts) vs = encodeFields box ts vs
  | [], _ => by rw [operationsOfAll, Operations.encodeFields, encodeFields]
  | _ :: _, [] => by rw [operationsOfAll, Operations.encodeFields, encodeFields]
  | t :: ts, v :: vs => by
    rw [operationsOfAll, Operations.encodeFields, encodeFields, encodeWith_operations box t,
      encodeFields_operations box ts]

end

mutual

/-- **To read by the table of a type is to read the type.** -/
theorem decodeWith_operations (unbox : Action Value) :
    ∀ t : WireType, t.operations.decodeWith unbox = decodeWith unbox t
  | .basic _ | .variant => by rw [operations, Operations.decodeWith, decodeWith]
  | .array e => by
    rw [operations_array, Operations.decodeWith, decodeWith, decodeWith_operations unbox e]
  | .dict k x => by
    rw [operations_dict, Operations.decodeWith, decodeWith_dict, operations_entry,
      Operations.decodeWith, decodeWith_operations unbox k, decodeWith_operations unbox x]
    unfold gatherStep
    rw [decodeWith]
  | .entry k x => by
    rw [operations_entry, Operations.decodeWith, decodeWith, decodeWith_operations unbox k,
      decodeWith_operations unbox x]
  | .struct fs => by
    rw [operations_struct, Operations.decodeWith, decodeWith, decodeFields_operations unbox fs]
  | .tuple fs => by
    rw [operations_tuple, Operations.decodeWith, decodeWith, decodeFields_operations unbox fs]

theorem decodeFields_operations (unbox : Action Value) :
    ∀ ts : List WireType,
      Operations.decodeFields unbox (operationsOfAll ts) = decodeFields unbox ts
  | [] => by rw [operationsOfAll, Operations.decodeFields, decodeFields]
  | t :: ts => by
    rw [operationsOfAll, Operations.decodeFields, decodeFields, decodeWith_operations unbox t,
      decodeFields_operations unbox ts]

end

end WireType

/-! ## Expressions -/

namespace TypeExpr

variable {e : TypeExpr} {t : WireType}

theorem signature_of_canonical (h : e.canonical = .ok t) : e.signature = .ok t.signature := by
  rw [signature, h]
  rfl

theorem reduce_of_canonical (h : e.canonical = .ok t) : e.reduce = .ok (wire t.reduce) := by
  rw [reduce, h]
  rfl

theorem operations_of_canonical (h : e.canonical = .ok t) : e.operations = .ok t.operations := by
  rw [operations, h]
  rfl

/-- **An expression that names a type has one signature**, however it is derived: that of its table,
of the expression itself, of the type it names and of that type in reduced form are the same. To
reduce again changes nothing, nor does it to name the type again. And every table that lies in that
of the expression and has a container is announced by its container as what it is. -/
theorem signature_unique (he : e.canonical = .ok t) :
    ∃ o r, e.operations = .ok o ∧ e.reduce = .ok r ∧
      (e.signature = .ok o.signature ∧ (wire t).signature = .ok o.signature ∧
        r.signature = .ok o.signature) ∧
      r.reduce = .ok r ∧ (wire t).canonical = .ok t ∧
      ∀ u, o.Reaches u → ∀ c, u.container? = some c → c.signature = u.signature := by
  refine ⟨t.operations, wire t.reduce, operations_of_canonical he, reduce_of_canonical he,
    ⟨?_, ?_, ?_⟩, ?_, rfl, ?_⟩
  · rw [signature_operations, signature_of_canonical he]
  · rw [signature_operations, signature_of_canonical rfl]
  · rw [signature_operations, signature_of_canonical rfl, signature_reduce]
  · rw [reduce_of_canonical rfl, reduce_reduce]
  · intro u hu c hc
    obtain ⟨t', rfl⟩ := exists_type_of_reaches hu
    exact signature_of_container hc

/-- A dict of texts and pairs, named by generics, a machine type and the plain integer. -/
theorem signature_unique_generic :
    let e : TypeExpr := .generic .dict true
      [.wire .string, .generic .tuple false
        [.machine (.integer .int16), .generic .list false [.plainInteger]]]
    let t : WireType := .dict .string (.tuple [.basic (.integer .int16), .array .int32])
    e.canonical = .ok t ∧
    ∃ o r, e.operations = .ok o ∧ e.reduce = .ok r ∧ e.signature = .ok "a{snai}" ∧
      o.signature = "a{snai}" ∧ r.signature = .ok "a{snai}" ∧ r.reduce = .ok r ∧
      ∀ u, o.Reaches u → ∀ c, u.container? = some c → c.signature = u.signature := by
  intro e t
  have he : e.canonical = .ok t := rfl
  have hsignature : t.signature = "a{snai}" := rfl
  obtain ⟨o, r, ho, hr, ⟨hsig, hwire, hreduced⟩, htwice, -, htables⟩ := signature_unique he
  rw [signature_of_canonical he, hsignature] at hsig
  obtain hosig : "a{snai}" = o.signature := by simpa using hsig
  exact ⟨he, o, r, ho, hr, by rw [signature_of_canonical he, hsignature], hosig.symm,
    by rw [hreduced, hosig], htwice, htables⟩

end TypeExpr

end TypedBus
