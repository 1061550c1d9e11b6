import TypedBus.Message.Encode
import TypedBus.Proofs.Message.Run

/-!
# What writing is made of

Every way of writing a value is made of a few steps: opening and closing containers, writing basic
values, recording a failure and raising a fault. A property of actions that these steps have, and
that actions one after the other hand on (`Action.Admits`), is one that writing any value as one of
any type has (`Action.Admits.encode`).
-/

namespace TypedBus

open Message WireType

/-! ## Taking values apart -/

namespace Value

/-- The elements of a value that is a row of values: text and bytes yield values one by one, but
are none. -/
def collection? (elements : Value → Option (List Value)) (v : Value) : Option (List Value) :=
  if v.text?.isSome || v.isBytes then none else elements v

/-- The fields of a struct or a tuple, if the value is a row that may stand for one. -/
def fields? (v : Value) : Option (List Value) := if v.isDict then none else v.collection? elements?

/-- The key and the value, if the value may stand for a dict entry. -/
def entryParts? (v : Value) : Option (Value × Value) :=
  match v.collection? elements? with
  | some [a, b] => some (a, b)
  | _ => none

variable {v a c : Value} {vs : List Value} {elements : Value → Option (List Value)}

theorem eq_of_collection? (h : v.collection? elements = some vs) : elements v = some vs := by
  unfold collection? at h
  split at h
  · cases h
  · exact h

theorem eq_of_fields? (h : v.fields? = some vs) : v.elements? = some vs := by
  unfold fields? at h
  split at h
  · cases h
  · exact eq_of_collection? h

theorem eq_of_entryParts? (h : v.entryParts? = some (a, c)) : v.elements? = some [a, c] := by
  unfold entryParts? at h
  split at h
  · cases h
    exact eq_of_collection? ‹_›
  · cases h

end Value

namespace Action

variable {α : Type} {m m' : Message} {v : Value} {failure : Text → Failure} {o : Option α} {a : α}

/-- Go on with what has been found, or refuse the value it was sought in. -/
def orRefuse (v : Value) (failure : Text → Failure) (o : Option α) : Action α :=
  match o with
  | some a => pure a
  | none => refuse v failure

theorem run_orRefuse_eq_ok :
    (orRefuse v failure o).run m = (.ok a, m') ↔ o = some a ∧ m' = m := by
  cases o with
  | none => simpa [orRefuse] using run_refuse_ne_ok
  | some b => simp [orRefuse, eq_comm]

theorem collection_eq (v : Value) (elements : Value → Option (List Value)) :
    v.collection elements = orRefuse v .notACollection (v.collection? elements) := by
  unfold Value.collection Value.collection?
  split
  · rfl
  · cases elements v <;> rfl

theorem fields_eq (v : Value) : v.fields = orRefuse v .notFields v.fields? := by
  unfold Value.fields Value.fields? Value.collection?
  rcases v.text?.isSome || v.isBytes with _ | _ <;> rcases v.isDict with _ | _ <;>
    cases v.elements? <;> rfl

theorem entryParts_eq (v : Value) : v.entryParts = orRefuse v .notAnEntry v.entryParts? := by
  unfold Value.entryParts Value.entryParts? Value.collection?
  split
  · rfl
  · rcases v.elements? with _ | (_ | ⟨a, _ | ⟨b, _ | _⟩⟩) <;> rfl

end Action

/-! ## Rewriting what is written -/

namespace WireType

variable {box : Value → Action Unit} {e k x : WireType} {v : Value}

/-- Writing elements of one type one after the other is writing a row of that type over and
over. -/
theorem forM_eq_encodeFields (vs : List Value) :
    vs.forM (encodeWith box e) = encodeFields box (List.replicate vs.length e) vs := by
  induction vs with
  | nil =>
    rw [List.length_nil, List.replicate_zero, encodeFields]
    rfl
  | cons v vs ih =>
    rw [List.length_cons, List.replicate_succ, encodeFields, ← ih, List.forM]

theorem encodeWith_entry :
    encodeWith box (.entry k x) = (fun p => do
      let (a, b) ← p.entryParts
      openContainer (entryOf k x)
      encodeWith box k a
      encodeWith box x b
      closeContainer) := by
  funext p
  rw [encodeWith]

/-- A dict is written as an array of its entries. -/
theorem encodeWith_dict :
    encodeWith box (.dict k x) v = (do
      let ps ← v.collection Value.pairs?
      openContainer (arrayOf (.entry k x))
      ps.forM (encodeWith box (.entry k x))
      closeContainer) := by
  rw [encodeWith, encodeWith_entry]

/-- How a variant is written, in which so many variants lie inside one another. -/
def writingBoxed : Nat → Value → Action Unit
  | 0 => fun _ => Action.raise .tooDeep
  | n + 1 => encodeBoxed (encodeWithin n)

theorem encodeWithin_eq (n : Nat) : encodeWithin n = encodeWith (writingBoxed n) := by
  cases n <;> rfl

end WireType

/-! ## The steps of writing -/

namespace Action

/-- A property that the steps of writing have and that actions one after the other hand on. -/
structure Admits (Q : (α : Type) → Action α → Prop) : Prop where
  pure : ∀ {α : Type} (a : α), Q α (Pure.pure a)
  bind : ∀ {α β : Type} {x : Action α} {f : α → Action β}, Q α x → (∀ a, Q β (f a)) →
    Q β (x >>= f)
  ifValid : ∀ {α : Type} {x : Action α}, Q α x → Q α (ifValid x)
  fail : ∀ {α : Type} (f : Failure), Q α (fail f)
  raise : ∀ {α : Type} (f : Fault), Q α (raise f)
  openContainer : ∀ c, Q Unit (openContainer c)
  closeContainer : Q Unit closeContainer
  encodeBasic : ∀ (b : BasicType) v, Q Unit (b.encode v)

namespace Admits

variable {Q : (α : Type) → Action α → Prop} {α β : Type}

theorem lift (hQ : Admits Q) (x : Except Fault α) : Q α (lift x) := by
  cases x with
  | ok a => exact hQ.pure a
  | error f => exact hQ.raise f

theorem refuse (hQ : Admits Q) (v : Value) (failure : Text → Failure) :
    Q α (refuse v failure) := by
  unfold Action.refuse
  split
  · exact hQ.fail _
  · exact hQ.raise _

theorem forM (hQ : Admits Q) {f : β → Action Unit} (hf : ∀ b, Q Unit (f b)) :
    ∀ bs : List β, Q Unit (bs.forM f)
  | [] => hQ.pure ()
  | b :: bs => hQ.bind (hf b) fun _ => forM hQ hf bs

theorem orRefuse (hQ : Admits Q) (v : Value) (failure : Text → Failure) (o : Option α) :
    Q α (orRefuse v failure o) := by
  cases o with
  | none => exact hQ.refuse v failure
  | some a => exact hQ.pure a

/-! ## Values of a type -/

variable {box : Value → Action Unit}

/-- What is written between two markers. -/
theorem bracket (hQ : Admits Q) {c : Container} {body : Action Unit} (h : Q Unit body) :
    Q Unit (do Message.openContainer c; body; Message.closeContainer) :=
  hQ.bind (hQ.openContainer c) fun _ => hQ.bind h fun _ => hQ.closeContainer

/-- The two parts of an entry between their markers. -/
theorem pair (hQ : Admits Q) {c : Container} {x y : Action Unit} (hx : Q Unit x) (hy : Q Unit y) :
    Q Unit (do Message.openContainer c; x; y; Message.closeContainer) :=
  hQ.bind (hQ.openContainer c) fun _ => hQ.bind hx fun _ => hQ.bind hy fun _ => hQ.closeContainer

mutual

/-- Writing a value has the property, if it has it where a variant is written. -/
theorem encodeWith (hQ : Admits Q) (hbox : ∀ v, Q Unit (box v)) :
    ∀ (t : WireType) (v : Value), Q Unit (encodeWith box t v)
  | .basic b, v => by
    rw [WireType.encodeWith]
    exact hQ.encodeBasic b v
  | .variant, v => by
    rw [WireType.encodeWith]
    exact hbox v
  | .array e, v => by
    rw [WireType.encodeWith, collection_eq]
    exact hQ.bind (hQ.orRefuse v _ _) fun vs =>
      hQ.bracket (hQ.forM (encodeWith hQ hbox e) vs)
  | .dict k x, v => by
    rw [WireType.encodeWith, collection_eq]
    refine hQ.bind (hQ.orRefuse v _ _) fun ps => hQ.bracket (hQ.forM (fun p => ?_) ps)
    rw [entryParts_eq]
    exact hQ.bind (hQ.orRefuse p _ _) fun ac =>
      hQ.pair (encodeWith hQ hbox k ac.1) (encodeWith hQ hbox x ac.2)
  | .entry k x, v => by
    rw [WireType.encodeWith, entryParts_eq]
    exact hQ.bind (hQ.orRefuse v _ _) fun ac =>
      hQ.pair (encodeWith hQ hbox k ac.1) (encodeWith hQ hbox x ac.2)
  | .struct fs, v => by
    rw [WireType.encodeWith, fields_eq]
    refine hQ.bind (hQ.orRefuse v _ _) fun vs => ?_
    split
    · exact hQ.bind (hQ.fail _) fun _ => hQ.bracket (encodeFields hQ hbox fs vs)
    · exact hQ.bracket (encodeFields hQ hbox fs vs)
  | .tuple fs, v => by
    rw [WireType.encodeWith, fields_eq]
    refine hQ.bind (hQ.orRefuse v _ _) fun vs => ?_
    split
    · exact hQ.bind (hQ.fail _) fun _ => encodeFields hQ hbox fs vs
    · exact encodeFields hQ hbox fs vs

theorem encodeFields (hQ : Admits Q) (hbox : ∀ v, Q Unit (box v)) :
    ∀ (fs : List WireType) (vs : List Value), Q Unit (encodeFields box fs vs)
  | [], _ => by
    rw [WireType.encodeFields]
    exact hQ.pure ()
  | _ :: _, [] => by
    rw [WireType.encodeFields]
    exact hQ.pure ()
  | f :: fs, v :: vs => by
    rw [WireType.encodeFields]
    exact hQ.bind (encodeWith hQ hbox f v) fun _ => encodeFields hQ hbox fs vs

end

theorem encodeWithin (hQ : Admits Q) :
    ∀ (n : Nat) (t : WireType) (v : Value), Q Unit (encodeWithin n t v)
  | 0, t, v => hQ.encodeWith (fun _ => hQ.raise _) t v
  | n + 1, t, v => by
    refine hQ.encodeWith (fun v => ?_) t v
    refine hQ.bind (hQ.lift _) fun x => ?_
    split
    · exact hQ.bracket (encodeWithin hQ n _ _)
    · exact hQ.pure ()

/-- **Writing a value as one of a type has every property that the steps of writing have.** -/
theorem encode (hQ : Admits Q) (t : WireType) (v : Value) : Q Unit (t.encode v) :=
  hQ.ifValid (hQ.encodeWithin _ t v)

end Admits

end Action

end TypedBus
