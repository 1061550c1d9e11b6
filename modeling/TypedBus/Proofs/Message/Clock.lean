import TypedBus.Proofs.Message.Stops
import TypedBus.Proofs.Value.Dict

/-!
# Reading by the clock

Elements of an array are read until its end is next, with no regard to whether a pass has taken an
item. `Message.readFor` reads like that, with a clock that stops it after so many passes of a loop
and so many variants inside one another; a read terminates if it ends before some clock does
(`Message.Terminates`). `Message.read` needs no clock, since it stops by itself where a pass takes
nothing.

`Action.Follows` compares the two: what is stopped by the clock does the same until then, and is not
stopped at all while the clock is enough. Every step of reading stops only by recording a failure or
by raising, so that it follows itself (`Action.Follows.refl`), and one step after the other follows
what it is put together of (`Action.Follows.bind`).
-/

namespace TypedBus

open Message

/-! ## The clock -/

namespace Message

variable {β : Type}

/-- Repeat a step until the end of the innermost container, for so many passes at most. -/
def passes (step : β → Action β) : Nat → β → Action β
  | 0, _ => Action.stop .endless
  | n + 1, b => do
    let m ← Action.get
    if m.atEnd then pure b
    else do
      let b ← step b
      passes step n b

/-- Read an element and put it to what has been gathered. -/
def gatherWith (element : Action Value) (put : β → Value → Except Fault β) (b : β) : Action β := do
  let v ← element
  Action.lift (put b v)

/-- Read an entry by what reads its key and its value. -/
def entryWith (k x : WireType) (key value : Action Value) : Action Value := do
  enterContainer (WireType.entryOf k x)
  let a ← key
  let b ← value
  exitContainer
  pure (.entry a b)

end Message

namespace WireType

mutual

/-- Read a value of a type, its loops for so many passes each, given how to read a variant. -/
def decodeFor (clock : Nat) (unbox : Action Value) : WireType → Action Value
  | basic b => b.decode
  | variant => unbox
  | array e => do
    enterContainer (arrayOf e)
    let vs ← passes (gatherWith (decodeFor clock unbox e) fun vs v => .ok (vs ++ [v])) clock []
    exitContainer
    pure (.list none vs)
  | dict k x => do
    enterContainer (arrayOf (entry k x))
    let es ← passes
      (gatherWith (entryWith k x (decodeFor clock unbox k) (decodeFor clock unbox x))
        Value.addEntry)
      clock []
    exitContainer
    pure (.dict es)
  | entry k x => entryWith k x (decodeFor clock unbox k) (decodeFor clock unbox x)
  | struct fs => do
    enterContainer (structOf fs)
    let vs ← decodeFieldsFor clock unbox fs
    exitContainer
    pure (.tuple vs)
  | tuple fs => do
    let vs ← decodeFieldsFor clock unbox fs
    pure (.tuple vs)

/-- Read a value of each of a row of types. -/
def decodeFieldsFor (clock : Nat) (unbox : Action Value) : List WireType → Action (List Value)
  | [] => pure []
  | f :: fs => do
    let v ← decodeFor clock unbox f
    let vs ← decodeFieldsFor clock unbox fs
    pure (v :: vs)

end

/-- Read a variant, in which so many variants lie inside one another. -/
def unboxFor (registry : Registry) : Nat → Action Value
  | 0 => Action.stop .endless
  | n + 1 => decodeBoxed registry (decodeFor n (unboxFor registry n))

end WireType

namespace Message

/-- Read a value of a type by the clock. -/
def readFor (registry : Registry) (clock : Nat) (type : TypeExpr) : Action Value :=
  Action.ifValid do
    let t ← Action.lift type.canonical
    t.decodeFor clock (WireType.unboxFor registry clock)

/-- Reading a value of a type from the message comes to an end before some clock does. -/
def Terminates (registry : Registry) (type : TypeExpr) (m : Message) : Prop :=
  ∃ clock, ((readFor registry clock type).run m).1 ≠ .error .endless

end Message

/-! ## Steps that come to an end -/

namespace Action

variable {α β : Type} {m : Message}

theorem settlesOrRaises_lift (x : Except Fault α) : SettlesOrRaises (lift x) m := by
  cases x with
  | ok a => exact (settles_pure a).but
  | error f => exact settlesOrRaises_raise f

theorem settlesOrRaises_refuse (v : Value) (failure : Text → Failure) :
    SettlesOrRaises (refuse v failure : Action α) m := by
  unfold refuse
  split
  · exact (settles_fail _).but
  · exact settlesOrRaises_raise _

theorem settlesOrRaises_modify (f : Message → Message) : SettlesOrRaises (modify f) m :=
  fun _ _ h => nomatch h

theorem settlesOrRaises_readable : SettlesOrRaises readable m := by
  unfold readable
  rw [SettlesOrRaises, settlesBut_get_bind]
  split
  · rename_i hv
    intro stop m' h
    cases h
    exact .inl ⟨rfl, by simpa using hv⟩
  · split
    · refine SettlesBut.bind (settlesOrRaises_modify _) fun _ m' h stop m'' hstop => ?_
      cases h
      cases hstop
      exact .inl ⟨rfl, rfl⟩
    · exact (settles_pure ()).but

theorem settlesOrRaises_pushFrame (c : Container) : SettlesOrRaises (pushFrame c) m := by
  unfold pushFrame
  split
  · exact settlesOrRaises_modify _
  · exact settlesOrRaises_raise _

theorem settlesOrRaises_enterContainer (c : Container) : SettlesOrRaises (enterContainer c) m := by
  refine settlesOrRaises_readable.bind fun _ m₁ _ => settlesBut_get_bind.mpr ?_
  split
  · exact (settles_fail _).but
  · exact (settles_fail _).but
  · split
    · exact (settlesOrRaises_modify _).bind fun _ _ _ => settlesOrRaises_pushFrame c
    · exact (settles_fail _).but
  · exact (settles_fail _).but

theorem settlesOrRaises_exitContainer : SettlesOrRaises exitContainer m := by
  refine settlesOrRaises_readable.bind fun _ m₁ _ => settlesBut_get_bind.mpr ?_
  split
  · exact settlesOrRaises_raise _
  · split
    · split
      · exact (settlesOrRaises_modify _).bind fun _ _ _ => (settles_fail _).but
      · exact settlesOrRaises_modify _
    · split
      · exact settlesOrRaises_modify _
      · exact (settles_fail _).but

theorem settlesOrRaises_readBasic (code : Text) : SettlesOrRaises (readBasic code) m := by
  refine settlesOrRaises_readable.bind fun _ m₁ _ => settlesBut_get_bind.mpr ?_
  split
  · exact (settles_fail _).but
  · exact (settles_fail _).but
  · exact (settles_fail _).but
  · split
    · exact (settlesOrRaises_modify _).bind fun _ _ _ => (settles_pure _).but
    · exact (settles_fail _).but

theorem settlesOrRaises_resolve (index : Int) : SettlesOrRaises (resolve index) m := by
  refine settlesBut_get_bind.mpr ?_
  split
  · exact settlesOrRaises_refuse _ _
  · split
    · exact (settles_pure _).but
    · split
      · exact settlesOrRaises_raise _
      · exact settlesOrRaises_refuse _ _

theorem settlesOrRaises_decodeBasic (b : BasicType) : SettlesOrRaises b.decode m := by
  refine (settlesOrRaises_readBasic _).bind fun v m₁ _ => ?_
  split
  · split
    · exact settlesOrRaises_resolve _
    · exact settlesOrRaises_resolve _
    · exact settlesOrRaises_resolve _
    · exact settlesOrRaises_refuse _ _
  · exact settles_liftOrFail.but

/-! ## Following an action -/

/-- The first action, which may be stopped by a clock, does what the second one does, unless it is
stopped; where its clock is enough it is stopped only where the second stops for going on for ever,
and that one does so only in such places. -/
structure Follows (enough : Prop) (stuck : Message → Prop) (y x : Action α) (m : Message) :
    Prop where
  approx : (y.run m).1 = .error .endless ∨ y.run m = x.run m
  exact : enough → (x.run m).1 ≠ .error .endless → y.run m = x.run m
  stops : SettlesBut (fun stop m' => (∃ f, stop = .raised f) ∨ stop = .endless ∧ stuck m') x m

variable {enough : Prop} {stuck : Message → Prop} {x y : Action α} {f g : α → Action β}

theorem Follows.refl (h : SettlesOrRaises x m) : Follows enough stuck x x m where
  approx := .inr rfl
  exact _ _ := rfl
  stops := h.mono fun _ _ hf => .inl hf

theorem Follows.mono {enough' : Prop} {stuck' : Message → Prop} (h : Follows enough stuck y x m)
    (he : enough' → enough) (hs : ∀ m, stuck m → stuck' m) : Follows enough' stuck' y x m where
  approx := h.approx
  exact hen := h.exact (he hen)
  stops := h.stops.mono fun _ _ => Or.imp_right fun ⟨hstop, hstuck⟩ => ⟨hstop, hs _ hstuck⟩

theorem Follows.bind (h : Follows enough stuck y x m)
    (hf : ∀ a m', x.run m = (.ok a, m') → Follows enough stuck (g a) (f a) m') :
    Follows enough stuck (y >>= g) (x >>= f) m where
  approx := by
    rcases hy : y.run m with ⟨stop | a, m₁⟩
    · rcases h.approx with hend | hsame
      · left
        rw [hy] at hend
        cases hend
        rw [run_bind_of_error hy]
      · right
        rw [run_bind_of_error hy, run_bind_of_error (hsame ▸ hy)]
    · rcases h.approx with hend | hsame
      · rw [hy] at hend
        cases hend
      · rw [run_bind_of_ok hy, run_bind_of_ok (hsame ▸ hy)]
        exact (hf a m₁ (hsame ▸ hy)).approx
  exact hen hend := by
    rcases hx : x.run m with ⟨stop | a, m₁⟩
    · rw [run_bind_of_error hx] at hend ⊢
      have hy := h.exact hen fun hstop => by
        rw [hx] at hstop
        cases hstop
        exact hend rfl
      exact run_bind_of_error (hy.trans hx)
    · rw [run_bind_of_ok hx] at hend ⊢
      have hy := h.exact hen (by rw [hx]; exact nofun)
      rw [run_bind_of_ok (hy.trans hx)]
      exact (hf a m₁ hx).exact hen hend
  stops := h.stops.bind fun a m' hx => (hf a m' hx).stops

/-- What two actions do to a message is all that matters of them. -/
theorem Follows.congr {y' x' : Action α} (h : Follows enough stuck y x m)
    (hy : y'.run m = y.run m) (hx : x'.run m = x.run m) : Follows enough stuck y' x' m where
  approx := by
    rw [hy, hx]
    exact h.approx
  exact hen hend := by
    rw [hx] at hend
    rw [hy, hx]
    exact h.exact hen hend
  stops := by
    intro stop m' hrun
    rw [hx] at hrun
    exact h.stops stop m' hrun

end Action

end TypedBus
