import TypedBus.Message.Calls
import TypedBus.Proofs.Message.Run

/-!
# What reading is made of

Every way of reading a value is made of a few steps: looking at the message, entering and leaving
containers, reading basic values, recording a failure and stopping. A property of actions that these
steps have, and that actions one after the other hand on (`Action.AdmitsTaking`), is one that
reading a value of any type has (`Action.AdmitsTaking.read`).

Reading moves the cursor, opens and closes frames and records failures, and does nothing else: what
these leave as it is, reading leaves as it is (`Message.Lasting.admitsTaking`).
-/

namespace TypedBus

open Message WireType

/-! ## The steps of reading -/

namespace Action

/-- A property that the steps of reading have and that actions one after the other hand on. -/
structure AdmitsTaking (Q : (α : Type) → Action α → Prop) : Prop where
  pure : ∀ {α : Type} (a : α), Q α (Pure.pure a)
  bind : ∀ {α β : Type} {x : Action α} {f : α → Action β}, Q α x → (∀ a, Q β (f a)) →
    Q β (x >>= f)
  ifValid : ∀ {α : Type} {x : Action α}, Q α x → Q α (ifValid x)
  get : Q Message get
  fail : ∀ {α : Type} (f : Failure), Q α (fail f)
  stop : ∀ {α : Type} (s : Stop), Q α (stop s)
  enterContainer : ∀ c, Q Unit (enterContainer c)
  exitContainer : Q Unit exitContainer
  readBasic : ∀ code, Q Value (readBasic code)

namespace AdmitsTaking

variable {Q : (α : Type) → Action α → Prop} {α β : Type}

theorem lift (hQ : AdmitsTaking Q) (x : Except Fault α) : Q α (lift x) := by
  cases x with
  | ok a => exact hQ.pure a
  | error f => exact hQ.stop _

theorem refuse (hQ : AdmitsTaking Q) (v : Value) (failure : Text → Failure) :
    Q α (refuse v failure) := by
  unfold Action.refuse
  split
  · exact hQ.fail _
  · exact hQ.stop _

theorem liftOrFail (hQ : AdmitsTaking Q) (failure : Fault → Failure) (x : Except Fault α) :
    Q α (liftOrFail failure x) := by
  cases x with
  | ok a => exact hQ.pure a
  | error f => exact hQ.fail _

theorem resolve (hQ : AdmitsTaking Q) (index : Int) : Q Value (Message.resolve index) := by
  refine hQ.bind hQ.get fun m => ?_
  split
  · exact hQ.refuse _ _
  · split
    · exact hQ.pure _
    · split
      · exact hQ.stop _
      · exact hQ.refuse _ _

theorem decodeBasic (hQ : AdmitsTaking Q) (b : BasicType) : Q Value b.decode := by
  refine hQ.bind (hQ.readBasic _) fun v => ?_
  split
  · split
    · exact hQ.resolve _
    · exact hQ.resolve _
    · exact hQ.resolve _
    · exact hQ.refuse _ _
  · exact hQ.liftOrFail _ _

theorem untilEnd (hQ : AdmitsTaking Q) {step : β → Action β} (hstep : ∀ b, Q β (step b)) :
    ∀ (n : Nat) (b : β), Q β (Message.untilEnd step n b)
  | 0, _ => hQ.stop _
  | n + 1, b => by
    rw [Message.untilEnd]
    refine hQ.bind hQ.get fun before => ?_
    split
    · exact hQ.pure b
    · refine hQ.bind (hstep b) fun b => hQ.bind hQ.get fun after => ?_
      split
      · exact untilEnd hQ hstep n b
      · exact hQ.stop _

theorem repeatUntilEnd (hQ : AdmitsTaking Q) {step : β → Action β} (hstep : ∀ b, Q β (step b))
    (b : β) : Q β (Message.repeatUntilEnd step b) :=
  hQ.bind hQ.get fun _ => hQ.untilEnd hstep _ b

/-! ## Values of a type -/

variable {unbox : Action Value} {ρ : Registry}

/-- The two parts of an entry, and what is made of them. -/
theorem pair (hQ : AdmitsTaking Q) {c : Container} {x y : Action Value}
    {f : Value → Value → Action β} (hx : Q Value x) (hy : Q Value y) (hf : ∀ a b, Q β (f a b)) :
    Q β (do Message.enterContainer c; let a ← x; let b ← y; Message.exitContainer; f a b) :=
  hQ.bind (hQ.enterContainer c) fun _ => hQ.bind hx fun a => hQ.bind hy fun b =>
    hQ.bind hQ.exitContainer fun _ => hf a b

mutual

/-- Reading a value has the property, if it has it where a variant is read. -/
theorem decodeWith (hQ : AdmitsTaking Q) (hunbox : Q Value unbox) :
    ∀ t : WireType, Q Value (decodeWith unbox t)
  | .basic b => by
    rw [WireType.decodeWith]
    exact hQ.decodeBasic b
  | .variant => by
    rw [WireType.decodeWith]
    exact hunbox
  | .array e => by
    rw [WireType.decodeWith]
    refine hQ.bind (hQ.enterContainer _) fun _ => hQ.bind (hQ.repeatUntilEnd (fun vs => ?_) _)
      fun vs => hQ.bind hQ.exitContainer fun _ => hQ.pure _
    exact hQ.bind (decodeWith hQ hunbox e) fun v => hQ.pure _
  | .dict k x => by
    rw [WireType.decodeWith]
    refine hQ.bind (hQ.enterContainer _) fun _ => hQ.bind (hQ.repeatUntilEnd (fun es => ?_) _)
      fun es => hQ.bind hQ.exitContainer fun _ => hQ.pure _
    exact hQ.pair (decodeWith hQ hunbox k) (decodeWith hQ hunbox x) fun a b => hQ.lift _
  | .entry k x => by
    rw [WireType.decodeWith]
    exact hQ.pair (decodeWith hQ hunbox k) (decodeWith hQ hunbox x) fun a b => hQ.pure _
  | .struct fs => by
    rw [WireType.decodeWith]
    exact hQ.bind (hQ.enterContainer _) fun _ => hQ.bind (decodeFields hQ hunbox fs) fun vs =>
      hQ.bind hQ.exitContainer fun _ => hQ.pure _
  | .tuple fs => by
    rw [WireType.decodeWith]
    exact hQ.bind (decodeFields hQ hunbox fs) fun vs => hQ.pure _

theorem decodeFields (hQ : AdmitsTaking Q) (hunbox : Q Value unbox) :
    ∀ fs : List WireType, Q (List Value) (decodeFields unbox fs)
  | [] => by
    rw [WireType.decodeFields]
    exact hQ.pure _
  | f :: fs => by
    rw [WireType.decodeFields]
    exact hQ.bind (decodeWith hQ hunbox f) fun v =>
      hQ.bind (decodeFields hQ hunbox fs) fun vs => hQ.pure _

end

theorem decodeWithin (hQ : AdmitsTaking Q) :
    ∀ (n : Nat) (t : WireType), Q Value (decodeWithin ρ n t)
  | 0, t => hQ.decodeWith (hQ.stop _) t
  | n + 1, t => by
    refine hQ.decodeWith (hQ.bind hQ.get fun m => ?_) t
    dsimp only
    split
    · split
      · exact hQ.fail _
      · exact hQ.bind (hQ.enterContainer _) fun _ => hQ.bind (decodeWithin hQ n _) fun v =>
          hQ.bind hQ.exitContainer fun _ => hQ.pure _
    · exact hQ.bind (hQ.enterContainer _) fun _ => hQ.fail _

theorem decode (hQ : AdmitsTaking Q) (ρ : Registry) (t : WireType) : Q Value (t.decode ρ) :=
  hQ.ifValid (hQ.bind hQ.get fun _ => hQ.decodeWithin _ t)

/-- **Reading a value of a type has every property that the steps of reading have.** -/
theorem read (hQ : AdmitsTaking Q) (ρ : Registry) (e : TypeExpr) : Q Value (read ρ e) :=
  hQ.ifValid (hQ.bind (hQ.lift _) fun t => hQ.decode ρ t)

end AdmitsTaking

/-! ## What reading leaves as it is -/

variable {P : Message → Prop}

theorem keeps_get : Keeps P get := fun _ h => h

theorem keeps_modify {f : Message → Message} (h : ∀ m, P m → P (f m)) : Keeps P (modify f) := h

end Action

namespace Message

open TypedBus.Action

/-- Nothing that reading does to a message undoes the property. -/
structure Lasting (P : Message → Prop) : Prop where
  skip : ∀ {m : Message} (n : Nat), P m → P (m.skip n)
  frames : ∀ {m : Message} (fs : List Frame), P m → P { m with frames := fs }
  fail : ∀ {m : Message} (f : Failure), P m → P (m.fail f)
  early : ∀ {m : Message}, P m → P { m with failure := some .notYetSealed }

namespace Lasting

variable {P : Message → Prop}

theorem keeps_readable (hP : Lasting P) : Keeps P readable := by
  refine keeps_get.bind fun m => ?_
  split
  · exact keeps_stop _
  · split
    · exact (keeps_modify fun _ => hP.early).bind fun _ => keeps_stop _
    · exact keeps_pure ()

theorem keeps_pushFrame (hP : Lasting P) (c : Container) : Keeps P (pushFrame c) := by
  unfold pushFrame
  split
  · exact keeps_modify fun _ => hP.frames _
  · exact keeps_stop _

theorem keeps_fail (hP : Lasting P) {α : Type} (f : Failure) : Keeps P (Action.fail f : Action α) :=
  fun _ => hP.fail f

theorem keeps_skip (hP : Lasting P) (n : Nat) : Keeps P (Action.modify (Message.skip n)) :=
  fun _ => hP.skip n

theorem keeps_enterContainer (hP : Lasting P) (c : Container) : Keeps P (enterContainer c) := by
  refine hP.keeps_readable.bind fun _ => keeps_get.bind fun m => ?_
  split
  · exact hP.keeps_fail _
  · exact hP.keeps_fail _
  · split
    · exact (hP.keeps_skip 1).bind fun _ => hP.keeps_pushFrame c
    · exact hP.keeps_fail _
  · exact hP.keeps_fail _

theorem keeps_exitContainer (hP : Lasting P) : Keeps P exitContainer := by
  refine hP.keeps_readable.bind fun _ => keeps_get.bind fun m => ?_
  split
  · exact keeps_stop _
  · split
    · split
      · exact (hP.keeps_skip _).bind fun _ => hP.keeps_fail _
      · exact keeps_modify fun _ h => hP.skip _ (hP.frames _ h)
    · split
      · exact keeps_modify fun _ h => hP.skip _ (hP.frames _ h)
      · exact hP.keeps_fail _

theorem keeps_readBasic (hP : Lasting P) (code : Text) : Keeps P (readBasic code) := by
  refine hP.keeps_readable.bind fun _ => keeps_get.bind fun m => ?_
  split
  · exact hP.keeps_fail _
  · exact hP.keeps_fail _
  · exact hP.keeps_fail _
  · split
    · exact (hP.keeps_skip 1).bind fun _ => keeps_pure _
    · exact hP.keeps_fail _

/-- **Reading leaves as it is what its steps do.** -/
theorem admitsTaking (hP : Lasting P) : AdmitsTaking fun _ => Keeps P where
  pure := keeps_pure
  bind := Keeps.bind
  ifValid := Keeps.ifValid
  get := keeps_get
  fail := hP.keeps_fail
  stop := keeps_stop
  enterContainer := hP.keeps_enterContainer
  exitContainer := hP.keeps_exitContainer
  readBasic := hP.keeps_readBasic

end Lasting

end Message

end TypedBus
