import TypedBus.Message.Failure
import TypedBus.Value.Display

/-!
# Messages

A message is a stream together with the containers that are open in it and its validity. The first
failed read or write makes it invalid, and nothing is done to an invalid message until the failure
is reset; a failure while writing leaves the content incomplete and cannot be reset.

`Action` is what is done to a message step by step: it gives an answer or stops, and either way
leaves a message behind. It stops because a failure has been recorded (`Stop.failed`), because of a
fault (`Stop.raised`), or because it would go on for ever without getting anywhere (`Stop.endless`).

Model of `Message` and `_Frame`: the attributes `error`, `_frames`, `_stream` and `_write_failed`,
and `fail`. The attributes `transport` and `_registry` are those of `Session.MessageObject`. Out of
scope: what is logged, and messages of classes derived from this one.
-/

namespace TypedBus

/-- An open container (`_Frame`), the types that must stand in it, and how many have begun. -/
structure Frame where
  container : Container
  fields : List Text
  index : Nat := 0
  deriving Repr

/-- A message. The innermost open container comes first among the frames. -/
structure Message where
  stream : Stream := {}
  frames : List Frame := []
  failure : Option Failure := none
  writeFailed : Bool := false
  deriving Repr, Inhabited

namespace Message

/-- A message to which nothing has failed yet. -/
def isValid (m : Message) : Bool := m.failure.isNone

/-- An empty message with an envelope. -/
def ofEnvelope (e : Envelope) : Message := { stream := { envelope := e } }

/-- A message over a stream. -/
def ofStream (s : Stream) : Message := { stream := s }

/-- What surrounds the place that is read or written next. -/
def surrounding (m : Message) : Surrounding :=
  match m.frames with
  | f :: _ => .container f.container
  | [] => .message

/-- Record a failure. Only the first one is kept, and one of a message that is still being written
leaves its content incomplete. -/
def fail (f : Failure) (m : Message) : Message :=
  if m.isValid then
    { m with failure := some f, writeFailed := m.writeFailed || !m.stream.isSealed }
  else m

end Message

/-- Why an action stopped. -/
inductive Stop
  | failed
  | raised (f : Fault)
  | endless
  deriving Repr

/-- What is done to a message: an answer or the reason for stopping, and the message left. -/
def Action (α : Type) : Type := Message → Except Stop α × Message

namespace Action

/-- What an action does to a message. -/
def run {α : Type} (x : Action α) (m : Message) : Except Stop α × Message := x m

instance : Monad Action where
  pure a := fun m => (.ok a, m)
  bind x f := fun m =>
    match x m with
    | (.ok a, m') => f a m'
    | (.error stop, m') => (.error stop, m')

variable {α β : Type}

/-- The message as it stands. -/
def get : Action Message := fun m => (.ok m, m)

/-- Change the message. -/
def modify (f : Message → Message) : Action Unit := fun m => (.ok (), f m)

/-- Stop. -/
def stop (s : Stop) : Action α := fun m => (.error s, m)

/-- Stop because of a fault. -/
def raise (f : Fault) : Action α := stop (.raised f)

/-- Record a failure and stop. -/
def fail (f : Failure) : Action α := fun m => (.error .failed, m.fail f)

/-- Go on with an outcome, or stop because of its fault. -/
def lift (x : Except Fault α) : Action α :=
  match x with
  | .ok a => pure a
  | .error f => raise f

/-- Record a failure that shows a value and stop, or stop because the value cannot be shown. -/
def refuse (v : Value) (failure : Text → Failure) : Action α :=
  match v.display with
  | .ok shown => fail (failure shown)
  | .error f => raise f

/-- Go on with an outcome, or record a failure made of its fault. -/
def liftOrFail (failure : Fault → Failure) (x : Except Fault α) : Action α :=
  match x with
  | .ok a => pure a
  | .error f => fail (failure f)

/-- An action on a valid message; an invalid one is left alone. -/
def ifValid (x : Action α) : Action α := fun m => if m.isValid then x m else (.error .failed, m)

@[simp] theorem run_pure (a : α) (m : Message) : (pure a : Action α).run m = (.ok a, m) := rfl

theorem run_bind (x : Action α) (f : α → Action β) (m : Message) :
    (x >>= f).run m =
      match x.run m with
      | (.ok a, m') => (f a).run m'
      | (.error stop, m') => (.error stop, m') := rfl

@[simp] theorem run_get (m : Message) : get.run m = (.ok m, m) := rfl

@[simp] theorem run_modify (f : Message → Message) (m : Message) :
    (modify f).run m = (.ok (), f m) := rfl

@[simp] theorem run_stop (s : Stop) (m : Message) :
    (stop s : Action α).run m = (.error s, m) := rfl

@[simp] theorem run_fail (f : Failure) (m : Message) :
    (fail f : Action α).run m = (.error .failed, m.fail f) := rfl

theorem ext {x y : Action α} (h : ∀ m, x.run m = y.run m) : x = y := funext h

instance : LawfulMonad Action := LawfulMonad.mk' Action
  (by
    intro α x
    refine ext fun m => ?_
    change (x >>= fun a => pure (id a)).run m = x.run m
    rw [run_bind]
    rcases x.run m with ⟨_ | _, _⟩ <;> rfl)
  (by intros; rfl)
  (by
    intro α β γ x f g
    refine ext fun m => ?_
    simp only [run_bind]
    rcases x.run m with ⟨_ | _, _⟩ <;> rfl)

end Action

end TypedBus
