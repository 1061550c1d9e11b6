import TypedBus.Proofs.Message.Sticky
import TypedBus.Proofs.Session.Run

/-!
# Asking the messages of a session

All that a program asks of a message, it asks by the name of its slot (`Session.ask`): it makes
calls, writes and reads by a type, sends the message, addresses it to another destination, or has it
shown or another message made from it (`Glance`).

What comes of it is told by the message, its registry and its transport alone (`Ask.perform`), where
calls answer as they do outside of a session. `Session.comesTo_ask` says that the session answers
just so, that the message and the transport are then as told, and that nothing else in the session
changes.
-/

namespace TypedBus

/-- Something that is told of a message, which stays as it is: the message itself with all that is
in it, how it is shown, or a message that is made from it. -/
inductive Glance
  | all
  | display
  | reply
  | errorReply (name text : Value)
  | copy

/-- Something that is asked of a message by the name of its slot. -/
inductive Ask
  | call (c : Call)
  | encode (v : Value) (type : TypeExpr)
  | decode (type : TypeExpr)
  | send
  | address (destination : Value)
  | glance (g : Glance)

/-- What one is told. -/
inductive Told
  | answer (a : Answer)
  | shown (t : Text)
  | message (m : Message)

/-- Why a session stops where a course halts. -/
def Halt.stop : Halt → Stop
  | raised f => .raised f
  | endless => .endless

/-- What is told of a message. An error reply to which its text cannot be written is told as well,
unless writing raises. -/
def Glance.of (m : Message) : Glance → Except Stop Told
  | all => .ok (.message m)
  | display => (m.display.mapError .raised).map .shown
  | reply => .ok (.message m.reply)
  | errorReply name text => (Stop.noted (m.errorReply name text).1).map fun _ =>
      .message (m.errorReply name text).2
  | copy => .ok (.message m.copy)

namespace Ask

/-- What comes of a call, with a transport that takes no part in it. -/
def ofCall (l : Loopback) (outcome : Except Halt Answer × Message) :
    Except Stop Told × Message × Loopback :=
  ((outcome.1.mapError Halt.stop).map .answer, outcome.2, l)

/-- What comes of a use of a type in its canonical form, if it has one. -/
def ofType (m : Message) (l : Loopback) (type : TypeExpr)
    (x : WireType → Except Stop Told × Message × Loopback) :
    Except Stop Told × Message × Loopback :=
  match type.canonical with
  | .ok t => x t
  | .error f => (.error (.raised f), m, l)

/-- What comes of what is asked of a message, with the transport afterwards. -/
def perform (ρ : Registry) (l : Loopback) (m : Message) :
    Ask → Except Stop Told × Message × Loopback
  | call c => ofCall l (c.perform ρ m)
  | encode v type => ofType m l type fun t =>
      ofCall l (Call.tell (fun _ => .message) ((t.encode v).run m))
  | decode type => ofType m l type fun t =>
      ofCall l (Call.tell (fun v => .value (Course.orNull v)) ((t.decode ρ).run m))
  | send => ((m.send l).1.mapError .raised |>.map fun _ => .answer .message, (m.send l).2)
  | address destination => (.ok (.answer (.value .null)), m.setDestination destination, l)
  | glance g => (g.of m, m, l)

end Ask

namespace Session

/-- Ask something of a message in its slot. -/
def askMessage (slot : Text) (o : MessageObject) : Ask → SessionM Told
  | .call (.write v type) => do
    write slot o v type
    pure (.answer .message)
  | .call (.read (.type e)) => do
    pure (.answer (.value (← read slot o e)))
  | .call (.read (.opening c)) | .call (.enterContainer c) => do
    let _ ← act slot o (Message.enterContainer c)
    pure (.answer .message)
  | .call (.read .closing) | .call .exitContainer => do
    let _ ← act slot o Message.exitContainer
    pure (.answer .message)
  | .call (.openContainer c) => do
    let _ ← act slot o (Message.openContainer c)
    pure (.answer .message)
  | .call .closeContainer => do
    let _ ← act slot o Message.closeContainer
    pure (.answer .message)
  | .call .atEnd => do
    pure (.answer (.truth ((← get).message o).atEnd))
  | .call .peekType => do
    let (code, content) := ((← get).message o).peekType
    pure (.answer (.peeked code content))
  | .call (.fail reason) => do
    change slot o fun m => .ok (m.fail (.declared reason))
    pure (.answer .message)
  | .call .check => do
    lift ((← get).message o).check
    pure (.answer .message)
  | .call .resetFailure => do
    change slot o Message.resetFailure
    pure (.answer (.value .null))
  | .call .rewind => do
    change slot o Message.rewind
    pure (.answer .message)
  | .encode v type => do
    encode slot o v type
    pure (.answer .message)
  | .decode type => do
    pure (.answer (.value (← decode slot o type)))
  | .send => do
    send slot o
    pure (.answer .message)
  | .address destination => do
    change slot o fun m => .ok (m.setDestination destination)
    pure (.answer (.value .null))
  | .glance g => do
    ofExcept (g.of ((← get).message o))

/-- Ask something of the message in a slot, if there is one. -/
def ask (slot : Text) (q : Ask) : SessionM (Option Told) := do
  match (← get).object? slot with
  | some (.message o) => do pure (some (← askMessage slot o q))
  | _ => pure none

variable {α : Type} {s t : Session} {slot : Text} {o : MessageObject} {m : Message} {l : Loopback}

/-- The registry of a message. -/
def registryFor (o : MessageObject) (s : Session) : Registry := s.registry (o.registry.getD 0)

theorem ComesTo.congr {x y : SessionM α} {outcome : Except Stop α × Message × Loopback}
    (h : ComesTo slot o s y outcome) (hrun : run x s = run y s) : ComesTo slot o s x outcome := by
  obtain ⟨t, hy, ht⟩ := h
  exact ⟨t, hrun.trans hy, ht⟩

/-- What is read is read with the registry of the message. -/
theorem run_read_bind {β : Type} (slot : Text) (o : MessageObject) (e : TypeExpr)
    (f : Value → SessionM β) (s : Session) :
    run (read slot o e >>= f) s =
      run (act slot o (Message.read (s.registryFor o) e) >>= fun v => f (Course.orNull v)) s := by
  simp only [read, registryOfMessage, bind_assoc, pure_bind, run_get_bind, registryFor,
    Course.orNull]

/-- What an action comes to is told as outside of a session. -/
theorem comesTo_tell (h : Holds slot o s) (x : Action α) (shown : Option α → Answer) :
    ComesTo slot o s (act slot o x >>= fun a => pure (Told.answer (shown a)))
      (Ask.ofCall (s.transport o.transport) (Call.tell shown (x.run (s.message o)))) := by
  have hact := (comesTo_act h x).map fun a => Told.answer (shown a)
  rcases hx : x.run (s.message o) with ⟨answer, m⟩
  rw [hx] at hact
  rcases answer with (_ | _ | _) | _ <;> exact hact

/-- What a change comes to is told as outside of a session. -/
theorem comesTo_renew (h : Holds slot o s) (f : Message → Except Fault Message) (a : Answer) :
    ComesTo slot o s (change slot o f >>= fun _ => pure (Told.answer a))
      (Ask.ofCall (s.transport o.transport) (Call.change (s.message o) a (f (s.message o)))) := by
  have hchange := (comesTo_change h f).map fun _ => Told.answer a
  rcases hf : f (s.message o) with e | m
  · rw [hf] at hchange
    exact hchange
  · rw [hf] at hchange
    exact hchange

/-- Nothing is done to a message where a type has no canonical form. -/
theorem comesTo_ofType (h : Holds slot o s) (type : TypeExpr) {x : WireType → SessionM Told}
    {y : WireType → Except Stop Told × Message × Loopback}
    (hx : ∀ t, ComesTo slot o s (x t) (y t)) :
    ComesTo slot o s (lift type.canonical >>= x)
      (Ask.ofType (s.message o) (s.transport o.transport) type y) := by
  unfold Ask.ofType
  rcases type.canonical with e | t
  · exact comesTo_self h rfl
  · exact hx t

theorem comesTo_check (h : Holds slot o s) :
    ComesTo slot o s (askMessage slot o (.call .check))
      (Ask.ofCall (s.transport o.transport)
        (Call.perform (s.registryFor o) (s.message o) .check)) := by
  have hrun : run (askMessage slot o (.call .check)) s =
      run (lift (s.message o).check >>= fun _ => pure (Told.answer .message)) s := rfl
  rcases hcheck : (s.message o).check with e | u
  · rw [hcheck] at hrun
    simp only [Call.perform, hcheck]
    exact comesTo_self h hrun
  · rw [hcheck] at hrun
    simp only [Call.perform, hcheck]
    exact comesTo_self h hrun

theorem comesTo_call (h : Holds slot o s) (c : Call) :
    ComesTo slot o s (askMessage slot o (.call c))
      (Ask.ofCall (s.transport o.transport) (c.perform (s.registryFor o) (s.message o))) := by
  cases c with
  | write v type =>
    refine (comesTo_tell h (Message.write v type) fun _ => .message).congr ?_
    simp [askMessage, write]
  | read asked =>
    cases asked with
    | type e =>
      exact (comesTo_tell h (Message.read (s.registryFor o) e) fun v =>
        .value (Course.orNull v)).congr (run_read_bind ..)
    | opening c => exact comesTo_tell h (Message.enterContainer c) fun _ => .message
    | closing => exact comesTo_tell h Message.exitContainer fun _ => .message
  | openContainer c => exact comesTo_tell h (Message.openContainer c) fun _ => .message
  | closeContainer => exact comesTo_tell h Message.closeContainer fun _ => .message
  | enterContainer c => exact comesTo_tell h (Message.enterContainer c) fun _ => .message
  | exitContainer => exact comesTo_tell h Message.exitContainer fun _ => .message
  | atEnd => exact comesTo_self h rfl
  | peekType => exact comesTo_self h rfl
  | fail reason => exact comesTo_renew h (fun m => .ok (m.fail (.declared reason))) .message
  | check => exact comesTo_check h
  | resetFailure => exact comesTo_renew h Message.resetFailure (.value .null)
  | rewind => exact comesTo_renew h Message.rewind .message

theorem comesTo_encode (h : Holds slot o s) (v : Value) (type : TypeExpr) :
    ComesTo slot o s (askMessage slot o (.encode v type))
      (Ask.ofType (s.message o) (s.transport o.transport) type fun t =>
        Ask.ofCall (s.transport o.transport)
          (Call.tell (fun _ => .message) ((t.encode v).run (s.message o)))) := by
  refine (comesTo_ofType h type fun t => comesTo_tell h (t.encode v) fun _ => .message).congr ?_
  simp [askMessage, encode]

theorem comesTo_decode (h : Holds slot o s) (type : TypeExpr) :
    ComesTo slot o s (askMessage slot o (.decode type))
      (Ask.ofType (s.message o) (s.transport o.transport) type fun t =>
        Ask.ofCall (s.transport o.transport)
          (Call.tell (fun v => .value (Course.orNull v))
            ((t.decode (s.registryFor o)).run (s.message o)))) := by
  refine (comesTo_ofType h type fun t =>
    comesTo_tell h (t.decode (s.registryFor o)) fun v => .value (Course.orNull v)).congr ?_
  simp only [askMessage, decode, registryOfMessage, bind_assoc, pure_bind, run_get_bind,
    registryFor, Course.orNull]

/-- **What is asked of a message in a session is told as outside of it.** -/
theorem comesTo_askMessage (h : Holds slot o s) (q : Ask) :
    ComesTo slot o s (askMessage slot o q)
      (q.perform (s.registryFor o) (s.transport o.transport) (s.message o)) := by
  cases q with
  | call c => exact comesTo_call h c
  | encode v type => exact comesTo_encode h v type
  | decode type => exact comesTo_decode h type
  | send => exact (comesTo_send h).map fun _ => Told.answer .message
  | address destination =>
    exact comesTo_renew h (fun m => .ok (m.setDestination destination)) (.value .null)
  | glance g =>
    refine comesTo_self h ?_
    change run (ofExcept (g.of (s.message o))) s = _
    rcases g.of (s.message o) with stop | told <;> rfl

theorem comesTo_ask (h : Holds slot o s) (q : Ask) :
    ComesTo slot o s (ask slot q)
      ((q.perform (s.registryFor o) (s.transport o.transport) (s.message o)).1.map some,
        (q.perform (s.registryFor o) (s.transport o.transport) (s.message o)).2) := by
  refine ((comesTo_askMessage h q).map some).congr ?_
  rw [ask, run_get_bind, h.object]

end Session

end TypedBus
