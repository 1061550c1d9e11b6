import TypedBus.Proofs.Value.Marked
import TypedBus.Session.Messages

/-!
# What a session comes to

`Session.run` is what something that is done to a session comes to: an answer, or the reason for
stopping, and the session left.

Most of what is done with the message in a slot goes on with nothing but that message and, when it
is sent, with its transport. `Session.Becomes` says so: the message and the transport are as told,
everything in them has been marked, and the rest of the session is as it was. `Session.ComesTo` adds
the answer. It holds of each way to go on with a message: to act on it (`comesTo_act`), to change it
(`comesTo_change`), to send it (`comesTo_send`), and to leave it alone (`comesTo_self`).
-/

namespace TypedBus

/-- The object with another message in its place. -/
def MessageObject.bearing (m : Message) (o : MessageObject) : MessageObject :=
  { o with frames := m.frames, failure := m.failure, writeFailed := m.writeFailed }

/-- The outcome of an action, in which a recorded failure gives no answer. -/
def Stop.noted {α : Type} : Except Stop α → Except Stop (Option α)
  | .ok a => .ok (some a)
  | .error .failed => .ok none
  | .error stop => .error stop

namespace Session

variable {α β : Type} {s t : Session} {slot slot' : Text} {o : MessageObject} {m : Message}
  {l : Loopback}

/-! ## Runs -/

/-- What something that is done to a session comes to. -/
def run (x : SessionM α) (s : Session) : Except Stop α × Session := StateT.run (ExceptT.run x) s

/-- The session after something has been done to it, whatever came of it. -/
def after (x : SessionM α) (s : Session) : Session := (run x s).2

theorem run_bind (x : SessionM α) (f : α → SessionM β) (s : Session) :
    run (x >>= f) s =
      match run x s with
      | (.ok a, t) => run (f a) t
      | (.error stop, t) => (.error stop, t) := by
  unfold run
  rw [ExceptT.run_bind, StateT.run_bind]
  rcases StateT.run (ExceptT.run x) s with ⟨stop | a, t⟩ <;> rfl

theorem run_bind_of_ok {x : SessionM α} {a : α} (h : run x s = (.ok a, t)) (f : α → SessionM β) :
    run (x >>= f) s = run (f a) t := by
  rw [run_bind, h]

theorem run_bind_of_error {x : SessionM α} {stop : Stop} (h : run x s = (.error stop, t))
    (f : α → SessionM β) : run (x >>= f) s = (.error stop, t) := by
  rw [run_bind, h]

theorem run_get_bind (f : Session → SessionM β) (s : Session) :
    run (get >>= f) s = run (f s) s :=
  -- not by `rfl` alone: `simp` would take it for a computation, which goes through all of `f s`
  run_bind_of_ok (by rfl : run get s = (.ok s, s)) f

/-! ## Slots -/

theorem object?_put_self (slot : Text) (x : Object) (s : Session) :
    (s.put slot x).object? slot = some x := by
  simp [object?, put]

/-- Another slot holds what it has held. -/
theorem object?_put_of_ne (h : slot' ≠ slot) (x : Object) (s : Session) :
    (s.put slot x).object? slot' = s.object? slot' := by
  have hkeep : ∀ e : Text × Object, (e.1 ≠ slot ∧ e.1 = slot') ↔ e.1 = slot' :=
    fun e => and_iff_right_of_imp fun he => he ▸ h
  simp [object?, put, Ne.symm h, List.find?_filter, hkeep]

/-! ## A message that goes on -/

/-- The slot holds this message, with a number and with everything in its stream marked. -/
structure Holds (slot : Text) (o : MessageObject) (s : Session) : Prop where
  object : s.object? slot = some (.message o)
  place : o.stream < s.streams.length
  number : o.number.isSome
  marked : (s.stream o.stream).IsMarked

theorem Holds.unique {o' : MessageObject} (h : Holds slot o s)
    (h' : s.object? slot = some (.message o')) : o' = o :=
  Object.message.inj (Option.some.inj (h'.symm.trans h.object))

/-- The message in the slot becomes another, its transport too, and nothing else changes. -/
structure Becomes (slot : Text) (o : MessageObject) (m : Message) (l : Loopback) (s t : Session) :
    Prop where
  object : t.object? slot = some (.message (o.bearing m))
  marked : (m.stream.mapValues Value.marked).run s.mark = (t.stream o.stream, t.mark)
  transports : t.transports = s.transports.set o.transport l
  registries : t.registries = s.registries
  places : t.streams.length = s.streams.length
  streams : ∀ place, place ≠ o.stream → t.stream place = s.stream place
  objects : ∀ slot', slot' ≠ slot → t.object? slot' = s.object? slot'

theorem set_transport (s : Session) (place : Nat) :
    s.transports.set place (s.transport place) = s.transports := by
  rcases Nat.lt_or_ge place s.transports.length with h | h
  · simp [transport, List.getD_eq_getElem?_getD, h]
  · exact List.set_eq_of_length_le h

theorem becomes_self (h : Holds slot o s) :
    Becomes slot o (s.message o) (s.transport o.transport) s s where
  object := h.object
  marked := h.marked s.mark
  transports := (set_transport s o.transport).symm
  registries := rfl
  places := rfl
  streams _ _ := rfl
  objects _ _ := rfl

/-- The session with a message that has a number put back. -/
def stored (slot : Text) (o : MessageObject) (m : Message) (s : Session) : Session :=
  let (stream, mark) := (m.stream.mapValues Value.marked).run s.mark
  put slot (.message (o.bearing m)) { s with streams := s.streams.set o.stream stream, mark }

theorem run_storeMessage (h : o.number.isSome) (slot : Text) (m : Message) (s : Session) :
    run (storeMessage slot o m) s = (.ok (), stored slot o m s) := by
  obtain ⟨n, hn⟩ := Option.isSome_iff_exists.mp h
  obtain ⟨stream, number, frames, failure, writeFailed, transport, registry⟩ := o
  subst hn
  rfl

theorem becomes_stored (h : Holds slot o s) (m : Message) :
    Becomes slot o m (s.transport o.transport) s (stored slot o m s) where
  object := object?_put_self ..
  marked := by
    have hback : ∀ x : Stream, (s.streams.set o.stream x).getD o.stream {} = x := fun x => by
      simp [List.getD_eq_getElem?_getD, h.place]
    exact Prod.ext (hback _).symm rfl
  transports := (set_transport s o.transport).symm
  registries := rfl
  places := List.length_set
  streams place hne := by
    change (s.streams.set o.stream _).getD place {} = s.streams.getD place {}
    simp [List.getD_eq_getElem?_getD, List.getElem?_set_ne hne.symm]
  objects slot' hne := object?_put_of_ne hne _ _

/-- The transport becomes another as well. -/
theorem Becomes.setTransport (h : Becomes slot o m (s.transport o.transport) s t) (l : Loopback) :
    Becomes slot o m l s { t with transports := t.transports.set o.transport l } where
  object := h.object
  marked := h.marked
  transports := by
    change t.transports.set o.transport l = _
    rw [h.transports, set_transport]
  registries := h.registries
  places := h.places
  streams := h.streams
  objects := h.objects

theorem Becomes.stream_eq (ht : Becomes slot o m l s t) :
    t.stream o.stream = ((m.stream.mapValues Value.marked).run s.mark).1 :=
  (congrArg Prod.fst ht.marked).symm

/-- **The slot goes on holding a message.** -/
theorem Becomes.holds (h : Holds slot o s) (ht : Becomes slot o m l s t) :
    Holds slot (o.bearing m) t where
  object := ht.object
  place := by
    change o.stream < t.streams.length
    rw [ht.places]
    exact h.place
  number := h.number
  marked := by
    change (t.stream o.stream).IsMarked
    rw [ht.stream_eq]
    exact Stream.isMarked_marked m.stream s.mark

/-! ## Going on with a message -/

/-- The answer, the message and the transport that something comes to which is done with the message
in a slot. -/
def ComesTo (slot : Text) (o : MessageObject) (s : Session) (x : SessionM α)
    (outcome : Except Stop α × Message × Loopback) : Prop :=
  ∃ t, run x s = (outcome.1, t) ∧ Becomes slot o outcome.2.1 outcome.2.2 s t

/-- What leaves the session as it is. -/
theorem comesTo_self (h : Holds slot o s) {x : SessionM α} {answer : Except Stop α}
    (hx : run x s = (answer, s)) :
    ComesTo slot o s x (answer, s.message o, s.transport o.transport) :=
  ⟨s, hx, becomes_self h⟩

theorem ComesTo.map {x : SessionM α} {answer : Except Stop α}
    (h : ComesTo slot o s x (answer, m, l)) (f : α → β) :
    ComesTo slot o s (x >>= fun a => pure (f a)) (answer.map f, m, l) := by
  obtain ⟨t, hrun, ht⟩ := h
  refine ⟨t, ?_, ht⟩
  rcases answer with stop | a
  · exact run_bind_of_error hrun _
  · exact run_bind_of_ok hrun _

theorem comesTo_act (h : Holds slot o s) (x : Action α) :
    ComesTo slot o s (act slot o x)
      (Stop.noted (x.run (s.message o)).1, (x.run (s.message o)).2, s.transport o.transport) := by
  rcases hx : x.run (s.message o) with ⟨answer, m⟩
  -- the message is put back before the answer is looked at
  refine ⟨stored slot o m s, ?_, becomes_stored h m⟩
  unfold act
  simp only [run_get_bind, hx, run_bind_of_ok (run_storeMessage h.number slot m s)]
  rcases answer with (_ | _ | _) | _ <;> rfl

theorem comesTo_change (h : Holds slot o s) (f : Message → Except Fault Message) :
    ComesTo slot o s (change slot o f)
      (match f (s.message o) with
        | .ok m => (.ok (), m, s.transport o.transport)
        | .error e => (.error (.raised e), s.message o, s.transport o.transport)) := by
  have hrun : run (change slot o f) s =
      run (lift (f (s.message o)) >>= storeMessage slot o) s := rfl
  rcases hf : f (s.message o) with e | m
  · rw [hf] at hrun
    exact comesTo_self h hrun
  · rw [hf] at hrun
    exact ⟨_, hrun.trans (run_storeMessage h.number slot m s), becomes_stored h m⟩

theorem comesTo_send (h : Holds slot o s) :
    ComesTo slot o s (send slot o)
      (((s.message o).send (s.transport o.transport)).1.mapError .raised,
        ((s.message o).send (s.transport o.transport)).2) := by
  rcases hsent : (s.message o).send (s.transport o.transport) with ⟨answer, m, l⟩
  refine ⟨_, ?_, (becomes_stored h m).setTransport l⟩
  unfold send
  simp only [run_get_bind, hsent, run_bind_of_ok (run_storeMessage h.number slot m s)]
  rcases answer with e | u <;> rfl

end Session

end TypedBus
