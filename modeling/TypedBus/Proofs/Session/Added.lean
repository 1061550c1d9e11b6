import TypedBus.Proofs.Message.Rebuilt
import TypedBus.Proofs.Session.Asking

/-!
# Messages that come into a session

A message that is made, derived from another, or copied is put over a stream of its own, which comes
last in the table (`Session.added`). So it has a stream that no message before it has, and those
keep their streams and their slots (`Holds.added`).

`Session.Built` holds of a session in whose slot there is a message that has been made so and not
over a stream that was there before, whatever has been asked of it since. Such a message can be put
together anew (`Built.copyable`).
-/

namespace TypedBus

namespace Ask

variable {ρ : Registry} {l : Loopback} {m : Message}

theorem holds_ofType {P : Message → Prop} {type : TypeExpr}
    {x : WireType → Except Stop Told × Message × Loopback} (h : P m) (hx : ∀ t, P (x t).2.1) :
    P (ofType m l type x).2.1 := by
  unfold ofType
  rcases type.canonical with e | t
  · exact h
  · exact hx t

/-- **Whatever is asked of a message, it can be put together anew afterwards.** -/
theorem restorable_perform (h : m.Restorable) (q : Ask) : (q.perform ρ l m).2.1.Restorable := by
  cases q with
  | call c => exact Use.restorable_perform h (.call ρ c)
  | encode v type => exact holds_ofType h fun t => Use.restorable_perform h (.encode t v)
  | decode type => exact holds_ofType h fun t => Use.restorable_perform h (.decode ρ t)
  | send => exact Use.restorable_perform h (.send l)
  | address destination => exact Use.restorable_perform h (.address destination)
  | glance g => exact h

end Ask

namespace Session

variable {s t : Session} {slot other : Text} {o : MessageObject} {m : Message} {l : Loopback}

/-! ## Messages that can be copied -/

/-- The slot holds this message, and it can be put together anew. -/
structure Copyable (slot : Text) (o : MessageObject) (s : Session) : Prop extends
    Holds slot o s where
  restorable : (s.message o).Restorable

/-- Marks leave the cursor and the seal of a stream as they are. -/
theorem restorable_marked {m : Message} (h : m.Restorable) (mark : Nat) :
    Message.Restorable { m with stream := ((m.stream.mapValues Value.marked).run mark).1 } :=
  h.congr rfl rfl rfl

theorem Becomes.copyable (h : Copyable slot o s) (ht : Becomes slot o m l s t)
    (hm : m.Restorable) : Copyable slot (o.bearing m) t where
  toHolds := ht.holds h.toHolds
  restorable := by
    have hmarked := restorable_marked hm s.mark
    rwa [← ht.stream_eq] at hmarked

/-- What is done elsewhere in the session does not matter. -/
theorem Copyable.elsewhere (h : Copyable slot o s) (hobject : t.object? slot = s.object? slot)
    (hstream : t.streams[o.stream]? = s.streams[o.stream]?) : Copyable slot o t := by
  have hsame : t.stream o.stream = s.stream o.stream := by
    simp only [stream, List.getD_eq_getElem?_getD, hstream]
  have hmessage : t.message o = s.message o := by simp only [message, hsame]
  refine ⟨⟨hobject.trans h.object, ?_, h.number, hsame ▸ h.marked⟩, hmessage ▸ h.restorable⟩
  have hsome : t.streams[o.stream]?.isSome := by simpa [hstream] using h.place
  simpa using hsome

/-! ## Adding a message -/

/-- The object of a message that is added to a session. -/
def placed (m : Message) (transport : Nat) (registry : Option Nat) (s : Session) : MessageObject :=
  { stream := s.streams.length
    number := some ((m.stream.mapValues Value.marked).run s.mark).2
    frames := m.frames
    failure := m.failure
    writeFailed := m.writeFailed
    transport
    registry }

/-- The session with a message added to it. -/
def added (slot : Text) (m : Message) (transport : Nat) (registry : Option Nat) (s : Session) :
    Session :=
  let (stream, mark) := (m.stream.mapValues Value.marked).run s.mark
  put slot (.message (s.placed m transport registry))
    { s with streams := s.streams ++ [stream], mark := mark + 1 }

section

variable {transport : Nat} {registry : Option Nat}

/-- The stream that is added, with everything in it marked. -/
theorem stream_added_self :
    (added slot m transport registry s).stream s.streams.length =
      ((m.stream.mapValues Value.marked).run s.mark).1 := by
  have hlast : ∀ x : Stream, (s.streams ++ [x]).getD s.streams.length {} = x := fun x => by simp
  exact hlast _

theorem message_added :
    (added slot m transport registry s).message (s.placed m transport registry) =
      { m with stream := ((m.stream.mapValues Value.marked).run s.mark).1 } :=
  congrArg (fun stream => ({ m with stream } : Message)) stream_added_self

/-- The streams that were there stay in their places. -/
theorem stream_added {place : Nat} (h : place < s.streams.length) :
    (added slot m transport registry s).stream place = s.stream place := by
  change (s.streams ++ [_]).getD place {} = s.streams.getD place {}
  simp [List.getD_eq_getElem?_getD, List.getElem?_append_left h]

theorem copyable_added (hm : m.Restorable) :
    Copyable slot (s.placed m transport registry) (added slot m transport registry s) where
  object := object?_put_self ..
  place := by
    change s.streams.length < (s.streams ++ [_]).length
    simp
  number := rfl
  marked := by
    have hstream : (added slot m transport registry s).stream
        (s.placed m transport registry).stream = _ := stream_added_self
    rw [hstream]
    exact Stream.isMarked_marked m.stream s.mark
  restorable := by
    rw [message_added]
    exact restorable_marked hm s.mark

/-- **A message goes on as it is when another is added.** -/
theorem Holds.added (h : Holds slot o s) (hne : slot ≠ other) :
    Holds slot o (added other m transport registry s) ∧
      (added other m transport registry s).message o = s.message o := by
  have hstream : (Session.added other m transport registry s).stream o.stream =
      s.stream o.stream := stream_added h.place
  refine ⟨⟨(object?_put_of_ne hne _ _).trans h.object, ?_, h.number, hstream ▸ h.marked⟩, ?_⟩
  · change o.stream < (s.streams ++ [_]).length
    rw [List.length_append]
    exact Nat.lt_add_right 1 h.place
  · rw [message, hstream]
    rfl

end

/-! ## Making messages -/

theorem run_makeMessage {making : Making} (h : making.stream = none) :
    ∃ transport registry, run (makeMessage slot making) s =
      (.ok (), added slot (.ofEnvelope (making.envelope.getD {})) transport registry s) := by
  obtain ⟨envelope, stream, transport, registry⟩ := making
  subst h
  exact ⟨_, _, rfl⟩

theorem run_makeReply :
    run (makeReply slot o) s =
      (.ok (), added slot (s.message o).reply o.transport o.registry s) := rfl

/-- An error reply is put into its slot unless writing its text raises. -/
theorem run_makeErrorReply {name text : Value}
    (h : run (makeErrorReply slot o name text) s = (.ok (), t)) :
    t = added slot ((s.message o).errorReply name text).2 o.transport o.registry s := by
  rcases hreply : (s.message o).errorReply name text with ⟨answer, m⟩
  unfold makeErrorReply at h
  simp only [run_get_bind, hreply] at h
  have hstore : run (storeDerived slot o m) s =
      (.ok (), added slot m o.transport o.registry s) := rfl
  rcases answer with (_ | _ | _) | _
  -- a text that cannot be written is a failure of the reply, which is stored with it
  case error.failed | ok => exact (congrArg Prod.snd (hstore.symm.trans h)).symm
  case error.raised | error.endless => cases h

theorem run_copyMessage (slot : Text) (o : MessageObject) (s : Session) :
    ∃ report, run (copyMessage slot o) s =
      (.ok report, added slot (s.message o).copy o.transport o.registry s) := ⟨_, rfl⟩

/-- An error reply is written as any message is. -/
theorem restorable_errorReply (m : Message) (name text : Value) :
    (m.errorReply name text).2.Restorable := by
  unfold Message.errorReply
  split
  · exact .ofEnvelope _
  · exact Use.restorable_perform (.ofEnvelope _) (.call {} (.write text (some (.wire .string))))

/-- In the slot there is a message that has not been made over a stream that was there before: a new
one, a reply, an error reply or a copy of such a message, whatever has been asked of it since, and
whatever else has been done to the session. -/
inductive Built : Text → Session → Prop
  | made {slot : Text} {making : Making} (s : Session) (h : making.stream = none) :
    Built slot (after (makeMessage slot making) s)
  | reply (slot : Text) (o : MessageObject) (s : Session) : Built slot (after (makeReply slot o) s)
  | errorReply {slot : Text} {o : MessageObject} {name text : Value} {s t : Session}
    (h : run (makeErrorReply slot o name text) s = (.ok (), t)) : Built slot t
  | copied {slot : Text} {source : Text} {o : MessageObject} {s : Session} (h : Built source s)
    (ho : s.object? source = some (.message o)) : Built slot (after (copyMessage slot o) s)
  | asked {slot : Text} {s : Session} (h : Built slot s) (q : Ask) :
    Built slot (after (ask slot q) s)
  | elsewhere {slot : Text} {s t : Session} (h : Built slot s)
    (hobject : t.object? slot = s.object? slot)
    (hstream : ∀ o, s.object? slot = some (.message o) →
      t.streams[o.stream]? = s.streams[o.stream]?) : Built slot t

/-- **Every message that has been built can be put together anew.** -/
theorem Built.copyable (h : Built slot s) : ∃ o, Copyable slot o s := by
  induction h with
  | made s h =>
    obtain ⟨transport, registry, hrun⟩ := run_makeMessage h
    rw [after, hrun]
    exact ⟨_, copyable_added (.ofEnvelope _)⟩
  | reply slot o s =>
    rw [after, run_makeReply]
    exact ⟨_, copyable_added (.ofEnvelope _)⟩
  | errorReply h =>
    rw [run_makeErrorReply h]
    exact ⟨_, copyable_added (restorable_errorReply ..)⟩
  | copied h ho ih =>
    obtain ⟨_, hcopyable⟩ := ih
    cases hcopyable.unique ho
    obtain ⟨report, hrun⟩ := run_copyMessage ..
    rw [after, hrun]
    exact ⟨_, copyable_added (Use.restorable_perform hcopyable.restorable .copy)⟩
  | asked h q ih =>
    obtain ⟨o, hcopyable⟩ := ih
    obtain ⟨t, hrun, ht⟩ := comesTo_ask hcopyable.toHolds q
    rw [after, hrun]
    exact ⟨_, ht.copyable hcopyable (Ask.restorable_perform hcopyable.restorable q)⟩
  | elsewhere h hobject hstream ih =>
    obtain ⟨o, hcopyable⟩ := ih
    exact ⟨o, hcopyable.elsewhere hobject (hstream o hcopyable.object)⟩

end Session

end TypedBus
