import TypedBus.Message.Send
import TypedBus.Proofs.Message.Contents

/-!
# What a loopback delivers

A loopback delivers every message that is sent through it, once, in order and unaltered. An
`Exchange` keeps book of a transport: which messages have been sent, as they were when they were
sent, and which streams have been received. What has been received and what still waits are together
the streams of the messages that have been sent, each with the serial number of its place
(`Exchange.Delivering`); every call preserves that (`Delivering.step`).

* `Loopback.delivers`: after any calls, the messages that have been sent are the ones that could be
  sealed (`Message.isReady`), as long as there are serial numbers; and the streams received are
  those of the first of them.
* `not_sent_openArray`: a message with an open container is valid and is not sent.

A document that waits is taken to be read from its text as it was written.
-/

namespace TypedBus

open Message

/-! ## Messages that are sent -/

/-- The stream with the sender and the serial number that a transport writes into its envelope. -/
def Stream.stamped (s : Stream) (sender : Value) (serial : Nat) : Stream :=
  { s with envelope := { s.envelope with sender, serial := .integer serial } }

/-- How many serial numbers are integers of 64 bits; the first is one. -/
def Loopback.serials : Nat := 2 ^ 64 - 1

namespace Message

/-- The message can be sealed and sent: it is valid and no container has been left open in it,
unless it is sealed already or writing has failed. -/
def isReady (m : Message) : Bool :=
  m.isValid && (m.frames.isEmpty || m.stream.isSealed || m.writeFailed)

/-- What a transport delivers unaltered: a message that has been written, whose descriptors and
their places are integers of 64 bits, and with an envelope whose fields a document can hold. -/
structure Storable (m : Message) : Prop where
  written : m.IsWritten
  descriptors : ∀ n, .integer n ∈ m.stream.descriptors → Json.Holds n
  places : m.stream.descriptors.length ≤ 2 ^ 64
  envelope : m.stream.envelope.IsPlain

variable {m : Message} {name : Value} {k : Nat}

theorem holds_serial : Json.Holds k ↔ k ≤ Loopback.serials := by
  unfold Loopback.serials Json.Holds
  omega

/-- A document can hold each field of the envelope that is sent, but for the serial number. -/
theorem Storable.fields (h : m.Storable) (hname : name.IsPlain) :
    ∀ f ∈ (m.stream.stamped name k).envelope.toFields, f.2.IsPlain ∨ f.2 = .integer k := by
  have henvelope := h.envelope
  simp only [Envelope.IsPlain, Envelope.toFields, List.forall_mem_cons, Stream.stamped]
    at henvelope ⊢
  obtain ⟨htype, hdest, -, hpath, hiface, hmember, herr, htext, -, hreply, -⟩ := henvelope
  exact ⟨.inl htype, .inl hdest, .inl hname, .inl hpath, .inl hiface, .inl hmember, .inl herr,
    .inl htext, .inr trivial, .inl hreply, List.forall_mem_nil _⟩

/-- A document can hold the stream that is sent. -/
theorem Storable.packable (h : m.Storable) (hname : name.IsPlain) (hk : k ≤ Loopback.serials) :
    (m.stream.stamped name k).Packable where
  envelope f hf := by
    rcases h.fields hname f hf with hplain | hserial
    · exact hplain
    · rw [hserial]
      exact .integer (holds_serial.mpr hk)
  items item hitem := (h.written.holdsWritten.items item hitem).packable h.places
  descriptors d hd := by
    obtain ⟨n, rfl⟩ := h.written.holdsWritten.descriptors d hd
    exact ⟨.integer (h.descriptors n hd), rfl⟩

/-- When the serial numbers have run out nothing is sent. -/
theorem Storable.pack_ne_ok (h : m.Storable) (hname : name.IsPlain) (hk : Loopback.serials < k)
    (x : Json) : (m.stream.stamped name k).pack ≠ .ok x := by
  have hwide : ¬ Json.Holds k := fun hholds => Nat.not_le.mpr hk (holds_serial.mp hholds)
  refine Stream.pack_ne_ok (fun f hf => ?_) rfl hwide
  rcases h.fields hname f hf with hplain | hserial
  · exact hplain.copied
  · simp [hserial, Value.copied]

/-- A message that is ready is sealed, and its stream goes to the transport. -/
theorem send_of_ready (h : m.isReady = true) (l : Loopback) :
    m.send l =
      ((l.send m.stream.sealUp.rewind).1,
        { m with stream := (l.send m.stream.sealUp.rewind).2.1, frames := [] },
        (l.send m.stream.sealUp.rewind).2.2) := by
  obtain ⟨stream, frames, failure, writeFailed⟩ := m
  simp only [isReady, isValid, Bool.and_eq_true, Option.isNone_iff_eq_none] at h
  obtain ⟨rfl, hopen⟩ := h
  unfold send check rewind
  rcases frames with _ | ⟨f, fs⟩
  · rfl
  · have hsealed : (!stream.isSealed && !writeFailed) = false := by
      simpa [Decidable.or_iff_not_imp_left] using hopen
    simp [Except.bind, hsealed]

/-- Sending a message that is not ready changes nothing. -/
theorem send_of_not_ready (h : m.isReady = false) (l : Loopback) :
    ∃ f, m.send l = (.error f, m, l) := by
  obtain ⟨stream, frames, failure, writeFailed⟩ := m
  unfold send check rewind
  rcases failure with _ | failure
  · rcases frames with _ | ⟨f, fs⟩
    · simp [isReady, isValid] at h
    · have hopen : (!stream.isSealed && !writeFailed) = true := by
        simpa [isReady, isValid] using h
      simp [Except.bind, hopen]
  · exact ⟨_, rfl⟩

end Message

/-! ## Exchanges -/

namespace Loopback

/-- Sending a sealed stream packs it with the sender and the next serial number. -/
theorem send_of_sealed {s : Stream} (h : s.isSealed = true) (l : Loopback) :
    l.send s =
      let stamped := s.stamped l.name l.nextSerial
      let l := { l with nextSerial := l.nextSerial + 1 }
      match stamped.pack with
      | .ok d => (.ok (), stamped, { l with queue := l.queue ++ [d] })
      | .error f => (.error f, stamped, l) := by
  rw [Loopback.send, if_pos h]
  rfl

/-- Receiving changes nothing, or takes what waits first. -/
theorem receive_cases (timeout : Value) (l : Loopback) :
    (∃ f, l.receive timeout = (.error f, l)) ∨
      ∃ d queue, l.queue = d :: queue ∧
        l.receive timeout = (Stream.unpack (.ok d), { l with queue }) := by
  unfold receive
  rcases Timeout.check timeout with f | _
  · exact .inl ⟨f, rfl⟩
  · rcases l.queue with _ | ⟨d, queue⟩
    · left
      rcases timeout.plain with f | shown <;> exact ⟨_, rfl⟩
    · exact .inr ⟨d, queue, rfl, rfl⟩

/-- What is done with a transport: a message is sent, or the next stream is received. -/
inductive Call
  | send (m : Message)
  | receive (timeout : Value)

/-- The message that a call sends, if it is ready. -/
def Call.ready? : Call → Option Message
  | send m => if m.isReady then some m else none
  | receive _ => none

/-- A transport, the messages that it has been given to deliver, as they were then, and the streams
that it has delivered. -/
structure Exchange where
  transport : Loopback
  sent : List Message := []
  received : List Stream := []

namespace Exchange

/-- The exchange after a call, of which it keeps book if it succeeds. -/
def step (x : Exchange) : Call → Exchange
  | .send m =>
    match m.send x.transport with
    | (.ok _, _, l) => { x with transport := l, sent := x.sent ++ [m] }
    | (.error _, _, l) => { x with transport := l }
  | .receive timeout =>
    match x.transport.receive timeout with
    | (.ok s, l) => { x with transport := l, received := x.received ++ [s] }
    | (.error _, l) => { x with transport := l }

/-- The exchange after a row of calls. -/
def after (x : Exchange) (calls : List Call) : Exchange := calls.foldl step x

/-- The exchange of a new transport of a name. -/
def ofName (name : Value) : Exchange := { transport := { name } }

/-- What has been received, and then what would be received of what waits. -/
def streams (x : Exchange) : List (Except Fault Stream) :=
  x.received.map .ok ++ x.transport.queue.map fun d => Stream.unpack (.ok d)

/-- A stream is that of a message as it arrives with a serial number. -/
def Arrived (name : Value) (sent : Message × Nat) (o : Except Fault Stream) : Prop :=
  ∃ s, o = .ok s ∧ (sent.1.stream.stamped name sent.2).ArrivesAs s

/-- The messages that were ready have been sent as long as there were serial numbers, and what has
been received and what waits are their streams. -/
structure Delivering (sender : Value) (ready : List Message) (x : Exchange) : Prop where
  name : x.transport.name = sender
  serial : x.transport.nextSerial = ready.length + 1
  sent : x.sent = ready.take serials
  streams : List.Forall₂ (Arrived sender) (x.sent.zipIdx 1) x.streams

variable {name : Value} {ready : List Message} {x : Exchange} {m : Message} {timeout : Value}

theorem delivering_ofName (name : Value) : Delivering name [] (ofName name) :=
  ⟨rfl, rfl, rfl, .nil⟩

/-- The exchange after a message that is ready has been sent. -/
theorem step_send (hready : m.isReady = true) :
    x.step (.send m) =
      let l := { x.transport with nextSerial := x.transport.nextSerial + 1 }
      match (m.stream.stamped x.transport.name x.transport.nextSerial).pack with
      | .ok d => { x with transport := { l with queue := l.queue ++ [d] }, sent := x.sent ++ [m] }
      | .error _ => { x with transport := l } := by
  -- Sealing and rewinding a stream change nothing that is packed of it.
  have hpack : (m.stream.sealUp.rewind.stamped x.transport.name x.transport.nextSerial).pack =
      (m.stream.stamped x.transport.name x.transport.nextSerial).pack := rfl
  have hsealed : m.stream.sealUp.rewind.isSealed = true := rfl
  rw [step, send_of_ready hready, send_of_sealed hsealed]
  simp only [hpack]
  cases (m.stream.stamped x.transport.name x.transport.nextSerial).pack <;> rfl

/-- A message that is ready is sent, if there is a serial number for it. -/
theorem Delivering.send (h : Delivering name ready x) (hname : name.IsPlain)
    (hready : m.isReady = true) (hm : m.Storable) :
    Delivering name (ready ++ [m]) (x.step (.send m)) := by
  rw [step_send hready, h.name, h.serial]
  by_cases hk : ready.length + 1 ≤ serials
  · have hsent : x.sent = ready := by rw [h.sent, List.take_of_length_le (by omega)]
    obtain ⟨d, s, hpack, hunpack, harrives⟩ := Stream.unpack_pack (hm.packable hname hk)
    rw [hpack]
    refine ⟨h.name, by simp, ?_, ?_⟩
    · rw [List.take_of_length_le (by simpa using hk), hsent]
    · have hlast : Arrived name (m, 1 + x.sent.length) (Stream.unpack (.ok d)) :=
        ⟨s, hunpack, by rwa [hsent, Nat.add_comm]⟩
      have hall := List.rel_append h.streams (.cons hlast .nil)
      simpa [Exchange.streams, List.zipIdx_append] using hall
  · have hlt : serials < ready.length + 1 := by omega
    rcases hpack : (m.stream.stamped name (ready.length + 1)).pack with f | d
    · refine ⟨h.name, by simp, ?_, h.streams⟩
      rw [List.take_append_of_le_length (by omega)]
      exact h.sent
    · exact absurd hpack (hm.pack_ne_ok hname hlt d)

/-- Whatever waits can be unpacked. -/
theorem Delivering.exists_unpack (h : Delivering name ready x) {d : Json} {queue : List Json}
    (hqueue : x.transport.queue = d :: queue) : ∃ s, Stream.unpack (.ok d) = .ok s := by
  have hall : ∀ o ∈ x.streams, ∃ s, o = .ok s :=
    forall_of_forall₂ (fun _ _ ⟨s, hs, _⟩ => ⟨s, hs⟩) h.streams
  refine hall _ ?_
  rw [Exchange.streams, hqueue, List.map_cons]
  exact List.mem_append_right _ List.mem_cons_self

/-- What waits is received as it was sent. -/
theorem Delivering.receive (h : Delivering name ready x) (timeout : Value) :
    Delivering name ready (x.step (.receive timeout)) := by
  rcases receive_cases timeout x.transport with ⟨f, hf⟩ | ⟨d, queue, hqueue, hd⟩
  · simp only [step, hf]
    exact h
  · have hstreams := h.streams
    rw [Exchange.streams, hqueue, List.map_cons] at hstreams
    obtain ⟨s, hs⟩ := h.exists_unpack hqueue
    simp only [step, hd, hs]
    refine ⟨h.name, h.serial, h.sent, ?_⟩
    rw [hs] at hstreams
    simpa [Exchange.streams] using hstreams

/-- **Every call delivers**: a call that sends a message which is ready adds it to those that are
sent, and no other call changes these. -/
theorem Delivering.step (h : Delivering name ready x) (hname : name.IsPlain) {call : Call}
    (hcall : ∀ m, call = .send m → m.isValid = true → m.Storable) :
    Delivering name (ready ++ call.ready?.toList) (x.step call) := by
  cases call with
  | receive timeout => simpa [Call.ready?] using h.receive timeout
  | send m =>
    rcases hready : m.isReady with _ | _
    · obtain ⟨f, hf⟩ := send_of_not_ready hready x.transport
      simpa [Call.ready?, hready, Exchange.step, hf] using h
    · have hv : m.isValid = true := by
        simp only [isReady, Bool.and_eq_true] at hready
        exact hready.1
      simpa [Call.ready?, hready] using h.send hname hready (hcall m rfl hv)

/-- The calls one after the other. -/
theorem Delivering.after (hname : name.IsPlain) :
    ∀ {calls : List Call} {ready : List Message} {x : Exchange}, Delivering name ready x →
      (∀ m, .send m ∈ calls → m.isValid = true → m.Storable) →
        Delivering name (ready ++ calls.filterMap Call.ready?) (x.after calls)
  | [], ready, x, h, _ => by simpa [Exchange.after] using h
  | call :: calls, ready, x, h, hcalls => by
    have hfirst := h.step hname fun m hm => hcalls m (hm ▸ List.mem_cons_self)
    have hrest := hfirst.after hname fun m hm => hcalls m (List.mem_cons_of_mem call hm)
    have hsplit : (call :: calls).filterMap Call.ready? =
        call.ready?.toList ++ calls.filterMap Call.ready? := by
      rw [List.filterMap_cons]
      cases call.ready? <;> rfl
    rwa [hsplit, ← List.append_assoc]

end Exchange

open Exchange

/-- **A loopback delivers what is sent, once, in order and unaltered.** After any calls, the
messages that have been sent are those that were ready, in order, as long as there are serial
numbers for them; the stream that was received k-th is that of the k-th of them, with the name of
the transport and its place among them; and as long as fewer have been received than sent, the next
can be received. -/
theorem delivers {name : Value} (hname : name.IsPlain) {calls : List Call}
    (hcalls : ∀ m, .send m ∈ calls → m.isValid = true → m.Storable) :
    let x := (ofName name).after calls
    x.sent = (calls.filterMap Call.ready?).take serials ∧
      x.received.length ≤ x.sent.length ∧
      (∀ (k : Nat) (m : Message) (s : Stream), x.sent[k]? = some m → x.received[k]? = some s →
        (m.stream.stamped name (k + 1)).ArrivesAs s) ∧
      ∀ timeout, x.received.length < x.sent.length → Timeout.check timeout = .ok () →
        ∃ s, (x.transport.receive timeout).1 = .ok s := by
  have h := (delivering_ofName name).after hname hcalls
  rw [List.nil_append] at h
  intro x
  have hlength : x.sent.length = x.received.length + x.transport.queue.length := by
    simpa [Exchange.streams] using h.streams.length_eq
  refine ⟨h.sent, by omega, fun k m s hm hs => ?_, fun timeout hlt htime => ?_⟩
  · have hplace : (x.sent.zipIdx 1)[k]? = some (m, k + 1) := by
      rw [List.getElem?_zipIdx, hm, Option.map_some, Nat.add_comm]
    have hstream : x.streams[k]? = some (.ok s) := by
      have hk : k < (x.received.map .ok : List (Except Fault Stream)).length := by
        rw [List.length_map]
        exact (List.getElem?_eq_some_iff.mp hs).1
      rw [Exchange.streams, List.getElem?_append_left hk, List.getElem?_map, hs]
      rfl
    obtain ⟨s', hs', harrives⟩ := forall₂_getElem? h.streams hplace hstream
    cases hs'
    exact harrives
  · obtain ⟨d, queue, hqueue⟩ : ∃ d queue, x.transport.queue = d :: queue :=
      List.exists_cons_of_ne_nil fun hnil => by simp [hnil] at hlength; omega
    obtain ⟨s, hs⟩ := h.exists_unpack hqueue
    refine ⟨s, ?_⟩
    rw [Loopback.receive, htime]
    simp only [hqueue]
    exact hs

/-- The fields of a new envelope can be held by a document. -/
theorem isPlain_initial : Envelope.IsPlain {} := by
  have hzero : Value.IsPlain (.integer 0) := .integer (by decide)
  simp only [Envelope.IsPlain, Envelope.toFields, List.forall_mem_cons]
  exact ⟨hzero, .null, .null, .null, .null, .null, .null, .null, hzero, hzero,
    List.forall_mem_nil _⟩

/-- A message of a double that is no number and of a descriptor. -/
def nanAndHandle : Message :=
  WriteCall.after
    [.value (.double .nan) (some (.wire (.basic .double))),
      .value (.handle 7) (some (.wire (.basic .handle)))] (ofEnvelope {})

/-- It arrives with a double that is no number and with the descriptor. -/
theorem delivers_nanAndHandle :
    Value.IsPlain (.text commonName) ∧ nanAndHandle.Storable ∧
      let x := (ofName (.text commonName)).after [.send nanAndHandle, .receive .null]
      x.sent = [nanAndHandle] ∧ ∃ s, x.received = [s] ∧
        (nanAndHandle.stream.stamped (.text commonName) 1).ArrivesAs s := by
  have hname : Value.IsPlain (.text commonName) := .text (Text.isWhole_ofString ":loopback")
  have hdescriptors : nanAndHandle.stream.descriptors = [.integer 7] := rfl
  have hstorable : nanAndHandle.Storable := by
    refine ⟨⟨{}, _, ?_, rfl, rfl⟩, fun n hn => ?_, ?_, isPlain_initial⟩
    · decide +kernel
    · rw [hdescriptors, List.mem_singleton, Value.integer.injEq] at hn
      rw [hn]
      decide
    · rw [hdescriptors]
      decide
  refine ⟨hname, hstorable, ?_⟩
  have hcalls : ∀ m, Call.send m ∈ [.send nanAndHandle, .receive .null] → m.isValid = true →
      m.Storable := by
    intro m hm _
    obtain rfl : m = nanAndHandle := by simpa using hm
    exact hstorable
  obtain ⟨hsent, -, harrives, -⟩ := delivers hname hcalls
  have hone : ((ofName (.text commonName)).after
      [.send nanAndHandle, .receive .null]).received.length = 1 := rfl
  obtain ⟨s, hs⟩ := List.length_eq_one_iff.mp hone
  have hready : nanAndHandle.isReady = true := by decide +kernel
  have hsent' : ((ofName (.text commonName)).after
      [.send nanAndHandle, .receive .null]).sent = [nanAndHandle] := by
    rw [hsent]
    simp [Call.ready?, hready, serials]
  exact ⟨hsent', s, hs, harrives 0 _ _ (by rw [hsent']; rfl) (by rw [hs]; rfl)⟩

/-- A message in which an array has been opened. -/
def openArray : Message :=
  WriteCall.after [.opening (WireType.arrayOf .int32)] (ofEnvelope {})

/-- It is valid, and is not sent: the array is still open. -/
theorem not_sent_openArray :
    openArray.isValid = true ∧ openArray.Storable ∧
      openArray.send common =
        (.error (.stillOpen 1 (WireType.arrayOf .int32)), openArray, common) := by
  have hvalid : openArray.isValid = true := by decide +kernel
  have hwritten : openArray.IsWritten := ⟨{}, _, hvalid, rfl, rfl⟩
  have hstep : Item.Step [] (.opening (WireType.arrayOf .int32))
      [{ container := WireType.arrayOf .int32, fields := [WireType.int32.signature] }] :=
    .opening (by decide +kernel) (.top (by decide)) rfl
  have hrun := (run_openContainer_eq_ok (m := ofEnvelope {}) ⟨rfl, rfl⟩).mpr ⟨_, hstep, rfl⟩
  have hopen : openArray = (ofEnvelope {}).add (.opening (WireType.arrayOf .int32))
      [{ container := WireType.arrayOf .int32, fields := [WireType.int32.signature] }] := by
    unfold openArray WriteCall.after
    simp only [List.foldl_cons, List.foldl_nil, WriteCall.action, hrun]
  refine ⟨hvalid, ⟨hwritten, ?_, ?_, ?_⟩, ?_⟩
  · rw [hopen]
    exact fun _ hn => absurd hn List.not_mem_nil
  · rw [hopen]
    exact Nat.zero_le _
  · rw [hopen]
    exact isPlain_initial
  · rw [hopen]
    rfl

end Loopback

end TypedBus
