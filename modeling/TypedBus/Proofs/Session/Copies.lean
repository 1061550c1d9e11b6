import TypedBus.Proofs.Session.Added

/-!
# Copies in a session

A message that is copied and its copy are two messages of one session: they have the same transport
and the same registry, and the lists and variants in their envelopes are the same ones. Only their
streams differ. That is enough for the two to go on independently (`Independent`), for what is asked
of a message by its slot changes no other stream and no other slot; after whatever has been asked of
the two, in whatever order, one of them can be asked more and the other stays just as it is.

And it is enough for the two to go on alike. `Alike` holds of two messages, perhaps of two sessions,
that are the same in all that an answer depends on. Every ask is told alike and leaves them alike
(`Alike.becomes`), so every row of asks is (`Alike.outcomes`).

`copies_go_on_alike` puts both together with what a copy is. A message that has been built in a
session can be copied, nothing is raised, and the copy answers whatever is asked of it from then on
as the message would itself, or, if that is sealed, as it would after `rewind`.
-/

namespace TypedBus

namespace Session

variable {s s' t t' : Session} {slot slot' other : Text} {o o' : MessageObject} {m : Message}
  {l : Loopback}

/-! ## Rows of asks -/

/-- What one is told, the message after that, and what the transports hold then. -/
structure Outcome where
  told : Except Stop (Option Told)
  message : Option Message
  transports : List Loopback

/-- What a row of asks comes to, one after the other. -/
def outcomes (slot : Text) : List Ask → Session → List Outcome
  | [], _ => []
  | q :: asks, s =>
    let (told, t) := run (ask slot q) s
    { told, message := t.message? slot, transports := t.transports } :: outcomes slot asks t

/-- The session after a row of asks, each of the message in a slot. -/
def askEach (asked : List (Text × Ask)) (s : Session) : Session :=
  asked.foldl (fun s a => after (ask a.1 a.2) s) s

theorem Holds.message? (h : Holds slot o s) : s.message? slot = some (s.message o) := by
  rw [Session.message?, h.object]

/-! ## Going on alike -/

/-- Two messages are the same in all that an answer depends on. -/
structure Alike (o : MessageObject) (s : Session) (o' : MessageObject) (s' : Session) : Prop where
  message : s.message o = s'.message o'
  transport : o.transport = o'.transport
  registry : o.registry = o'.registry
  transports : s.transports = s'.transports
  registries : s.registries = s'.registries
  mark : s.mark = s'.mark

namespace Alike

theorem transport_eq (h : Alike o s o' s') :
    s.transport o.transport = s'.transport o'.transport := by
  simp only [Session.transport, h.transports, h.transport]

theorem registryFor_eq (h : Alike o s o' s') : s.registryFor o = s'.registryFor o' := by
  simp only [registryFor, Session.registry, h.registries, h.registry]

/-- Messages that are alike stay so when they become the same. -/
theorem becomes (h : Alike o s o' s') (ht : Becomes slot o m l s t)
    (ht' : Becomes slot' o' m l s' t') : Alike (o.bearing m) t (o'.bearing m) t' := by
  -- the marks that are given now are the same, since the next one was
  have hmarked : (t.stream o.stream, t.mark) = (t'.stream o'.stream, t'.mark) := by
    rw [← ht.marked, ← ht'.marked, h.mark]
  obtain ⟨hstream, hmark⟩ := Prod.mk.inj hmarked
  refine ⟨?_, h.transport, h.registry, ?_, ?_, hmark⟩
  · exact congrArg (fun stream => ({ m with stream } : Message)) hstream
  · rw [ht.transports, ht'.transports, h.transports, h.transport]
  · rw [ht.registries, ht'.registries, h.registries]

/-- **Messages that are alike come to the same**, whatever is asked of them. -/
theorem outcomes (h : Alike o s o' s') (hs : Holds slot o s) (hs' : Holds slot' o' s')
    (asks : List Ask) : outcomes slot asks s = Session.outcomes slot' asks s' := by
  induction asks generalizing o o' s s' with
  | nil => rfl
  | cons q asks ih =>
    obtain ⟨t, hrun, ht⟩ := comesTo_ask hs q
    obtain ⟨t', hrun', ht'⟩ := comesTo_ask hs' q
    rw [← h.message, ← h.transport_eq, ← h.registryFor_eq] at hrun' ht'
    have halike := h.becomes ht ht'
    have hholds := ht.holds hs
    have hholds' := ht'.holds hs'
    simp only [Session.outcomes, hrun, hrun', hholds.message?, hholds'.message?, halike.message,
      halike.transports, ih halike hholds hholds']

end Alike

/-! ## Going on independently -/

/-- Two slots hold messages over streams of their own. -/
def Apart (slot slot' : Text) (s : Session) : Prop :=
  slot ≠ slot' ∧ ∃ o o', Holds slot o s ∧ Holds slot' o' s ∧ o.stream ≠ o'.stream

namespace Apart

theorem symm (h : Apart slot slot' s) : Apart slot' slot s := by
  obtain ⟨hne, o, o', hs, hs', hstream⟩ := h
  exact ⟨hne.symm, o', o, hs', hs, hstream.symm⟩

/-- What is asked of one message leaves the other as it is. -/
theorem after_ask (h : Apart slot slot' s) (q : Ask) :
    Apart slot slot' (after (ask slot q) s) ∧
      (after (ask slot q) s).message? slot' = s.message? slot' := by
  obtain ⟨hne, o, o', hs, hs', hstream⟩ := h
  obtain ⟨t, hrun, ht⟩ := comesTo_ask hs q
  rw [after, hrun]
  have hsame : t.stream o'.stream = s.stream o'.stream := ht.streams _ hstream.symm
  have hother : Holds slot' o' t :=
    { object := (ht.objects _ hne.symm).trans hs'.object
      place := ht.places.symm ▸ hs'.place
      number := hs'.number
      marked := hsame ▸ hs'.marked }
  refine ⟨⟨hne, _, o', ht.holds hs, hother, hstream⟩, ?_⟩
  rw [hother.message?, hs'.message?, message, message, hsame]

theorem after_askEach (h : Apart slot slot' s) {asked : List (Text × Ask)}
    (hasked : ∀ a ∈ asked, a.1 = slot ∨ a.1 = slot') : Apart slot slot' (askEach asked s) := by
  induction asked generalizing s with
  | nil => exact h
  | cons a asked ih =>
    obtain ⟨asker, q⟩ := a
    obtain ⟨hfirst, hrest⟩ := List.forall_mem_cons.mp hasked
    rcases hfirst with rfl | rfl
    · exact ih (h.after_ask q).1 hrest
    · exact ih (h.symm.after_ask q).1.symm hrest

end Apart

/-- There are messages in two slots, and after whatever has been asked of the two, in whatever
order, what is asked of one leaves the other just as it is. -/
def Independent (slot slot' : Text) (s : Session) : Prop :=
  ∀ asked, (∀ a ∈ asked, a.1 = slot ∨ a.1 = slot') →
    let t := askEach asked s
    (t.message? slot).isSome ∧ (t.message? slot').isSome ∧ ∀ q,
      (after (ask slot q) t).message? slot' = t.message? slot' ∧
      (after (ask slot' q) t).message? slot = t.message? slot

theorem Apart.independent (h : Apart slot slot' s) : Independent slot slot' s := by
  intro asked hasked
  have hapart := h.after_askEach hasked
  have ⟨_, o, o', hs, hs', _⟩ := hapart
  exact ⟨by rw [hs.message?]; rfl, by rw [hs'.message?]; rfl,
    fun q => ⟨(hapart.after_ask q).2, (hapart.symm.after_ask q).2⟩⟩

/-! ## Copies -/

/-- What a copy leaves in the session: the message as it was, and beside it the copy that would be
put together from its parts, with the same transport and registry. -/
theorem copied (h : Copyable slot o s) (hne : other ≠ slot) :
    ∃ report t d, run (copyMessage other o) s = (.ok report, t) ∧
      Holds slot o t ∧ t.message o = s.message o ∧
      Holds other d t ∧ t.message d = (s.message o).copy ∧
      d.transport = o.transport ∧ d.registry = o.registry ∧ o.stream ≠ d.stream := by
  obtain ⟨report, hrun⟩ := run_copyMessage other o s
  obtain ⟨hkept, hmessage⟩ := h.toHolds.added hne.symm
  have hcopy : (s.message o).copy.Restorable := Use.restorable_perform h.restorable .copy
  have hmarked : (s.message o).copy.stream.IsMarked := h.marked.turned _ _
  refine ⟨report, _, _, hrun, hkept, hmessage, (copyable_added hcopy).toHolds, ?_, rfl, rfl,
    Nat.ne_of_lt h.place⟩
  -- what the message holds has its marks, and the copy is given no other ones
  rw [message_added, hmarked]

/-- A sealed message is rewound to what its copy is, and nothing else changes. -/
theorem rewound (h : Holds slot o s) (hs : (s.message o).stream.isSealed = true) :
    ∃ t, run (ask slot (.call .rewind)) s = (.ok (some (.answer .message)), t) ∧
      Holds slot (o.bearing (s.message o).copy) t ∧
      t.message (o.bearing (s.message o).copy) = (s.message o).copy ∧
      t.transports = s.transports ∧ t.registries = s.registries ∧ t.mark = s.mark := by
  obtain ⟨t, hrun, ht⟩ := comesTo_ask h (.call .rewind)
  have hperform : (Ask.call .rewind).perform (s.registryFor o) (s.transport o.transport)
      (s.message o) =
        (.ok (.answer .message), (s.message o).copy, s.transport o.transport) := by
    simp only [Ask.perform, Call.perform, Message.rewind_of_sealed hs]
    rfl
  rw [hperform] at hrun ht
  have hmarked : (s.message o).copy.stream.IsMarked := h.marked.turned _ _
  obtain ⟨hstream, hmark⟩ := Prod.mk.inj (ht.marked.symm.trans (hmarked s.mark))
  refine ⟨t, hrun, ht.holds h, ?_, ?_, ht.registries, hmark⟩
  · exact congrArg (fun stream => ({ (s.message o).copy with stream } : Message)) hstream
  · rw [ht.transports, set_transport]

/-- **A message and its copy go on alike and independently.** A message that has been built in a
session is copied into another slot, and nothing is raised, neither by the copying nor by any part
of putting the copy together. From then on both are asked what one likes. Whatever the copy is
asked, one after the other, it is told what the message would be told, stops where that would stop,
and is what that would be, and the same is sent; if the message is sealed, it would be rewound
before. And whatever is asked of one of the two leaves the other as it is. -/
theorem copies_go_on_alike (h : Built slot s) (hne : other ≠ slot) :
    ∃ o report t d, s.object? slot = some (.message o) ∧
      run (copyMessage other o) s = (.ok report, t) ∧
      t.message? slot = some (s.message o) ∧ t.object? other = some (.message d) ∧
      (s.message o).rebuilt = .ok (t.message d) ∧
      d.transport = o.transport ∧ d.registry = o.registry ∧
      ((s.message o).stream.isSealed = false →
        ∀ asks, outcomes other asks t = outcomes slot asks t) ∧
      ((s.message o).stream.isSealed = true →
        ∃ t', run (ask slot (.call .rewind)) t = (.ok (some (.answer .message)), t') ∧
          ∀ asks, outcomes other asks t = outcomes slot asks t') ∧
      Independent slot other t := by
  obtain ⟨o, hcopyable⟩ := h.copyable
  have hrebuilt := Message.rebuilt_eq_ok hcopyable.restorable
  obtain ⟨report, t, d, hrun, hkept, hmessage, hcopied, hcopy, htransport, hregistry, hplace⟩ :=
    copied hcopyable hne
  refine ⟨o, report, t, d, hcopyable.object, hrun, ?_, hcopied.object, ?_, htransport, hregistry,
    fun hs asks => ?unsealed, fun hs => ?isSealed,
    Apart.independent ⟨hne.symm, o, d, hkept, hcopied, hplace⟩⟩
  · rw [hkept.message?, hmessage]
  · rw [hrebuilt, hcopy]
  case unsealed =>
    have hsame : t.message d = t.message o := by
      rw [hcopy, hmessage, Message.copy_of_unsealed hcopyable.restorable hs]
    exact Alike.outcomes ⟨hsame, htransport, hregistry, rfl, rfl, rfl⟩ hcopied hkept asks
  case isSealed =>
    obtain ⟨t', hrewind, hrewound, hback, htransports, hregistries, hmark⟩ :=
      rewound hkept (hmessage.symm ▸ hs)
    have hsame : t.message d = t'.message (o.bearing (t.message o).copy) := by
      rw [hcopy, hback, hmessage]
    exact ⟨t', hrewind, fun asks => Alike.outcomes
      ⟨hsame, htransport, hregistry, htransports.symm, hregistries.symm, hmark.symm⟩
      hcopied hrewound asks⟩

/-- A session with a message in which a struct of two numbers has been opened and one number has
been written. -/
def openStruct : Session :=
  askEach
    [("m", .call (.openContainer (WireType.structOf [.int32, .int32]))),
      ("m", .call (.write (.integer 5) (some (.wire .int32))))]
    (after (makeMessage "m" {}) start)

/-- Its copy goes on within the struct as the message itself does. -/
theorem openStruct_goes_on_alike :
    Built "m" openStruct ∧ ("w" : Text) ≠ "m" ∧
      ∃ o report t d, openStruct.object? "m" = some (.message o) ∧ o.frames.length = 1 ∧
        run (copyMessage "w" o) openStruct = (.ok report, t) ∧
        t.object? "w" = some (.message d) ∧ (openStruct.message o).rebuilt = .ok (t.message d) ∧
        (∀ asks, outcomes "w" asks t = outcomes "m" asks t) ∧ Independent "m" "w" t := by
  have hbuilt : Built "m" openStruct := ((Built.made start rfl).asked _).asked _
  have hne : ("w" : Text) ≠ "m" := by decide
  obtain ⟨o, report, t, d, hobject, hrun, -, hcopied, hrebuilt, -, -, halike, -, hindependent⟩ :=
    copies_go_on_alike hbuilt hne
  have hview : (openStruct.message? "m").map (fun m => (m.stream.isSealed, m.frames.length)) =
      some (false, 1) := by decide +kernel
  rw [message?, hobject] at hview
  obtain ⟨hunsealed, hframes⟩ := Prod.mk.inj (Option.some.inj hview)
  exact ⟨hbuilt, hne, o, report, t, d, hobject, hframes, hrun, hcopied, hrebuilt,
    halike hunsealed, hindependent⟩

end Session

end TypedBus
