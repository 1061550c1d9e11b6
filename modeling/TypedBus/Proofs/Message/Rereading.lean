import TypedBus.Proofs.Message.Uses

/-!
# Reading once more

What is left of a message when it has been read from, whatever the calls were and however they
ended. Reading moves the cursor, opens and closes frames and records failures, so the stream but for
its cursor stays as it is (`Message.lasting_sameStream`).

* While a message is being written, reading from it fails at its first step: nothing changes but
  that the message may be invalid from then on (`Action.Early`), and that is undone when the failure
  is reset.
* A sealed message that has not failed while it was written starts anew when the failure is reset
  and the message is rewound: from wherever reading had come to, it becomes the message over its
  stream from the first item on.

`Call.rereads` states both, for every row of calls that read.
-/

namespace TypedBus

open Message WireType

/-! ## Reading too early -/

namespace Action

variable {α β : Type} {x : Action α} {f : α → Action β} {m : Message}

/-- To a message that is still being written, the action does nothing, or nothing but to record that
it is too early to read. -/
def Early (x : Action α) : Prop :=
  ∀ m, m.stream.isSealed = false →
    (x.run m).2 = m ∨ x.run m = (.error .failed, { m with failure := some .notYetSealed })

theorem early_pure (a : α) : Early (pure a) := fun _ _ => .inl rfl

theorem early_stop (s : Stop) : Early (stop s : Action α) := fun _ _ => .inl rfl

theorem early_lift (x : Except Fault α) : Early (lift x) := by
  intro m _
  cases x <;> exact .inl rfl

theorem Early.bind (hx : Early x) (hf : ∀ a, Early (f a)) : Early (x >>= f) := by
  intro m hm
  rcases hx m hm with hkeep | hearly
  · rcases hrun : x.run m with ⟨stop | a, m'⟩ <;> rw [hrun] at hkeep <;> obtain rfl := hkeep
    · exact .inl (by rw [run_bind_of_error hrun])
    · rw [run_bind_of_ok hrun]
      exact hf a _ hm
  · exact .inr (run_bind_of_error hearly)

theorem early_get_bind {f : Message → Action α}
    (hf : ∀ m, m.stream.isSealed = false → Early (f m)) : Early (get >>= f) := by
  intro m hm
  rw [run_get_bind]
  exact hf m hm m hm

theorem Early.ifValid (hx : Early x) : Early (ifValid x) := by
  intro m hm
  cases hv : m.isValid with
  | false => exact .inl (by rw [run_ifValid_of_invalid hv])
  | true =>
    rw [run_ifValid hv]
    exact hx m hm

/-- What begins by asking whether the message can be read stops there. -/
theorem early_readable_bind {f : Unit → Action α} : Early (Message.readable >>= f) := by
  intro m hm
  cases hv : m.isValid with
  | false => exact .inl (by simp [Message.readable, run_bind, hv])
  | true => exact .inr (by simp [Message.readable, run_bind, hv, hm])

theorem early_bind_of_readable {g : Unit → Action α} (hx : x = (Message.readable >>= g)) :
    Early (x >>= f) := by
  rw [hx, bind_assoc]
  exact early_readable_bind

theorem early_enterContainer_bind (c : Container) {f : Unit → Action α} :
    Early (Message.enterContainer c >>= f) := early_bind_of_readable rfl

theorem early_decodeBasic (b : BasicType) : Early b.decode := by
  unfold BasicType.decode
  exact early_bind_of_readable rfl

section Types

variable {unbox : Action Value}

mutual

/-- A value of a type is not read too early, if a variant is not; a row of no values is read at any
time. -/
theorem early_decodeWith (hunbox : Early unbox) : ∀ t : WireType, Early (decodeWith unbox t)
  | .basic b => by
    rw [decodeWith]
    exact early_decodeBasic b
  | .variant => by
    rw [decodeWith]
    exact hunbox
  | .array _ | .dict _ _ | .entry _ _ | .struct _ => by
    rw [decodeWith]
    exact early_enterContainer_bind _
  | .tuple fs => by
    rw [decodeWith]
    exact (early_decodeFields hunbox fs).bind fun _ => early_pure _

theorem early_decodeFields (hunbox : Early unbox) :
    ∀ fs : List WireType, Early (decodeFields unbox fs)
  | [] => by
    rw [decodeFields]
    exact early_pure _
  | f :: fs => by
    rw [decodeFields]
    exact (early_decodeWith hunbox f).bind fun _ =>
      (early_decodeFields hunbox fs).bind fun _ => early_pure _

end

/-- Before a message is sealed no variant is next in it. -/
theorem early_decodeBoxed (ρ : Registry) (decode : WireType → Action Value) :
    Early (decodeBoxed ρ decode) := by
  refine early_get_bind fun m hm => ?_
  have hpeek : m.peekType = ([], []) := by simp [peekType, hm]
  simp only [hpeek]
  exact early_enterContainer_bind _

theorem early_decodeWithin (ρ : Registry) (n : Nat) (t : WireType) :
    Early (decodeWithin ρ n t) := by
  cases n with
  | zero => exact early_decodeWith (early_stop _) t
  | succ n => exact early_decodeWith (early_decodeBoxed ρ _) t

theorem early_decode (ρ : Registry) (t : WireType) : Early (t.decode ρ) :=
  .ifValid (early_get_bind fun _ _ => early_decodeWithin ρ _ t)

theorem early_read (ρ : Registry) (e : TypeExpr) : Early (Message.read ρ e) :=
  .ifValid ((early_lift _).bind fun t => early_decode ρ t)

end Types

end Action

/-! ## What reading leaves -/

namespace Message

open TypedBus.Action

variable {m m' : Message}

/-- The second message has the stream of the first but for the cursor and, once that is sealed, has
failed while it was written if that has. -/
structure SameStream (m m' : Message) : Prop where
  stream : m'.stream.rewind = m.stream.rewind
  writeFailed : m.stream.isSealed = true → m'.writeFailed = m.writeFailed

namespace SameStream

theorem items (h : m.SameStream m') : m'.stream.items = m.stream.items :=
  (congrArg Stream.items h.stream :)

theorem descriptors (h : m.SameStream m') : m'.stream.descriptors = m.stream.descriptors :=
  (congrArg Stream.descriptors h.stream :)

theorem envelope (h : m.SameStream m') : m'.stream.envelope = m.stream.envelope :=
  (congrArg Stream.envelope h.stream :)

theorem isSealed (h : m.SameStream m') : m'.stream.isSealed = m.stream.isSealed :=
  (congrArg Stream.isSealed h.stream :)

end SameStream

theorem resetFailure_eq_ok : m.resetFailure = .ok m' ↔
    m.writeFailed = false ∧ m' = { m with failure := none } := by
  unfold resetFailure
  cases m.writeFailed <;> simp [eq_comm]

theorem lasting_sameStream (m : Message) : Lasting m.SameStream where
  skip _ h := ⟨h.stream, h.writeFailed⟩
  frames _ h := ⟨h.stream, h.writeFailed⟩
  fail {m'} f h := by
    refine ⟨by rw [stream_fail, h.stream], fun hs => ?_⟩
    have hs' : m'.stream.isSealed = true := h.isSealed.trans hs
    unfold fail
    split
    · simpa [hs'] using h.writeFailed hs
    · exact h.writeFailed hs
  early h := ⟨h.stream, h.writeFailed⟩

/-- The second message is the first as it is still being written, valid or too early to be read. -/
structure OnlyAsked (m m' : Message) : Prop where
  stream : m'.stream = m.stream
  frames : m'.frames = m.frames
  writeFailed : m'.writeFailed = m.writeFailed
  failure : m'.failure = m.failure ∨ m'.failure = none ∨ m'.failure = some .notYetSealed

theorem OnlyAsked.refl (m : Message) : m.OnlyAsked m := ⟨rfl, rfl, rfl, .inl rfl⟩

theorem OnlyAsked.resetFailure (h : m.OnlyAsked m') : m'.resetFailure = m.resetFailure := by
  obtain ⟨stream, frames, failure, writeFailed⟩ := m
  obtain ⟨stream', frames', failure', writeFailed'⟩ := m'
  obtain ⟨rfl, rfl, rfl, -⟩ := h
  rfl

theorem OnlyAsked.early {α : Type} {x : Action α} (hx : Early x) (hm : m.stream.isSealed = false)
    (h : m.OnlyAsked m') : m.OnlyAsked (x.run m').2 := by
  rcases hx m' (by rw [h.stream, hm]) with hkeep | hearly
  · rwa [hkeep]
  · rw [hearly]
    exact ⟨h.stream, h.frames, h.writeFailed, .inr (.inr rfl)⟩

/-- **A sealed message that has not failed while it was written starts anew**, wherever reading has
come to. -/
theorem SameStream.restart (h : m.SameStream m') (hs : m.stream.isSealed = true)
    (hw : m.writeFailed = false) :
    m'.resetFailure.bind rewind = .ok (ofStream m.stream.rewind) := by
  have hsealed : m'.stream.sealUp = m'.stream := by
    have hs' : m'.stream.isSealed = true := h.isSealed.trans hs
    rw [Stream.sealUp, ← hs']
  have hw' : m'.writeFailed = false := (h.writeFailed hs).trans hw
  rw [resetFailure_eq_ok.mpr ⟨hw', rfl⟩, Except.bind, rewind]
  rcases hf : m'.frames with _ | ⟨f, fs⟩ <;>
    simp [ofStream, hsealed, h.stream, hw', h.isSealed.trans hs]

end Message

/-! ## Calls that read -/

namespace Call

variable {m m' : Message} {ρ : Registry} {c : Call}

/-- The call reads: it looks at the message, takes from it, or forgets that this has failed. -/
def isReading : Call → Bool
  | read _ | enterContainer _ | exitContainer | atEnd | peekType | resetFailure => true
  | _ => false

/-- Calls are made one after the other, each with its registry; what came of each, and the message
after it. -/
def outcomes : List (Registry × Call) → Message → List (Except Halt Answer × Message)
  | [], _ => []
  | c :: calls, m => c.2.perform c.1 m :: outcomes calls (c.2.perform c.1 m).2

/-- The message after calls that are made one after the other. -/
def performEach (calls : List (Registry × Call)) (m : Message) : Message :=
  calls.foldl (fun m c => (c.2.perform c.1 m).2) m

theorem outcomes_append (calls calls' : List (Registry × Call)) (m : Message) :
    outcomes (calls ++ calls') m = outcomes calls m ++ outcomes calls' (performEach calls m) := by
  induction calls generalizing m with
  | nil => rfl
  | cons c calls ih =>
    rw [List.cons_append, outcomes, outcomes, ih]
    rfl

/-- What the steps of reading and resetting leave as it is, a call that reads leaves as it is. -/
theorem keeps_of_admitsTaking {P : Message → Prop}
    (hP : Action.AdmitsTaking fun _ => Action.Keeps P)
    (hreset : ∀ {m m'}, m.resetFailure = .ok m' → P m → P m') (hc : c.isReading = true) (h : P m) :
    P (c.perform ρ m).2 := by
  cases c with
  | read asked =>
    cases asked with
    | type e => exact hP.read ρ e m h
    | opening d => exact hP.enterContainer d m h
    | closing => exact hP.exitContainer m h
  | enterContainer d => exact hP.enterContainer d m h
  | exitContainer => exact hP.exitContainer m h
  | atEnd | peekType => exact h
  | resetFailure =>
    change P (change m (.value .null) m.resetFailure).2
    rcases hr : m.resetFailure with f | m'
    · exact h
    · exact hreset hr h
  | _ => cases hc

theorem sameStream_perform (hc : c.isReading = true) (h : m.SameStream m') :
    m.SameStream (c.perform ρ m').2 :=
  keeps_of_admitsTaking (lasting_sameStream m).admitsTaking
    (fun hr h => by obtain ⟨-, rfl⟩ := resetFailure_eq_ok.mp hr; exact ⟨h.stream, h.writeFailed⟩)
    hc h

theorem onlyAsked_perform (hm : m.stream.isSealed = false) (hc : c.isReading = true)
    (h : m.OnlyAsked m') : m.OnlyAsked (c.perform ρ m').2 := by
  have henter : ∀ d, Action.Early (Message.enterContainer d) := fun _ => Action.early_readable_bind
  have hexit : Action.Early Message.exitContainer := Action.early_readable_bind
  cases c with
  | read asked =>
    cases asked with
    | type e => exact h.early (Action.early_read ρ e) hm
    | opening d => exact h.early (henter d) hm
    | closing => exact h.early hexit hm
  | enterContainer d => exact h.early (henter d) hm
  | exitContainer => exact h.early hexit hm
  | atEnd | peekType => exact h
  | resetFailure =>
    change m.OnlyAsked (change m' (.value .null) m'.resetFailure).2
    rcases hr : m'.resetFailure with f | m''
    · exact h
    · obtain ⟨-, rfl⟩ := resetFailure_eq_ok.mp hr
      exact ⟨h.stream, h.frames, h.writeFailed, .inr (.inl rfl)⟩
  | _ => cases hc

/-- What holds of the message before the calls, and is left as it is by each, holds after them. -/
theorem keeps_performEach {P : Message → Prop} {calls : List (Registry × Call)} {m : Message}
    (hstep : ∀ c ∈ calls, ∀ m, P m → P (c.2.perform c.1 m).2) (h : P m) :
    P (performEach calls m) := by
  induction calls generalizing m with
  | nil => exact h
  | cons c calls ih =>
    obtain ⟨hc, hcalls⟩ := List.forall_mem_cons.mp hstep
    exact ih hcalls (hc m h)

theorem performEach_of_isReading {P : Message → Prop}
    (hstep : ∀ {c : Call} {ρ m'}, c.isReading = true → P m' → P (c.perform ρ m').2)
    {calls : List (Registry × Call)} {m : Message} (hcalls : ∀ c ∈ calls, c.2.isReading = true)
    (h : P m) : P (performEach calls m) :=
  keeps_performEach (fun c hc _ hm => hstep (hcalls c hc) hm) h

theorem sameStream_performEach {calls : List (Registry × Call)}
    (hcalls : ∀ c ∈ calls, c.2.isReading = true) (m : Message) :
    m.SameStream (performEach calls m) :=
  performEach_of_isReading sameStream_perform hcalls ⟨rfl, fun _ => rfl⟩

/-- **Reading can be done again.** Calls that read, in any order and whatever comes of them, leave
the items, the descriptors, the envelope and the seal of a message as they are. While the message is
being written they leave its stream and its open containers as they are, so that with the failure
reset whatever is done with it from there is done as if there had been no calls. A sealed message
that has not failed while it was written becomes, with its failure reset and rewound, the message
over its stream from the first item on; reading it then once more comes to the same outcomes. -/
theorem rereads (m : Message) (calls : List (Registry × Call))
    (hcalls : ∀ c ∈ calls, c.2.isReading = true) :
    let m' := performEach calls m
    (m'.stream.items = m.stream.items ∧ m'.stream.descriptors = m.stream.descriptors ∧
      m'.stream.envelope = m.stream.envelope ∧ m'.stream.isSealed = m.stream.isSealed) ∧
    (m.stream.isSealed = false →
      m'.stream = m.stream ∧ m'.frames = m.frames ∧ m'.resetFailure = m.resetFailure ∧
        (m.isValid = true → m.writeFailed = false → ∀ ρ uses,
          Use.after (.call ρ .resetFailure :: uses) m' = Use.after uses m)) ∧
    (m.stream.isSealed = true → m.writeFailed = false →
      let start := ofStream m.stream.rewind
      (start.isValid = true ∧ start.stream.cursor = 0 ∧ start.frames = []) ∧
      m'.resetFailure.bind Message.rewind = .ok start ∧
      ∀ again : List (Registry × Call), (∀ c ∈ again, c.2.isReading = true) → ∀ ρ,
        ∃ r, outcomes (again ++ (ρ, .resetFailure) :: (ρ, .rewind) :: again) start =
          outcomes again start ++ (.ok (.value .null), r) :: (.ok .message, start) ::
            outcomes again start) := by
  intro m'
  have hsame := sameStream_performEach hcalls m
  refine ⟨⟨hsame.items, hsame.descriptors, hsame.envelope, hsame.isSealed⟩, fun hm => ?_,
    fun hs hw => ⟨⟨rfl, rfl, rfl⟩, hsame.restart hs hw, fun again hagain ρ => ?_⟩⟩
  · have hasked : m.OnlyAsked m' :=
      performEach_of_isReading (onlyAsked_perform hm) hcalls (.refl m)
    refine ⟨hasked.stream, hasked.frames, hasked.resetFailure, fun hv hw ρ uses => ?_⟩
    have hnone : m.failure = none := Option.isNone_iff_eq_none.mp hv
    have hreset : m'.resetFailure = .ok m := by
      rw [hasked.resetFailure, resetFailure_eq_ok, ← hnone]
      exact ⟨hw, rfl⟩
    have hperform : (Use.call ρ .resetFailure).perform m' = m := by
      change (change m' (.value .null) m'.resetFailure).2 = m
      rw [hreset]
      rfl
    rw [Use.after, List.foldl_cons, hperform]
    rfl
  · -- where the first reading has come to, the message starts anew
    obtain ⟨r, hr, hrewind⟩ := bind_eq_ok.mp
      ((sameStream_performEach hagain (ofStream m.stream.rewind)).restart hs rfl)
    refine ⟨r, ?_⟩
    rw [outcomes_append, outcomes, outcomes]
    simp only [perform, change, hr, hrewind]
    rfl

/-- An array is entered and a string asked for in it, too early and when there is none. -/
theorem rereads_array :
    let calls : List (Registry × Call) :=
      [({}, .enterContainer (arrayOf .int32)), (.common, .read (.type (.wire .string)))]
    let written : Message :=
      { stream := { items := [.opening (arrayOf .int32)] }
        frames := [{ container := arrayOf .int32, fields := ["i"] }] }
    let received : Message :=
      ofStream
        { items := [.opening (arrayOf .int32), .basic "i" (.integer 5), .closing]
          isSealed := true }
    (∀ c ∈ calls, c.2.isReading = true) ∧
    ((performEach calls written).isValid = false ∧
      ∀ ρ uses, Use.after (.call ρ .resetFailure :: uses) (performEach calls written) =
        Use.after uses written) ∧
    (performEach calls received).isValid = false ∧
    (performEach calls received).frames.length = 1 ∧
    (performEach calls received).resetFailure.bind Message.rewind = .ok received ∧
    ∃ r, outcomes (calls ++ ({}, .resetFailure) :: ({}, .rewind) :: calls) received =
      outcomes calls received ++ (.ok (.value .null), r) :: (.ok .message, received) ::
        outcomes calls received := by
  intro calls written received
  have hcalls : ∀ c ∈ calls, c.2.isReading = true := by decide
  obtain ⟨-, hwritten, -⟩ := rereads written calls hcalls
  obtain ⟨-, -, hreceived⟩ := rereads received calls hcalls
  obtain ⟨-, hrestart, hagain⟩ := hreceived rfl rfl
  exact ⟨hcalls, ⟨by decide +kernel, (hwritten rfl).2.2.2 rfl rfl⟩, by decide +kernel,
    by decide +kernel, hrestart, hagain calls hcalls {}⟩

end Call

end TypedBus
