import TypedBus.Proofs.Message.Mirrors
import TypedBus.Proofs.Message.Writing

/-!
# A failure is final

From the first failure on, a message stays as it is: what is left of a composite read or write, and
every later call, changes nothing of it but the flag of failed writing, and answers as if nothing
had been asked (`Call.stays_failed`). It does so until the failure is reset or the message is
rewound; there its history begins anew.

Calls are made as courses, which are not stopped by a failure (`Call.course`), and come to what they
come to as actions (`Call.perform`).
-/

namespace TypedBus

open Message

/-- What a read asks for: a value of a type, or to enter or leave a container. -/
inductive Asked
  | type (e : TypeExpr)
  | opening (c : Container)
  | closing

/-- A call on a message. -/
inductive Call
  | write (v : Value) (type : Option TypeExpr)
  | read (asked : Asked)
  | openContainer (c : Container)
  | closeContainer
  | enterContainer (c : Container)
  | exitContainer
  | atEnd
  | peekType
  | fail (reason : Value)
  | check
  | resetFailure
  | rewind

/-- What a call answers: most answer the message itself. -/
inductive Answer
  | message
  | value (v : Value)
  | truth (b : Bool)
  | peeked (code content : Text)

namespace Call

/-- What an action comes to, as it is told to its caller. -/
def tell {α : Type} (shown : Option α → Answer) (outcome : Except Stop α × Message) :
    Except Halt Answer × Message :=
  (Course.told shown outcome.1, outcome.2)

/-- A change of a message that may raise, as it is told to its caller. -/
def change (m : Message) (answer : Answer) (x : Except Fault Message) :
    Except Halt Answer × Message :=
  match x with
  | .ok m' => (.ok answer, m')
  | .error f => (.error (.raised f), m)

/-- Make a call as an action. -/
def perform (ρ : Registry) (m : Message) : Call → Except Halt Answer × Message
  | write v type => tell (fun _ => .message) ((Message.write v type).run m)
  | read (.type e) => tell (fun v => .value (Course.orNull v)) ((Message.read ρ e).run m)
  | read (.opening c) | enterContainer c =>
    tell (fun _ => .message) ((Message.enterContainer c).run m)
  | read .closing | exitContainer => tell (fun _ => .message) (Message.exitContainer.run m)
  | openContainer c => tell (fun _ => .message) ((Message.openContainer c).run m)
  | closeContainer => tell (fun _ => .message) (Message.closeContainer.run m)
  | atEnd => (.ok (.truth m.atEnd), m)
  | peekType => (.ok (.peeked m.peekType.1 m.peekType.2), m)
  | fail reason => (.ok .message, m.fail (.declared reason))
  | check => change m .message (m.check.map fun _ => m)
  | resetFailure => change m (.value .null) m.resetFailure
  | rewind => change m .message m.rewind

/-- Change a message and forget what it has been, or raise. -/
def renew (answer : Answer) (f : Message → Except Fault Message) : Course Answer := do
  let m ← Course.now
  let m' ← Course.lift (f m)
  Course.restart m'
  pure answer

/-- Make a call as a course. -/
def course (ρ : Registry) : Call → Course Answer
  | write v type => do
    Course.write v type
    pure .message
  | read (.type e) => do
    let v ← Course.read ρ e
    pure (.value v)
  | read (.opening c) | enterContainer c => do
    Course.enterContainer c
    pure .message
  | read .closing | exitContainer => do
    Course.exitContainer
    pure .message
  | openContainer c => do
    Course.openContainer c
    pure .message
  | closeContainer => do
    Course.closeContainer
    pure .message
  | atEnd => do
    let m ← Course.now
    pure (.truth m.atEnd)
  | peekType => do
    let m ← Course.now
    pure (.peeked m.peekType.1 m.peekType.2)
  | fail reason => do
    Course.fail (.declared reason)
    pure .message
  | check => do
    let m ← Course.now
    Course.lift m.check
    pure .message
  | resetFailure => renew (.value .null) Message.resetFailure
  | rewind => renew .message Message.rewind

/-- What a call answers that has left the message invalid, or found it so: only `check` raises. -/
def AnswersFailed (m : Message) (answer : Except Halt Answer) : Call → Prop
  | read (.type _) => answer = .ok (.value .null)
  | write _ _ | read _ | openContainer _ | closeContainer | enterContainer _ | exitContainer
  | fail _ => answer = .ok .message
  | atEnd => answer = .ok (.truth true)
  | peekType => answer = .ok (.peeked m.peekType.1 m.peekType.2)
  | check => ∃ f, m.failure = some f ∧ answer = .error (.raised (.recordedFailure f.text))
  | resetFailure | rewind => True

end Call

/-- The history of a message to which the calls have been made. -/
def History.after (ρ : Registry) (calls : List Call) (h : History) : History :=
  calls.foldl (fun h call => ((call.course ρ).run h).2) h

/-! ## Invalid messages -/

namespace Course

variable {α β γ : Type} {b : β} {c : Course β} {x : Action α} {f : Unit → Action α}
  {shown : Option α → β} {h : History}

/-- An invalid message is left alone, by the course and by the action. -/
structure Inert (c : Course β) (x : Action α) (shown : Option α → β) : Prop where
  course : ∀ h, h.now.isValid = false → c.run h = (.ok (shown none), h)
  action : ∀ m, m.isValid = false → x.run m = (.error .failed, m)

theorem inert_ifValid (hb : b = shown none) :
    Inert (ifValid b c) (Action.ifValid x) shown where
  course _ hv := hb ▸ run_ifValid_of_invalid hv
  action _ hv := Action.run_ifValid_of_invalid hv

theorem inert_writable (hb : b = shown none) :
    Inert (writable >>= fun ok => onlyIf b ok c) (Message.writable >>= f) shown where
  course h hv := by
    rw [run_bind, writable, run_ifValid_of_invalid hv, ← hb]
    rfl
  action m hv := Action.run_bind_of_error (run_writable_of_invalid hv)

theorem inert_readable (hb : b = shown none) :
    Inert (readable >>= fun ok => onlyIf b ok c) (Message.readable >>= f) shown where
  course h hv := by
    rw [run_bind, readable, run_ifValid_of_invalid hv, ← hb]
    rfl
  action m hv := by
    refine Action.run_bind_of_error ?_
    rw [Message.readable, Action.run_get_bind]
    simp [hv]

/-- What has been told may be told on in another way. -/
theorem Reflects.shows {outcome : Except Stop α × Message} (hc : Reflects shown h outcome (c.run h))
    (g : β → γ) :
    Reflects (fun a => g (shown a)) h outcome ((do let b ← c; pure (g b)).run h) := by
  obtain ⟨hanswer, hnow, hsticky, hpast, hfailed⟩ := hc
  rcases hrun : c.run h with ⟨halt | b, h'⟩ <;> rw [hrun] at hanswer hnow hsticky hpast hfailed <;>
    rw [run_bind, hrun] <;> refine ⟨?_, hnow, hsticky, hpast, hfailed⟩ <;>
    rcases outcome with ⟨(_ | _ | _) | a, m'⟩ <;> cases hanswer <;> rfl

/-- From any message, the course does what the action does. -/
theorem Mirrors.reflects (hc : Mirrors c x shown) (hi : Inert c x shown) (hs : h.Sticky) :
    Reflects shown h (x.run h.now) (c.run h) := by
  rcases hv : h.now.isValid with _ | _
  · rw [hi.course h hv, hi.action h.now hv]
    exact ⟨rfl, rfl, hs, List.suffix_refl _, iff_of_true hv rfl⟩
  · exact hc h hs hv

/-! ## Writing and reading -/

theorem reflects_openContainer (c : Container) (hs : h.Sticky) :
    Reflects (fun _ => ()) h ((Message.openContainer c).run h.now) ((openContainer c).run h) :=
  (mirrors_openContainer c).reflects (inert_writable rfl) hs

theorem reflects_closeContainer (hs : h.Sticky) :
    Reflects (fun _ => ()) h (Message.closeContainer.run h.now) (closeContainer.run h) :=
  mirrors_closeContainer.reflects (inert_writable rfl) hs

theorem reflects_enterContainer (c : Container) (hs : h.Sticky) :
    Reflects (fun _ => ()) h ((Message.enterContainer c).run h.now) ((enterContainer c).run h) :=
  (mirrors_enterContainer c).reflects (inert_readable rfl) hs

theorem reflects_exitContainer (hs : h.Sticky) :
    Reflects (fun _ => ()) h (Message.exitContainer.run h.now) (exitContainer.run h) :=
  mirrors_exitContainer.reflects (inert_readable rfl) hs

theorem reflects_fail (failure : Failure) (hs : h.Sticky) :
    Reflects (fun _ => ()) h ((Action.fail failure : Action Unit).run h.now)
      ((fail failure).run h) := by
  refine (mirrors_fail failure).reflects ⟨fun _ hv => run_ifValid_of_invalid hv, fun m hv => ?_⟩ hs
  have hfail : m.fail failure = m := by simp [Message.fail, hv]
  rw [Action.run_fail, hfail]

theorem reflects_write (v : Value) (type : Option TypeExpr) (hs : h.Sticky) :
    Reflects (fun _ => ()) h ((Message.write v type).run h.now) ((write v type).run h) := by
  cases v with
  | opening c => exact reflects_openContainer c hs
  | closing => exact reflects_closeContainer hs
  | _ =>
    refine Mirrors.reflects (Mirrors.ifValid (Mirrors.bind_lift fun t => ?_).ofIfValid)
      (inert_ifValid rfl) hs
    exact (mirrors_encodeWithin _ t _).ofIfValid

theorem reflects_read (ρ : Registry) (type : TypeExpr) (hs : h.Sticky) :
    Reflects orNull h ((Message.read ρ type).run h.now) ((read ρ type).run h) := by
  refine Mirrors.reflects (Mirrors.ifValid (Mirrors.bind_lift fun t => ?_).ofIfValid)
    (inert_ifValid rfl) hs
  exact (Mirrors.bind_now fun m _ => mirrors_decodeWithin (m.rest.length + 1) t).ofIfValid

end Course

/-! ## Calls -/

namespace Call

open Course

variable {ρ : Registry} {call : Call} {h : History}

/-- What holds of a call that has run its course from a history. -/
structure Made (ρ : Registry) (call : Call) (h : History)
    (result : Except Halt Answer × History) : Prop where
  /-- The answer and the message are those that the call as an action gives. -/
  same : (result.1, result.2.now) = call.perform ρ h.now
  /-- Nothing has changed since the first failure. -/
  sticky : result.2.Sticky
  /-- All that the message has been is remembered, until it is renewed. -/
  past : h.states <:+ result.2.states ∨
    result.2.past = [] ∧ (call = .rewind ∨ call = .resetFailure ∧ result.1 = .ok (.value .null))
  /-- A message that is invalid now was asked in vain. -/
  failed : result.2.now.isValid = false → call.AnswersFailed result.2.now result.1

theorem made_of_reflects {α : Type} {shown : Option α → Answer}
    {outcome : Except Stop α × Message} {result : Except Halt Answer × History}
    (hr : Reflects shown h outcome result) (hperform : call.perform ρ h.now = tell shown outcome)
    (hnone : call.AnswersFailed result.2.now (.ok (shown none))) : Made ρ call h result where
  same := by rw [hperform, tell, hr.answer, hr.now]
  sticky := hr.sticky
  past := .inl hr.past
  failed hv := by
    rw [hr.answer, hr.failed.mp hv]
    exact hnone

/-- A call that answers the message. -/
theorem made_of_step {c : Course Unit} {outcome : Except Stop Unit × Message}
    (hr : Reflects (fun _ => ()) h outcome (c.run h))
    (hperform : call.perform ρ h.now = tell (fun _ => .message) outcome)
    (hnone : ∀ m, call.AnswersFailed m (.ok .message)) :
    Made ρ call h ((do c; pure .message : Course Answer).run h) :=
  made_of_reflects (hr.shows fun _ => Answer.message) hperform (hnone _)

/-- A call that only looks at the message. -/
theorem made_of_answer {answer : Except Halt Answer} (hs : h.Sticky)
    (hperform : call.perform ρ h.now = (answer, h.now))
    (hfailed : h.now.isValid = false → call.AnswersFailed h.now answer) :
    Made ρ call h (answer, h) where
  same := hperform.symm
  sticky := hs
  past := .inl (List.suffix_refl _)
  failed := hfailed

/-- A call that begins a new history, or raises. -/
theorem made_of_renew {answer : Answer} {f : Message → Except Fault Message} (hs : h.Sticky)
    (hperform : call.perform ρ h.now = change h.now answer (f h.now))
    (hfailed : ∀ m answer, call.AnswersFailed m answer)
    (hcall : call = .rewind ∨ call = .resetFailure ∧ answer = .value .null) :
    Made ρ call h ((renew answer f).run h) := by
  have hrun : (renew answer f).run h =
      (do let m' ← lift (f h.now); restart m'; pure answer : Course Answer).run h := rfl
  rw [hrun]
  rcases hf : f h.now with fault | m' <;> rw [hf] at hperform
  · exact made_of_answer hs hperform fun _ => hfailed _ _
  · refine ⟨hperform.symm, History.sticky_start m', .inr ⟨rfl, ?_⟩, fun _ => hfailed _ _⟩
    exact hcall.imp_right fun ⟨hreset, hanswer⟩ => ⟨hreset, congrArg Except.ok hanswer⟩

/-- The recorded failure is raised whenever it is asked for. -/
theorem made_check (hs : h.Sticky) : Made ρ .check h ((check.course ρ).run h) := by
  have hrun : (check.course ρ).run h =
      (do lift h.now.check; pure .message : Course Answer).run h := rfl
  have hperform : check.perform ρ h.now = change h.now .message (h.now.check.map fun _ => h.now) :=
    rfl
  rw [hrun]
  rcases hf : h.now.failure with _ | f
  · have hcheck : h.now.check = .ok () := by rw [Message.check, hf]
    rw [hcheck] at hperform ⊢
    refine made_of_answer hs hperform fun hv => ?_
    rw [Message.isValid, hf] at hv
    cases hv
  · have hcheck : h.now.check = .error (.recordedFailure f.text) := by rw [Message.check, hf]
    rw [hcheck] at hperform ⊢
    exact made_of_answer hs hperform fun _ => ⟨f, hf, rfl⟩

/-- **Every call runs its course** so that nothing changes from the first failure on. -/
theorem made (hs : h.Sticky) : ∀ call : Call, Made ρ call h ((call.course ρ).run h)
  | write v type => made_of_step (reflects_write v type hs) rfl fun _ => rfl
  | read (.type e) => made_of_reflects ((reflects_read ρ e hs).shows Answer.value) rfl rfl
  | read (.opening c) | enterContainer c =>
    made_of_step (reflects_enterContainer c hs) rfl fun _ => rfl
  | read .closing | exitContainer => made_of_step (reflects_exitContainer hs) rfl fun _ => rfl
  | openContainer c => made_of_step (reflects_openContainer c hs) rfl fun _ => rfl
  | closeContainer => made_of_step (reflects_closeContainer hs) rfl fun _ => rfl
  | fail reason => made_of_step (reflects_fail (.declared reason) hs) rfl fun _ => rfl
  | atEnd => made_of_answer hs rfl fun hv => by
    have hend : h.now.atEnd = true := by simp [Message.atEnd, hv]
    rw [hend]
    rfl
  | peekType => made_of_answer hs rfl fun _ => rfl
  | check => made_check hs
  | resetFailure => made_of_renew hs rfl (fun _ _ => trivial) (.inr ⟨rfl, rfl⟩)
  | rewind => made_of_renew hs rfl (fun _ _ => trivial) (.inl rfl)

/-- The message that is left when the calls have been made as actions. -/
def performAll (ρ : Registry) (calls : List Call) (m : Message) : Message :=
  calls.foldl (fun m call => (call.perform ρ m).2) m

theorem after_made : ∀ (calls : List Call) {h : History}, h.Sticky →
    (h.after ρ calls).Sticky ∧ (h.after ρ calls).now = performAll ρ calls h.now
  | [], _, hs => ⟨hs, rfl⟩
  | call :: calls, h, hs => by
    have hmade := made (ρ := ρ) hs call
    have hnext : ((call.course ρ).run h).2.now = (call.perform ρ h.now).2 :=
      congrArg Prod.snd hmade.same
    obtain ⟨hsticky, hnow⟩ := after_made calls hmade.sticky
    refine ⟨hsticky, hnow.trans ?_⟩
    rw [hnext]
    rfl

/-- **A failure is final**: whatever is called in whatever order, no step of any call changes a
message that has become invalid, in the middle of a call or before it, until its failure is reset or
it is rewound; and a call that leaves it invalid answers as if nothing had been asked. -/
theorem stays_failed (ρ : Registry) (m : Message) (calls : List Call) (call : Call) :
    let h := History.after ρ calls { now := m }
    h.now = performAll ρ calls m ∧ h.Sticky ∧ Made ρ call h ((call.course ρ).run h) := by
  obtain ⟨hsticky, hnow⟩ := after_made (ρ := ρ) calls (History.sticky_start m)
  exact ⟨hnow, hsticky, made hsticky call⟩

end Call

end TypedBus
