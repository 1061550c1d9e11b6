import TypedBus.Proofs.Message.Course
import TypedBus.Proofs.Message.Decode

/-!
# Courses do what actions do

From a valid message a course comes to the same answer and the same message as the action that it
is written after, although it is not stopped by a failure (`Course.Mirrors`); and it never changes a
message that it has found invalid, but for the flag of failed writing (`History.Sticky`). Both are
shown together, step by step: a step mirrors its action, and one step after the other mirrors one
action after the other if the rest of the course leaves an invalid message alone
(`Course.Mirrors.bind`), as it does where it looks at the message first (`Mirrors.bind_ifValid`).
-/

namespace TypedBus

open Message WireType

namespace Message

/-- The second message is the first but for the flag of failed writing. -/
def Stays (m m' : Message) : Prop := m' = { m with writeFailed := m'.writeFailed }

theorem Stays.trans {m m' m'' : Message} (h : m.Stays m') (h' : m'.Stays m'') : m.Stays m'' := by
  unfold Stays at *
  rw [h', h]

theorem Stays.isValid {m m' : Message} (h : m.Stays m') : m'.isValid = m.isValid := by
  unfold Stays at h
  rw [h]
  rfl

end Message

namespace History

variable {h : History}

/-- Once it was invalid, the message has stayed as it was. -/
def Sticky (h : History) : Prop :=
  h.states.Pairwise fun later earlier => earlier.isValid = false → earlier.Stays later

theorem sticky_start (m : Message) : Sticky { now := m } := List.pairwise_singleton _ _

/-- A message that is valid has always been valid. -/
theorem Sticky.valid_past (hs : h.Sticky) (hv : h.now.isValid = true) :
    ∀ m ∈ h.states, m.isValid = true := by
  obtain ⟨hpast, -⟩ := List.pairwise_cons.mp hs
  refine List.forall_mem_cons.mpr ⟨hv, fun m hm => ?_⟩
  rcases hm' : m.isValid with _ | _
  · rw [(hpast m hm hm').isValid, hm'] at hv
    cases hv
  · rfl

/-- Anything may become of a valid message. -/
theorem Sticky.change (hs : h.Sticky) (hv : h.now.isValid = true) (m : Message) :
    Sticky { now := m, past := h.states } := by
  refine List.pairwise_cons.mpr ⟨fun m' hm' hinvalid => ?_, hs⟩
  rw [hs.valid_past hv m' hm'] at hinvalid
  cases hinvalid

/-- An invalid one must stay. -/
theorem Sticky.stay (hs : h.Sticky) (hm : h.now.Stays m) :
    Sticky { now := m, past := h.states } := by
  obtain ⟨hpast, -⟩ := List.pairwise_cons.mp hs
  refine List.pairwise_cons.mpr ⟨?_, hs⟩
  exact List.forall_mem_cons.mpr ⟨fun _ => hm, fun m' hm' hinvalid =>
    (hpast m' hm' hinvalid).trans hm⟩

end History

namespace Course

variable {α β γ δ : Type} {b : β} {c : Course β} {h : History}

/-! ## Running courses -/

theorem run_bind (c : Course α) (f : α → Course β) (h : History) :
    (c >>= f).run h =
      match c.run h with
      | (.ok a, h') => (f a).run h'
      | (.error halt, h') => (.error halt, h') := rfl

theorem run_now_bind (f : Message → Course α) (h : History) :
    (now >>= f).run h = (f h.now).run h := rfl

theorem run_step_bind (f : Message → Message) (c : Unit → Course α) (h : History) :
    (step f >>= c).run h = (c ()).run { now := f h.now, past := h.states } := rfl

theorem run_ifValid (hv : h.now.isValid = true) : (ifValid b c).run h = c.run h := by
  rw [ifValid, run_now_bind, if_pos hv]

theorem run_ifValid_of_invalid (hv : h.now.isValid = false) :
    (ifValid b c).run h = (.ok b, h) := by
  rw [ifValid, run_now_bind, if_neg (by simp [hv])]
  rfl

/-! ## Mirroring -/

/-- A value, or what is told in place of one. -/
def orNull (v : Option Value) : Value := v.getD .null

/-- A row of values as one, or what is told in place of it. -/
def rowOrNull (vs : Option (List Value)) : Value := orNull (vs.map .tuple)

/-- What the caller of a course is told in place of what an action comes to: something else than an
answer, when a failure has been recorded. -/
def told (shown : Option α → β) : Except Stop α → Except Halt β
  | .ok a => .ok (shown (some a))
  | .error .failed => .ok (shown none)
  | .error (.raised f) => .error (.raised f)
  | .error .endless => .error .endless

/-- A course has come to what an action comes to. -/
structure Reflects (shown : Option α → β) (before : History) (outcome : Except Stop α × Message)
    (result : Except Halt β × History) : Prop where
  answer : result.1 = told shown outcome.1
  now : result.2.now = outcome.2
  sticky : result.2.Sticky
  past : before.states <:+ result.2.states
  failed : result.2.now.isValid = false ↔ outcome.1 = .error .failed

/-- From a valid message, the course does what the action does. -/
def Mirrors (c : Course β) (x : Action α) (shown : Option α → β) : Prop :=
  ∀ h, h.Sticky → h.now.isValid = true → Reflects shown h (x.run h.now) (c.run h)

variable {x : Action α} {f : α → Action γ} {k : β → Course δ} {shown : Option α → β}
  {shown' : Option γ → δ}

/-- **One step after the other mirrors one action after the other**, if what comes after a failure
leaves the message alone. -/
theorem Mirrors.bind (hc : Mirrors c x shown) (hk : ∀ a, Mirrors (k (shown (some a))) (f a) shown')
    (hskip : ∀ h, h.now.isValid = false → (k (shown none)).run h = (.ok (shown' none), h)) :
    Mirrors (c >>= k) (x >>= f) shown' := by
  intro h hs hv
  have hreflects := hc h hs hv
  rw [run_bind, Action.run_bind]
  -- both stop, or the action stops and the course goes on, which is a failure, or both go on
  rcases hx : x.run h.now with ⟨stop | a, m'⟩ <;> rcases hrun : c.run h with ⟨halt | b, h'⟩ <;>
    rw [hx, hrun] at hreflects <;> obtain ⟨hanswer, rfl, hsticky, hpast, hfailed⟩ := hreflects
  · cases stop with
    | failed => cases hanswer
    | raised f =>
      cases hanswer
      exact ⟨rfl, rfl, hsticky, hpast, by simpa using hfailed⟩
    | endless =>
      cases hanswer
      exact ⟨rfl, rfl, hsticky, hpast, by simpa using hfailed⟩
  · cases stop with
    | failed =>
      cases hanswer
      have hinvalid := hfailed.mpr rfl
      simp only [hskip h' hinvalid]
      exact ⟨rfl, rfl, hsticky, hpast, iff_of_true hinvalid rfl⟩
    | raised f => cases hanswer
    | endless => cases hanswer
  · cases hanswer
  · cases hanswer
    have hvalid : h'.now.isValid = true := by
      rcases hv' : h'.now.isValid with _ | _
      · cases hfailed.mp hv'
      · rfl
    have hrest := hk a h' hsticky hvalid
    exact ⟨hrest.answer, hrest.now, hrest.sticky, hpast.trans hrest.past, hrest.failed⟩

theorem Mirrors.ifValid (hc : Mirrors c x shown) : Mirrors (Course.ifValid b c) x shown := by
  intro h hs hv
  rw [run_ifValid hv]
  exact hc h hs hv

/-- A course may look at the message after any step. -/
theorem Mirrors.bind_ifValid (hc : Mirrors c x shown)
    (hk : ∀ a, Mirrors (k (shown (some a))) (f a) shown') :
    Mirrors (c >>= fun b => Course.ifValid (shown' none) (k b)) (x >>= f) shown' :=
  hc.bind (fun a => (hk a).ifValid) fun _ hv => run_ifValid_of_invalid hv

/-- A course may also go by what the step answers. -/
theorem Mirrors.bind_onlyIf {c : Course Bool} {d : Course δ} (hc : Mirrors c x Option.isSome)
    (hd : ∀ a, Mirrors d (f a) shown') :
    Mirrors (c >>= fun ok => onlyIf (shown' none) ok d) (x >>= f) shown' :=
  hc.bind hd fun _ _ => rfl

theorem Mirrors.bind_now {k : Message → Course δ} {f : Message → Action γ}
    (hk : ∀ m, m.isValid = true → Mirrors (k m) (f m) shown') :
    Mirrors (now >>= k) (Action.get >>= f) shown' := by
  intro h hs hv
  rw [run_now_bind, Action.run_get_bind]
  exact hk h.now hv h hs hv

theorem Mirrors.ofIfValid (hc : Mirrors c x shown) : Mirrors c (Action.ifValid x) shown := by
  intro h hs hv
  rw [Action.run_ifValid hv]
  exact hc h hs hv

/-- A step that leaves a valid message alone reflects whatever does not fail. -/
theorem reflects_self {outcome : Except Stop α} (hs : h.Sticky) (hv : h.now.isValid = true)
    (ho : outcome ≠ .error .failed) :
    Reflects shown h (outcome, h.now) (told shown outcome, h) where
  answer := rfl
  now := rfl
  sticky := hs
  past := List.suffix_refl _
  failed := iff_of_false (by simp [hv]) ho

theorem mirrors_pure (a : α) : Mirrors (pure (shown (some a))) (pure a) shown :=
  fun _ hs hv => reflects_self hs hv nofun

theorem mirrors_raise (f : Fault) : Mirrors (raise f) (Action.raise f) shown :=
  fun _ hs hv => reflects_self hs hv nofun

theorem mirrors_endless : Mirrors (halt .endless) (Action.stop .endless) shown :=
  fun _ hs hv => reflects_self hs hv nofun

/-- What is told may be told in another way. -/
theorem Mirrors.shows (hc : Mirrors c x shown) (g : β → δ) :
    Mirrors (do let b ← c; pure (g b)) x fun a => g (shown a) := by
  have hpure : ∀ a, Mirrors (pure (g (shown (some a)))) (pure a) fun a => g (shown a) :=
    fun a => mirrors_pure a
  have h : Mirrors (do let b ← c; pure (g b)) (x >>= pure) fun a => g (shown a) :=
    hc.bind hpure fun _ _ => rfl
  rwa [bind_pure] at h

/-- What an action answers may be put in another form before it is told. -/
theorem Mirrors.map {shown : Option γ → β} (g : α → γ) (hc : Mirrors c x fun a => shown (a.map g)) :
    Mirrors c (do let a ← x; pure (g a)) shown := by
  intro h hs hv
  obtain ⟨hanswer, hnow, hsticky, hpast, hfailed⟩ := hc h hs hv
  rw [Action.run_bind]
  rcases hx : x.run h.now with ⟨stop | a, m'⟩ <;> rw [hx] at hanswer hnow hfailed
  · refine ⟨?_, hnow, hsticky, hpast, ?_⟩
    · rw [hanswer]
      cases stop <;> rfl
    · simpa using hfailed
  · exact ⟨hanswer, hnow, hsticky, hpast, by simpa using hfailed⟩

/-- Lifting an outcome records nothing. -/
theorem Mirrors.bind_lift {x : Except Fault α} {k : α → Course δ}
    (hk : ∀ a, Mirrors (k a) (f a) shown') :
    Mirrors (lift x >>= k) (Action.lift x >>= f) shown' := by
  cases x with
  | ok a => exact hk a
  | error f => exact mirrors_raise f

/-- A step changes what a valid message holds, and not that it is valid. -/
theorem mirrors_step {g : Message → Message} (hg : ∀ m, (g m).isValid = m.isValid)
    {shown : Option Unit → Unit} : Mirrors (step g) (Action.modify g) shown := by
  intro h hs hv
  refine ⟨rfl, rfl, hs.change hv _, List.suffix_cons _ _, ?_⟩
  have hvalid : (g h.now).isValid = true := (hg h.now).trans hv
  simp [step, run, hvalid]

theorem Mirrors.bind_step {g : Message → Message} (hg : ∀ m, (g m).isValid = m.isValid)
    (hc : Mirrors c x shown) : Mirrors (do step g; c) (do Action.modify g; x) shown := by
  intro h hs hv
  have hrest := hc { now := g h.now, past := h.states } (hs.change hv _) ((hg h.now).trans hv)
  exact ⟨hrest.answer, hrest.now, hrest.sticky, (List.suffix_cons _ _).trans hrest.past,
    hrest.failed⟩

/-- An action may change at once what the course changes in two steps. -/
theorem mirrors_steps {g g' : Message → Message} (hg : ∀ m, (g m).isValid = m.isValid)
    (hg' : ∀ m, (g' m).isValid = m.isValid) :
    Mirrors (do step g; step g') (Action.modify fun m => g' (g m)) fun _ => () := by
  have hbind : (Action.modify fun m => g' (g m)) = (do Action.modify g; Action.modify g') := rfl
  rw [hbind]
  exact Mirrors.bind_step hg (mirrors_step hg')

/-- Where the course and the action go by the same condition, they may be compared on either
side. -/
theorem Mirrors.ite {p : Prop} [Decidable p] {d : Course β} {y : Action α}
    (ht : p → Mirrors c x shown) (he : ¬p → Mirrors d y shown) :
    Mirrors (if p then c else d) (if p then x else y) shown := by
  by_cases hp : p
  · rw [if_pos hp, if_pos hp]
    exact ht hp
  · rw [if_neg hp, if_neg hp]
    exact he hp

/-! ## Failures -/

theorem mirrors_fail (failure : Failure) :
    Mirrors (fail failure) (Action.fail failure : Action α) fun _ => () := by
  intro h hs hv
  have hfailed := hs.change hv { h.now with failure := some failure }
  have hinvalid : (h.now.fail failure).isValid = false := isValid_fail failure
  rw [fail, run_ifValid hv, run_step_bind, run_now_bind]
  rcases hsealed : h.now.stream.isSealed with _ | _
  · have hnow : h.now.fail failure =
        { h.now with failure := some failure, writeFailed := true } := by
      simp [Message.fail, hv, hsealed]
    rw [hnow] at hinvalid
    exact ⟨rfl, hnow.symm, hfailed.stay rfl, (List.suffix_cons _ _).trans (List.suffix_cons _ _),
      iff_of_true hinvalid rfl⟩
  · have hnow : h.now.fail failure = { h.now with failure := some failure } := by
      simp [Message.fail, hv, hsealed]
    rw [hnow] at hinvalid
    exact ⟨rfl, hnow.symm, hfailed, List.suffix_cons _ _, iff_of_true hinvalid rfl⟩

/-- What records a failure may go on to answer something. -/
theorem mirrors_fail_pure (failure : Failure) :
    Mirrors (do fail failure; pure (shown none)) (Action.fail failure) shown := by
  -- the action gives no answer to go on with
  have hbind : Mirrors (do fail failure; pure (shown none))
      (Action.fail failure >>= fun a : Empty => nomatch a) shown :=
    (mirrors_fail failure).bind nofun fun _ _ => rfl
  exact hbind

theorem mirrors_refuse_pure (v : Value) (failure : Text → Failure) :
    Mirrors (do refuse v failure; pure (shown none)) (Action.refuse v failure) shown := by
  unfold refuse Action.refuse
  cases v.display with
  | ok text => exact mirrors_fail_pure (failure text)
  | error f => exact mirrors_raise f

theorem mirrors_orRefuse (v : Value) (failure : Text → Failure) (o : Option α) :
    Mirrors (orRefuse v failure o) (Action.orRefuse v failure o) id := by
  cases o with
  | some a => exact mirrors_pure a
  | none => exact mirrors_refuse_pure v failure

theorem mirrors_liftOrFail (failure : Fault → Failure) (x : Except Fault α) :
    Mirrors (liftOrFail failure x) (Action.liftOrFail failure x) id := by
  cases x with
  | ok a => exact mirrors_pure a
  | error f => exact mirrors_fail_pure (failure f)

/-! ## Writing items -/

/-- Writing to a sealed message fails, and is remembered for good. -/
theorem mirrors_alreadySealed :
    Mirrors
      (do
        fail .alreadySealed
        step fun m => { m with writeFailed := true }
        pure (shown none))
      (do
        Action.modify fun m => { m with writeFailed := true }
        Action.fail .alreadySealed)
      shown := by
  intro h hs hv
  have hfail := mirrors_fail (α := α) .alreadySealed h hs hv
  rcases hrun : (fail .alreadySealed).run h with ⟨answer, h'⟩
  rw [hrun] at hfail
  obtain ⟨hanswer, hnow, hsticky, hpast, -⟩ := hfail
  cases hanswer
  have hsame : ({ h'.now with writeFailed := true } : Message) =
      ({ h.now with writeFailed := true } : Message).fail .alreadySealed := by
    rw [show h'.now = h.now.fail .alreadySealed from hnow]
    have hv' : ({ h.now with writeFailed := true } : Message).isValid = true := hv
    simp [Message.fail, hv, hv']
  rw [run_bind, hrun]
  refine ⟨rfl, hsame, hsticky.stay rfl, hpast.trans (List.suffix_cons _ _), ?_⟩
  exact iff_of_true ((congrArg isValid hsame).trans (isValid_fail _)) rfl

theorem mirrors_writable : Mirrors writable Message.writable Option.isSome := by
  refine Mirrors.ifValid (Mirrors.bind_now fun m hm => ?_)
  have hvalid : ¬(!m.isValid) = true := by simp [hm]
  rw [if_neg hvalid]
  exact Mirrors.ite (fun _ => mirrors_alreadySealed) fun _ => mirrors_pure ()

theorem mirrors_expect (signature : Text) :
    Mirrors (expect signature) (Message.expect signature) Option.isSome := by
  refine Mirrors.bind_now fun m _ => ?_
  rcases m.frames with _ | ⟨f, fs⟩
  · exact Mirrors.ite (fun _ => mirrors_fail_pure _) fun _ => mirrors_pure ()
  · refine Mirrors.ite (fun _ => ?_) fun _ => ?_
    · exact Mirrors.ite (fun _ => mirrors_pure ()) fun _ => mirrors_fail_pure _
    · rcases f.fields[f.index]? with _ | expected
      · exact mirrors_fail_pure _
      · exact Mirrors.bind_step (fun _ => rfl) <|
          Mirrors.ite (fun _ => mirrors_pure ()) fun _ => mirrors_fail_pure _

theorem mirrors_pushFrame (c : Container) :
    Mirrors (pushFrame c) (Message.pushFrame c) fun _ => () := by
  unfold pushFrame Message.pushFrame
  rcases c.fields with e | fields
  · exact mirrors_raise _
  · exact mirrors_step fun _ => by rfl

theorem mirrors_openContainer (c : Container) :
    Mirrors (openContainer c) (Message.openContainer c) fun _ => () := by
  refine mirrors_writable.bind_onlyIf fun _ => Mirrors.ite (fun _ => mirrors_fail _) fun _ => ?_
  exact (mirrors_expect _).bind_onlyIf fun _ =>
    Mirrors.bind_step (fun _ => rfl) (mirrors_pushFrame c)

theorem mirrors_closeContainer :
    Mirrors closeContainer Message.closeContainer fun _ => () := by
  refine mirrors_writable.bind_onlyIf fun _ => Mirrors.bind_now fun m _ => ?_
  rcases m.frames with _ | ⟨f, fs⟩
  · exact mirrors_raise _
  · refine Mirrors.ite (fun _ => mirrors_fail _) fun _ => ?_
    exact mirrors_steps (fun _ => rfl) fun _ => rfl

theorem mirrors_writeBasic (code : Text) (v : Value) :
    Mirrors (writeBasic code v) (Message.writeBasic code v) fun _ => () :=
  mirrors_writable.bind_onlyIf fun _ => (mirrors_expect code).bind_onlyIf fun _ =>
    mirrors_step fun _ => by rfl

/-! ## Reading items -/

theorem mirrors_readable : Mirrors readable Message.readable Option.isSome := by
  refine Mirrors.ifValid (Mirrors.bind_now fun m hm => ?_)
  have hvalid : ¬(!m.isValid) = true := by simp [hm]
  rw [if_neg hvalid]
  rcases m.stream.isSealed with _ | _
  · intro h hs hv
    exact ⟨rfl, rfl, hs.change hv _, List.suffix_cons _ _, iff_of_true rfl rfl⟩
  · exact mirrors_pure ()

theorem mirrors_enterContainer (c : Container) :
    Mirrors (enterContainer c) (Message.enterContainer c) fun _ => () := by
  refine mirrors_readable.bind_onlyIf fun _ => Mirrors.bind_now fun m _ => ?_
  rcases m.stream.peek with _ | ⟨code, v⟩ | d | _
  · exact mirrors_fail _
  · exact mirrors_fail _
  · exact Mirrors.ite (fun _ => Mirrors.bind_step (fun _ => rfl) (mirrors_pushFrame c)) fun _ =>
      mirrors_fail _
  · exact mirrors_fail _

/-- What passing over items until the container is closed does to a message. -/
def passing (c : Container) (fs : List Frame) (n : Nat) (items : List Item) : Action Unit :=
  match Item.toClosing n items with
  | none => do
    Action.modify (skip items.length)
    Action.fail (.noClosing c)
  | some k => Action.modify fun m => skip (k + 1) { m with frames := fs }

/-- Taking one item more comes first or last. -/
theorem passing_cons {c : Container} {fs : List Frame} {n n' : Nat} {item : Item}
    {items : List Item}
    (h : Item.toClosing n (item :: items) = (Item.toClosing n' items).map (· + 1)) :
    passing c fs n (item :: items) = (do Action.modify (skip 1); passing c fs n' items) := by
  unfold passing
  rw [h]
  cases Item.toClosing n' items with
  | none =>
    refine Action.ext fun m => ?_
    simp [Action.run_bind, skip_skip, Nat.add_comm 1]
  | some k =>
    refine Action.ext fun m => ?_
    simp [Action.run_bind, skip, Nat.add_comm, Nat.add_left_comm]

theorem mirrors_passOver (c : Container) (fs : List Frame) :
    ∀ (n : Nat) (items : List Item),
      Mirrors (passOver c fs n items) (passing c fs n items) fun _ => ()
  | _, [] => mirrors_fail _
  | 0, .closing :: _ => mirrors_steps (fun _ => rfl) fun _ => rfl
  | n + 1, .closing :: items => by
    rw [passing_cons rfl]
    exact Mirrors.bind_step (fun _ => rfl) (mirrors_passOver c fs n items)
  | n, .opening _ :: items => by
    rw [passing_cons rfl]
    exact Mirrors.bind_step (fun _ => rfl) (mirrors_passOver c fs (n + 1) items)
  | n, .basic _ _ :: items => by
    rw [passing_cons rfl]
    exact Mirrors.bind_step (fun _ => rfl) (mirrors_passOver c fs n items)

theorem mirrors_exitContainer :
    Mirrors exitContainer Message.exitContainer fun _ => () := by
  refine mirrors_readable.bind_onlyIf fun _ => Mirrors.bind_now fun m _ => ?_
  rcases m.frames with _ | ⟨f, fs⟩
  · exact mirrors_raise _
  · refine Mirrors.ite (fun _ => mirrors_passOver f.container fs 0 m.rest) fun _ => ?_
    rcases m.stream.peek with _ | ⟨code, v⟩ | d | _
    · exact mirrors_fail _
    · exact mirrors_fail _
    · exact mirrors_fail _
    · exact mirrors_steps (fun _ => rfl) fun _ => rfl

theorem mirrors_readBasic (code : Text) :
    Mirrors (readBasic code) (Message.readBasic code) orNull := by
  refine mirrors_readable.bind_onlyIf fun _ => Mirrors.bind_now fun m _ => ?_
  rcases m.stream.peek with _ | ⟨found, v⟩ | c | _
  · exact mirrors_fail_pure _
  · refine Mirrors.ite (fun _ => ?_) fun _ => mirrors_fail_pure _
    exact Mirrors.bind_step (fun _ => rfl) (mirrors_pure v)
  · exact mirrors_fail_pure _
  · exact mirrors_fail_pure _

theorem mirrors_resolve (index : Int) :
    Mirrors (resolve index) (Message.resolve index) orNull := by
  refine Mirrors.bind_now fun m _ => ?_
  rcases (if 0 ≤ index then m.stream.descriptors[index.toNat]? else none) with _ | descriptor
  · exact mirrors_refuse_pure _ _
  · simp only
    rcases descriptor.toInteger with f | n
    · exact Mirrors.ite (fun _ => mirrors_raise f) fun _ => mirrors_refuse_pure _ _
    · exact mirrors_pure _

/-! ## Writing values -/

theorem mirrors_attach (descriptor : Int) {k : Nat → Course δ} {f : Nat → Action γ}
    (hk : ∀ n, Mirrors (k n) (f n) shown') :
    Mirrors (attach descriptor >>= k) (Message.attach descriptor >>= f) shown' := by
  intro h hs hv
  let g : Message → Message := fun m =>
    { m with stream := m.stream.addDescriptor (.integer descriptor) }
  have hstep := (hk h.now.stream.descriptors.length).bind_step (g := g) fun _ => rfl
  exact hstep h hs hv

theorem mirrors_encodeBasic (b : BasicType) (v : Value) :
    Mirrors (encodeBasic b v) (b.encode v) fun _ => () := by
  refine Mirrors.ifValid ((mirrors_liftOrFail _ _).bind (fun x => ?_) fun _ _ => rfl)
  cases x with
  | handle descriptor => exact mirrors_attach descriptor fun _ => mirrors_writeBasic _ _
  | _ => exact mirrors_writeBasic _ _

/-- Values that are written one after the other. -/
theorem mirrors_each {w : α → Course Unit} {f : α → Action Unit} :
    ∀ {as : List α}, (∀ a ∈ as, Mirrors (w a) (f a) fun _ => ()) →
      Mirrors (each w as) (as.forM f) Option.isSome
  | [], _ => mirrors_pure ()
  | a :: as, h => by
    obtain ⟨ha, has⟩ := List.forall_mem_cons.mp h
    exact ha.bind_ifValid fun _ => mirrors_each has

/-- A composite value is closed after what stands in it. -/
theorem mirrors_closing {c : Course Unit} {x : Action Unit} (hc : Mirrors c x fun _ => ()) :
    Mirrors (do c; Course.ifValid () closeContainer) (do x; Message.closeContainer) fun _ => () :=
  hc.bind_ifValid fun _ => mirrors_closeContainer

variable {box : Value → Course Unit} {boxAction : Value → Action Unit}

theorem mirrors_encodeEntry {k x : WireType} {key value : Value → Course Unit}
    {keyAction valueAction : Value → Action Unit}
    (hk : ∀ v, Mirrors (key v) (keyAction v) fun _ => ())
    (hx : ∀ v, Mirrors (value v) (valueAction v) fun _ => ()) (v : Value) :
    Mirrors (encodeEntry k x key value v)
      (do
        let (a, b) ← v.entryParts
        Message.openContainer (entryOf k x)
        keyAction a
        valueAction b
        Message.closeContainer)
      fun _ => () := by
  rw [Action.entryParts_eq]
  refine Mirrors.ifValid ((mirrors_orRefuse v _ _).bind (fun p => ?_) fun _ _ => rfl)
  exact (mirrors_openContainer _).bind_ifValid fun _ => (hk p.1).bind_ifValid fun _ =>
    mirrors_closing (hx p.2)

/-- A row of values looks at the message before each of them. -/
theorem run_encodeFields_of_invalid {fs : List WireType} {vs : List Value}
    (hv : h.now.isValid = false) : (encodeFields box fs vs).run h = (.ok (), h) := by
  cases fs with
  | nil => rfl
  | cons f fs =>
    cases vs with
    | nil => rfl
    | cons v vs => exact run_ifValid_of_invalid hv

mutual

/-- **Writing a value mirrors writing it**, if that holds of variants. -/
theorem mirrors_encodeWith (hbox : ∀ v, Mirrors (box v) (boxAction v) fun _ => ()) :
    ∀ t v, Mirrors (encodeWith box t v) (WireType.encodeWith boxAction t v) fun _ => ()
  | .basic b, v => by
    rw [encodeWith, WireType.encodeWith]
    exact mirrors_encodeBasic b v
  | .variant, v => by
    rw [encodeWith, WireType.encodeWith]
    exact hbox v
  | .array e, v => by
    rw [encodeWith, WireType.encodeWith, Action.collection_eq]
    refine Mirrors.ifValid ((mirrors_orRefuse v _ _).bind (fun vs => ?_) fun _ _ => rfl)
    refine (mirrors_openContainer _).bind_ifValid fun _ => ?_
    exact (mirrors_each fun u _ => mirrors_encodeWith hbox e u).bind_onlyIf fun _ =>
      mirrors_closeContainer
  | .dict k x, v => by
    rw [encodeWith, WireType.encodeWith, Action.collection_eq]
    refine Mirrors.ifValid ((mirrors_orRefuse v _ _).bind (fun ps => ?_) fun _ _ => rfl)
    refine (mirrors_openContainer _).bind_ifValid fun _ => ?_
    refine (mirrors_each fun p _ => ?_).bind_onlyIf fun _ => mirrors_closeContainer
    exact mirrors_encodeEntry (mirrors_encodeWith hbox k) (mirrors_encodeWith hbox x) p
  | .entry k x, v => by
    rw [encodeWith, WireType.encodeWith]
    exact mirrors_encodeEntry (mirrors_encodeWith hbox k) (mirrors_encodeWith hbox x) v
  | .struct fs, v => by
    rw [encodeWith, WireType.encodeWith, Action.fields_eq]
    refine Mirrors.ifValid ((mirrors_orRefuse v _ _).bind (fun vs => ?_) fun _ _ => rfl)
    refine Mirrors.ite (fun _ => mirrors_fail _) fun _ => ?_
    exact (mirrors_openContainer _).bind_ifValid fun _ =>
      mirrors_closing (mirrors_encodeFields hbox fs vs)
  | .tuple fs, v => by
    rw [encodeWith, WireType.encodeWith, Action.fields_eq]
    refine Mirrors.ifValid ((mirrors_orRefuse v _ _).bind (fun vs => ?_) fun _ _ => rfl)
    exact Mirrors.ite (fun _ => mirrors_fail _) fun _ => mirrors_encodeFields hbox fs vs

theorem mirrors_encodeFields (hbox : ∀ v, Mirrors (box v) (boxAction v) fun _ => ()) :
    ∀ fs vs, Mirrors (encodeFields box fs vs) (WireType.encodeFields boxAction fs vs) fun _ => ()
  | [], _ => mirrors_pure ()
  | _ :: _, [] => mirrors_pure ()
  | f :: fs, v :: vs => by
    rw [encodeFields, WireType.encodeFields]
    exact Mirrors.ifValid <| (mirrors_encodeWith hbox f v).bind
      (fun _ => mirrors_encodeFields hbox fs vs) fun _ hv => run_encodeFields_of_invalid hv

end

theorem mirrors_encodeBoxed {encode : WireType → Value → Course Unit}
    {encodeAction : WireType → Value → Action Unit}
    (he : ∀ t v, Mirrors (encode t v) (encodeAction t v) fun _ => ()) (v : Value) :
    Mirrors (encodeBoxed encode v) (WireType.encodeBoxed encodeAction v) fun _ => () := by
  refine Mirrors.ifValid (Mirrors.bind_lift fun x => ?_)
  cases x with
  | variant _ p t =>
    cases t with
    | none => exact mirrors_pure ()
    | some t =>
      exact (mirrors_openContainer _).bind_ifValid fun _ => mirrors_closing (he t p)
  | _ => exact mirrors_pure ()

/-- **Writing a value as one of a type mirrors writing it so.** -/
theorem mirrors_encodeWithin :
    ∀ n t v, Mirrors (encodeWithin n t v) (WireType.encodeWithin n t v) fun _ => ()
  | 0 => mirrors_encodeWith fun _ => mirrors_raise _
  | n + 1 => mirrors_encodeWith (mirrors_encodeBoxed (mirrors_encodeWithin n))

/-! ## Reading values -/

theorem mirrors_decodeBasic (b : BasicType) :
    Mirrors (decodeBasic b) b.decode orNull := by
  refine (mirrors_readBasic _).bind_ifValid fun v => ?_
  cases b with
  | handle =>
    cases v with
    | integer n | fixed _ n | handle n => exact mirrors_resolve n
    | _ => exact mirrors_refuse_pure _ _
  | _ => exact (mirrors_liftOrFail _ _).shows orNull

variable {put : β → Value → Except Fault β} {element : Course Value} {elementAction : Action Value}

theorem mirrors_gather (he : Mirrors element elementAction orNull) (b : β) :
    Mirrors (gather element put b) (do let v ← elementAction; Action.lift (put b v)) id := by
  refine he.bind_ifValid fun v => ?_
  have hput : Mirrors (do let b ← lift (put b v); pure (some b))
      (Action.lift (put b v) >>= pure) id :=
    Mirrors.bind_lift fun b => mirrors_pure b
  rwa [bind_pure] at hput

theorem mirrors_untilEnd {pass : β → Course (Option β)} {passAction : β → Action β}
    (hp : ∀ b, Mirrors (pass b) (passAction b) id) :
    ∀ n b, Mirrors (untilEnd pass n b) (Message.untilEnd passAction n b) id
  | 0, _ => mirrors_endless
  | n + 1, b => by
    refine Mirrors.bind_now fun before _ => Mirrors.ite (fun _ => mirrors_pure b) fun _ => ?_
    refine (hp b).bind (fun b => ?_) fun _ _ => rfl
    refine Mirrors.bind_now fun after _ => Mirrors.ite (fun _ => ?_) fun _ => mirrors_endless
    exact mirrors_untilEnd hp n b

theorem mirrors_decodeArray {c : Container} {b : β} {whole : β → Value}
    (he : Mirrors element elementAction orNull) :
    Mirrors (decodeArray c element put b whole)
      (do
        Message.enterContainer c
        let b ← Message.repeatUntilEnd (fun b => do let v ← elementAction; Action.lift (put b v)) b
        Message.exitContainer
        pure (whole b))
      orNull := by
  refine (mirrors_enterContainer c).bind_ifValid fun _ => ?_
  have hloop : Mirrors (repeatUntilEnd (gather element put) b)
      (Message.repeatUntilEnd (fun b => do let v ← elementAction; Action.lift (put b v)) b) id :=
    Mirrors.bind_now fun m _ => mirrors_untilEnd (mirrors_gather he) (m.rest.length + 1) b
  refine hloop.bind (fun b => ?_) fun _ _ => rfl
  exact mirrors_exitContainer.bind_ifValid fun _ => mirrors_pure (whole b)

theorem mirrors_decodeEntry {k x : WireType} {key value : Course Value}
    {keyAction valueAction : Action Value} (hk : Mirrors key keyAction orNull)
    (hx : Mirrors value valueAction orNull) :
    Mirrors (decodeEntry k x key value)
      (do
        Message.enterContainer (entryOf k x)
        let a ← keyAction
        let b ← valueAction
        Message.exitContainer
        pure (Value.entry a b))
      orNull := by
  refine (mirrors_enterContainer _).bind_ifValid fun _ => ?_
  refine hk.bind_ifValid fun a => hx.bind_ifValid fun b => ?_
  exact mirrors_exitContainer.bind_ifValid fun _ => mirrors_pure (Value.entry a b)

/-- A composite value is left after what stands in it has been read. -/
theorem mirrors_leaving {body : Course Value} {bodyAction : Action α} {s : Option α → Value}
    {g : Value → Value} {whole : α → Value} (hb : Mirrors body bodyAction s)
    (hg : ∀ a, g (s (some a)) = whole a) :
    Mirrors
      (do
        let v ← body
        Course.ifValid () exitContainer
        Course.ifValid .null (pure (g v)))
      (do
        let a ← bodyAction
        Message.exitContainer
        pure (whole a))
      orNull := by
  refine hb.bind (fun a => ?_) fun h hv => ?_
  · rw [hg]
    exact mirrors_exitContainer.ifValid.bind_ifValid fun _ => mirrors_pure (whole a)
  · rw [run_bind, run_ifValid_of_invalid hv]
    exact run_ifValid_of_invalid hv

variable {unbox : Course Value} {unboxAction : Action Value}

theorem run_decodeFields_of_invalid {fs : List WireType} {vs : List Value}
    (hv : h.now.isValid = false) : (decodeFields unbox fs vs).run h = (.ok .null, h) := by
  cases fs <;> exact run_ifValid_of_invalid hv

mutual

/-- **Reading a value mirrors reading it**, if that holds of variants. -/
theorem mirrors_decodeWith (hu : Mirrors unbox unboxAction orNull) :
    ∀ t, Mirrors (decodeWith unbox t) (WireType.decodeWith unboxAction t) orNull
  | .basic b => by
    rw [decodeWith, WireType.decodeWith]
    exact mirrors_decodeBasic b
  | .variant => by
    rw [decodeWith, WireType.decodeWith]
    exact hu
  | .array e => by
    rw [decodeWith, decodeWith_array]
    exact mirrors_decodeArray (mirrors_decodeWith hu e)
  | .dict k x => by
    have hentry := mirrors_decodeEntry (k := k) (x := x) (mirrors_decodeWith hu k)
      (mirrors_decodeWith hu x)
    rw [← WireType.decodeWith] at hentry
    rw [decodeWith, decodeWith_dict]
    exact mirrors_decodeArray hentry
  | .entry k x => by
    rw [decodeWith, WireType.decodeWith]
    exact mirrors_decodeEntry (mirrors_decodeWith hu k) (mirrors_decodeWith hu x)
  | .struct fs => by
    have hfields := mirrors_decodeFields hu fs []
    simp only [List.nil_append, bind_pure] at hfields
    rw [decodeWith, WireType.decodeWith]
    refine (mirrors_enterContainer _).bind_ifValid fun _ => ?_
    exact mirrors_leaving (g := id) hfields fun _ => rfl
  | .tuple fs => by
    have hfields := mirrors_decodeFields hu fs []
    simp only [List.nil_append, bind_pure] at hfields
    rw [decodeWith, WireType.decodeWith]
    exact hfields.map Value.tuple

theorem mirrors_decodeFields (hu : Mirrors unbox unboxAction orNull) :
    ∀ fs vs, Mirrors (decodeFields unbox fs vs)
      (do let ws ← WireType.decodeFields unboxAction fs; pure (vs ++ ws)) rowOrNull
  | [], vs => by
    rw [decodeFields, WireType.decodeFields, pure_bind, List.append_nil]
    exact (mirrors_pure vs).ifValid
  | f :: fs, vs => by
    rw [decodeFields, WireType.decodeFields]
    simp only [bind_assoc, pure_bind]
    refine Mirrors.ifValid <| (mirrors_decodeWith hu f).bind (fun v => ?_) fun _ hv =>
      run_decodeFields_of_invalid hv
    have hrest := mirrors_decodeFields hu fs (vs ++ [v])
    simp only [List.append_assoc, List.singleton_append] at hrest
    exact hrest

end

theorem mirrors_decodeBoxed {ρ : Registry} {decode : WireType → Course Value}
    {decodeAction : WireType → Action Value}
    (hd : ∀ t, Mirrors (decode t) (decodeAction t) orNull) :
    Mirrors (decodeBoxed ρ decode) (WireType.decodeBoxed ρ decodeAction) orNull := by
  refine Mirrors.ifValid (Mirrors.bind_now fun m _ => ?_)
  rcases m.peekType with ⟨code, content⟩
  refine Mirrors.ite (fun _ => ?_) fun _ => ?_
  · rcases ρ.lookup? content with _ | t
    · exact mirrors_fail_pure _
    · refine (mirrors_enterContainer _).bind_ifValid fun _ => ?_
      exact mirrors_leaving (hd t) fun _ => rfl
  · exact (mirrors_enterContainer _).bind_ifValid fun _ => mirrors_fail_pure _

/-- **Reading a value of a type mirrors reading it.** -/
theorem mirrors_decodeWithin {ρ : Registry} :
    ∀ n t, Mirrors (decodeWithin ρ n t) (WireType.decodeWithin ρ n t) orNull
  | 0 => mirrors_decodeWith mirrors_endless
  | n + 1 => mirrors_decodeWith (mirrors_decodeBoxed (mirrors_decodeWithin n))

end Course

end TypedBus
