import TypedBus.Proofs.Message.Announced
import TypedBus.Proofs.Message.Sealed
import TypedBus.Proofs.Message.Visits
import TypedBus.Proofs.Stream.Matching

/-!
# Where reading stands

While a message is read, two positions in it are kept apart: the cursor, and the row of containers
that have been entered and not left. `Message.StandsIn` says how they belong together: the
containers are just those that are still open at the cursor, in order.

A message that was sealed when it was valid holds balanced items and has no container open
(`Use.follows_of_seals`). From there each step of reading keeps the two positions together, whether
it answers, records a failure or raises (`Follows`, `admitsTaking_located`): a basic value is passed
over, entering adds a container, and leaving takes the innermost away, where an array is left at its
own closing marker, whatever of it has been passed over. So do resetting the failure and rewinding.
`Call.standsIn_performEach` puts this together.
-/

namespace TypedBus

open Message

namespace Message

variable {items inside behind rest : List Item} {places : List Nat} {m m' : Message} {i n : Nat}

/-- The frames of the message are those of the containers that are still open at its cursor, the
innermost first; these are the places where they are opened. -/
structure StandsIn (places : List Nat) (m : Message) : Prop where
  ordered : places.Pairwise (· > ·)
  mem_iff : ∀ i, i ∈ places ↔ Item.StillOpen m.stream.items m.stream.cursor i
  frames :
    List.Forall₂ (fun f i => m.stream.items[i]? = some (.opening f.container)) m.frames places

/-! ## The two positions -/

/-- The message holds these items and has been sealed. What comes before its cursor leaves open just
the containers of its frames, which are opened at these places. -/
structure Follows (items : List Item) (places : List Nat) (m : Message) : Prop where
  holds : m.stream.items = items
  isSealed : m.stream.isSealed = true
  cursor : m.stream.cursor ≤ items.length
  leaves : Item.Leaves places (items.take m.stream.cursor)
  frames : List.Forall₂ (fun f i => items[i]? = some (.opening f.container)) m.frames places

namespace Follows

theorem standsIn (h : Follows items places m) : StandsIn places m where
  ordered := h.leaves.ordered
  mem_iff i := by
    rw [h.holds]
    exact h.leaves.mem_iff h.cursor
  frames := by
    rw [h.holds]
    exact h.frames

theorem rest_eq (h : Follows items places m) : m.rest = items.drop m.stream.cursor := by
  rw [rest, Stream.rest, h.holds]

/-- What comes behind the cursor has been taken with these items. -/
theorem take_add (h : Follows items places m) (hrest : m.rest = inside ++ behind) :
    m.stream.cursor + inside.length ≤ items.length ∧
      items.take (m.stream.cursor + inside.length) = items.take m.stream.cursor ++ inside := by
  rw [h.rest_eq] at hrest
  refine ⟨?_, by rw [List.take_add, hrest, List.take_left]⟩
  have hlen := congrArg List.length hrest
  rw [List.length_drop, List.length_append] at hlen
  have := h.cursor
  omega

theorem fail (h : Follows items places m) (f : Failure) : Follows items places (m.fail f) := by
  unfold Message.fail
  split
  · exact ⟨h.holds, h.isSealed, h.cursor, h.leaves, h.frames⟩
  · exact h

theorem pass (h : Follows items places m) (hin : Item.Balanced inside)
    (hrest : m.rest = inside ++ behind) : Follows items places (m.skip inside.length) := by
  obtain ⟨hle, htake⟩ := h.take_add hrest
  refine ⟨h.holds, h.isSealed, hle, ?_, h.frames⟩
  rw [skip_cursor, htake]
  exact h.leaves.append hin

theorem enter {c : Container} (h : Follows items places m) (hrest : m.rest = .opening c :: rest)
    (fields : List Text) :
    Follows items (m.stream.cursor :: places) (m.enter c fields) := by
  obtain ⟨hle, htake⟩ := h.take_add (show m.rest = [.opening c] ++ rest from hrest)
  refine ⟨h.holds, h.isSealed, hle, ?_, .cons ?_ h.frames⟩
  · change Item.Leaves _ (items.take (m.stream.cursor + 1))
    have hopening := h.leaves.opening c
    rwa [List.length_take_of_le h.cursor, ← htake] at hopening
  · have hhead := congrArg List.head? hrest
    rwa [h.rest_eq, List.head?_drop] at hhead

/-- Leaving a container takes its closing marker, and what has been passed over before that is
balanced. -/
theorem leave {f : Frame} {fs : List Frame} (h : Follows items places m) (hf : m.frames = f :: fs)
    (hin : Item.Balanced inside) (hrest : m.rest = inside ++ .closing :: behind) :
    ∃ i places', places = i :: places' ∧
      Item.Closes items i (m.stream.cursor + inside.length) ∧
      Follows items places' { m.skip (inside.length + 1) with frames := fs } := by
  have hframes := h.frames
  rw [hf] at hframes
  have htaken : m.rest = (inside ++ [.closing]) ++ behind := by simp [hrest]
  obtain ⟨hle, htake⟩ := h.take_add htaken
  rw [List.length_append, List.length_singleton] at hle htake
  cases hframes with
  | @cons _ i _ places' _ hframes =>
    refine ⟨i, places', rfl, ?_, h.holds, h.isSealed, hle, ?_, hframes⟩
    · have hcloses := h.leaves.closes hin behind
      rwa [← hrest, h.rest_eq, List.take_append_drop, List.length_take_of_le h.cursor] at hcloses
    · rw [← List.append_assoc] at htake
      exact htake ▸ (h.leaves.append hin).closing

end Follows

/-! ## What reading keeps -/

/-- The two positions of the message belong together. -/
def Located (items : List Item) (m : Message) : Prop := ∃ places, Follows items places m

theorem Located.fail (h : Located items m) (f : Failure) : Located items (m.fail f) := by
  obtain ⟨places, h⟩ := h
  exact ⟨places, h.fail f⟩

/-- What begins by asking whether the message can be read does nothing if it cannot. -/
theorem keeps_located_readable {α : Type} {x : Unit → Action α}
    (hx : ∀ m, m.Readable → Located items m → Located items ((x ()).run m).2) :
    Action.Keeps (Located items) (readable >>= x) := by
  intro m h
  cases hv : m.isValid with
  | false => simpa [readable, Action.run_bind, hv] using h
  | true =>
    obtain ⟨_, hfollows⟩ := h
    have hm : m.Readable := ⟨hv, hfollows.isSealed⟩
    rw [Action.run_bind_of_ok (run_readable hm)]
    exact hx m hm ⟨_, hfollows⟩

theorem keeps_located_readBasic (code : Text) :
    Action.Keeps (Located items) (readBasic code) := by
  refine keeps_located_readable fun m hm h => ?_
  rw [Action.run_get_bind, peek_eq_head]
  rcases hrest : m.rest with _ | ⟨⟨found, v⟩ | _ | _, rest⟩
  · exact h.fail _
  · simp only [List.head?_cons]
    split
    · obtain ⟨places, h⟩ := h
      have hbasic : Item.Balanced [.basic found v] := .basic .nil
      exact ⟨places, h.pass hbasic hrest⟩
    · exact h.fail _
  · exact h.fail _
  · exact h.fail _

variable (hfields : ∀ c, .opening c ∈ items → ∃ fields, c.fields = .ok fields)

include hfields in
theorem keeps_located_enterContainer (c : Container) :
    Action.Keeps (Located items) (enterContainer c) := by
  refine keeps_located_readable fun m hm h => ?_
  rw [Action.run_get_bind, peek_eq_head]
  rcases hrest : m.rest with _ | ⟨_ | d | _, rest⟩
  · exact h.fail _
  · exact h.fail _
  · simp only [List.head?_cons]
    split
    · rename_i hcd
      subst hcd
      obtain ⟨places, h⟩ := h
      have hmem : .opening c ∈ items.drop m.stream.cursor := by
        rw [← h.rest_eq, hrest]
        exact List.mem_cons_self
      obtain ⟨fields, hf⟩ := hfields c (List.mem_of_mem_drop hmem)
      rw [Action.run_bind_of_ok (Action.run_modify _ _), pushFrame, hf]
      exact ⟨_, h.enter hrest fields⟩
    · exact h.fail _
  · exact h.fail _

/-- What is left inside an open container ends with its closing marker. -/
theorem Follows.exists_closing (h : Follows items (i :: places) m) (hb : Item.Balanced items) :
    ∃ inside behind, m.rest = inside ++ .closing :: behind ∧ Item.Balanced inside := by
  rw [h.rest_eq]
  refine h.leaves.exists_closing ?_
  rwa [List.take_append_drop]

theorem keeps_located_exitContainer (hb : Item.Balanced items) :
    Action.Keeps (Located items) exitContainer := by
  refine keeps_located_readable fun m hm h => ?_
  rw [Action.run_get_bind]
  rcases hf : m.frames with _ | ⟨f, fs⟩
  · exact h
  · have hstands := h
    obtain ⟨places, h⟩ := h
    simp only
    split
    · split
      · rename_i hnone
        have hframes := h.frames
        rw [hf] at hframes
        cases hframes with
        | cons _ _ =>
          obtain ⟨inside, behind, hrest, hin⟩ := h.exists_closing hb
          have hsome := Item.toClosing_eq_some_iff.mpr ⟨inside, behind, hrest, hin, rfl⟩
          cases hnone.symm.trans hsome
      · rename_i n hn
        obtain ⟨inside, behind, hrest, hin, rfl⟩ := Item.toClosing_eq_some_iff.mp hn
        obtain ⟨i, places', -, -, hleft⟩ := h.leave hf hin hrest
        exact ⟨places', hleft⟩
    · rw [peek_eq_head]
      split
      · rename_i hnext
        obtain ⟨behind, hrest⟩ := List.head?_eq_some_iff.mp hnext
        obtain ⟨i, places', -, -, hleft⟩ := h.leave hf .nil hrest
        exact ⟨places', hleft⟩
      · exact hstands.fail _

/-- **Each step of reading keeps the two positions together.** -/
theorem admitsTaking_located (hb : Item.Balanced items)
    (hfields : ∀ c, .opening c ∈ items → ∃ fields, c.fields = .ok fields) :
    Action.AdmitsTaking fun _ => Action.Keeps (Located items) where
  pure := Action.keeps_pure
  bind := Action.Keeps.bind
  ifValid := Action.Keeps.ifValid
  get := Action.keeps_get
  fail f _ h := h.fail f
  stop := Action.keeps_stop
  enterContainer := keeps_located_enterContainer hfields
  exitContainer := keeps_located_exitContainer hb
  readBasic := keeps_located_readBasic

theorem Located.resetFailure (h : Located items m) (hreset : m.resetFailure = .ok m') :
    Located items m' := by
  obtain ⟨-, rfl⟩ := resetFailure_eq_ok.mp hreset
  obtain ⟨places, h⟩ := h
  exact ⟨places, h.holds, h.isSealed, h.cursor, h.leaves, h.frames⟩

theorem follows_start (hitems : m.stream.items = items) (hs : m.stream.isSealed = true)
    (hcursor : m.stream.cursor = 0) (hframes : m.frames = []) : Follows items [] m := by
  refine ⟨hitems, hs, by omega, ?_, hframes ▸ .nil⟩
  rw [hcursor, List.take_zero]
  exact .balanced .nil

theorem Located.rewind (h : Located items m) (hrewind : m.rewind = .ok m') : Located items m' := by
  obtain ⟨places, h⟩ := h
  have hs := h.isSealed
  unfold Message.rewind at hrewind
  split at hrewind
  · simp only [hs, Bool.not_true, Bool.false_and, Bool.false_eq_true, if_false] at hrewind
    cases hrewind
    exact ⟨[], follows_start h.holds rfl rfl rfl⟩
  · rename_i hframes
    cases hrewind
    exact ⟨[], follows_start h.holds rfl rfl hframes⟩

/-! ## Leaving a container -/

/-- **An array is left at its own closing marker**, whatever of it has been passed over. -/
theorem Follows.run_exitArray {f : Frame} {fs : List Frame} (h : Follows items (i :: places) m)
    (hb : Item.Balanced items) (hm : m.Readable) (hf : m.frames = f :: fs)
    (hk : f.container.kind = .array) :
    ∃ j, Item.Closes items i j ∧ m.stream.cursor ≤ j ∧
      exitContainer.run m =
        (.ok (), { m with stream := { m.stream with cursor := j + 1 }, frames := fs }) := by
  obtain ⟨inside, behind, hrest, hin⟩ := h.exists_closing hb
  obtain ⟨_, _, ⟨⟩, hcloses, -⟩ := h.leave hf hin hrest
  refine ⟨_, hcloses, Nat.le_add_right _ _, (Visit.run_exitContainer_iff hm).mpr ?_⟩
  exact .leaveArray hf hk (Item.toClosing_eq_some_iff.mpr ⟨inside, behind, hrest, hin, rfl⟩)

/-- **Any other container is left only where its own closing marker is next.** -/
theorem Follows.run_exitOther {f : Frame} {fs : List Frame} (h : Follows items (i :: places) m)
    (hm : m.Readable) (hf : m.frames = f :: fs) (hk : f.container.kind ≠ .array) :
    exitContainer.run m = (.ok (), m') ↔ Item.Closes items i m.stream.cursor ∧
      m' = { m with
        stream := { m.stream with cursor := m.stream.cursor + 1 }
        frames := fs } := by
  rw [Visit.run_exitContainer_iff hm]
  constructor
  · intro htakes
    cases htakes with
    | leaveArray hf' hk' =>
      rw [hf] at hf'
      cases hf'
      exact absurd hk' hk
    | leave hf' _ hrest =>
      rw [hf] at hf'
      cases hf'
      obtain ⟨_, _, ⟨⟩, hcloses, -⟩ := h.leave hf .nil hrest
      exact ⟨hcloses, rfl⟩
  · rintro ⟨hcloses, rfl⟩
    have hnext : m.rest.head? = some .closing := by
      rw [h.rest_eq, List.head?_drop]
      exact hcloses.getElem?_eq
    obtain ⟨behind, hrest⟩ := List.head?_eq_some_iff.mp hnext
    exact .leave hf hk hrest

end Message

/-! ## Messages that have been sealed -/

namespace Use

open TypedBus.Action

variable {m : Message} {u : Use}

/-- A transport leaves the cursor of a stream where it is. -/
theorem cursor_loopback (l : Loopback) (s : Stream) : (l.send s).2.1.cursor = s.cursor := by
  unfold Loopback.send
  split
  · dsimp only
    split <;> rfl
  · rfl

/-- A use seals a message only by rewinding it, which it may do in order to send it. -/
theorem rewind_of_seals (hm : m.Writable) (hs : (u.perform m).stream.isSealed = true) :
    ∃ m', m.rewind = .ok m' ∧ (u.perform m).stream.items = m'.stream.items ∧
      (u.perform m).stream.cursor = m'.stream.cursor ∧ (u.perform m).frames = m'.frames := by
  -- what leaves the message unsealed has not sealed it
  have hunsealed {goal : Prop} {m' : Message} (hsame : m'.stream.isSealed = m.stream.isSealed)
      (h : m'.stream.isSealed = true) : goal := by
    rw [hsame, hm.unsealed] at h
    cases h
  have hread {goal : Prop} {ρ : Registry} {c : Call} (hc : c.isReading = true)
      (h : (c.perform ρ m).2.stream.isSealed = true) : goal :=
    hunsealed (congrArg Stream.isSealed (Call.onlyAsked_perform hm.unsealed hc (.refl m)).stream) h
  have hwrite {goal : Prop} {x : Action Unit} (hx : u.writing? = some x) : goal := by
    have hkept := admits_of_writing? standing_beingWritten.admits hx m hm.beingWritten
    rw [← perform_of_writing? hx] at hkept
    rw [hkept.unsealed] at hs
    cases hs
  cases u with
  | encode t v => exact hwrite rfl
  | decode ρ t =>
    have hasked := (OnlyAsked.refl m).early (early_decode ρ t) hm.unsealed
    exact hunsealed (congrArg Stream.isSealed hasked.stream) hs
  | address destination => exact hunsealed rfl hs
  | copy => exact hunsealed rfl hs
  | send l =>
    simp only [perform, Message.send] at hs ⊢
    split at hs
    · exact hunsealed rfl hs
    · rename_i m' hsend
      obtain ⟨_, -, hrewind⟩ := bind_eq_ok.mp hsend
      exact ⟨m', hrewind, (turns_loopback l).items, cursor_loopback l _, rfl⟩
  | call ρ c =>
    cases c with
    | write | openContainer | closeContainer => exact hwrite rfl
    | read | enterContainer | exitContainer | atEnd | peekType | resetFailure => exact hread rfl hs
    | fail reason => exact hunsealed (congrArg Stream.isSealed (stream_fail _)) hs
    | check =>
      refine hunsealed ?_ hs
      change (Call.change m .message (m.check.map fun _ => m)).2.stream.isSealed = _
      cases m.check <;> rfl
    | rewind =>
      simp only [perform, Call.perform] at hs ⊢
      rcases hrewind : m.rewind with f | m' <;> rw [hrewind] at hs
      · exact hunsealed rfl hs
      · exact ⟨m', rfl, rfl, rfl, rfl⟩

/-- **A message that is sealed while it is valid** holds balanced items, whose containers can all be
entered, and reading it starts at the first of them with no container open. -/
theorem follows_of_seals {e : Envelope} {uses : List Use}
    (hm : (after uses (ofEnvelope e)).Writable)
    (hs : (u.perform (after uses (ofEnvelope e))).stream.isSealed = true) :
    ∃ items, Item.WellFormed items ∧ Follows items [] (u.perform (after uses (ofEnvelope e))) := by
  have hgrowing := growing_after uses (growing_ofStream { envelope := e })
  generalize hstart : after uses (ofEnvelope e) = m at hm hs ⊢
  rw [show ofStream { envelope := e } = ofEnvelope e from rfl, hstart] at hgrowing
  have hw := hgrowing.sound hm.valid
  obtain ⟨seg, hitems, hsteps⟩ := hgrowing.steps hm.unsealed hw
  obtain ⟨m', hrewind, hitems', hcursor, hframes⟩ := rewind_of_seals hm hs
  rw [List.nil_append] at hitems
  subst hitems
  unfold rewind at hrewind
  split at hrewind
  · simp [hm.unsealed, hw] at hrewind
  · rename_i hnone
    cases hrewind
    rw [hnone] at hsteps hframes
    exact ⟨_, hsteps.wellFormed, follows_start hitems' hs hcursor hframes⟩

end Use

namespace Item

/-- The containers of complete values that have been written can all be entered. -/
theorem Spells.isValid_of_mem {parent : Option Kind} {ss : List Text} {items : List Item}
    {c : Container} (h : Spells .written parent ss items) (hc : .opening c ∈ items) :
    c.isValid = true := by
  induction h with
  | nil => cases hc
  | basic _ _ ih => exact ih (by simpa using hc)
  | container hc' _ _ _ _ ihin ih =>
    simp only [List.mem_cons, opening.injEq, List.mem_append, reduceCtorEq, false_or] at hc
    rcases hc with rfl | hc | hc
    · exact Container.isValid_iff.mpr hc'
    · exact ihin hc
    · exact ih hc

end Item

namespace Call

variable {m : Message}

/-- **Where a message is read, its open containers and its cursor belong together.** A message that
has been sealed while it was valid is read, its failure reset and it is rewound, in any order and
whatever comes of it. Its cursor never passes the end of its items, and its frames are those of the
containers that are opened before the cursor and not closed before it, in order. So as long as the
message is valid, an array is left one place behind its own closing marker, wherever in it reading
stands, and any other container is left just where its own closing marker is next. -/
theorem standsIn_performEach (e : Envelope) (uses : List Use) (u : Use)
    (calls : List (Registry × Call)) (hm : (Use.after uses (ofEnvelope e)).Writable)
    (hs : (u.perform (Use.after uses (ofEnvelope e))).stream.isSealed = true)
    (hcalls : ∀ c ∈ calls, c.2.isReading = true ∨ c.2 = .rewind) :
    let start := u.perform (Use.after uses (ofEnvelope e))
    let m := performEach calls start
    let items := m.stream.items
    items = start.stream.items ∧ m.stream.cursor ≤ items.length ∧
    ∃ places, m.StandsIn places ∧
      ∀ f fs i is, m.frames = f :: fs → places = i :: is → m.isValid = true →
        (f.container.kind = .array →
          ∃ j, Item.Closes items i j ∧ m.stream.cursor ≤ j ∧
            Message.exitContainer.run m =
              (.ok (), { m with stream := { m.stream with cursor := j + 1 }, frames := fs })) ∧
        (f.container.kind ≠ .array → ∀ m', Message.exitContainer.run m = (.ok (), m') ↔
          Item.Closes items i m.stream.cursor ∧
            m' = { m with
              stream := { m.stream with cursor := m.stream.cursor + 1 }
              frames := fs }) := by
  intro start m items
  obtain ⟨written, ⟨ss, hspells⟩, hstart⟩ := Use.follows_of_seals hm hs
  have hb : Item.Balanced written := hspells.balanced
  have htaking := admitsTaking_located hb fun c hc =>
    Container.exists_fields (hspells.isValid_of_mem hc)
  have hlocated : Located written m := by
    refine keeps_performEach (fun c hc m h => ?_) ⟨[], hstart⟩
    rcases hcalls c hc with hreads | hrewinds
    · exact keeps_of_admitsTaking htaking (fun hr h => h.resetFailure hr) hreads h
    · rw [hrewinds]
      simp only [perform]
      rcases hr : m.rewind with f | m'
      · exact h
      · exact h.rewind hr
  obtain ⟨places, h⟩ := hlocated
  have hitems : items = written := h.holds
  refine ⟨hitems.trans hstart.holds.symm, hitems ▸ h.cursor, places, h.standsIn, ?_⟩
  rintro f fs i is hf rfl hv
  rw [hitems]
  have hreadable : m.Readable := ⟨hv, h.isSealed⟩
  exact ⟨h.run_exitArray hb hreadable hf, fun hk m' => h.run_exitOther hreadable hf hk⟩

section Examples

open WireType

/-- An array of structs of an integer and a text. -/
def pairs : WireType := .array (.struct [.int32, .string])

/-- Two structs are written in an array. -/
def writePairs : List Use :=
  [.call {} (.write
    (.list none [.tuple [.integer 1, .text "x"], .tuple [.integer 2, .text "y"]])
    (some (.wire pairs)))]

/-- The array is entered and its first struct read field by field. To leave the struct is tried too
early; that failure is reset. -/
def readFirstPair : List (Registry × Call) :=
  [({}, .enterContainer (arrayOf (.struct [.int32, .string]))),
    ({}, .enterContainer (structOf [.int32, .string])),
    ({}, .read (.type (.wire .int32))), ({}, .exitContainer), ({}, .resetFailure),
    ({}, .read (.type (.wire .string))), ({}, .read .closing)]

/-- Where the first of two structs has been read, the array is left behind both. -/
theorem exit_pairs :
    let start := (Use.call {} .rewind).perform (Use.after writePairs (ofEnvelope {}))
    (Use.after writePairs (ofEnvelope {})).Writable ∧ start.stream.isSealed = true ∧
    (∀ c ∈ readFirstPair, c.2.isReading = true ∨ c.2 = .rewind) ∧
    (performEach readFirstPair start).stream.cursor = 5 ∧
    ∃ m', Message.exitContainer.run (performEach readFirstPair start) = (.ok (), m') ∧
      m'.stream.cursor = 10 := by
  intro start
  have hm : (Use.after writePairs (ofEnvelope {})).Writable :=
    ⟨by decide +kernel, by decide +kernel⟩
  have hs : start.stream.isSealed = true := by decide +kernel
  have hcalls : ∀ c ∈ readFirstPair, c.2.isReading = true ∨ c.2 = .rewind := by
    simp [readFirstPair, isReading]
  obtain ⟨-, -, places, hstands, hexit⟩ :=
    standsIn_performEach {} writePairs (.call {} .rewind) readFirstPair hm hs hcalls
  have hv : (performEach readFirstPair start).isValid = true := by decide +kernel
  have hframes : (performEach readFirstPair start).frames.map (·.container) =
      [arrayOf (.struct [.int32, .string])] := by decide +kernel
  obtain ⟨f, hf, hc⟩ := List.map_eq_singleton_iff.mp hframes
  have hlength := hstands.frames.length_eq
  obtain ⟨i, is, rfl⟩ : ∃ i is, places = i :: is := List.exists_cons_of_length_pos <| by
    rw [← hlength]
    exact List.length_pos_of_mem (hf ▸ List.mem_cons_self)
  obtain ⟨j, -, -, hrun⟩ := (hexit f [] i is hf rfl hv).1 (congrArg Container.kind hc)
  have hcursor : (Message.exitContainer.run (performEach readFirstPair start)).2.stream.cursor =
      10 := by decide +kernel
  refine ⟨hm, hs, hcalls, by decide +kernel, _, hrun, ?_⟩
  exact (congrArg (·.2.stream.cursor) hrun).symm.trans hcursor

end Examples

end Call

end TypedBus
