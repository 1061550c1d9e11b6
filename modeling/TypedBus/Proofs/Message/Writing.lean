import TypedBus.Proofs.Message.Run
import TypedBus.Proofs.Wire.Container
import TypedBus.Message.Containers

/-!
# The steps of writing

Opening, closing and writing a basic value move the row of open containers and add one item each.
`Item.Step` says how an item moves the row, apart from any message; on a message that can be written
to, each of the three calls succeeds exactly when its item has a step (`run_openContainer_eq_ok`,
`run_closeContainer_eq_ok`, `run_writeBasic_eq_ok`), and then does nothing else. Where it does not
succeed it records a failure, but for closing when nothing is open.
-/

namespace TypedBus

/-- A value of this signature can begin in the innermost open container, and is counted there. -/
inductive Frame.Begins (s : Text) : List Frame → List Frame → Prop
  | top (h : s.head? ≠ some (.scalar '{')) : Begins s [] []
  | element {f : Frame} {fs : List Frame} (hk : f.container.kind = .array)
      (hs : s = f.container.content) : Begins s (f :: fs) (f :: fs)
  | field {f : Frame} {fs : List Frame} (hk : f.container.kind ≠ .array)
      (hs : f.fields[f.index]? = some s) :
      Begins s (f :: fs) ({ f with index := f.index + 1 } :: fs)

/-- The item can be added where these containers are open, and leaves those open. -/
inductive Item.Step : List Frame → Item → List Frame → Prop
  | basic {fs fs' : List Frame} {b : BasicType} {v : Value} (hb : Frame.Begins [b.code] fs fs') :
      Step fs (.basic [b.code] v) fs'
  | opening {fs fs' : List Frame} {c : Container} {fields : List Text} (hc : c.isValid = true)
      (hb : Frame.Begins c.signature fs fs') (hf : c.fields = .ok fields) :
      Step fs (.opening c) ({ container := c, fields } :: fs')
  | closing {f : Frame} {fs : List Frame}
      (h : f.container.kind = .array ∨ f.index = f.fields.length) : Step (f :: fs) .closing fs

namespace Item

variable {fs fs' : List Frame}

theorem step_basic_iff {b : BasicType} {v : Value} :
    Step fs (.basic [b.code] v) fs' ↔ Frame.Begins [b.code] fs fs' := by
  refine ⟨fun h => ?_, .basic⟩
  generalize hcode : ([b.code] : Text) = code at h ⊢
  cases h with
  | basic hb => exact hb

theorem step_opening_iff {c : Container} :
    Step fs (.opening c) fs' ↔
      c.isValid = true ∧ ∃ fs₁ fields, Frame.Begins c.signature fs fs₁ ∧ c.fields = .ok fields ∧
        fs' = { container := c, fields } :: fs₁ := by
  constructor
  · intro h
    cases h with
    | opening hc hb hf => exact ⟨hc, _, _, hb, hf, rfl⟩
  · rintro ⟨hc, fs₁, fields, hb, hf, rfl⟩
    exact .opening hc hb hf

theorem step_closing_iff :
    Step fs .closing fs' ↔
      ∃ f, fs = f :: fs' ∧ (f.container.kind = .array ∨ f.index = f.fields.length) := by
  constructor
  · intro h
    cases h with
    | closing h => exact ⟨_, rfl, h⟩
  · rintro ⟨f, rfl, h⟩
    exact .closing h

end Item

namespace Message

variable {m m' : Message}

/-- A valid message that has not been sealed. -/
structure Writable (m : Message) : Prop where
  valid : m.isValid = true
  unsealed : m.stream.isSealed = false

/-- The message after an item has been added and the row of open containers has moved. -/
def add (item : Item) (fs : List Frame) (m : Message) : Message := { push item m with frames := fs }

@[simp] theorem add_frames (item : Item) (fs : List Frame) (m : Message) :
    (m.add item fs).frames = fs := rfl

@[simp] theorem add_items (item : Item) (fs : List Frame) (m : Message) :
    (m.add item fs).stream.items = m.stream.items ++ [item] := rfl

@[simp] theorem add_descriptors (item : Item) (fs : List Frame) (m : Message) :
    (m.add item fs).stream.descriptors = m.stream.descriptors := rfl

theorem Writable.add (h : m.Writable) (item : Item) (fs : List Frame) :
    (m.add item fs).Writable := ⟨h.valid, h.unsealed⟩

theorem run_writable (h : m.Writable) : writable.run m = (.ok (), m) := by
  simp [writable, Action.run_bind, h.valid, h.unsealed]

/-- A message that cannot be written to is left invalid. -/
theorem writable_of_run (h : writable.run m = (.ok (), m')) : m.Writable ∧ m' = m := by
  unfold writable at h
  rw [Action.run_get_bind] at h
  split at h
  · cases h
  · split at h
    · obtain ⟨_, _, -, h⟩ := Action.run_bind_eq_ok.mp h
      cases h
    · rename_i hv hs
      exact ⟨⟨by simpa using hv, by simpa using hs⟩, (Prod.mk.inj h).2.symm⟩

theorem run_writable_of_invalid (h : m.isValid = false) :
    writable.run m = (.error .failed, m) := by
  simp [writable, Action.run_bind, h]

theorem settles_writable : Action.Settles writable m := by
  unfold writable
  rw [Action.settles_get_bind]
  split
  · rename_i hv
    intro stop m' h
    rw [Action.run_stop, Prod.mk.injEq, Except.error.injEq] at h
    obtain ⟨rfl, rfl⟩ := h
    exact ⟨rfl, by simpa using hv⟩
  · split
    · exact Action.Settles.bind (fun _ _ h => by cases h) fun _ _ _ => Action.settles_fail _
    · exact Action.settles_pure ()

/-! ## One value more -/

theorem run_expect_eq_ok {s : Text} :
    (expect s).run m = (.ok (), m') ↔
      ∃ fs, Frame.Begins s m.frames fs ∧ m' = { m with frames := fs } := by
  obtain ⟨stream, frames, failure, writeFailed⟩ := m
  unfold expect
  rw [Action.run_get_bind]
  rcases frames with _ | ⟨f, fs⟩
  · by_cases hs : s.head? = some (.scalar '{')
    · simp only [hs, if_true, Action.run_fail, Prod.mk.injEq, reduceCtorEq, false_and, false_iff]
      rintro ⟨_, ⟨h⟩, -⟩
      exact h hs
    · simp only [hs, if_false, Action.run_pure, Prod.mk.injEq, true_and]
      constructor
      · rintro rfl
        exact ⟨[], .top hs, rfl⟩
      · rintro ⟨_, ⟨-⟩, rfl⟩
        rfl
  · by_cases hk : f.container.kind = .array
    · by_cases hs : s = f.container.content
      · simp only [hk, hs, if_true, Action.run_pure, Prod.mk.injEq, true_and]
        constructor
        · rintro rfl
          exact ⟨_, .element hk rfl, rfl⟩
        · rintro ⟨_, hb, rfl⟩
          cases hb with
          | element => rfl
          | field hk' => exact absurd hk hk'
      · simp only [hk, hs, if_true, if_false, Action.run_fail, Prod.mk.injEq, reduceCtorEq,
          false_and, false_iff]
        rintro ⟨_, hb, -⟩
        cases hb with
        | element _ hs' => exact hs hs'
        | field hk' => exact hk' hk
    · simp only [hk, if_false]
      rcases hf : f.fields[f.index]? with _ | expected
      · simp only [Action.run_fail, Prod.mk.injEq, reduceCtorEq, false_and, false_iff]
        rintro ⟨_, hb, -⟩
        cases hb with
        | element hk' => exact hk hk'
        | field _ hs => simp [hf] at hs
      · simp only
        rw [Action.run_bind_of_ok (Action.run_modify _ _)]
        by_cases hs : s = expected
        · simp only [hs, if_true, Action.run_pure, Prod.mk.injEq, true_and]
          constructor
          · rintro rfl
            exact ⟨_, .field hk hf, rfl⟩
          · rintro ⟨_, hb, rfl⟩
            cases hb with
            | element hk' => exact absurd hk' hk
            | field => rfl
        · simp only [hs, if_false, Action.run_fail, Prod.mk.injEq, reduceCtorEq, false_and,
            false_iff]
          rintro ⟨_, hb, -⟩
          cases hb with
          | element hk' => exact hk hk'
          | field _ hs' => exact hs (Option.some.inj (hs'.symm.trans hf))

theorem settles_expect {s : Text} : Action.Settles (expect s) m := by
  refine Action.Settles.bind (fun _ _ h => by cases h) fun a m₁ _ => ?_
  rcases a.frames with _ | ⟨f, fs⟩
  · simp only
    split
    · exact Action.settles_fail _
    · exact Action.settles_pure ()
  · simp only
    split
    · split
      · exact Action.settles_pure ()
      · exact Action.settles_fail _
    · split
      · exact Action.settles_fail _
      · refine Action.Settles.bind (fun _ _ h => by cases h) fun _ _ _ => ?_
        split
        · exact Action.settles_pure ()
        · exact Action.settles_fail _

theorem run_pushFrame {c : Container} {fields : List Text} (h : c.fields = .ok fields) :
    (pushFrame c).run m =
      (.ok (), { m with frames := { container := c, fields } :: m.frames }) := by
  unfold pushFrame
  rw [h]
  rfl

/-! ## The three calls -/

theorem run_openContainer_eq_ok {c : Container} (hm : m.Writable) :
    (openContainer c).run m = (.ok (), m') ↔
      ∃ fs, Item.Step m.frames (.opening c) fs ∧ m' = m.add (.opening c) fs := by
  unfold openContainer
  rw [Action.run_bind_of_ok (run_writable hm)]
  by_cases hc : c.isValid = true
  · obtain ⟨fields, hf⟩ := Container.exists_fields hc
    simp only [hc, Bool.not_true, Bool.false_eq_true, if_false, Item.step_opening_iff, true_and]
    constructor
    · intro h
      obtain ⟨_, m₁, hexp, h⟩ := Action.run_bind_eq_ok.mp h
      obtain ⟨fs, hb, rfl⟩ := run_expect_eq_ok.mp hexp
      rw [Action.run_bind_of_ok (Action.run_modify _ _), run_pushFrame hf] at h
      exact ⟨_, ⟨fs, fields, hb, hf, rfl⟩, (Prod.mk.inj h).2.symm⟩
    · rintro ⟨_, ⟨fs, fields', hb, hf', rfl⟩, rfl⟩
      rw [Action.run_bind_of_ok (run_expect_eq_ok.mpr ⟨fs, hb, rfl⟩),
        Action.run_bind_of_ok (Action.run_modify _ _), run_pushFrame hf']
      rfl
  · simp only [hc, Bool.not_false, if_true]
    rw [Action.run_bind_of_error (Action.run_fail _ _)]
    simp only [Prod.mk.injEq, reduceCtorEq, false_and, false_iff]
    rintro ⟨_, hstep, -⟩
    exact hc (Item.step_opening_iff.mp hstep).1

theorem settles_openContainer {c : Container} : Action.Settles (openContainer c) m := by
  refine settles_writable.bind fun _ m₁ _ => ?_
  split
  · exact Action.Settles.bind (Action.settles_fail _) fun _ _ h => by cases h
  · rename_i hc
    obtain ⟨fields, hf⟩ := Container.exists_fields (c := c) (by simpa using hc)
    refine settles_expect.bind fun _ m₂ _ => ?_
    refine Action.Settles.bind (fun _ _ h => by cases h) fun _ m₃ _ => ?_
    intro stop m' h
    rw [run_pushFrame hf] at h
    cases h

theorem run_closeContainer_eq_ok (hm : m.Writable) :
    closeContainer.run m = (.ok (), m') ↔
      ∃ fs, Item.Step m.frames .closing fs ∧ m' = m.add .closing fs := by
  obtain ⟨stream, frames, failure, writeFailed⟩ := m
  unfold closeContainer
  rw [Action.run_bind_of_ok (run_writable hm), Action.run_get_bind]
  simp only [Item.step_closing_iff]
  rcases frames with _ | ⟨f, fs⟩
  · simp [Action.raise]
  · simp only [List.cons.injEq]
    split
    · rename_i hk
      simp only [Action.run_fail, Prod.mk.injEq, reduceCtorEq, false_and, false_iff]
      rintro ⟨_, ⟨f', ⟨rfl, -⟩, h⟩, -⟩
      exact h.elim hk.1 hk.2
    · rename_i hk
      simp only [Action.run_modify, Prod.mk.injEq, true_and]
      constructor
      · rintro rfl
        exact ⟨fs, ⟨f, ⟨rfl, rfl⟩, by tauto⟩, rfl⟩
      · rintro ⟨_, ⟨f', ⟨-, rfl⟩, -⟩, rfl⟩
        rfl

theorem run_closeContainer_of_nil (hm : m.Writable) (h : m.frames = []) :
    closeContainer.run m = (.error (.raised .nothingToClose), m) := by
  unfold closeContainer
  rw [Action.run_bind_of_ok (run_writable hm), Action.run_get_bind, h]
  rfl

/-- Closing fails by recording a failure, as long as something is open. -/
theorem settles_closeContainer (h : m.frames ≠ []) : Action.Settles closeContainer m := by
  refine settles_writable.bind fun _ m₁ hrun => ?_
  obtain ⟨-, rfl⟩ := writable_of_run hrun
  rw [Action.settles_get_bind]
  obtain ⟨f, fs, hfs⟩ := List.exists_cons_of_ne_nil h
  rw [hfs]
  simp only
  split
  · exact Action.settles_fail _
  · intro stop m' hstop
    cases hstop

/-- Closing records a failure or leaves the message alone. -/
theorem settles_closeContainer_or (hm : m.Writable) :
    Action.Settles closeContainer m ∨ (closeContainer.run m).2 = m := by
  by_cases hframes : m.frames = []
  · right
    rw [run_closeContainer_of_nil hm hframes]
  · exact .inl (settles_closeContainer hframes)

theorem run_writeBasic_eq_ok {b : BasicType} {v : Value} (hm : m.Writable) :
    (writeBasic [b.code] v).run m = (.ok (), m') ↔
      ∃ fs, Item.Step m.frames (.basic [b.code] v) fs ∧ m' = m.add (.basic [b.code] v) fs := by
  unfold writeBasic
  rw [Action.run_bind_of_ok (run_writable hm)]
  constructor
  · intro h
    obtain ⟨_, m₁, hexp, h⟩ := Action.run_bind_eq_ok.mp h
    obtain ⟨fs, hb, rfl⟩ := run_expect_eq_ok.mp hexp
    exact ⟨fs, .basic hb, (Prod.mk.inj h).2.symm⟩
  · rintro ⟨fs, hstep, rfl⟩
    rw [Action.run_bind_of_ok (run_expect_eq_ok.mpr ⟨fs, Item.step_basic_iff.mp hstep, rfl⟩)]
    rfl

theorem settles_writeBasic {code : Text} {v : Value} : Action.Settles (writeBasic code v) m :=
  settles_writable.bind fun _ _ _ => settles_expect.bind fun _ _ _ _ _ h => by cases h

end Message

end TypedBus
