import TypedBus.Proofs.Message.Run
import TypedBus.Message.Containers

/-!
# The steps of reading

On a message that can be read from, entering a container, leaving it and reading a basic value
succeed exactly when the right item is next, and take it. What lies between entering and leaving a
container takes items and leaves the row of entered containers as it was (`run_bracket`,
`of_run_bracket`), so that a whole bracketed value does nothing but move the cursor on.
-/

namespace TypedBus

namespace Message

variable {m m' : Message} {n k : Nat} {rest inside tail : List Item}

/-- A valid message that has been sealed. -/
structure Readable (m : Message) : Prop where
  valid : m.isValid = true
  isSealed : m.stream.isSealed = true

/-- The message after a container with these fields has been entered. -/
def enter (c : Container) (fields : List Text) (m : Message) : Message :=
  { m.skip 1 with frames := { container := c, fields } :: m.frames }

/-! ## The cursor -/

@[simp] theorem skip_frames : (m.skip n).frames = m.frames := rfl

@[simp] theorem skip_cursor : (m.skip n).stream.cursor = m.stream.cursor + n := rfl

@[simp] theorem skip_descriptors : (m.skip n).stream.descriptors = m.stream.descriptors := rfl

@[simp] theorem enter_descriptors {c : Container} {fields : List Text} :
    (m.enter c fields).stream.descriptors = m.stream.descriptors := rfl

@[simp] theorem skip_zero : m.skip 0 = m := rfl

theorem skip_skip : (m.skip n).skip k = m.skip (n + k) := by
  simp [skip, Nat.add_assoc]

@[simp] theorem rest_skip : (m.skip n).rest = m.rest.drop n := by
  simp [rest, skip, Stream.rest, List.drop_drop]

@[simp] theorem rest_enter {c : Container} {fields : List Text} :
    (m.enter c fields).rest = m.rest.drop 1 :=
  rest_skip

theorem rest_skip_append {seg tail : List Item} (h : m.rest = seg ++ tail) :
    (m.skip seg.length).rest = tail := by
  rw [rest_skip, h, List.drop_left]

theorem rest_enter_cons {c : Container} {fields : List Text} {item : Item} {rest : List Item}
    (h : m.rest = item :: rest) : (m.enter c fields).rest = rest := by
  rw [rest_enter, h, List.drop_succ_cons, List.drop_zero]

theorem length_rest_skip_lt (h : m.rest.length < k) (n : Nat) : (m.skip n).rest.length < k := by
  rw [rest_skip, List.length_drop]
  omega

theorem length_rest_enter_lt (h : m.rest.length < k) (c : Container) (fields : List Text) :
    (m.enter c fields).rest.length < k :=
  length_rest_skip_lt h 1

theorem Readable.skip (h : m.Readable) (n : Nat) : (m.skip n).Readable := ⟨h.valid, h.isSealed⟩

theorem Readable.enter (h : m.Readable) (c : Container) (fields : List Text) :
    (m.enter c fields).Readable := ⟨h.valid, h.isSealed⟩

theorem peek_eq_head : m.stream.peek = m.rest.head? := by
  simp [Stream.peek, rest, Stream.rest, List.head?_drop]

/-- A readable message is at its end when nothing is next, or a closing marker. -/
theorem atEnd_iff (h : m.Readable) :
    m.atEnd = true ↔ m.rest = [] ∨ ∃ rest, m.rest = .closing :: rest := by
  simp only [atEnd, h.valid, h.isSealed, Bool.and_self, if_true, peek_eq_head]
  rcases m.rest with _ | ⟨_ | _ | _, rest⟩ <;> simp [Item.isClosing]

/-! ## Single steps -/

theorem run_readable (h : m.Readable) : readable.run m = (.ok (), m) := by
  simp [readable, Action.run_bind, h.valid, h.isSealed]

theorem run_readBasic_eq_ok {code : Text} {v : Value} (hm : m.Readable) :
    (readBasic code).run m = (.ok v, m') ↔
      ∃ rest, m.rest = .basic code v :: rest ∧ m' = m.skip 1 := by
  unfold readBasic
  rw [Action.run_bind_of_ok (run_readable hm), Action.run_get_bind, peek_eq_head]
  rcases m.rest with _ | ⟨⟨found, u⟩ | _ | _, rest⟩
  · simp
  · simp only [List.head?_cons, List.cons.injEq, Item.basic.injEq]
    split
    · rename_i hcode
      rw [Action.run_bind_of_ok (Action.run_modify _ _)]
      simp [hcode, eq_comm]
    · rename_i hcode
      simp [hcode]
  · simp
  · simp

theorem settles_readBasic {code : Text} (hm : m.Readable) : Action.Settles (readBasic code) m := by
  unfold readBasic Action.Settles
  rw [Action.run_bind_of_ok (run_readable hm), Action.run_get_bind]
  split
  · exact Action.settles_fail _
  · exact Action.settles_fail _
  · exact Action.settles_fail _
  · split
    · exact Action.Settles.bind (fun _ _ h => by cases h) fun _ _ _ => Action.settles_pure _
    · exact Action.settles_fail _

theorem run_enterContainer_eq_ok {c : Container} (hm : m.Readable) :
    (enterContainer c).run m = (.ok (), m') ↔
      ∃ rest fields, m.rest = .opening c :: rest ∧ c.fields = .ok fields ∧
        m' = m.enter c fields := by
  unfold enterContainer
  rw [Action.run_bind_of_ok (run_readable hm), Action.run_get_bind, peek_eq_head]
  rcases m.rest with _ | ⟨_ | d | _, rest⟩
  · simp
  · simp
  · simp only [List.head?_cons, List.cons.injEq, Item.opening.injEq]
    split
    · rename_i hcd
      subst hcd
      rw [Action.run_bind_of_ok (Action.run_modify _ _), pushFrame]
      rcases c.fields with _ | fields
      · simp [Action.raise]
      · simp [enter, eq_comm]
    · rename_i hcd
      simp [Ne.symm hcd]
  · simp

theorem settles_enterContainer {c : Container} {fields : List Text} (hm : m.Readable)
    (hf : c.fields = .ok fields) : Action.Settles (enterContainer c) m := by
  unfold enterContainer Action.Settles
  rw [Action.run_bind_of_ok (run_readable hm), Action.run_get_bind]
  split
  · exact Action.settles_fail _
  · exact Action.settles_fail _
  · split
    · refine Action.Settles.bind (fun _ _ h => by cases h) fun _ _ _ => ?_
      unfold pushFrame
      rw [hf]
      exact fun _ _ h => by cases h
    · exact Action.settles_fail _
  · exact Action.settles_fail _

/-- Leaving a container takes its closing marker, which must be next. Elements of an array could be
passed over, but at the end of one there are none. -/
theorem run_exitContainer_eq_ok {f : Frame} {fs : List Frame} (hm : m.Readable)
    (hf : m.frames = f :: fs) (hend : f.container.kind = .array → m.atEnd = true) :
    exitContainer.run m = (.ok (), m') ↔
      ∃ rest, m.rest = .closing :: rest ∧ m' = { m.skip 1 with frames := fs } := by
  unfold exitContainer
  rw [Action.run_bind_of_ok (run_readable hm), Action.run_get_bind, hf]
  simp only
  split
  · rename_i hk
    rcases (atEnd_iff hm).mp (hend hk) with hrest | ⟨rest, hrest⟩
    · simp only [hrest, Item.toClosing]
      rw [Action.run_bind_of_ok (Action.run_modify _ _)]
      simp
    · simp [hrest, Item.toClosing, skip, eq_comm]
  · rw [peek_eq_head]
    rcases m.rest with _ | ⟨_ | _ | _, rest⟩ <;> simp [skip, eq_comm]

theorem settles_exitContainer (hm : m.Readable) (h : m.frames ≠ []) :
    Action.Settles exitContainer m := by
  obtain ⟨f, fs, hf⟩ := List.exists_cons_of_ne_nil h
  unfold exitContainer Action.Settles
  rw [Action.run_bind_of_ok (run_readable hm), Action.run_get_bind, hf]
  simp only
  split
  · split
    · exact Action.Settles.bind (fun _ _ h => by cases h) fun _ _ _ => Action.settles_fail _
    · exact fun _ _ h => by cases h
  · split
    · exact fun _ _ h => by cases h
    · exact Action.settles_fail _

/-! ## Brackets -/

variable {α β : Type} {c : Container} {body : Action α} {f : α → Action β}

/-- Entering a container, passing over what is inside and leaving it only moves the cursor on. -/
theorem leave_enter (c : Container) (fields : List Text) (m : Message) (n : Nat) :
    { ((m.enter c fields).skip n).skip 1 with frames := m.frames } = m.skip (n + 2) := by
  simp only [enter, skip]
  rw [show m.stream.cursor + 1 + n + 1 = m.stream.cursor + (n + 2) by omega]

/-- A bracketed value is read by what reads its inside. -/
theorem run_bracket {a : α} {fields : List Text} (hm : m.Readable) (hf : c.fields = .ok fields)
    (hrest : m.rest = .opening c :: (inside ++ .closing :: tail))
    (hbody : body.run (m.enter c fields) = (.ok a, (m.enter c fields).skip inside.length)) :
    (do enterContainer c; let a ← body; exitContainer; f a).run m =
      (f a).run (m.skip (inside.length + 2)) := by
  have hinside : ((m.enter c fields).skip inside.length).rest = .closing :: tail := by
    simp [hrest]
  have hready := (hm.enter c fields).skip inside.length
  rw [Action.run_bind_of_ok ((run_enterContainer_eq_ok hm).mpr ⟨_, fields, hrest, hf, rfl⟩),
    Action.run_bind_of_ok hbody,
    Action.run_bind_of_ok ((run_exitContainer_eq_ok hready rfl fun _ => ?_).mpr
      ⟨tail, hinside, rfl⟩)]
  · rw [← leave_enter c fields]
  · exact (atEnd_iff hready).mpr (.inr ⟨tail, hinside⟩)

/-- A bracketed value has been read only where its inside has, between the two markers. -/
theorem of_run_bracket {b : β} {P : α → List Item → Prop} (hm : m.Readable)
    (h : (do enterContainer c; let a ← body; exitContainer; f a).run m = (.ok b, m'))
    (hbody : ∀ {fields a m₁}, body.run (m.enter c fields) = (.ok a, m₁) →
      (∃ seg tail, (m.enter c fields).rest = seg ++ tail ∧
        m₁ = (m.enter c fields).skip seg.length ∧ P a seg) ∧
      (c.kind = .array → m₁.atEnd = true)) :
    ∃ a inside tail, m.rest = .opening c :: (inside ++ .closing :: tail) ∧ P a inside ∧
      (f a).run (m.skip (inside.length + 2)) = (.ok b, m') := by
  obtain ⟨_, m₀, henter, h⟩ := Action.run_bind_eq_ok.mp h
  obtain ⟨a, m₁, hrun, h⟩ := Action.run_bind_eq_ok.mp h
  obtain ⟨_, m₂, hexit, h⟩ := Action.run_bind_eq_ok.mp h
  obtain ⟨rest, fields, hrest, -, rfl⟩ := (run_enterContainer_eq_ok hm).mp henter
  obtain ⟨⟨seg, tail, hseg, rfl, hP⟩, hend⟩ := hbody hrun
  obtain ⟨tail', htail, rfl⟩ :=
    (run_exitContainer_eq_ok ((hm.enter c fields).skip seg.length) rfl hend).mp hexit
  rw [rest_skip_append hseg] at htail
  subst htail
  rw [rest_enter_cons hrest] at hseg
  refine ⟨a, seg, tail', by rw [hrest, hseg], hP, ?_⟩
  rwa [← leave_enter c fields]

end Message

end TypedBus
