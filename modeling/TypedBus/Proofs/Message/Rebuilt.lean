import TypedBus.Proofs.Message.Announced
import TypedBus.Proofs.Message.Rereading
import TypedBus.Proofs.Message.Sealed

/-!
# Copies put together anew

`Message.copy` says what a copy is. `Message.rebuilt` says how one is made out of the parts of a
message: an empty stream with the same envelope is given the descriptors and the items one by one
and sealed if need be, the containers that are open are opened again, each with the values counted
that have begun in it, and the failure is carried over. Adding to a stream and opening a container
may raise, and a frame or a place that is not carried over would be lost.

Neither happens: a message that is being written has its cursor at the start, and its frames hold
the fields of their own containers (`Restorable`). A fresh message does, every use of a message
keeps it so (`Use.restorable_perform`), and where it is so, what is put together is the copy
(`rebuilt_eq_ok`).
-/

namespace TypedBus

open Message

/-- The stream with more descriptors and more items, added one by one. -/
def Stream.filled (descriptors : List Value) (items : List Item) (s : Stream) :
    Except Fault Stream :=
  items.foldlM Stream.append (descriptors.foldl Stream.addDescriptor s)

/-- The container opened once more, with the values counted that have begun in it. -/
def Frame.reopened (f : Frame) : Except Fault Frame :=
  match f.container.fields with
  | .ok fields => .ok { container := f.container, fields, index := f.index }
  | .error e => .error (.malformed e)

namespace Message

/-- The message put together anew, part by part. -/
def rebuilt (m : Message) : Except Fault Message := do
  let stream ← Stream.filled m.stream.descriptors m.stream.items { envelope := m.stream.envelope }
  let stream := if m.stream.isSealed then stream.sealUp else stream
  let frames ← if m.stream.isSealed then pure [] else m.frames.mapM Frame.reopened
  pure { stream, frames, failure := m.failure, writeFailed := m.writeFailed }

/-- A message that is being written has its cursor at the start, and its frames hold the fields of
their containers. -/
structure Restorable (m : Message) : Prop where
  cursor : m.stream.isSealed = false → m.stream.cursor = 0
  fields : m.stream.isSealed = false → ∀ f ∈ m.frames, f.container.fields = .ok f.fields

variable {m m' : Message} {fs : List Frame}

/-! ## Putting together -/

theorem foldl_addDescriptor (ds : List Value) (s : Stream) :
    ds.foldl Stream.addDescriptor s = { s with descriptors := s.descriptors ++ ds } := by
  induction ds generalizing s with
  | nil => simp
  | cons d ds ih =>
    rw [List.foldl_cons, ih]
    simp [Stream.addDescriptor]

theorem foldlM_append (items : List Item) {s : Stream} (hs : s.isSealed = false) :
    items.foldlM Stream.append s = .ok { s with items := s.items ++ items } := by
  induction items generalizing s with
  | nil => simp [pure, Except.pure]
  | cons item items ih =>
    have happend : s.append item = .ok { s with items := s.items ++ [item] } := by
      simp [Stream.append, hs]
    have hrest := ih (s := { s with items := s.items ++ [item] }) hs
    rw [List.foldlM_cons, happend, ok_bind, hrest]
    simp

/-- Nothing is raised while a new stream is filled. -/
theorem filled_eq_ok (e : Envelope) (ds : List Value) (items : List Item) :
    Stream.filled ds items { envelope := e } =
      .ok { envelope := e, descriptors := ds, items := items } := by
  rw [Stream.filled, foldl_addDescriptor, foldlM_append items rfl]
  simp

theorem mapM_reopened (h : ∀ f ∈ fs, f.container.fields = .ok f.fields) :
    fs.mapM Frame.reopened = .ok fs := by
  induction fs with
  | nil => rfl
  | cons f fs ih =>
    obtain ⟨hf, hfs⟩ := List.forall_mem_cons.mp h
    have hopen : f.reopened = .ok f := by rw [Frame.reopened, hf]
    rw [List.mapM_cons, hopen, ok_bind, ih hfs]
    rfl

/-- **What is put together anew is the copy**, and nothing is raised on the way. -/
theorem rebuilt_eq_ok (h : m.Restorable) : m.rebuilt = .ok m.copy := by
  rw [rebuilt, filled_eq_ok, ok_bind]
  cases hs : m.stream.isSealed with
  | true => simp [copy, Stream.sealUp, Stream.rewind, hs, pure, Except.pure, bind, Except.bind]
  | false =>
    rw [if_neg (by simp), if_neg (by simp), mapM_reopened (h.fields hs), ok_bind]
    simp [copy, Stream.rewind, hs, pure, Except.pure]

/-- The copy of a message that is being written is just as it. -/
theorem copy_of_unsealed (h : m.Restorable) (hs : m.stream.isSealed = false) : m.copy = m := by
  obtain ⟨stream, frames, failure, writeFailed⟩ := m
  have hcursor : stream.rewind = stream := by rw [Stream.rewind, ← h.cursor hs]
  have hs' : stream.isSealed = false := hs
  simp [copy, hcursor, hs']

/-- The copy of a sealed message is just as that is when it is rewound. -/
theorem rewind_of_sealed (hs : m.stream.isSealed = true) : m.rewind = .ok m.copy := by
  have hseal : m.stream.sealUp = m.stream := by rw [Stream.sealUp, ← hs]
  rw [rewind, copy]
  rcases m.frames with _ | ⟨f, fs⟩ <;> simp [hseal, hs]

/-! ## Messages that can be put together anew -/

namespace Restorable

theorem of_sealed (hs : m.stream.isSealed = true) : m.Restorable where
  cursor h := by rw [hs] at h; cases h
  fields h := by rw [hs] at h; cases h

theorem ofEnvelope (e : Envelope) : (ofEnvelope e).Restorable :=
  ⟨fun _ => rfl, fun _ _ hf => nomatch hf⟩

/-- Nothing but the seal, the cursor and the frames counts. -/
theorem congr (h : m.Restorable) (hs : m'.stream.isSealed = m.stream.isSealed)
    (hc : m'.stream.cursor = m.stream.cursor) (hf : m'.frames = m.frames) : m'.Restorable where
  cursor := by rw [hs, hc]; exact h.cursor
  fields := by rw [hs, hf]; exact h.fields

theorem withFrames (h : m.Restorable)
    (hfs : m.stream.isSealed = false → ∀ f ∈ fs, f.container.fields = .ok f.fields) :
    Restorable { m with frames := fs } :=
  ⟨h.cursor, hfs⟩

theorem fail (h : m.Restorable) (f : Failure) : (m.fail f).Restorable := by
  unfold Message.fail
  split
  · exact h.congr rfl rfl rfl
  · exact h

theorem carry (h : m.Restorable) (x : Value) : (m.carry x).2.Restorable := by
  cases x <;> exact h.congr rfl rfl rfl

end Restorable

open TypedBus.Action

theorem keeps_restorable_fail {α : Type} (f : Failure) :
    Keeps Restorable (Action.fail f : Action α) := fun _ h => h.fail f

theorem keeps_restorable_push (item : Item) : Keeps Restorable (modify (push item)) :=
  fun _ h => h.congr rfl rfl rfl

theorem keeps_restorable_writable : Keeps Restorable writable := by
  refine keeps_get.bind fun m => ?_
  split
  · exact keeps_stop _
  · split
    · exact (keeps_modify fun _ h => h.congr rfl rfl rfl).bind fun _ => keeps_restorable_fail _
    · exact keeps_pure ()

/-- Counting a value in a frame leaves its fields as they are. -/
theorem keeps_restorable_expect (signature : Text) : Keeps Restorable (expect signature) := by
  intro m h
  rw [expect, run_get_bind]
  split
  · split
    · exact h.fail _
    · exact h
  · rename_i f fs hf
    dsimp only
    split
    · split
      · exact h
      · exact h.fail _
    · split
      · exact h.fail _
      · have hcounted : Restorable { m with frames := { f with index := f.index + 1 } :: fs } := by
          refine h.withFrames fun hs => List.forall_mem_cons.mpr ?_
          exact List.forall_mem_cons.mp (hf ▸ h.fields hs)
        rw [run_bind_of_ok (run_modify _ m)]
        split
        · exact hcounted
        · exact hcounted.fail _

theorem keeps_restorable_pushFrame (c : Container) : Keeps Restorable (pushFrame c) := by
  unfold pushFrame
  split
  · rename_i fields hfields
    exact keeps_modify fun m h =>
      h.withFrames fun hs => List.forall_mem_cons.mpr ⟨hfields, h.fields hs⟩
  · exact keeps_stop _

theorem keeps_restorable_openContainer (c : Container) : Keeps Restorable (openContainer c) := by
  have hrest := (keeps_restorable_expect c.signature).bind fun _ =>
    (keeps_restorable_push (.opening c)).bind fun _ => keeps_restorable_pushFrame c
  refine keeps_restorable_writable.bind fun _ => ?_
  split
  · exact (keeps_restorable_fail _).bind fun _ => hrest
  · exact hrest

theorem keeps_restorable_closeContainer : Keeps Restorable closeContainer := by
  refine keeps_restorable_writable.bind fun _ m h => ?_
  rw [run_get_bind]
  split
  · exact h
  · rename_i f fs hf
    split
    · exact h.fail _
    · have hleft : Restorable { m with frames := fs } :=
        h.withFrames fun hs => (List.forall_mem_cons.mp (hf ▸ h.fields hs)).2
      exact hleft.congr rfl rfl rfl

theorem keeps_restorable_encodeBasic (b : BasicType) (v : Value) :
    Keeps Restorable (b.encode v) := by
  intro m h
  rcases hx : b.convert v with f | x
  · unfold BasicType.encode
    rw [hx]
    exact h.fail _
  · rw [run_encode_basic hx]
    have hwrite := keeps_restorable_writable.bind fun _ =>
      (keeps_restorable_expect [b.code]).bind fun _ =>
        keeps_restorable_push (.basic [b.code] (m.carry x).1)
    exact hwrite _ (h.carry x)

/-- **Writing keeps a message restorable**, whatever comes of it. -/
theorem admits_restorable : Admits fun _ => Keeps Restorable where
  pure := keeps_pure
  bind := Keeps.bind
  ifValid := Keeps.ifValid
  fail := keeps_restorable_fail
  raise _ := keeps_stop _
  openContainer := keeps_restorable_openContainer
  closeContainer := keeps_restorable_closeContainer
  encodeBasic := keeps_restorable_encodeBasic

theorem OnlyAsked.restorable (h : m.OnlyAsked m') (hm : m.Restorable) : m'.Restorable :=
  hm.congr (congrArg Stream.isSealed h.stream) (congrArg Stream.cursor h.stream) h.frames

end Message

namespace Use

variable {m : Message}

/-- A use that does not write keeps a message restorable that is being written: it does no more to
it than to ask, or seals it. -/
theorem restorable_of_unsealed (hs : m.stream.isSealed = false) (h : m.Restorable) (u : Use)
    (hu : u.writing? = none) : (u.perform m).Restorable := by
  have hread : ∀ {ρ} {c : Call}, c.isReading = true → (c.perform ρ m).2.Restorable :=
    fun hc => (Call.onlyAsked_perform hs hc (.refl m)).restorable h
  cases u with
  | encode t v => cases hu
  | decode ρ t =>
    exact ((OnlyAsked.refl m).early (Action.early_decode ρ t) hs).restorable h
  | send l =>
    rcases send_cases m l with hkeep | hsealed
    · rwa [perform, hkeep]
    · exact .of_sealed hsealed
  | address destination => exact h.congr rfl rfl rfl
  | copy => rwa [perform, copy_of_unsealed h hs]
  | call ρ c =>
    cases c with
    | write | openContainer | closeContainer => cases hu
    | read | enterContainer | exitContainer | atEnd | peekType | resetFailure => exact hread rfl
    | fail reason => exact h.fail _
    | check =>
      change (Call.change m .message (m.check.map fun _ => m)).2.Restorable
      cases m.check <;> exact h
    | rewind =>
      change (Call.change m .message m.rewind).2.Restorable
      rcases hrewind : m.rewind with f | m'
      · exact h
      · exact .of_sealed (isSealed_of_rewind hrewind)

/-- **Every use keeps a message restorable.** -/
theorem restorable_perform (h : m.Restorable) (u : Use) : (u.perform m).Restorable := by
  cases hs : m.stream.isSealed with
  | true => exact .of_sealed (perform_of_sealed hs u).1
  | false =>
    rcases hu : u.writing? with _ | x
    · exact restorable_of_unsealed hs h u hu
    · rw [perform_of_writing? hu]
      exact admits_of_writing? admits_restorable hu m h

end Use

end TypedBus
