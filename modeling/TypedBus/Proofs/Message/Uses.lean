import TypedBus.Message.Send
import TypedBus.Proofs.Message.Contents
import TypedBus.Proofs.Message.Sticky
import TypedBus.Proofs.Message.Taking

/-!
# Everything that is done with a message

A program calls a message, writes and reads it by a type, sends it, addresses it to another
destination, or goes on with a copy of it (`Use`). Some uses write, some read, and the others only
turn the message (`Message.Turns`), record a failure or forget one; so what all of these leave as it
is, every row of uses leaves as it is (`Use.keeps`).

A message that failed while it was being written is `Message.Final`: whatever is done with it, it
stays invalid, and its failure cannot be reset (`Use.final_after`).
-/

namespace TypedBus

open Message WireType

/-- Something that is done with a message. -/
inductive Use
  | call (ρ : Registry) (call : Call)
  | encode (t : WireType) (v : Value)
  | decode (ρ : Registry) (t : WireType)
  | send (l : Loopback)
  | address (destination : Value)
  | copy

namespace Use

/-- The message after a use; a copy takes the place of what it is a copy of. -/
def perform (m : Message) : Use → Message
  | call ρ c => (c.perform ρ m).2
  | encode t v => ((t.encode v).run m).2
  | decode ρ t => ((t.decode ρ).run m).2
  | send l => (m.send l).2.1
  | address destination => m.setDestination destination
  | copy => m.copy

/-- The message after a row of uses, whatever came of each. -/
def after (uses : List Use) (m : Message) : Message := uses.foldl perform m

/-- The action of a use that writes. -/
def writing? : Use → Option (Action Unit)
  | call _ (.write v type) => some (write v type)
  | call _ (.openContainer c) => some (openContainer c)
  | call _ .closeContainer => some closeContainer
  | encode t v => some (t.encode v)
  | _ => none

variable {u : Use} {x : Action Unit} {m : Message}

theorem perform_of_writing? (h : u.writing? = some x) : u.perform m = (x.run m).2 := by
  unfold writing? at h
  split at h <;> cases h <;> rfl

/-- A use that writes has every property that the steps of writing have. -/
theorem admits_of_writing? {Q : (α : Type) → Action α → Prop} (hQ : Action.Admits Q)
    (h : u.writing? = some x) : Q Unit x := by
  unfold writing? at h
  split at h <;> cases h
  case h_1 v type => exact WriteCall.admits_action hQ (.value v type)
  case h_2 c => exact hQ.openContainer c
  case h_3 => exact hQ.closeContainer
  case h_4 t v => exact hQ.encode t v

/-- Nothing is written to an invalid message. -/
theorem run_writing?_of_invalid (hv : m.isValid = false) (h : u.writing? = some x) :
    x.run m = (.error .failed, m) := by
  unfold writing? at h
  split at h <;> cases h
  case h_1 v type => exact WriteCall.run_of_invalid hv (.value v type)
  case h_2 c => exact WriteCall.run_of_invalid hv (.opening c)
  case h_3 => exact WriteCall.run_of_invalid hv .closing
  case h_4 t v => exact Action.run_ifValid_of_invalid hv

end Use

/-! ## What no use undoes -/

namespace Message

open TypedBus.Action

variable {P : Message → Prop} {m m' : Message}

@[simp] theorem stream_fail (f : Failure) : (m.fail f).stream = m.stream := by
  unfold fail
  split <;> rfl

theorem fail_of_invalid (h : m.isValid = false) (f : Failure) : m.fail f = m := by
  simp [fail, h]

/-- The second message has the content of the first, and is sealed if that was. -/
structure SameContent (m m' : Message) : Prop where
  items : m'.stream.items = m.stream.items
  descriptors : m'.stream.descriptors = m.stream.descriptors
  isSealed : m.stream.isSealed = true → m'.stream.isSealed = true

/-- The second message is the first, perhaps sealed by now, with other containers entered, another
item under its cursor, or another envelope. -/
structure Turns (m m' : Message) : Prop extends SameContent m m' where
  failure : m'.failure = m.failure
  writeFailed : m'.writeFailed = m.writeFailed

theorem SameContent.refl (m : Message) : m.SameContent m := ⟨rfl, rfl, id⟩

theorem SameContent.trans {m₁ : Message} (h : m.SameContent m₁) (h' : m₁.SameContent m') :
    m.SameContent m' :=
  ⟨h'.items.trans h.items, h'.descriptors.trans h.descriptors, h'.isSealed ∘ h.isSealed⟩

theorem Turns.refl (m : Message) : m.Turns m := ⟨.refl m, rfl, rfl⟩

theorem turns_rewind (h : m.rewind = .ok m') : m.Turns m' := by
  unfold rewind at h
  split at h
  · split at h
    · cases h
    · cases h
      exact ⟨⟨rfl, rfl, fun _ => rfl⟩, rfl, rfl⟩
  · cases h
    exact ⟨⟨rfl, rfl, fun _ => rfl⟩, rfl, rfl⟩

/-- A transport writes into the envelope of a stream and leaves the rest of it alone. -/
theorem turns_loopback (l : Loopback) : m.Turns { m with stream := (l.send m.stream).2.1 } := by
  unfold Loopback.send
  split
  · dsimp only
    split <;> exact ⟨⟨rfl, rfl, id⟩, rfl, rfl⟩
  · exact .refl m

theorem turns_send (m : Message) (l : Loopback) : m.Turns (m.send l).2.1 := by
  unfold send
  split
  · exact .refl m
  · rename_i m₁ h
    obtain ⟨_, -, h⟩ := bind_eq_ok.mp h
    have hrewind := turns_rewind h
    have hsend := turns_loopback (m := m₁) l
    exact ⟨hrewind.toSameContent.trans hsend.toSameContent, hsend.failure.trans hrewind.failure,
      hsend.writeFailed.trans hrewind.writeFailed⟩

theorem turns_setDestination (destination : Value) (m : Message) :
    m.Turns (m.setDestination destination) := ⟨⟨rfl, rfl, id⟩, rfl, rfl⟩

theorem turns_copy (m : Message) : m.Turns m.copy := ⟨⟨rfl, rfl, id⟩, rfl, rfl⟩

/-- Nothing but writing undoes the property. -/
structure Enduring (P : Message → Prop) : Prop where
  turns : ∀ {m m' : Message}, m.Turns m' → P m → P m'
  fail : ∀ {m : Message} (f : Failure), P m → P (m.fail f)
  early : ∀ {m : Message}, P m → P { m with failure := some .notYetSealed }
  reset : ∀ {m m' : Message}, m.resetFailure = .ok m' → P m → P m'

theorem Enduring.lasting (hP : Enduring P) : Lasting P where
  skip _ := hP.turns ⟨⟨rfl, rfl, id⟩, rfl, rfl⟩
  frames _ := hP.turns ⟨⟨rfl, rfl, id⟩, rfl, rfl⟩
  fail := hP.fail
  early := hP.early

theorem enduring_sameContent (m : Message) : Enduring m.SameContent where
  turns ht h := h.trans ht.toSameContent
  fail f h := ⟨by rw [stream_fail, h.items], by rw [stream_fail, h.descriptors],
    by rw [stream_fail]; exact h.isSealed⟩
  early h := ⟨h.items, h.descriptors, h.isSealed⟩
  reset hreset h := by
    unfold resetFailure at hreset
    split at hreset
    · cases hreset
    · cases hreset
      exact ⟨h.items, h.descriptors, h.isSealed⟩

theorem Enduring.and {Q : Message → Prop} (hP : Enduring P) (hQ : Enduring Q) :
    Enduring fun m => P m ∧ Q m where
  turns ht h := ⟨hP.turns ht h.1, hQ.turns ht h.2⟩
  fail f h := ⟨hP.fail f h.1, hQ.fail f h.2⟩
  early h := ⟨hP.early h.1, hQ.early h.2⟩
  reset hreset h := ⟨hP.reset hreset h.1, hQ.reset hreset h.2⟩

/-- No step of writing undoes the property. -/
structure Standing (P : Message → Prop) : Prop where
  frames : ∀ {m : Message} (fs : List Frame), P m → P { m with frames := fs }
  fail : ∀ {m : Message} (f : Failure), P m → P (m.fail f)
  barred : ∀ {m : Message}, P m → P { m with writeFailed := true }
  push : ∀ {m : Message} {item : Item}, item.IsWritten m.stream.descriptors.length → P m →
    P (m.push item)
  attach : ∀ {m : Message} (n : Int), P m →
    P { m with stream := m.stream.addDescriptor (.integer n) }

namespace Standing

theorem keeps_fail (hP : Standing P) {α : Type} (f : Failure) :
    Keeps P (Action.fail f : Action α) := fun _ => hP.fail f

theorem keeps_writable (hP : Standing P) : Keeps P writable := by
  refine keeps_get.bind fun m => ?_
  split
  · exact keeps_stop _
  · split
    · exact (keeps_modify fun _ => hP.barred).bind fun _ => hP.keeps_fail _
    · exact keeps_pure ()

theorem keeps_expect (hP : Standing P) (s : Text) : Keeps P (expect s) := by
  refine keeps_get.bind fun m => ?_
  split
  · split
    · exact hP.keeps_fail _
    · exact keeps_pure ()
  · dsimp only
    split
    · split
      · exact keeps_pure ()
      · exact hP.keeps_fail _
    · split
      · exact hP.keeps_fail _
      · refine (keeps_modify fun _ => hP.frames _).bind fun _ => ?_
        split
        · exact keeps_pure ()
        · exact hP.keeps_fail _

theorem keeps_openContainer (hP : Standing P) (c : Container) : Keeps P (openContainer c) := by
  refine hP.keeps_writable.bind fun _ => ?_
  split
  · -- what would come next does not, once the failure has been recorded
    intro m hm
    rw [run_bind_of_error (run_fail _ _)]
    exact hP.fail _ hm
  · rename_i hc
    have hpush : Keeps P (modify (Message.push (.opening c))) :=
      fun _ => hP.push (.opening (by simpa using hc))
    refine (hP.keeps_expect _).bind fun _ => hpush.bind fun _ => ?_
    unfold pushFrame
    split
    · exact keeps_modify fun _ => hP.frames _
    · exact keeps_stop _

theorem keeps_closeContainer (hP : Standing P) : Keeps P closeContainer := by
  refine hP.keeps_writable.bind fun _ => keeps_get.bind fun m => ?_
  split
  · exact keeps_stop _
  · split
    · exact hP.keeps_fail _
    · exact keeps_modify fun _ h => hP.push .closing (hP.frames _ h)

theorem carry (hP : Standing P) (x : Value) (h : P m) : P (m.carry x).2 := by
  cases x with
  | handle n => exact hP.attach n h
  | _ => exact h

/-- Places in the table of descriptors stay places. -/
theorem and_places (hP : Standing P) (k : Nat) :
    Standing fun m => P m ∧ k ≤ m.stream.descriptors.length where
  frames _ h := ⟨hP.frames _ h.1, h.2⟩
  fail f h := ⟨hP.fail f h.1, by rw [stream_fail]; exact h.2⟩
  barred h := ⟨hP.barred h.1, h.2⟩
  push hitem h := ⟨hP.push hitem h.1, h.2⟩
  attach n h := ⟨hP.attach n h.1, by
    rw [Stream.addDescriptor, List.length_append]
    exact Nat.le_add_right_of_le h.2⟩

theorem keeps_encodeBasic (hP : Standing P) (b : BasicType) (v : Value) : Keeps P (b.encode v) := by
  intro m hm
  rcases hx : b.convert v with f | x
  · unfold BasicType.encode
    rw [hx]
    exact hP.fail _ hm
  · -- the item is one that writing adds, as long as its place in the table stays one
    rw [run_encode_basic hx]
    have hitem := isWritten_carry (BasicType.holds_of_convert hx) m
    have hP' := hP.and_places (m.carry x).2.stream.descriptors.length
    have hpush : Keeps (fun m' => P m' ∧ (m.carry x).2.stream.descriptors.length ≤
        m'.stream.descriptors.length) (modify (Message.push (.basic [b.code] (m.carry x).1))) :=
      fun _ h => hP'.push (hitem.mono h.2) h
    have hwrite := hP'.keeps_writable.bind fun _ => (hP'.keeps_expect [b.code]).bind fun _ => hpush
    exact (hwrite _ ⟨hP.carry x hm, Nat.le_refl _⟩).1

/-- **Writing leaves as it is what its steps do**, whatever comes of it. -/
theorem admits (hP : Standing P) : Admits fun _ => Keeps P where
  pure := keeps_pure
  bind := Keeps.bind
  ifValid := Keeps.ifValid
  fail := hP.keeps_fail
  raise _ := keeps_stop _
  openContainer := hP.keeps_openContainer
  closeContainer := hP.keeps_closeContainer
  encodeBasic := hP.keeps_encodeBasic

end Standing

end Message

/-! ## What uses leave as it is -/

namespace Use

variable {P : Message → Prop} {m : Message}

/-- **What nothing but writing undoes, a use does not undo that does not write**, nor one whose
writing does not. -/
theorem keeps (hP : Enduring P) (u : Use) (hw : ∀ x, u.writing? = some x → Action.Keeps P x)
    (h : P m) : P (u.perform m) := by
  have htaking := hP.lasting.admitsTaking
  cases u with
  | encode t v => exact hw _ rfl m h
  | decode ρ t => exact htaking.decode ρ t m h
  | send l => exact hP.turns (turns_send m l) h
  | address destination => exact hP.turns (turns_setDestination destination m) h
  | copy => exact hP.turns (turns_copy m) h
  | call ρ c =>
    cases c with
    | write v type => exact hw _ rfl m h
    | openContainer c => exact hw _ rfl m h
    | closeContainer => exact hw _ rfl m h
    | read asked =>
      cases asked with
      | type e => exact htaking.read ρ e m h
      | opening c => exact htaking.enterContainer c m h
      | closing => exact htaking.exitContainer m h
    | enterContainer c => exact htaking.enterContainer c m h
    | exitContainer => exact htaking.exitContainer m h
    | atEnd | peekType => exact h
    | fail reason => exact hP.fail _ h
    | check =>
      change P (Call.change m .message (m.check.map fun _ => m)).2
      cases m.check <;> exact h
    | resetFailure =>
      change P (Call.change m (.value .null) m.resetFailure).2
      rcases hreset : m.resetFailure with f | m'
      · exact h
      · exact hP.reset hreset h
    | rewind =>
      change P (Call.change m .message m.rewind).2
      rcases hrewind : m.rewind with f | m'
      · exact h
      · exact hP.turns (turns_rewind hrewind) h

theorem keeps_after (hP : Enduring P)
    (hw : ∀ (u : Use) x, u.writing? = some x → Action.Keeps P x) :
    ∀ (uses : List Use) {m : Message}, P m → P (after uses m)
  | [], _, h => h
  | u :: uses, _, h => keeps_after hP hw uses (keeps hP u (hw u) h)

end Use

/-! ## Failed for good -/

namespace Message

variable {m : Message}

/-- The message is invalid, and failed while it was being written. -/
structure Final (m : Message) : Prop where
  invalid : m.isValid = false
  writeFailed : m.writeFailed = true

theorem Final.resetFailure (h : m.Final) : m.resetFailure = .error .incompleteMessage :=
  if_pos h.writeFailed

theorem enduring_final : Enduring Final where
  turns ht h := ⟨by rw [isValid, ht.failure]; exact h.invalid, ht.writeFailed.trans h.writeFailed⟩
  fail f h := by rwa [fail_of_invalid h.invalid f]
  early h := ⟨rfl, h.writeFailed⟩
  reset hreset h := by
    rw [h.resetFailure] at hreset
    cases hreset

end Message

/-- **What failed for good stays failed**, whatever is done with it. -/
theorem Use.final_after (uses : List Use) {m : Message} (h : m.Final) : (after uses m).Final := by
  refine keeps_after enduring_final (fun u x hx m h => ?_) uses h
  rwa [run_writing?_of_invalid h.invalid hx]

end TypedBus
