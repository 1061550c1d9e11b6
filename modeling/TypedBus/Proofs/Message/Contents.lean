import Mathlib
import TypedBus.Proofs.Message.WriteCalls
import TypedBus.Proofs.Stream.Packed

/-!
# What written messages hold

Writing adds nothing to a message but markers of containers that can be opened, values that the
message carries for values of basic types, and places in the table of descriptors
(`Item.IsWritten`, `WriteCall.holdsWritten_after`). A document can hold all of these
(`Item.IsWritten.packable`), as long as places are integers of 64 bits. So it can hold the stream of
a message that has been written (`Message.Storable.packable`).
-/

namespace TypedBus

open Message

/-! ## Texts without surrogates -/

theorem Text.isWhole_of_check {t u : Text} (h : t.check = .ok u) : t.IsWhole := by
  unfold Text.check at h
  split at h
  · cases h
  · split at h
    · cases h
    · rename_i hwhole
      simpa [Text.IsWhole] using hwhole

namespace WireType

mutual

theorem isWhole_signature : ∀ t : WireType, t.signature.IsWhole
  | .basic b => rfl
  | .variant => rfl
  | .array e => by
    rw [signature, Text.isWhole_cons]
    exact isWhole_signature e
  | .dict k v => by
    simp [signature, isWhole_signature k, isWhole_signature v]
  | .entry k v => by
    simp [signature, isWhole_signature k, isWhole_signature v]
  | .struct fs => by
    simp [signature, isWhole_signatures fs]
  | .tuple fs => by
    rw [signature]
    exact isWhole_signatures fs

theorem isWhole_signatures : ∀ ts : List WireType, (signatures ts).IsWhole
  | [] => rfl
  | t :: ts => Text.isWhole_append.mpr ⟨isWhole_signature t, isWhole_signatures ts⟩

end

end WireType

/-- The content of a container that can be opened is spelt in letters. -/
theorem Container.isWhole_content {c : Container} (h : c.isValid = true) : c.content.IsWhole := by
  obtain ⟨kind, content⟩ := c
  have hsingle {s : Text} (hs : Signature.isSingle s = true) : s.IsWhole := by
    obtain ⟨-, t, rfl, -⟩ := Signature.isSingle_iff.mp hs
    exact t.isWhole_signature
  cases kind with
  | array | struct | dictEntry => simpa [Container.signature] using hsingle h
  | variant => exact hsingle h

/-! ## Items -/

/-- The item is one that writing adds to a message with so many descriptors. -/
inductive Item.IsWritten (places : Nat) : Item → Prop
  | basic {b : BasicType} {x : Value} (h : b.Holds x) (hb : b ≠ .handle) :
      IsWritten places (.basic [b.code] x.carried)
  | handle {i : Nat} (h : i < places) :
      IsWritten places (.basic [BasicType.handle.code] (.integer i))
  | opening {c : Container} (h : c.isValid = true) : IsWritten places (.opening c)
  | closing : IsWritten places .closing

theorem Item.IsWritten.mono {places places' : Nat} {item : Item} (h : item.IsWritten places)
    (hle : places ≤ places') : item.IsWritten places' := by
  cases h with
  | basic hx hb => exact .basic hx hb
  | handle hi => exact .handle (by omega)
  | opening hc => exact .opening hc
  | closing => exact .closing

theorem IntWidth.Holds.json {w : IntWidth} {n : Int} (h : w.Holds n) : Json.Holds n := by
  obtain ⟨hleast, hgreatest⟩ := h
  unfold Json.Holds
  cases w <;> simp only [least, greatest] at hleast hgreatest <;> omega

/-- **A document can hold what writing adds.** -/
theorem Item.IsWritten.packable {places : Nat} {item : Item} (h : item.IsWritten places)
    (hplaces : places ≤ 2 ^ 64) : item.Packable := by
  cases h with
  | basic hx hb =>
    cases hx with
    | integer hn => exact .basic nofun (.integer hn.json) rfl
    | boolean => exact .basic nofun (.boolean _) rfl
    | double => exact .double _
    | string ht => exact .basic nofun (.text (Text.isWhole_of_check ht)) rfl
    | objectPath ht => exact .basic nofun (.text (Text.isWhole_of_check ht)) rfl
    | signature ht => exact .basic nofun (.text (Text.isWhole_of_check ht)) rfl
    | handle => exact absurd rfl hb
  | @handle i hi =>
    have hplace : Json.Holds i := by
      unfold Json.Holds
      omega
    exact .basic nofun (.integer hplace) rfl
  | opening hc => exact .opening (Container.isWhole_content hc)
  | closing => exact .closing

/-! ## Messages -/

namespace Message

/-- The items and descriptors are ones that writing adds. -/
structure HoldsWritten (m : Message) : Prop where
  items : ∀ item ∈ m.stream.items, item.IsWritten m.stream.descriptors.length
  descriptors : ∀ d ∈ m.stream.descriptors, ∃ n : Int, d = .integer n

variable {m : Message}

theorem HoldsWritten.add {item : Item} {fs : List Frame} (h : m.HoldsWritten)
    (hitem : item.IsWritten m.stream.descriptors.length) : (m.add item fs).HoldsWritten where
  items other hother := by
    rw [add_items, List.mem_append, List.mem_singleton] at hother
    rcases hother with hother | rfl
    · exact h.items other hother
    · exact hitem
  descriptors := h.descriptors

theorem HoldsWritten.carry (h : m.HoldsWritten) (x : Value) : (m.carry x).2.HoldsWritten := by
  cases x with
  | handle n =>
    refine ⟨fun item hitem => (h.items item hitem).mono ?_, fun d hd => ?_⟩
    · simp [Message.carry, Stream.addDescriptor]
    · rcases List.mem_append.mp hd with hd | hd
      · exact h.descriptors d hd
      · exact ⟨n, List.mem_singleton.mp hd⟩
  | _ => exact h

/-- What a message is given to carry for a value is an item that writing adds. -/
theorem isWritten_carry {b : BasicType} {x : Value} (hx : b.Holds x) (m : Message) :
    (Item.basic [b.code] (m.carry x).1).IsWritten (m.carry x).2.stream.descriptors.length := by
  by_cases hb : b = .handle
  · subst hb
    cases hx
    exact .handle (by simp [Message.carry, Stream.addDescriptor])
  · have hcarried : (m.carry x).1 = x.carried := by
      cases hx <;> first | rfl | exact absurd rfl hb
    rw [hcarried]
    exact .basic hx hb

/-- **Writing adds nothing else to a valid message.** -/
theorem admits_holdsWritten :
    Action.Admits fun _ => Action.Keeps fun m =>
      m.isValid = true → m.Writable ∧ m.HoldsWritten := by
  refine admits_of_step (fun _ h => h.1) ?_ ?_ ?_
  · rintro m c fs ⟨hw, h⟩ hstep
    exact ⟨hw.add _ _, h.add (.opening (Item.step_opening_iff.mp hstep).1)⟩
  · rintro m fs ⟨hw, h⟩ -
    exact ⟨hw.add _ _, h.add .closing⟩
  · rintro m b x fs ⟨hw, h⟩ hx -
    exact ⟨(hw.carry x).add _ _, (h.carry x).add (isWritten_carry hx m)⟩

/-- The message holds what calls that write left in a message, which was valid then. What else is
done to a message changes neither its items nor its descriptors. -/
def IsWritten (m : Message) : Prop :=
  ∃ e calls, (WriteCall.after calls (ofEnvelope e)).isValid = true ∧
    m.stream.items = (WriteCall.after calls (ofEnvelope e)).stream.items ∧
    m.stream.descriptors = (WriteCall.after calls (ofEnvelope e)).stream.descriptors

end Message

/-- A valid message after any calls holds just what writing adds. -/
theorem WriteCall.holdsWritten_after (calls : List WriteCall) {m : Message}
    (hm : m.isValid = true → m.Writable ∧ m.HoldsWritten) :
    (after calls m).isValid = true → (after calls m).Writable ∧ (after calls m).HoldsWritten := by
  induction calls generalizing m with
  | nil => exact hm
  | cons call calls ih => exact ih (admits_action admits_holdsWritten call m hm)

namespace Message

variable {m : Message}

theorem IsWritten.holdsWritten (h : m.IsWritten) : m.HoldsWritten := by
  obtain ⟨e, calls, hv, hitems, hdescriptors⟩ := h
  have hfresh : (ofEnvelope e).HoldsWritten := ⟨nofun, nofun⟩
  obtain ⟨-, hwritten⟩ := WriteCall.holdsWritten_after calls (fun _ => ⟨⟨rfl, rfl⟩, hfresh⟩) hv
  refine ⟨?_, ?_⟩
  · rw [hitems, hdescriptors]
    exact hwritten.items
  · rw [hdescriptors]
    exact hwritten.descriptors

end Message

end TypedBus
