import TypedBus.Proofs.Json.Values
import TypedBus.Proofs.Message.ReadExact
import TypedBus.Proofs.Message.Settle
import TypedBus.Proofs.Value.Alike
import TypedBus.Proofs.Value.Canonical

/-!
# Reading what was received

A received stream holds items in any order and of any codes, and values of JSON documents. Whatever
is read from it as a value of a reduced type, the reader either gets a value in the form of that
type and has moved on, or finds the message invalid (`Message.Received`).

There is one exception. A handle that can neither be read nor be refused, because its descriptor is
an infinity or because it would be refused for too long an integer, raises a fault and leaves the
message valid (`run_read_stopsAt`). Nothing else goes wrong, and it goes wrong for no read of a
stream exactly when no item of it is such a handle (`received_unless_stopped`).
-/

namespace TypedBus

open Message WireType

variable {ρ : Registry} {ds : List Value}

/-! ## What is read is in the form of its type -/

theorem forall₂_replicate {e : WireType} :
    ∀ {n : Nat} {vs : List Value}, List.Forall₂ Canonical (List.replicate n e) vs →
      ∀ v ∈ vs, Canonical e v
  | 0, _, h => by
    cases h
    exact nofun
  | n + 1, _, h => by
    rw [List.replicate_succ] at h
    cases h with
    | cons hv hvs => exact List.forall_mem_cons.mpr ⟨hv, forall₂_replicate hvs⟩

/-- **What items are read as is in the form of its type.** -/
theorem Reads.canonical {ts : List WireType} {items : List Item} {ws : List Value}
    (h : Reads ρ ds ts items ws) : List.Forall₂ Canonical ts ws := by
  induction h with
  | nil => exact .nil
  | basic hacc _ ih => exact .cons (.basic hacc.holds) ih
  | variant _ _ _ ihin ih =>
    cases ihin with
    | cons hw _ => exact .cons (.variant hw) ih
  | array _ _ ihin ih => exact .cons (.array (forall₂_replicate ihin)) ih
  | dict _ hd _ ihin ih => exact .cons (canonical_dict (forall₂_replicate ihin) hd) ih
  | entry _ _ ihin ih =>
    cases ihin with
    | cons ha hrest =>
      cases hrest with
      | cons hb _ => exact .cons (.entry ha hb) ih
  | struct _ _ ihin ih =>
    obtain ⟨hlen, hall⟩ := List.forall₂_iff_zip.mp ihin
    exact .cons (.struct (Nat.le_of_eq hlen.symm) fun p hp => hall hp) ih
  | tuple _ _ ihin ih =>
    obtain ⟨hlen, hall⟩ := List.forall₂_iff_zip.mp ihin
    exact .cons (.tuple (Nat.le_of_eq hlen.symm) fun p hp => hall hp) ih

/-! ## Received streams -/

namespace Stream

variable {s : Stream}

/-- Every value in the stream is one of a JSON document. -/
structure OfJson (s : Stream) : Prop where
  items : ∀ code v, .basic code v ∈ s.items → ∃ x : Json, v = x.toValue
  descriptors : ∀ d ∈ s.descriptors, ∃ x : Json, d = x.toValue

theorem OfJson.docile (h : s.OfJson) : s.Docile where
  items code v hv := by
    obtain ⟨x, rfl⟩ := h.items code v hv
    exact x.isJson_toValue.ends_display
  descriptors d hd := by
    obtain ⟨x, rfl⟩ := h.descriptors d hd
    exact x.isJson_toValue.ends_display
  overflow d hd f hf hrange := by
    obtain ⟨x, rfl⟩ := h.descriptors d hd
    exact x.isJson_toValue.isInfinity_of_overflow hf hrange

end Stream

namespace Message

variable {s : Stream} {m : Message} {e : TypeExpr} {t : WireType}

/-- A call that reads a value of a reduced type from a valid message over a sealed stream, its
cursor anywhere, by a registry that has come about by registrations. -/
structure ReadCall (s : Stream) (ρ : Registry) (e : TypeExpr) (t : WireType) (m : Message) :
    Prop where
  filled : ρ.Filled
  type : e.canonical = .ok t
  reduced : t.isReduced = true
  readable : m.Readable
  stream : m.Over s
  cursor : m.stream.cursor ≤ s.items.length

/-- What the caller counts on: a value in the form of its type, behind which the cursor stands, or
an invalid message; and no fault. -/
def Received (t : WireType) (m : Message) : Except Stop Value × Message → Prop
  | (.ok w, m') =>
    m'.isValid = true ∧ m.stream.cursor < m'.stream.cursor ∧
      m'.stream.cursor ≤ m'.stream.items.length ∧ Canonical t w ∧
      ∃ w', t.copy w = .ok w' ∧ w'.alike w = true
  | (.error .failed, m') => m'.isValid = false
  | (.error _, _) => False

/-! ## Handles that stop the reader -/

/-- What there is too long an integer in cannot be refused. -/
theorem run_refuse_of_hasLongInteger {v : Value} {failure : Text → Failure} {α : Type}
    (hv : v.ShownBy v.display) (hlong : v.HasLongInteger) :
    (Action.refuse v failure : Action α).run m = (.error (.raised .tooLongToShow), m) := by
  rcases hshow : v.display with f | shown
  · obtain ⟨rfl, -⟩ := hv.of_error hshow
    rw [Action.refuse, hshow]
    rfl
  · exact absurd hlong (hv.of_ok hshow)

/-- A handle is read by its index, or refused. -/
theorem run_decode_handle {v : Value} (hm : m.Readable) (hd : m.Over s)
    (hitem : s.HandleAt m.stream.cursor v) :
    BasicType.handle.decode.run m = (match v.index? with
      | some i => resolve i
      | none => Action.refuse v .notADescriptorIndex).run (m.skip 1) := by
  rw [Stream.HandleAt, ← hd.items] at hitem
  obtain ⟨hlt, hitem⟩ := List.getElem?_eq_some_iff.mp hitem
  have hrest : m.rest = .basic [BasicType.handle.code] v :: m.stream.items.drop _ :=
    hitem ▸ List.drop_eq_getElem_cons hlt
  have hread := (run_readBasic_eq_ok hm).mpr ⟨_, hrest, rfl⟩
  rw [BasicType.decode, Action.run_bind_of_ok hread]
  cases v <;> rfl

/-- **A handle that can neither be read nor be refused raises its fault**, and no failure is
recorded. -/
theorem run_read_stopsAt {f : Fault} (hs : s.Docile) (hm : m.Readable) (hd : m.Over s)
    (h : s.StopsAt m.stream.cursor f) :
    (read ρ (.wire (.basic .handle))).run m = (.error (.raised f), m.skip 1) := by
  rw [run_read rfl hm.valid, run_decode hm.valid, decodeWith]
  cases h with
  | noIndex hitem hv hlong =>
    rw [run_decode_handle hm hd hitem, hv]
    exact run_refuse_of_hasLongInteger (hs.items _ _ (List.mem_of_getElem? hitem)) hlong
  | @noDescriptor v i hitem hv hget hlong =>
    rw [run_decode_handle hm hd hitem, hv]
    simp only [run_resolve_eq (hd.skip 1), hget]
    exact run_refuse_of_hasLongInteger (Value.shownBy_displayInteger i) hlong
  | infinity hitem hv hget hinf =>
    rw [run_decode_handle hm hd hitem, hv]
    simp only [run_resolve_eq (hd.skip 1), hget, Value.toInteger_of_isInfinity hinf]
    rfl
  | @noNumber v d i f hitem hv hget hint hlong =>
    have hmem := Stream.mem_of_descriptor? hget
    have hkind : f.kind ≠ .range := fun hrange => by
      have hinf := hs.overflow d hmem f hint hrange
      cases hlong <;> cases hinf
    rw [run_decode_handle hm hd hitem, hv]
    simp only [run_resolve_eq (hd.skip 1), hget, hint, if_neg hkind]
    exact run_refuse_of_hasLongInteger (hs.descriptors d hmem) hlong

/-! ## Whatever is read -/

theorem ReadCall.received_or_stopped (hs : s.Docile) (h : ReadCall s ρ e t m) :
    Received t m ((read ρ e).run m) ∨
      ∃ stop m', (read ρ e).run m = (.error stop, m') ∧ Stopped s stop m' := by
  have ht := IsElement.reduced h.reduced
  rw [run_read h.type h.readable.valid]
  rcases hrun : (t.decode ρ).run m with ⟨stop | w, m'⟩
  · rcases settles_decode hs h.filled ht h.readable h.stream stop m' hrun with
      ⟨rfl, hinvalid⟩ | hstopped
    · exact .inl hinvalid
    · exact .inr ⟨stop, m', rfl, hstopped⟩
  · obtain ⟨seg, tail, hrest, rfl, hread⟩ := (run_decode_eq_ok h.filled ht h.readable).mp hrun
    obtain ⟨item, seg, rfl, -⟩ := hread.head ht
    have hw : Canonical t w := (List.forall₂_cons.mp hread.canonical).1
    have hlen : m.rest.length = m.stream.items.length - m.stream.cursor := List.length_drop
    rw [hrest, List.length_append, List.length_cons] at hlen
    refine .inl ⟨h.readable.valid, ?_, ?_, hw, w, hw.copy, w.alike_self⟩
    · simp
    · change m.stream.cursor + _ ≤ m.stream.items.length
      rw [List.length_cons]
      omega

/-- **A read of what was received gives the caller what he counts on**, unless it comes to a handle
that stops it: then it raises the fault of that and leaves the message valid. No read of the stream
does so exactly when there is no such handle. -/
theorem received_unless_stopped {s : Stream} (hs : s.OfJson) :
    (∀ ρ e t m, ReadCall s ρ e t m → Received t m ((read ρ e).run m) ∨
      ∃ stop m', (read ρ e).run m = (.error stop, m') ∧ Stopped s stop m') ∧
    ((∀ ρ e t m, ReadCall s ρ e t m → Received t m ((read ρ e).run m)) ↔
      ∀ n f, ¬ s.StopsAt n f) := by
  refine ⟨fun _ _ _ _ h => h.received_or_stopped hs.docile, fun h n f hn => ?_,
    fun h ρ e t m hcall => ?_⟩
  · -- the cursor at the item, and the item read as what its code says
    let m : Message := { stream := { s with isSealed := true, cursor := n } }
    have hlt : n < s.items.length := by
      cases hn with
      | noIndex hitem | noDescriptor hitem | infinity hitem | noNumber hitem =>
        exact (List.getElem?_eq_some_iff.mp hitem).1
    have hreceived := h {} (.wire (.basic .handle)) (.basic .handle) m
      ⟨.empty, rfl, isReduced_basic _, ⟨rfl, rfl⟩, ⟨rfl, rfl⟩, Nat.le_of_lt hlt⟩
    rw [run_read_stopsAt (m := m) hs.docile ⟨rfl, rfl⟩ ⟨rfl, rfl⟩ hn] at hreceived
    exact hreceived
  · rcases hcall.received_or_stopped hs.docile with hreceived | ⟨stop, m', -, hstopped⟩
    · exact hreceived
    · obtain ⟨f, n, -, -, hn⟩ := hstopped.fault
      exact absurd hn (h n f)

/-- A handle whose descriptor is an infinity. -/
def handleOfInfinity : Stream where
  items := [.basic [BasicType.handle.code] (.integer 0)]
  descriptors := [.double (.infinity false)]

/-- The handle can be received, and reading it raises the overflow. -/
theorem not_received_handleOfInfinity :
    handleOfInfinity.OfJson ∧
      ¬ ∀ ρ e t m, ReadCall handleOfInfinity ρ e t m → Received t m ((read ρ e).run m) := by
  have hjson : handleOfInfinity.OfJson := by
    refine ⟨fun code v hv => ?_, fun d hd => ?_⟩
    · obtain ⟨rfl, rfl⟩ := Item.basic.inj (List.mem_singleton.mp hv)
      exact ⟨.integer 0, rfl⟩
    · obtain rfl := List.mem_singleton.mp hd
      exact ⟨.double (.infinity false), rfl⟩
  exact ⟨hjson, fun h => (received_unless_stopped hjson).2.mp h 0 .infinityToInteger
    (.infinity rfl rfl rfl (by decide))⟩

end Message

end TypedBus
