import Mathlib
import TypedBus.Proofs.Message.Stops
import TypedBus.Proofs.Message.Written
import TypedBus.Proofs.Value.Alike

/-!
# Writing and reading back

Values that have been written to a fresh message, each as one of its type, are read back from it
after rewinding: each read gives the copy of the value, and in the end all of the message has been
read (`read_back`). The registry must have the type of every variant that has been written, also of
one in an entry of a dict whose key a later entry sets again: the copy of the dict lacks that entry,
but it has been written and is read (`overridden_variant_not_read_back`). Markers are left out,
which open and close containers and are not written as values (`markers_not_read_back`).
-/

namespace TypedBus

open Message WireType

/-- A value to be written and read back as what an expression names. -/
structure Parcel where
  value : Value
  expr : TypeExpr
  type : WireType
  canonical : expr.canonical = .ok type
  readable : type.IsReadable
  unmarked : value.isMarker = false

namespace Parcel

/-- The call that writes the value. -/
def call (p : Parcel) : WriteCall := .value p.value (some p.expr)

variable {ρ : Registry} {p : Parcel} {ps : List Parcel} {m m' : Message} {ws : List Value}

/-! ## Writing -/

theorem run_call (hm : m.Writable) : p.call.action.run m = (p.type.encode p.value).run m := by
  rw [call, WriteCall.action, write_eq _ p.unmarked, Action.run_ifValid hm.valid]
  simp only [p.canonical]
  rw [Action.run_bind_of_ok Action.run_lift_ok]

/-- What calls in a row have written is there to be read, value by value. -/
theorem wrote_calls (hρ : ρ.Filled) : ∀ {ps : List Parcel} {m m' : Message},
    (∀ p ∈ ps, Known ρ p.type p.value) → m.Writable →
    ((ps.map call).forM WriteCall.action).run m = (.ok (), m') →
      ∃ ws, List.Forall₂ (fun p w => p.type.copy p.value = .ok w) ps ws ∧
        Wrote ρ (ps.map type) ws m m'
  | [], m, _, _, hm, h => by
    cases h
    exact ⟨[], .nil, .nil hm⟩
  | p :: ps, m, m', hknown, hm, h => by
    obtain ⟨hp, hps⟩ := List.forall_mem_cons.mp hknown
    rw [List.map_cons, List.forM] at h
    obtain ⟨_, m₁, hrun, h⟩ := Action.run_bind_eq_ok.mp h
    rw [run_call hm] at hrun
    obtain ⟨w, hw, hwrote⟩ := written_encode hρ p.readable hp hm hrun
    obtain ⟨ws, hws, hwrotes⟩ := wrote_calls hρ hps hwrote.writable h
    exact ⟨w :: ws, .cons hw hws, hwrote.cons hwrotes⟩

/-! ## Reading -/

/-- A value of a type that can be read back is read from the items that are read as it. -/
theorem run_decode_of_reads {t : WireType} {items tail : List Item} {w : Value} (hρ : ρ.Filled)
    (ht : t.IsReadable) (hm : m.Readable) (hrest : m.rest = items ++ tail)
    (h : Reads ρ m.stream.descriptors [t] items [w]) :
    (t.decode ρ).run m = (.ok w, m.skip items.length) := by
  cases ht with
  | reduced ht => exact (run_decode_eq_ok hρ (.reduced ht) hm).mpr ⟨items, tail, hrest, rfl, h⟩
  | @row fs hfs =>
    cases h with
    | @tuple _ _ inside _ vs _ hin hs =>
      cases hs
      rw [List.append_nil] at hrest ⊢
      rw [run_decode hm.valid, decodeWith]
      have hrun := hin.run hρ (fun f hf => .reduced (hfs f hf)) hm rfl hrest (Nat.lt_succ_self _)
      rw [Action.run_bind_of_ok hrun]
      rfl

/-- Where items are next that are read as values in a row, reading the types in turn gives these
values and takes the items. -/
theorem run_reads (hρ : ρ.Filled) : ∀ {ps : List Parcel} {m : Message} {items tail : List Item}
    {ws : List Value}, m.Readable → m.rest = items ++ tail →
    Reads ρ m.stream.descriptors (ps.map type) items ws →
      (ps.mapM fun p => read ρ p.expr).run m = (.ok ws, m.skip items.length)
  | [], m, _, _, _, _, _, h => by
    cases h
    rfl
  | p :: ps, m, items, tail, ws, hm, hrest, h => by
    obtain ⟨w, ws, seg, more, rfl, rfl, hw, hws⟩ := h.uncons
    rw [List.append_assoc] at hrest
    have hread := run_decode_of_reads hρ p.readable hm hrest hw
    rw [← run_read p.canonical hm.valid] at hread
    have hrest' : (m.skip seg.length).rest = more ++ tail := rest_skip_append hrest
    have hmore := run_reads hρ (hm.skip seg.length) hrest' hws
    rw [List.mapM_cons, Action.run_bind_of_ok hread, Action.run_bind_of_ok hmore, skip_skip,
      List.length_append]
    rfl

end Parcel

namespace Message

variable {ρ : Registry} {ps : List Parcel}

/-- **What has been written is read back as its copy**, value by value, and nothing else is left in
the message. -/
theorem read_back (hρ : ρ.Filled) (e : Envelope)
    (hknown : ∀ p ∈ ps, Known ρ p.type p.value)
    (hraises : WriteCall.NoneRaises (ps.map Parcel.call) (ofEnvelope e))
    (hv : (WriteCall.after (ps.map Parcel.call) (ofEnvelope e)).isValid = true) :
    ∃ m, (WriteCall.after (ps.map Parcel.call) (ofEnvelope e)).rewind = .ok m ∧
      ∃ ws m', (ps.mapM fun p => read ρ p.expr).run m = (.ok ws, m') ∧
        List.Forall₂ (fun p w => ∃ c, p.type.copy p.value = .ok c ∧ w.alike c = true) ps ws ∧
        m'.isValid = true ∧ m'.atEnd = true ∧
        m'.stream.cursor = m'.stream.items.length := by
  have hrun := WriteCall.run_forM_of_noneRaises hraises hv
  generalize WriteCall.after (ps.map Parcel.call) (ofEnvelope e) = m at hv hrun ⊢
  obtain ⟨ws, hws, hwrote⟩ := Parcel.wrote_calls hρ hknown ⟨rfl, rfl⟩ hrun
  obtain ⟨seg, hseg, hread⟩ := hwrote.items
  have hframes : m.frames = [] := List.length_eq_zero_iff.mp hwrote.depth
  let start : Message := { m with stream := m.stream.sealUp.rewind, frames := [] }
  have hrewind : m.rewind = .ok start := by rw [rewind, hframes]
  have hready : start.Readable := ⟨hv, rfl⟩
  have hrest : start.rest = seg ++ [] := by rw [List.append_nil]; exact hseg
  have hend : (start.skip seg.length).rest = [] := rest_skip_append hrest
  refine ⟨start, hrewind, ws, start.skip seg.length, Parcel.run_reads hρ hready hrest hread,
    hws.imp fun p w hw => ⟨w, hw, w.alike_self⟩, hv,
    (atEnd_iff (hready.skip _)).mpr (.inl hend), ?_⟩
  change 0 + seg.length = m.stream.items.length
  rw [hseg, Nat.zero_add]
  rfl

/-! ## What is overridden -/

/-- Two entries of a dict of truth values whose keys become one, each with a variant. -/
def overriding : Value :=
  .dict [(.integer 2, .variant none (.list none [.integer 1]) (some (.array .int32))),
    (.integer 3, .variant none (.integer 5) (some .int32))]

/-- Their dict as it is copied. -/
def overridden : Value := .dict [(.boolean true, .variant none (.fixed .int32 5) (some .int32))]

/-- The call that writes them. -/
def overridingCall : WriteCall :=
  .value overriding (some (.wire (.dict (.basic .boolean) .variant)))

/-- The two entries are written, the copy of their dict holds only the second, of a registered
type, and they are not read back, since the type of the first is not registered. -/
theorem overridden_variant_not_read_back :
    (WireType.dict (.basic .boolean) .variant).isReduced = true ∧
    WriteCall.NoneRaises [overridingCall] (ofEnvelope {}) ∧
    (WriteCall.after [overridingCall] (ofEnvelope {})).isValid = true ∧
    WireType.copy (.dict (.basic .boolean) .variant) overriding = .ok overridden ∧
    Registry.common.lookup? WireType.int32.signature = some .int32 ∧
    (WriteCall.after [overridingCall] (ofEnvelope {})).rewind.map (fun m =>
      ((read .common (.wire (.dict (.basic .boolean) .variant))).run m).2.isValid) =
        .ok false := by
  refine ⟨?_, WriteCall.noneRaises_of_isOk ?_, ?_, ?_, ?_, ?_⟩
  · decide +kernel
  · decide +kernel
  · decide +kernel
  · rfl
  · decide +kernel
  · cbv

/-- The two markers of an array, each given to be written as a truth value. -/
def markerCalls : List WriteCall :=
  [.value (.opening (arrayOf .int32)) (some (.wire (.basic .boolean))),
    .value .closing (some (.wire (.basic .boolean)))]

/-- Markers open and close an array whatever they are to be written as. Both have a copy as a truth
value, for which anything that is not empty counts, but no truth value is there to be read. -/
theorem markers_not_read_back :
    WriteCall.NoneRaises markerCalls (ofEnvelope {}) ∧
    (WriteCall.after markerCalls (ofEnvelope {})).isValid = true ∧
    WireType.copy (.basic .boolean) (.opening (arrayOf .int32)) = .ok (.boolean true) ∧
    WireType.copy (.basic .boolean) .closing = .ok (.boolean true) ∧
    (WriteCall.after markerCalls (ofEnvelope {})).rewind.map (fun m =>
      ((read .common (.wire (.basic .boolean))).run m).2.isValid) = .ok false := by
  refine ⟨WriteCall.noneRaises_of_isOk ?_, ?_, rfl, rfl, ?_⟩
  · decide +kernel
  · decide +kernel
  · cbv

/-- A row of a variant and of a pair. -/
def mixedParcels : List Parcel :=
  [{  value := .list none [.integer 5]
      expr := .wire (.array .variant)
      type := .array .variant
      canonical := rfl
      readable := .reduced (by decide +kernel)
      unmarked := rfl },
    { value := .tuple [.integer 1, .text (.ofString "a")]
      expr := .wire (.tuple [.int32, .string])
      type := .tuple [.int32, .string]
      canonical := rfl
      readable := .row (by decide +kernel)
      unmarked := rfl }]

theorem read_back_mixedParcels :
    ∃ m, (WriteCall.after (mixedParcels.map Parcel.call) (ofEnvelope {})).rewind = .ok m ∧
      ∃ ws m', (mixedParcels.mapM fun p => read .common p.expr).run m = (.ok ws, m') ∧
        List.Forall₂ (fun p w => ∃ c, p.type.copy p.value = .ok c ∧ w.alike c = true)
          mixedParcels ws ∧
        m'.isValid = true ∧ m'.atEnd = true ∧
        m'.stream.cursor = m'.stream.items.length := by
  refine read_back Registry.filled_common {} ?_ (WriteCall.noneRaises_of_isOk (by decide +kernel))
    (by decide +kernel)
  intro p hp b hb
  rcases List.mem_pair.mp hp with rfl | rfl
  · cases hb with
    | array hvs hu hb =>
      cases hvs
      obtain rfl := List.mem_singleton.mp hu
      cases hb with
      | here h =>
        cases h
        exact ⟨none, .fixed .int32 5, .int32, rfl, by decide +kernel⟩
      | inside h hb =>
        cases h
        cases hb
  · cases hb with
    | tuple hvs hu hb =>
      cases hvs
      rcases List.mem_pair.mp hu with h | h <;>
      · obtain ⟨rfl, rfl⟩ := Prod.mk.inj h
        cases hb

end Message

end TypedBus
