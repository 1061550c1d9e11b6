import TypedBus.Proofs.Message.Recopied
import TypedBus.Proofs.Message.RoundTrip
import TypedBus.Proofs.Registrations
import TypedBus.Proofs.Value.Unmarked
import TypedBus.Proofs.Variant

/-!
# Values as their inferred types

A value that is given without a type is taken as one of the type inferred from it. Its copy as that
type is the value spelt anew (`Value.respelt_of_copy`): no key of a dict is lost, though keys are
converted one by one, since all have one type. So the copy is equal to the value and has the type
inferred from it again.

A type may be inferred that is not in reduced form, for lists that lie too deep or for a dict entry
by itself, but nothing can be written as one (`Message.isReduced_of_accepts`).

A variant is copied as the type that it was given, not as the one that its payload has. That is no
matter for a variant as it has been obtained; but its payload can be changed where it is, and then
be equal to its copy no longer (`Variant.not_inferred_always`).

* `Value.inferred_unless_changed`: all of this, together with what a registry and a reader make of
  an inferred type.
-/

namespace TypedBus

open Message WireType

/-- The variant holds what it held when it was obtained, or something else since, of which a copy
is yet equal to it. -/
def Variant.Intact (x : Variant) : Prop :=
  Obtained ⟨x.payload.unmarked, x.type, none⟩ ∨ ∀ y, x.copy = .ok y → y.toValue.eq x.toValue = true

namespace Value

open Variant

variable {v w p : Value} {m : Mark} {o : Option WireType} {b : BasicType} {t : WireType}

/-! ## Copies as inferred types -/

theorem eq_of_eq_variant {m' : Mark} {q : Value} {o' : Option WireType}
    (h : (Value.variant m' q o').eq (.variant m p o) = true) : q.eq p = true := by
  rw [Value.eq, eqWith] at h
  exact (Bool.and_eq_true_iff.mp h).2

/-- An intact variant is spelt anew when it is copied. -/
theorem respelt_variant (hx : Intact ⟨p, o, m⟩) (hp : p.Ordinary)
    (hw : WireType.copy .variant (.variant m p o) = .ok w) : Respelt (.variant m p o) w := by
  have hself : p.unmarked.eq p = true := (respelt_unmarked p hp).eq
  rcases copy_variant_eq_ok.mp hw with ⟨_, _, hb, rfl⟩ | ⟨_, _, t, q, hb, hq, rfl⟩ <;> cases hb
  · refine .variant ?_
    rcases hx with hx | hx
    · have hnull : p.unmarked = .null := hx.canonical.1 rfl
      rwa [hnull] at hself
    · exact eq_of_eq_variant (hx empty rfl)
  · refine .variant ?_
    rcases hx with hx | hx
    · have hcopy : t.copy p = .ok p.unmarked := (hx.canonical.2 t rfl).copy_unmarked rfl
      rwa [Except.ok.inj (hcopy.symm.trans hq)] at hself
    · exact eq_of_eq_variant (hx ⟨q, some t, none⟩ (bind_eq_ok.mpr ⟨q, hq, rfl⟩))

/-- A value of a basic type is spelt anew when it is converted to that type. -/
theorem respelt_basic (ht : v.infer = .ok (.basic b)) (hv : v.Ordinary) (hw : b.convert v = .ok w) :
    Respelt v w := by
  cases v with
  | boolean | double | handle =>
    cases ht
    cases hw
    exact .same hv.eq_self
  | fixed width n =>
    cases ht
    obtain ⟨-, rfl⟩ := IntWidth.make_eq_ok.mp hw
    exact .same hv.eq_self
  | integer n =>
    cases ht
    obtain ⟨-, rfl⟩ := IntWidth.make_eq_ok.mp hw
    exact .integer
  | text s =>
    cases ht
    obtain ⟨u, hu, hmade⟩ := bind_eq_ok.mp hw
    obtain rfl := Text.check_eq_ok hu
    cases hmade
    exact .same hv.eq_self
  | path s | signature s =>
    cases ht
    obtain ⟨u, hu, hmade⟩ := bind_eq_ok.mp hw
    obtain rfl := Text.check_eq_ok hu
    split at hmade
    · cases hmade
      exact .same hv.eq_self
    · cases hmade
  | variant => cases ht
  | scalar | grid => cases hv
  | null | bytes | opening | closing | thing => exact absurd ht refuse_ne_ok
  | list => obtain ⟨_, _, -, -, ht⟩ := of_infer_list ht; cases ht
  | tuple => obtain ⟨_, -, ht⟩ := of_infer_tuple ht; cases ht
  | entry => obtain ⟨_, _, -, -, ht⟩ := of_infer_entry ht; cases ht
  | dict => obtain ⟨_, _, _, _, -, -, -, -, ht⟩ := of_infer_dict ht; cases ht

/-- The second value is the copy of the first as its inferred type. -/
def Copies (v w : Value) : Prop := ∃ t, v.infer = .ok t ∧ t.copy v = .ok w

/-- The fields of a tuple are copied as their inferred types. -/
theorem copies_of_inferAll :
    ∀ {vs ws : List Value} {ts : List WireType}, inferAll vs = .ok ts →
      List.Forall₂ (fun q w => q.1.copy q.2 = .ok w) (ts.zip vs) ws → List.Forall₂ Copies vs ws
  | [], _, _, hts, hws => by
    cases hts
    cases hws
    exact .nil
  | v :: vs, _, _, hts, hws => by
    obtain ⟨t, ht, hrest⟩ := bind_eq_ok.mp hts
    obtain ⟨us, hus, hall⟩ := bind_eq_ok.mp hrest
    cases hall
    cases hws with
    | cons hw hws => exact .cons ⟨t, ht, hw⟩ (copies_of_inferAll hus hws)

mutual

/-- **A copy of a value as its inferred type is the value spelt anew.** -/
theorem respelt_of_copy : ∀ {v w : Value}, v.Copies w → v.Ordinary →
    (∀ x : Variant, x.In v → x.Intact) → Respelt v w
  | .boolean _, w, ⟨t, ht, hw⟩, hv, _ | .fixed _ _, w, ⟨t, ht, hw⟩, hv, _
  | .handle _, w, ⟨t, ht, hw⟩, hv, _ | .path _, w, ⟨t, ht, hw⟩, hv, _
  | .signature _, w, ⟨t, ht, hw⟩, hv, _ | .integer _, w, ⟨t, ht, hw⟩, hv, _
  | .double _, w, ⟨t, ht, hw⟩, hv, _ | .text _, w, ⟨t, ht, hw⟩, hv, _ => by
    cases ht
    rw [copy_eq, copyWith] at hw
    exact respelt_basic rfl hv hw
  | .null, _, ⟨_, ht, _⟩, _, _ | .bytes _, _, ⟨_, ht, _⟩, _, _ | .opening _, _, ⟨_, ht, _⟩, _, _
  | .closing, _, ⟨_, ht, _⟩, _, _ | .thing _, _, ⟨_, ht, _⟩, _, _ => absurd ht refuse_ne_ok
  | .scalar _, _, _, hv, _ | .grid _, _, _, hv, _ => by cases hv
  | .variant m p o, _, ⟨t, ht, hw⟩, hv, hx => by
    cases ht
    exact respelt_variant (hx ⟨p, o, m⟩ .self) hv hw
  | .entry a b, _, ⟨t, ht, hw⟩, hv, hx => by
    obtain ⟨k, x, hk, hx', rfl⟩ := of_infer_entry ht
    obtain ⟨_, _, a', b', hab, ha, hb, rfl⟩ := copy_entry_eq_ok.mp hw
    cases hab
    exact .entry (respelt_of_copy ⟨k, hk, ha⟩ hv.1 fun x hin => hx x (.entryKey hin))
      (respelt_of_copy ⟨x, hx', hb⟩ hv.2 fun x hin => hx x (.entryValue hin))
  | .tuple vs, _, ⟨t, ht, hw⟩, hv, hx => by
    obtain ⟨ts, hts, rfl⟩ := of_infer_tuple ht
    obtain ⟨_, ws, hvs, hws, rfl⟩ := copy_struct_eq_ok.mp hw
    cases hvs
    exact respelt_tuple (respelt_row (copies_of_inferAll hts hws) hv
      fun v hv x hin => hx x (.field hv hin))
  | .list _ vs, _, ⟨t, ht, hw⟩, hv, hx => by
    obtain ⟨ts, e, hts, he, rfl⟩ := of_infer_list ht
    obtain ⟨_, ws, hvs, hws, rfl⟩ := copy_array_eq_ok.mp hw
    cases hvs
    have hcopies : List.Forall₂ Copies vs ws :=
      ((List.forall₂_and_left _ _).mpr ⟨infer_of_common hts he, hws⟩).imp
        fun v w h => ⟨e, h.1, h.2⟩
    exact respelt_list (respelt_row hcopies hv fun v hv x hin => hx x (.element hv hin))
  | .dict es, _, ⟨t, ht, hw⟩, hv, hx => by
    obtain ⟨ks, xs, k, x, hks, hk, hxs, hx', rfl⟩ := of_infer_dict ht
    rw [inferKeys_eq] at hks
    rw [inferValues_eq] at hxs
    have hkeys := List.forall_mem_map.mp (infer_of_common hks hk)
    have hvalues := List.forall_mem_map.mp (infer_of_common hxs hx')
    have hinside : ∀ e ∈ es, ∀ y : Variant, y.In e.1 ∨ y.In e.2 → y.Intact := fun e he y hin =>
      hin.elim (fun h => hx y (.dictKey he h)) fun h => hx y (.dictValue he h)
    have hspelt : ∀ {fs}, List.Forall₂ (EntryCopied k x) es fs →
        List.Forall₂ (fun e f => Respelt e.1 f.1 ∧ Respelt e.2 f.2) es fs := by
      intro fs hfs
      refine respelt_entries (List.forall₂_iff_zip.mpr ?_) hv.2 hinside
      obtain ⟨hlen, hall⟩ := List.forall₂_iff_zip.mp hfs
      refine ⟨hlen, fun hp => ?_⟩
      have he := (List.of_mem_zip hp).1
      exact ⟨⟨k, hkeys _ he, (hall hp).1⟩, x, hvalues _ he, (hall hp).2⟩
    -- no key is lost, since the copies agree with one another just where the keys did
    have hdistinct : ∀ fs, List.Forall₂ (EntryCopied k x) es fs →
        (∀ f ∈ fs, f.1.unhashable? = none) → Distinct fs := by
      intro fs hfs hhash
      obtain ⟨hlen, hall⟩ := List.forall₂_iff_zip.mp (hspelt hfs)
      refine distinct_of_sameKey (List.forall₂_iff_zip.mpr ⟨hlen, fun hp => ?_⟩) hv.1
      exact (hall hp).1.sameKey (hhash _ (List.of_mem_zip hp).2)
    obtain ⟨fs, rfl, hfs, -⟩ := copy_dict_of_distinct hdistinct hw
    exact respelt_dict (hspelt hfs)

theorem respelt_row : ∀ {vs ws : List Value}, List.Forall₂ Copies vs ws → OrdinaryAll vs →
    (∀ v ∈ vs, ∀ x : Variant, x.In v → x.Intact) → List.Forall₂ Respelt vs ws
  | [], _, .nil, _, _ => .nil
  | v :: vs, _, .cons hw hws, hv, hx => by
    obtain ⟨hxv, hxvs⟩ := List.forall_mem_cons.mp hx
    exact .cons (respelt_of_copy hw hv.1 hxv) (respelt_row hws hv.2 hxvs)

theorem respelt_entries : ∀ {es fs : List (Value × Value)},
    List.Forall₂ (fun e f => e.1.Copies f.1 ∧ e.2.Copies f.2) es fs → OrdinaryEntries es →
    (∀ e ∈ es, ∀ x : Variant, x.In e.1 ∨ x.In e.2 → x.Intact) →
      List.Forall₂ (fun e f => Respelt e.1 f.1 ∧ Respelt e.2 f.2) es fs
  | [], _, .nil, _, _ => .nil
  | (k, v) :: es, _, .cons ⟨hk, hw⟩ hws, hv, hx => by
    obtain ⟨hxv, hxvs⟩ := List.forall_mem_cons.mp hx
    exact .cons ⟨respelt_of_copy hk hv.1.1 fun x hin => hxv x (.inl hin),
      respelt_of_copy hw hv.1.2 fun x hin => hxv x (.inr hin)⟩ (respelt_entries hws hv.2 hxvs)

end

/-! ## What is accepted -/

theorem isMarker_of_infer (h : v.infer = .ok t) : v.isMarker = false := by
  cases v with
  | opening | closing => exact absurd h refuse_ne_ok
  | _ => rfl

end Value

namespace Message

open TypedBus.Action

variable {ρ : Registry} {m : Message} {v w : Value} {t k x : WireType} {n : Nat}
  {fs' : List Frame}

/-- No entry is written outside of an array. -/
theorem not_leads_entry : ¬ (encodeWithin n (.entry k x) v).Leads [] fs' := fun h => by
  obtain ⟨_, _, -, fs₁, _, hopen, -⟩ := leads_entry.mp h
  obtain ⟨-, gs, fields, hb, -⟩ := Item.step_opening_iff.mp hopen
  cases hb with
  | top h => exact h rfl

/-- **A type that a value can be written as when it is inferred is in reduced form.** -/
theorem isReduced_of_accepts (ht : v.infer = .ok t) {env : Envelope}
    (h : (ofEnvelope env).Accepts v none) : t.isReduced = true := by
  have htype : typeFor v none = .ok t := ht
  obtain ⟨m', hrun, -⟩ := (accepts_iff rfl (Value.isMarker_of_infer ht) htype).mp h
  have hopen : openableHere t v := openableHere_of_succeeds ⟨_, _, hrun⟩
  have htuple := Value.hasTuple_of_infer ht
  have hleads := (uniform_encodeWithin v.depth t v).leads ⟨rfl, rfl⟩ hrun
  cases t with
  | basic b => exact isReduced_basic b
  | variant => decide +kernel
  | array e => exact TypeExpr.isReduced_iff_hasTuple.mpr ⟨hopen, htuple⟩
  | dict k x => exact TypeExpr.isReduced_iff_hasTuple.mpr ⟨hopen, htuple⟩
  | struct fs => exact TypeExpr.isReduced_iff_hasTuple.mpr ⟨hopen, htuple⟩
  | entry k x => exact absurd hleads not_leads_entry
  | tuple fs => cases htuple

/-- What has been written to a new message is read from it when it has been rewound. -/
theorem read_of_wrote (hρ : ρ.Filled) (ht : t.isReduced = true) {env : Envelope}
    (h : Wrote ρ [t] [w] (ofEnvelope env) m) :
    ∃ start m', m.rewind = .ok start ∧ (read ρ (.wire t)).run start = (.ok w, m') := by
  obtain ⟨seg, hseg, hread⟩ := h.items
  have hframes : m.frames = [] := List.length_eq_zero_iff.mp h.depth
  let start : Message := { m with stream := m.stream.sealUp.rewind, frames := [] }
  have hrewind : m.rewind = .ok start := by rw [rewind, hframes]
  have hready : start.Readable := ⟨h.writable.valid, rfl⟩
  have hrest : start.rest = seg ++ [] := by
    rw [List.append_nil]
    exact hseg
  have hrun := Parcel.run_decode_of_reads hρ (.reduced ht) hready hrest hread
  exact ⟨start, _, hrewind, (run_read rfl hready.valid).trans hrun⟩

end Message

namespace Value

variable {v w : Value} {t : WireType}

/-- **A value that is copied as its inferred type is equal to its copy, unless a variant in it has
been changed.** Of an ordinary value in which every variant is intact, the copy as the inferred type
is equal to the value, the same type is inferred from it, and no tuple occurs in that type. If a new
message accepts the value without being told a type, the inferred type is in reduced form, so that
every registry that is not frozen takes it; and by a registry that has the types of the variants
that are written, the copy is read back as a value of this type. -/
theorem inferred_unless_changed (ht : v.infer = .ok t) (hw : t.copy v = .ok w) (hv : v.Ordinary)
    (hx : ∀ x : Variant, x.In v → x.Intact) :
    (w.eq v = true ∧ w.infer = .ok t ∧ t.hasTuple = false) ∧
    ∀ env, (ofEnvelope env).Accepts v none →
      t.isReduced = true ∧
      (∀ ρ : Registry, ρ.isFrozen = false → ∃ u ρ', ρ.register (.wire t) = .ok (u, ρ')) ∧
      ∀ ρ : Registry, ρ.Filled → Known ρ t v → ∃ m m',
        ((write v none).run (ofEnvelope env)).2.rewind = .ok m ∧
          (read ρ (.wire t)).run m = (.ok w, m') := by
  have hspelt : Respelt v w := respelt_of_copy ⟨t, ht, hw⟩ hv hx
  refine ⟨⟨hspelt.eq, hspelt.infer.trans ht, hasTuple_of_infer ht⟩, fun env h => ?_⟩
  have hreduced : t.isReduced = true := isReduced_of_accepts ht h
  refine ⟨hreduced, fun ρ hρ => ?_, fun ρ hρ hknown => ?_⟩
  · exact ⟨_, _, Registry.register_eq_ok_iff.mpr ⟨hρ, t, rfl, hreduced, rfl⟩⟩
  · have htype : typeFor v none = .ok t := ht
    obtain ⟨m, hrun, -⟩ := (accepts_iff rfl (isMarker_of_infer ht) htype).mp h
    have hwrite : (write v none).run (ofEnvelope env) = (.ok (), m) := by
      rw [run_write rfl (isMarker_of_infer ht), htype, Action.run_bind_of_ok Action.run_lift_ok,
        hrun]
    have hencode : (t.encode v).run (ofEnvelope env) = (.ok (), m) := by
      rw [encode, Action.run_ifValid rfl, hrun]
    obtain ⟨w', hw', hwrote⟩ := written_encode hρ (.reduced hreduced) hknown ⟨rfl, rfl⟩ hencode
    obtain rfl := Except.ok.inj (hw.symm.trans hw')
    rw [hwrite]
    exact read_of_wrote hρ hreduced hwrote

/-- A record of a dict with two kinds of integers and of two variants. To the list that the second
one holds, of strings, a path has been appended. -/
def changedRecord : Value :=
  .tuple
    [.dict [(.text "a", .integer 1), (.text "b", .fixed .int32 2)],
      .list (some 0)
        [.variant (some 1) (.boolean true) (some (.basic .boolean)),
          .variant none (.list (some 2) [.text "x", .path "/y"]) (some (.array .string))]]

theorem intact_changedRecord : ∀ x : Variant, x.In changedRecord → x.Intact := by
  rintro ⟨p, o, m⟩ (_ | _ | ⟨hu, hx⟩)
  rcases List.mem_pair.mp hu with rfl | rfl
  · cases hx with
    | dictKey he hx => rcases List.mem_pair.mp he with rfl | rfl <;> cases hx
    | dictValue he hx => rcases List.mem_pair.mp he with rfl | rfl <;> cases hx
  · cases hx with
    | element hu hx =>
      rcases List.mem_pair.mp hu with rfl | rfl
      · cases hx with
        | self => exact .inl (Variant.obtained_of_canonical (.basic .boolean))
        | payload hx => cases hx
      · cases hx with
        | self =>
          refine .inr fun y hy => ?_
          cases hy
          rfl
        | payload hx =>
          cases hx with
          | element hu hx => rcases List.mem_pair.mp hu with rfl | rfl <;> cases hx

theorem known_changedRecord :
    Known .common (.struct [.dict .string .int32, .array .variant]) changedRecord := by
  intro b hb
  cases hb with
  | struct hvs hu hb =>
    cases hvs
    rcases List.mem_pair.mp hu with h | h <;> obtain ⟨rfl, rfl⟩ := Prod.mk.inj h
    · cases hb with
      | dict hps hp hb =>
        cases hps
        rcases List.mem_pair.mp hp with rfl | rfl <;> cases hb with
        | key hac hb => cases hac; cases hb
        | value hac hb => cases hac; cases hb
    · cases hb with
      | array hvs hu hb =>
        cases hvs
        rcases List.mem_pair.mp hu with rfl | rfl
        · cases hb with
          | here h =>
            cases h
            exact ⟨_, _, _, rfl, by decide +kernel⟩
          | inside h hb =>
            cases h
            cases hb
        · cases hb with
          | here h =>
            cases h
            exact ⟨_, _, _, rfl, by decide +kernel⟩
          | inside h hb =>
            cases h
            cases hb with
            | array hvs hu hb =>
              cases hvs
              rcases List.mem_pair.mp hu with rfl | rfl <;> cases hb

theorem inferred_unless_changed_record :
    let t : WireType := .struct [.dict .string .int32, .array .variant]
    let w : Value := .tuple
      [.dict [(.text "a", .fixed .int32 1), (.text "b", .fixed .int32 2)],
        .list none
          [.variant none (.boolean true) (some (.basic .boolean)),
            .variant none (.list none [.text "x", .text "/y"]) (some (.array .string))]]
    changedRecord.infer = .ok t ∧ t.copy changedRecord = .ok w ∧ changedRecord.Ordinary ∧
      (∀ x : Variant, x.In changedRecord → x.Intact) ∧ w.eq changedRecord = true ∧
      w.infer = .ok t ∧ t.hasTuple = false ∧ (ofEnvelope {}).Accepts changedRecord none ∧
      t.isReduced = true ∧ (∃ u ρ, Registry.common.register (.wire t) = .ok (u, ρ)) ∧
      ∃ m m', ((write changedRecord none).run (ofEnvelope {})).2.rewind = .ok m ∧
        (read .common (.wire t)).run m = (.ok w, m') := by
  intro t w
  have ht : changedRecord.infer = .ok t := rfl
  have hw : t.copy changedRecord = .ok w := rfl
  have hkeys : Distinct [(.text "a", .integer 1), (.text "b", .fixed .int32 2)] :=
    List.pairwise_pair.mpr (by decide)
  have hv : changedRecord.Ordinary := by
    simp [changedRecord, Ordinary, OrdinaryAll, OrdinaryEntries, hkeys]
  have haccepts : (ofEnvelope {}).Accepts changedRecord none := by
    have hrun : ((write changedRecord none).run (ofEnvelope {})).1.isOk = true ∧
        ((write changedRecord none).run (ofEnvelope {})).2.isValid = true := by
      decide +kernel
    refine ⟨fun f hraised => ?_, hrun.2⟩
    rw [hraised] at hrun
    cases hrun.1
  obtain ⟨⟨heq, hinfer, htuple⟩, hwritten⟩ :=
    inferred_unless_changed ht hw hv intact_changedRecord
  obtain ⟨hreduced, hregister, hread⟩ := hwritten {} haccepts
  exact ⟨ht, hw, hv, intact_changedRecord, heq, hinfer, htuple, haccepts, hreduced,
    hregister .common rfl, hread .common Registry.filled_common known_changedRecord⟩

end Value

/-! ## Variants that have been changed -/

namespace Variant

/-- The variant has been obtained, and values may have been appended since to the list that it
holds. -/
inductive Held : Variant → Prop
  | obtained {x : Variant} (h : Obtained x) : Held x
  | appended {m m' : Mark} {vs : List Value} {v : Value} {o : Option WireType}
      (h : Held ⟨.list m vs, o, m'⟩) : Held ⟨.list m (vs ++ [v]), o, m'⟩

/-- A variant made of a list of truth values, to which an integer has been appended. -/
def lengthened : Variant :=
  ⟨.list none [.boolean true, .integer 5], some (.array (.basic .boolean)), none⟩

theorem held_lengthened : lengthened.Held := by
  have hmade : Canonical (.array (.basic .boolean)) (.list none [.boolean true]) :=
    .array (List.forall_mem_singleton.mpr (.basic .boolean))
  exact .appended (.obtained (obtained_of_canonical hmade))

/-- Not every value is equal to its copy as its inferred type. -/
theorem not_inferred_always :
    ¬ ∀ (v w : Value) (t : WireType), v.infer = .ok t → t.copy v = .ok w → v.Ordinary →
      (∀ x : Variant, x.In v → x.Held) →
        w.eq v = true ∧ w.infer = .ok t ∧ t.hasTuple = false := by
  intro h
  have hheld : ∀ x : Variant, x.In lengthened.toValue → x.Held := by
    rintro ⟨p, o, m⟩ hx
    cases hx with
    | self => exact held_lengthened
    | payload hx =>
      cases hx with
      | element hu hx => rcases List.mem_pair.mp hu with rfl | rfl <;> cases hx
  have heq := (h lengthened.toValue (.variant none (.list none [.boolean true, .boolean true])
    (some (.array (.basic .boolean)))) .variant rfl rfl ⟨trivial, trivial, trivial⟩ hheld).1
  exact absurd heq (by decide +kernel)

end Variant

end TypedBus
