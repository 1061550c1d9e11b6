import TypedBus.Proofs.Message.Accepted
import TypedBus.Proofs.Variant

/-!
# Variants and what can be written

A variant is made of a value by copying it as a type, and a message is written to with the same
value and the same type. The two do not ask the same of the value
(`Variant.accepted_where_it_fits`): what a variant is made of need not fit, so that there are
variants which no message accepts. The other way round, a value that a message accepts makes a
variant, and one that it accepts again, as long as the variants inside the value can be copied.
-/

namespace TypedBus

open Message WireType

/-! ## Keys -/

namespace Variant

variable {x : Variant} {u v : Value} {vs : List Value}

/-- What lies in an element lies in the value that yields it. -/
theorem In.of_element (hvs : v.elements? = some vs) (hu : u ∈ vs) (hx : x.In u) : x.In v := by
  cases v with
  | list _ us =>
    cases hvs
    exact .element hu hx
  | tuple us =>
    cases hvs
    exact .field hu hx
  | dict es =>
    cases hvs
    obtain ⟨e, he, rfl⟩ := List.mem_map.mp hu
    exact .dictKey he hx
  | entry a b =>
    cases hvs
    rcases List.mem_pair.mp hu with rfl | rfl
    · exact .entryKey hx
    · exact .entryValue hx
  | text | path | signature | bytes =>
    cases hvs
    obtain ⟨_, -, rfl⟩ := List.mem_map.mp hu
    nomatch hx
  | grid g =>
    change Value.gridElements? g = some vs at hvs
    unfold Value.gridElements? at hvs
    split at hvs
    · cases hvs
    · cases hvs
      obtain ⟨_, -, rfl⟩ := List.mem_map.mp hu
      nomatch hx
    · cases hvs
      obtain ⟨_, -, rfl⟩ := List.mem_map.mp hu
      nomatch hx
  | _ => cases hvs

theorem In.of_pair (hvs : v.pairs? = some vs) (hu : u ∈ vs) (hx : x.In u) : x.In v := by
  cases v with
  | dict es =>
    cases hvs
    obtain ⟨e, he, rfl⟩ := List.mem_map.mp hu
    cases hx with
    | field hw hx =>
      rcases List.mem_pair.mp hw with rfl | rfl
      · exact .dictKey he hx
      · exact .dictValue he hx
  | _ => exact of_element hvs hu hx

/-- Every variant in the value can be copied, as all that a program comes by can
(`Obtained.copies`). -/
def AllCopy (v : Value) : Prop := ∀ x : Variant, x.In v → ∃ y, x.copy = .ok y

/-- Where variants come from, they can be copied. -/
theorem Obtained.copies (h : Obtained x) : ∃ y, x.copy = .ok y := by
  obtain ⟨p, _ | t, mark⟩ := x
  · exact ⟨empty, rfl⟩
  · exact ⟨⟨p, some t, none⟩, bind_eq_ok.mpr ⟨p, (h.canonical.2 t rfl).copy, rfl⟩⟩

end Variant

namespace WireType

variable {s t : WireType} {v w : Value}

/-- The keys of a dict of a reduced type are basic, and what variants hold has been copied before:
so all keys can serve as keys. -/
theorem keyed_of_allCopy (ht : t.IsElement) (hv : Variant.AllCopy v) : Keyed t v := by
  intro s w hplace
  induction hplace with
  | @here t v =>
    cases t with
    | dict k x =>
      intro ps _ p _ a c _ a' ha
      obtain ⟨⟨b, rfl⟩, -, -⟩ := ht.ofDict.ofEntry
      cases canonical_of_copy ha with
      | basic hb => exact hb.hashable
    | _ => trivial
  | @held m t s v p w hb hw _ =>
    have hcopies : ∃ c, t.copy p = .ok c := by
      by_cases hvariant : ∃ m p o, v = .variant m p o
      · obtain ⟨m', p', o, rfl⟩ := hvariant
        cases hb
        obtain ⟨y, hy⟩ := hv ⟨p, some t, m⟩ .self
        obtain ⟨c, hc, -⟩ := bind_eq_ok.mp hy
        exact ⟨c, hc⟩
      · exact ⟨p, (canonical_of_boxed (fun m p o h => hvariant ⟨m, p, o, h⟩) hb).copy⟩
    exact (copies_iff.mp hcopies).2 s w hw
  | element hvs hu _ ih => exact ih ht.ofArray fun x hx => hv x (.of_element hvs hu hx)
  | pair hps hp _ ih => exact ih ht.ofDict fun x hx => hv x (.of_pair hps hp hx)
  | key hac _ ih =>
    obtain ⟨⟨b, rfl⟩, -, -⟩ := ht.ofEntry
    exact ih (.reduced (isReduced_basic b)) fun x hx => hv x (.of_element hac (by simp) hx)
  | value hac _ ih =>
    obtain ⟨-, hx, -⟩ := ht.ofEntry
    exact ih (.reduced hx) fun x hx => hv x (.of_element hac (by simp) hx)
  | field hvs hu _ ih =>
    have hmem := List.of_mem_zip hu
    exact ih (.reduced (ht.ofStruct.1 _ hmem.1)) fun x hx => hv x (.of_element hvs hmem.2 hx)
  | part => exact absurd ht fun h => h.not_tuple

end WireType

/-! ## Messages -/

namespace Message

variable {m : Message} {v : Value} {type : Option TypeExpr} {t : WireType}

/-- Writing the value to the message raises nothing and leaves it valid. -/
def Accepts (m : Message) (v : Value) (type : Option TypeExpr) : Prop :=
  (∀ f, ((write v type).run m).1 ≠ .error (.raised f)) ∧ ((write v type).run m).2.isValid = true

theorem accepts_iff (hm : m.isValid = true) (hv : v.isMarker = false)
    (ht : typeFor v type = .ok t) :
    m.Accepts v type ↔
      ∃ m', (encodeWithin v.depth t v).run m = (.ok (), m') ∧ m'.isValid = true := by
  have hrun : (write v type).run m = (encodeWithin v.depth t v).run m := by
    rw [run_write hm hv, ht, Action.run_bind_of_ok Action.run_lift_ok]
  rw [Accepts, hrun]
  constructor
  · rintro ⟨hraise, hvalid⟩
    rcases hout : (encodeWithin v.depth t v).run m with ⟨stop | _, m'⟩
    · rw [hout] at hraise hvalid
      have hstop := WriteCall.settles_action (.value v type) m stop m' (hrun.trans hout)
      rcases hstop with ⟨-, hinvalid⟩ | ⟨f, rfl⟩
      · rw [hinvalid] at hvalid
        cases hvalid
      · exact absurd rfl (hraise f)
    · rw [hout] at hvalid
      exact ⟨m', rfl, hvalid⟩
  · rintro ⟨m', hout, hvalid⟩
    rw [hout]
    exact ⟨nofun, hvalid⟩

/-- A new message accepts just what fits, with containers that can be opened. -/
theorem accepts_new_iff (ht : t.isReduced = true) (hfilled : Filled t v) (hv : v.isMarker = false)
    (htype : typeFor v type = .ok t) (env : Envelope) :
    (ofEnvelope env).Accepts v type ↔ FitsAll t v ∧ Openable t v :=
  (accepts_iff rfl hv htype).trans (writes_iff ht hfilled env)

end Message

namespace Variant

variable {e : TypeExpr} {t : WireType} {v c : Value} {x : Variant}

theorem make_eq_ok (he : e.canonical = .ok t) :
    make v (some e) = .ok x ↔ ∃ c, t.copy v = .ok c ∧ x = ⟨c, some t, none⟩ := by
  have hmake : make v (some e) = Variant.hold v (some e) := by
    cases v <;> rfl
  rw [hmake, hold_some]
  constructor
  · intro h
    obtain ⟨u, hu, h⟩ := bind_eq_ok.mp h
    obtain rfl := Except.ok.inj (he.symm.trans hu)
    obtain ⟨c, hc, h⟩ := bind_eq_ok.mp h
    cases h
    exact ⟨c, hc, rfl⟩
  · rintro ⟨c, hc, rfl⟩
    exact bind_eq_ok.mpr ⟨t, he, bind_eq_ok.mpr ⟨c, hc, rfl⟩⟩

/-- A new message accepts a variant just where it would accept what the variant holds. -/
theorem accepts_variant_iff (ht : t.isReduced = true) (hfilled : Filled t c) (env : Envelope) :
    (ofEnvelope env).Accepts (.variant none c (some t)) none ↔ FitsAll t c ∧ Openable t c := by
  have hopen : (variantOf t).isValid = true := isSingle_signature ht
  have hheld {P : WireType → Value → Prop} (hhere : P .variant (.variant none c (some t))) :
      Everywhere P .variant (.variant none c (some t)) ↔ Everywhere P t c := by
    refine ⟨fun h => h.held rfl, fun h => .variant hhere fun m p u hb => ?_⟩
    cases hb
    exact h
  have hfilled' : Filled .variant (.variant none c (some t)) := (hheld nofun).mpr hfilled
  have hreduced : WireType.variant.isReduced = true := by decide +kernel
  refine (accepts_new_iff hreduced hfilled' rfl rfl env).trans (and_congr (hheld rfl) (hheld ?_))
  intro m p u hb
  cases hb
  exact hopen

/-- **A variant is made of what can be taken apart, and a message accepts what fits.** Of a value
without empty variants, a variant of a reduced type is made just where the value can be taken apart
and its keys can serve as keys, and a new message accepts the variant just where its payload fits
and its containers can be opened. The message accepts the value itself as one of the type, markers
apart, just where that fits and its containers can be opened; then it accepts every variant made of
it, and there is one, as long as the variants inside can be copied. -/
theorem accepted_where_it_fits (he : e.canonical = .ok t) (ht : t.isReduced = true)
    (hfilled : Filled t v) :
    ((∃ x, make v (some e) = .ok x) ↔ Taken t v ∧ Keyed t v) ∧
    (∀ x, make v (some e) = .ok x → ∀ env,
      (ofEnvelope env).Accepts x.toValue none ↔ FitsAll t x.payload ∧ Openable t x.payload) ∧
    (v.isMarker = false → ∀ env,
      ((ofEnvelope env).Accepts v (some e) ↔ FitsAll t v ∧ Openable t v) ∧
      ((ofEnvelope env).Accepts v (some e) →
        (∀ x, make v (some e) = .ok x → (ofEnvelope env).Accepts x.toValue none) ∧
        (AllCopy v → ∃ x, make v (some e) = .ok x))) := by
  have hmake : (∃ x, make v (some e) = .ok x) ↔ Taken t v ∧ Keyed t v := by
    rw [← copies_iff]
    simp [make_eq_ok he]
  have hvariant : ∀ x, make v (some e) = .ok x → ∀ env,
      (ofEnvelope env).Accepts x.toValue none ↔ FitsAll t x.payload ∧ Openable t x.payload := by
    intro x hx env
    obtain ⟨c, hc, rfl⟩ := (make_eq_ok he).mp hx
    exact accepts_variant_iff ht (hfilled.copy hc) env
  refine ⟨hmake, hvariant, fun hv env => ?_⟩
  have htype : typeFor v (some e) = .ok t := he
  have haccepts := accepts_new_iff ht hfilled hv htype env
  refine ⟨haccepts, fun haccepted => ?_⟩
  obtain ⟨hfits, hopen⟩ := haccepts.mp haccepted
  refine ⟨fun x hx => ?_, fun hcopies => ?_⟩
  · refine (hvariant x hx env).mpr ?_
    obtain ⟨c, hc, rfl⟩ := (make_eq_ok he).mp hx
    exact ⟨hfits.copy hc, hopen.copy hc⟩
  · exact hmake.mpr ⟨hfits.taken, keyed_of_allCopy (.reduced ht) hcopies⟩

/-- The type of pairs of integers. -/
def pairType : WireType := .struct [.int32, .int32]

/-- A row of one integer, which is too short for a pair. -/
def shortRow : Value := .tuple [.integer 1]

/-- The variant that is made of it as a pair. -/
def shortPair : Variant := ⟨.tuple [.fixed .int32 1], some pairType, none⟩

theorem make_shortRow : make shortRow (some (.wire pairType)) = .ok shortPair := rfl

theorem filled_shortRow : Filled pairType shortRow := by
  refine .struct trivial fun vs hvs q hq => ?_
  cases hvs
  obtain rfl := List.mem_singleton.mp hq
  exact .basic trivial

/-- The variant is made of a row that the message refuses, and the message refuses it as well. -/
theorem refused_shortRow :
    make shortRow (some (.wire pairType)) = .ok shortPair ∧
      ¬ (ofEnvelope {}).Accepts shortRow (some (.wire pairType)) ∧
      ¬ (ofEnvelope {}).Accepts shortPair.toValue none := by
  have hreduced : pairType.isReduced = true := by decide +kernel
  obtain ⟨-, hvariant, hvalue⟩ :=
    accepted_where_it_fits (e := .wire pairType) rfl hreduced filled_shortRow
  refine ⟨make_shortRow, fun h => ?_, fun h => ?_⟩
  · obtain ⟨hfits, -⟩ := (hvalue rfl {}).1.mp h
    exact absurd (hfits _ _ .here) (by decide)
  · obtain ⟨hfits, -⟩ := (hvariant shortPair make_shortRow {}).mp h
    exact absurd (hfits _ _ .here) (by decide)

/-- A variant can be made of more than a message accepts. -/
theorem not_accepted_wherever_made :
    ¬ ∀ (e : TypeExpr) (t : WireType) (v : Value), e.canonical = .ok t → t.isReduced = true →
      Filled t v → v.isMarker = false →
        ((∃ x, make v (some e) = .ok x) ↔ (ofEnvelope {}).Accepts v (some e)) ∧
        ∀ x, make v (some e) = .ok x → (ofEnvelope {}).Accepts x.toValue none := by
  intro h
  have hreduced : pairType.isReduced = true := by decide +kernel
  obtain ⟨hiff, -⟩ := h (.wire pairType) pairType shortRow rfl hreduced filled_shortRow rfl
  have hwritten := hiff.mp ⟨shortPair, make_shortRow⟩
  obtain ⟨hfits, -⟩ := (accepts_new_iff hreduced filled_shortRow rfl rfl {}).mp hwritten
  exact absurd (hfits _ _ .here) (by decide)

end Variant

end TypedBus
