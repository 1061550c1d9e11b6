import TypedBus.Proofs.Message.DictSpelling
import TypedBus.Proofs.Message.Openings
import TypedBus.Proofs.Message.Variants
import TypedBus.Proofs.Value.Alike

/-!
# Copies of copies, and copies that are written

To copy a value is to bring it into the form of its type, which is done in one step: a copy is
copied to itself. Writing goes down a value just as copying does, so where a value has been written
its copy can be, and leaves the same containers open (`WireType.leads_copy`). The entries of a
copied dict are no exception, though each may have its key from one entry of the value and what it
holds from another: no variant is in a key (`Canonical.filled_of_hashable`), so every key begins as
many values as any other.

`Message.copy_settles` states both, for every expression and every value.
-/

namespace TypedBus

open Message WireType

namespace WireType

open TypedBus.Action

variable {n : Nat} {t e k x : WireType} {ts : List WireType} {v w c : Value}
  {fs fs' : List Frame}

/-! ## Copies -/

/-- A copy goes no deeper into variants than what it is a copy of. -/
theorem within_copy (h : Within n t v) : ∀ c, t.copy v = .ok c → Within n t c := by
  induction h with
  | basic => exact composes_within_copy.basic _ _
  | @variant n v _ ih =>
    intro c hc
    refine .variant fun m p t hb => ?_
    obtain ⟨m', q, hb', hp⟩ := exists_held_of_copy hc hb
    exact ih m' q t hb' p (hp t rfl)
  | array _ ih => exact composes_within_copy.array ih
  | dict _ ih => exact composes_within_copy.dict ih
  | entry _ _ ihk ihx =>
    exact composes_within_copy.entry fun a c hac => ⟨ihk a c hac, ihx a c hac⟩
  | struct _ ih => exact composes_within_copy.struct ih
  | tuple _ ih => exact composes_within_copy.tuple ih

/-- No variant, and so no empty one, is in what can serve as a key. -/
theorem Canonical.filled_of_hashable (h : Canonical t v) : v.unhashable? = none → Filled t v := by
  have hrow : ∀ {ts : List WireType} {vs : List Value},
      (∀ q ∈ ts.zip vs, q.2.unhashable? = none → Filled q.1 q.2) →
      Value.unhashableAmong? vs = none → ∀ q ∈ ts.zip vs, Filled q.1 q.2 :=
    fun hall hvs q hq =>
      hall q hq (Value.unhashableAmong?_eq_none.mp hvs q.2 (List.of_mem_zip hq).2)
  induction h with
  | basic => exact fun _ => .basic trivial
  | emptyVariant | variant | array | dict => exact nofun
  | entry _ _ iha ihb =>
    intro hv
    obtain ⟨ha, hb⟩ := Option.or_eq_none_iff.mp hv
    refine .entry trivial fun a c hac => ?_
    cases hac
    exact ⟨iha ha, ihb hb⟩
  | struct _ _ ih =>
    intro hv
    refine .struct trivial fun vs hvs => ?_
    cases hvs
    exact hrow ih hv
  | tuple _ _ ih =>
    intro hv
    refine .tuple trivial fun vs hvs => ?_
    cases hvs
    exact hrow ih hv

/-- No marker is in the form of a type. -/
theorem Canonical.isMarker (h : Canonical t v) : v.isMarker = false := by
  cases h with
  | basic h => cases h <;> rfl
  | _ => rfl

/-! ## Writing copies -/

/-- Wherever the value is written the copy is, with the same containers open then. -/
def Follows (n : Nat) (t : WireType) (v c : Value) : Prop :=
  ∀ fs fs', (encodeWithin n t v).Leads fs fs' → (encodeWithin n t c).Leads fs fs'

/-- Fields that follow one by one follow as a row. -/
theorem leads_fields_copy :
    ∀ {ts : List WireType} {vs ws : List Value} {fs fs' : List Frame}, vs.length = ts.length →
      List.Forall₂ (fun q w => Follows n q.1 q.2 w) (ts.zip vs) ws →
      (encodeFields (writingBoxed n) ts vs).Leads fs fs' →
      (encodeFields (writingBoxed n) ts ws).Leads fs fs'
  | [], _, _, _, _, _, .nil, h => by
    rw [encodeFields] at h ⊢
    exact h
  | _ :: _, [], _, _, _, hlen, _, _ => nomatch hlen
  | _ :: _, _ :: _, _ :: _, _, _, hlen, .cons hq hqs, h => by
    obtain ⟨gs, h₁, h₂⟩ := leads_fields_cons.mp h
    exact leads_fields_cons.mpr
      ⟨gs, hq _ _ h₁, leads_fields_copy (Nat.succ.inj hlen) hqs h₂⟩

/-- A row of copies is as long as the row of types, where the row of values is. -/
theorem length_of_copies {vs ws : List Value} {R : WireType × Value → Value → Prop}
    (hlen : vs.length = ts.length) (h : List.Forall₂ R (ts.zip vs) ws) :
    ws.length = ts.length := by
  rw [← h.length_eq, List.length_zip, hlen, Nat.min_self]

theorem follows_of_copies {vs ws : List Value}
    (h : ∀ q ∈ ts.zip vs, ∀ c, q.1.copy q.2 = .ok c → Follows n q.1 q.2 c)
    (hws : List.Forall₂ (fun q w => q.1.copy q.2 = .ok w) (ts.zip vs) ws) :
    List.Forall₂ (fun q w => Follows n q.1 q.2 w) (ts.zip vs) ws :=
  ((List.forall₂_and_left _ _).mpr ⟨h, hws⟩).imp fun _ w hq => hq.1 w hq.2

/-- Where these containers are open, the entry of a dict can be opened and this key written in it,
by as many values as its type announces. -/
def KeyLeads (n : Nat) (k x : WireType) (fs : List Frame) (a : Value) : Prop :=
  ∃ fs₁, Item.Step fs (.opening (entryOf k x)) fs₁ ∧
    (encodeWithin n k a).Leads fs₁ (Frame.advance k.pieces.length fs₁)

/-- Behind a key of as many values this value completes the entry. -/
def HeldLeads (n : Nat) (k x : WireType) (fs : List Frame) (b : Value) : Prop :=
  ∃ fs₁ fs₂, Item.Step fs (.opening (entryOf k x)) fs₁ ∧
    (encodeWithin n x b).Leads (Frame.advance k.pieces.length fs₁) fs₂ ∧
    Item.Step fs₂ .closing fs

theorem leads_pair {a b : Value} (h : (encodeWithin n (.entry k x) (.entry a b)).Leads fs fs)
    (hk : Counted n k a) (hfilled : Filled k a) :
    KeyLeads n k x fs a ∧ HeldLeads n k x fs b := by
  obtain ⟨_, _, ⟨⟩, fs₁, fs₂, hopen, ⟨gs, h₁, h₂⟩, hclose⟩ := leads_entry.mp h
  obtain ⟨i, rfl, hi⟩ := hk fs₁ gs h₁
  rw [hi hfilled] at h₁ h₂
  exact ⟨⟨fs₁, hopen, h₁⟩, fs₁, fs₂, hopen, h₂, hclose⟩

theorem leads_of_parts {a b : Value} (hkey : KeyLeads n k x fs a) (hheld : HeldLeads n k x fs b) :
    (encodeWithin n (.entry k x) (.tuple [a, b])).Leads fs fs := by
  obtain ⟨fs₁, hopen, h₁⟩ := hkey
  obtain ⟨fs₁', fs₂, hopen', h₂, hclose⟩ := hheld
  obtain rfl := hopen.opening_unique hopen'
  exact leads_entry.mpr ⟨a, b, rfl, fs₁, fs₂, hopen, ⟨_, h₁, h₂⟩, hclose⟩

/-- Where the pairs of a dict are written one by one, so is its copy. A key of the copy and the
value that it holds may come from two pairs. -/
theorem follows_dict
    (hin : ∀ ps, v.pairs? = some ps → ∀ p ∈ ps, Within n (.entry k x) p)
    (ih : ∀ ps, v.pairs? = some ps → ∀ p ∈ ps, ∀ c, copy (.entry k x) p = .ok c →
      Follows n (.entry k x) p c)
    (hc : copy (.dict k x) v = .ok c) : Follows n (.dict k x) v c := by
  intro fs fs' h
  have hwithin : Within n (.dict k x) c := within_copy (.dict hin) c hc
  obtain ⟨ps, qs, es, hps, hqs, hfold, rfl⟩ := copy_dict_eq_ok.mp hc
  obtain ⟨ps', hps', h⟩ := leads_dict.mp h
  obtain rfl := Option.some.inj (hps.symm.trans (Value.eq_of_collection? hps'))
  refine leads_dict.mpr ⟨_, rfl, h.mono fun fs₁ fs₂ hopen hinside => ?_⟩
  obtain ⟨rfl, hall⟩ := (leads_elements hopen rfl fun p hp =>
    counted_of_within (hin ps hps p hp)).mp hinside
  have hcounted : ∀ p ∈ es.map (fun e => Value.tuple [e.1, e.2]), Counted n (.entry k x) p := by
    cases hwithin with
    | dict hin => exact fun p hp => counted_of_within (hin _ rfl p hp)
  refine (leads_elements hopen rfl hcounted).mpr ⟨rfl, ?_⟩
  -- each key begins as many values as its type announces, so it may go before any value
  have hparts : ∀ q ∈ qs, ∃ a b, q = .entry a b ∧
      KeyLeads n k x fs₂ a ∧ HeldLeads n k x fs₂ b := by
    intro q hq
    obtain ⟨p, hp, hcopy⟩ := exists_of_forall₂ hqs.flip q hq
    have hq' := ih ps hps p hp q hcopy _ _ (hall p hp)
    have hin' := within_copy (hin ps hps p hp) q hcopy
    obtain ⟨_, _, a, b, -, ha, -, rfl⟩ := copy_entry_eq_ok.mp hcopy
    have hhash : a.unhashable? = none := Value.hashable_of_foldlM_addEntry hfold hq
    cases hin' with
    | entry hk hx =>
      exact ⟨a, b, rfl, leads_pair hq' (counted_of_within (hk a b rfl))
        ((canonical_of_copy ha).filled_of_hashable hhash)⟩
  have hmixed := Value.forall_foldlM_addEntry hparts (by simp) hfold
  exact List.forall_mem_map.mpr fun e he => leads_of_parts (hmixed e he).1 (hmixed e he).2

/-- **Wherever a value has been written its copy can be**, and the same containers are open then. -/
theorem leads_copy (hwithin : Within n t v) : ∀ c, t.copy v = .ok c → Follows n t v c := by
  induction hwithin with
  | basic =>
    intro c hc fs fs' h
    cases canonical_of_copy hc with
    | basic hholds => exact leads_basic.mpr ⟨⟨c, hholds.convert⟩, (leads_basic.mp h).2⟩
  | variant _ ih =>
    intro c hc fs fs' h
    refine leads_variant.mpr ?_
    rcases leads_variant.mp h with ⟨m, p, hb, rfl⟩ | ⟨m, p, t, hb, h⟩
    · rcases copy_variant_eq_ok.mp hc with ⟨_, _, -, rfl⟩ | ⟨_, _, _, _, hb', -⟩
      · exact .inl ⟨none, .null, rfl, rfl⟩
      · cases hb.symm.trans hb'
    · rcases copy_variant_eq_ok.mp hc with ⟨_, _, hb', -⟩ | ⟨m', p', t', q, hb', hq, rfl⟩
      · cases hb.symm.trans hb'
      · cases hb.symm.trans hb'
        exact .inr ⟨none, q, t, rfl, h.mono fun fs₁ fs₂ _ => ih m p t hb q hq fs₁ fs₂⟩
  | @array n e v hin ih =>
    intro c hc fs fs' h
    obtain ⟨vs, ws, hvs, hws, rfl⟩ := copy_array_eq_ok.mp hc
    obtain ⟨vs', hvs', h⟩ := leads_array.mp h
    obtain rfl := Option.some.inj (hvs.symm.trans (Value.eq_of_collection? hvs'))
    refine leads_array.mpr ⟨ws, rfl, h.mono fun fs₁ fs₂ hopen hinside => ?_⟩
    obtain ⟨rfl, hall⟩ := (leads_elements hopen rfl fun u hu =>
      counted_of_within (hin vs hvs u hu)).mp hinside
    have hcopies : ∀ w ∈ ws, ∃ u ∈ vs, e.copy u = .ok w := exists_of_forall₂ hws.flip
    refine (leads_elements hopen rfl fun w hw => ?_).mpr ⟨rfl, fun w hw => ?_⟩ <;>
      obtain ⟨u, hu, hcopy⟩ := hcopies w hw
    · exact counted_of_within (within_copy (hin vs hvs u hu) w hcopy)
    · exact ih vs hvs u hu w hcopy _ _ (hall u hu)
  | dict hin ih => exact fun c hc => follows_dict hin ih hc
  | entry _ _ ihk ihx =>
    intro c hc fs fs' h
    obtain ⟨a, b, a', b', hab, ha, hb, rfl⟩ := copy_entry_eq_ok.mp hc
    obtain ⟨a₀, b₀, hab', h⟩ := leads_entry.mp h
    cases hab.symm.trans (Value.eq_of_entryParts? hab')
    refine leads_entry.mpr ⟨a', b', rfl, h.mono fun fs₁ fs₂ _ => ?_⟩
    rintro ⟨gs, h₁, h₂⟩
    exact ⟨gs, ihk a b hab a' ha _ _ h₁, ihx a b hab b' hb _ _ h₂⟩
  | struct _ ih =>
    intro c hc fs fs' h
    obtain ⟨vs, ws, hvs, hws, rfl⟩ := copy_struct_eq_ok.mp hc
    obtain ⟨vs', hvs', hlen, h⟩ := leads_struct.mp h
    obtain rfl := Option.some.inj (hvs.symm.trans (Value.eq_of_fields? hvs'))
    refine leads_struct.mpr ⟨ws, rfl, length_of_copies hlen hws, h.mono fun fs₁ fs₂ _ => ?_⟩
    exact leads_fields_copy hlen (follows_of_copies (ih vs hvs) hws)
  | tuple _ ih =>
    intro c hc fs fs' h
    obtain ⟨vs, ws, hvs, hws, rfl⟩ := copy_tuple_eq_ok.mp hc
    obtain ⟨vs', hvs', hlen, h⟩ := leads_tuple.mp h
    obtain rfl := Option.some.inj (hvs.symm.trans (Value.eq_of_fields? hvs'))
    exact leads_tuple.mpr ⟨ws, rfl, length_of_copies hlen hws,
      leads_fields_copy hlen (follows_of_copies (ih vs hvs) hws) h⟩

end WireType

/-! ## Messages -/

namespace Message

open TypedBus.Action

variable {m : Message} {n : Nat} {e : TypeExpr} {t : WireType} {v w : Value} {fs' : List Frame}

/-- A message accepts what can be written where its containers are open. -/
theorem accepts_of_leads (hm : m.Writable) (hv : v.isMarker = false) (he : e.canonical = .ok t)
    (hwithin : Within n t v) (h : (encodeWithin n t v).Leads m.frames fs') :
    m.Accepts v (some e) := by
  rw [encodeWithin_of_le hwithin (Nat.le_max_left n v.depth),
    ← encodeWithin_of_le (within_depth t v) (Nat.le_max_right n v.depth)] at h
  obtain ⟨m', hrun, hm', -⟩ := h m hm rfl
  have htype : typeFor v (some e) = .ok t := he
  exact (accepts_iff hm.valid hv htype).mpr ⟨m', hrun, hm'.valid⟩

/-- A message that accepts a value accepts its copy. -/
theorem accepts_copy (hm : m.Writable) (hv : v.isMarker = false) (he : e.canonical = .ok t)
    (hw : t.copy v = .ok w) (h : m.Accepts v (some e)) : m.Accepts w (some e) := by
  have htype : typeFor v (some e) = .ok t := he
  obtain ⟨m', hrun, -⟩ := (accepts_iff hm.valid hv htype).mp h
  have hleads := (uniform_encodeWithin v.depth t v).leads hm hrun
  have hwithin := within_depth t v
  exact accepts_of_leads hm (canonical_of_copy hw).isMarker he (within_copy hwithin w hw)
    (leads_copy hwithin w hw _ _ hleads)

/-- A marker can be copied as a truth value only, which a new message accepts. -/
theorem accepts_copy_of_marker (hv : v.isMarker = true) (he : e.canonical = .ok t)
    (hw : t.copy v = .ok w) (env : Envelope) : (ofEnvelope env).Accepts w (some e) := by
  have htaken := takenHere_of_copy hw
  have hcanonical := canonical_of_copy hw
  cases t with
  | basic b =>
    cases hcanonical with
    | basic hholds =>
      have hbegins := beginsAll_pieces (isReduced_basic b)
      cases hbegins with
      | cons hb hnil =>
        exact accepts_of_leads ⟨rfl, rfl⟩ (Canonical.basic hholds).isMarker he
          (Within.basic (n := 0)) (leads_basic.mpr ⟨⟨w, hholds.convert⟩, hb⟩)
  | _ => cases v <;> first
      | exact absurd hv Bool.false_ne_true
      | exact absurd htaken Bool.false_ne_true

/-- **A copy is copied to itself, and is accepted where the value was.** Whatever the expression and
the value, what copying gives is given again when it is copied, and is equal to itself up to values
that are no numbers; and if writing the value to a new message raises nothing and leaves it valid,
so does writing the copy. -/
theorem copy_settles (he : e.canonical = .ok t) (hw : t.copy v = .ok w) :
    (t.copy w = .ok w ∧ w.alike w = true) ∧
    ∀ env, (ofEnvelope env).Accepts v (some e) → (ofEnvelope env).Accepts w (some e) := by
  refine ⟨⟨(canonical_of_copy hw).copy, w.alike_self⟩, fun env h => ?_⟩
  cases hv : v.isMarker with
  | true => exact accepts_copy_of_marker hv he hw env
  | false => exact accepts_copy ⟨rfl, rfl⟩ hv he hw h

/-- A row of pairs for a dict of variants, in which a key stands twice. -/
def namedValues : Value :=
  .list none
    [.tuple [.text "a", .integer 1], .tuple [.text "b", .boolean true],
      .list none [.text "a", .list none [.double .nan]]]

/-- The row of pairs becomes a dict of two keys, the first with the value that came last. -/
theorem copy_settles_namedValues :
    let t : WireType := .dict .string .variant
    let w : Value := .dict
      [(.text "a", .variant none (.list none [.double .nan]) (some (.array (.basic .double)))),
        (.text "b", .variant none (.boolean true) (some (.basic .boolean)))]
    t.copy namedValues = .ok w ∧ (ofEnvelope {}).Accepts namedValues (some (.wire t)) ∧
      t.copy w = .ok w ∧ w.alike w = true ∧ (ofEnvelope {}).Accepts w (some (.wire t)) := by
  intro t w
  have hw : t.copy namedValues = .ok w := rfl
  have hv : (ofEnvelope {}).Accepts namedValues (some (.wire t)) := by
    have hrun : ((write namedValues (some (.wire t))).run (ofEnvelope {})).1.isOk = true ∧
        ((write namedValues (some (.wire t))).run (ofEnvelope {})).2.isValid = true := by
      decide +kernel
    refine ⟨fun f hraised => ?_, hrun.2⟩
    rw [hraised] at hrun
    cases hrun.1
  obtain ⟨⟨hcopy, halike⟩, haccepts⟩ := copy_settles (e := .wire t) rfl hw
  exact ⟨hw, hv, hcopy, halike, haccepts {} hv⟩

end Message

end TypedBus
