import TypedBus.Proofs.Message.Places

/-!
# Copying place by place

Copying and writing go down a value alike, and ask different things of what they find in its places
(`WireType.Place`). Copying asks for what can be converted, boxed or taken apart
(`WireType.Taken`), and for dict keys that can serve as keys once they have been copied (`Keyed`);
it asks for nothing else (`copies_iff`), so that a text passes for an array of its characters, and a
row that is too short or too long for a struct. Writing asks for what fits (`FitsAll`), and for
containers that can be opened (`Openable`).

What a copy is made of fits where it fitted before, and so on with each property of places that
copying keeps (`Everywhere.copy`).
-/

namespace TypedBus

namespace WireType

/-! ## What is asked of a place -/

/-- Every value in the value has the property, as one of the type in whose place it stands. -/
def Everywhere (P : WireType → Value → Prop) (t : WireType) (v : Value) : Prop :=
  ∀ s w, Place t v s w → P s w

/-- What stands in a place can be converted, boxed or taken apart. -/
def takenHere : WireType → Value → Bool
  | .basic b, v => (b.convert v).toBool
  | .variant, v => (boxed v).toBool
  | .array _, v | .struct _, v | .tuple _, v => v.elements?.isSome
  | .dict _ _, v => v.pairs?.isSome
  | .entry _ _, v => v.elements?.any (·.length == 2)

/-- In the place of a dict, the keys can serve as keys once they have been copied. -/
def keyedHere : WireType → Value → Prop
  | .dict k _, v => ∀ ps, v.pairs? = some ps → ∀ p ∈ ps, ∀ a c, p.elements? = some [a, c] →
    ∀ a', k.copy a = .ok a' → a'.unhashable? = none
  | _, _ => True

/-- The container that stands for what is in the place can be opened. -/
def openableHere : WireType → Value → Prop
  | .variant, v => ∀ m p t, boxed v = .ok (.variant m p (some t)) → (variantOf t).isValid = true
  | .array e, _ => (arrayOf e).isValid = true
  | .dict k x, _ => (arrayOf (.entry k x)).isValid = true
  | .entry k x, _ => (entryOf k x).isValid = true
  | .struct fs, _ => (structOf fs).isValid = true
  | .basic _, _ | .tuple _, _ => True

/-- In the place of a variant stands no empty one. -/
def filledHere : WireType → Value → Prop
  | .variant, v => ∀ m p, boxed v ≠ .ok (.variant m p none)
  | _, _ => True

/-- Every value in the value can be converted, boxed or taken apart. -/
def Taken : WireType → Value → Prop := Everywhere fun s w => takenHere s w = true

/-- The keys of every dict in the value can serve as keys once they have been copied. -/
def Keyed : WireType → Value → Prop := Everywhere keyedHere

/-- The containers that the value is written with can be opened. -/
def Openable : WireType → Value → Prop := Everywhere openableHere

/-- No empty variant is in the value. -/
def Filled : WireType → Value → Prop := Everywhere filledHere

namespace Everywhere

variable {P : WireType → Value → Prop} {t e k x f : WireType} {fs : List WireType}
  {v u p a c : Value} {vs ps : List Value} {m : Mark}

theorem here (h : Everywhere P t v) : P t v := h t v .here

theorem held (h : Everywhere P .variant v) (hb : boxed v = .ok (.variant m p (some t))) :
    Everywhere P t p := fun s w hw => h s w (.held hb hw)

theorem element (h : Everywhere P (.array e) v) (hvs : v.elements? = some vs) (hu : u ∈ vs) :
    Everywhere P e u := fun s w hw => h s w (.element hvs hu hw)

theorem pair (h : Everywhere P (.dict k x) v) (hps : v.pairs? = some ps) (hp : p ∈ ps) :
    Everywhere P (.entry k x) p := fun s w hw => h s w (.pair hps hp hw)

theorem key (h : Everywhere P (.entry k x) v) (hv : v.elements? = some [a, c]) :
    Everywhere P k a := fun s w hw => h s w (.key hv hw)

theorem value (h : Everywhere P (.entry k x) v) (hv : v.elements? = some [a, c]) :
    Everywhere P x c := fun s w hw => h s w (.value hv hw)

theorem field (h : Everywhere P (.struct fs) v) (hvs : v.elements? = some vs)
    (hu : (f, u) ∈ fs.zip vs) : Everywhere P f u := fun s w hw => h s w (.field hvs hu hw)

theorem part (h : Everywhere P (.tuple fs) v) (hvs : v.elements? = some vs)
    (hu : (f, u) ∈ fs.zip vs) : Everywhere P f u := fun s w hw => h s w (.part hvs hu hw)

/-! ### Put together of what holds of the parts -/

theorem basic {b : BasicType} (h : P (.basic b) v) : Everywhere P (.basic b) v := by
  intro s w hw
  cases hw with
  | here => exact h

theorem variant (h : P .variant v)
    (hp : ∀ m p t, boxed v = .ok (.variant m p (some t)) → Everywhere P t p) :
    Everywhere P .variant v := by
  intro s w hw
  cases hw with
  | here => exact h
  | held hb hw => exact hp _ _ _ hb s w hw

theorem array (h : P (.array e) v)
    (hp : ∀ vs, v.elements? = some vs → ∀ u ∈ vs, Everywhere P e u) :
    Everywhere P (.array e) v := by
  intro s w hw
  cases hw with
  | here => exact h
  | element hvs hu hw => exact hp _ hvs _ hu s w hw

theorem dict (h : P (.dict k x) v)
    (hp : ∀ ps, v.pairs? = some ps → ∀ p ∈ ps, Everywhere P (.entry k x) p) :
    Everywhere P (.dict k x) v := by
  intro s w hw
  cases hw with
  | here => exact h
  | pair hps hmem hw => exact hp _ hps _ hmem s w hw

theorem entry (h : P (.entry k x) v)
    (hp : ∀ a c, v.elements? = some [a, c] → Everywhere P k a ∧ Everywhere P x c) :
    Everywhere P (.entry k x) v := by
  intro s w hw
  cases hw with
  | here => exact h
  | key hv hw => exact (hp _ _ hv).1 s w hw
  | value hv hw => exact (hp _ _ hv).2 s w hw

theorem struct (h : P (.struct fs) v)
    (hp : ∀ vs, v.elements? = some vs → ∀ q ∈ fs.zip vs, Everywhere P q.1 q.2) :
    Everywhere P (.struct fs) v := by
  intro s w hw
  cases hw with
  | here => exact h
  | field hvs hu hw => exact hp _ hvs _ hu s w hw

theorem tuple (h : P (.tuple fs) v)
    (hp : ∀ vs, v.elements? = some vs → ∀ q ∈ fs.zip vs, Everywhere P q.1 q.2) :
    Everywhere P (.tuple fs) v := by
  intro s w hw
  cases hw with
  | here => exact h
  | part hvs hu hw => exact hp _ hvs _ hu s w hw

end Everywhere

/-! ## Copies -/

variable {t s : WireType} {v w c : Value} {m : Mark} {p : Value}

/-- Where a value is copied, what stands in its places is. -/
theorem copies_of_place (hplace : Place t v s w) :
    (∃ c, t.copy v = .ok c) → ∃ c, s.copy w = .ok c := by
  induction hplace with
  | here => exact id
  | @held m t s v p w hb _ ih =>
    rintro ⟨c, hc⟩
    rcases copy_variant_eq_ok.mp hc with ⟨_, _, hb', -⟩ | ⟨_, _, _, p', hb', hp, -⟩
    · cases hb.symm.trans hb'
    · cases hb.symm.trans hb'
      exact ih ⟨p', hp⟩
  | element hvs hu _ ih =>
    rintro ⟨c, hc⟩
    obtain ⟨vs, ws, hvs', hws, -⟩ := copy_array_eq_ok.mp hc
    obtain rfl := Option.some.inj (hvs.symm.trans hvs')
    exact ih ((exists_of_forall₂ hws _ hu).imp fun _ h => h.2)
  | pair hps hp _ ih =>
    rintro ⟨c, hc⟩
    obtain ⟨ps, qs, es, hps', hqs, -, -⟩ := copy_dict_eq_ok.mp hc
    obtain rfl := Option.some.inj (hps.symm.trans hps')
    exact ih ((exists_of_forall₂ hqs _ hp).imp fun _ h => h.2)
  | key hv _ ih =>
    rintro ⟨c, hc⟩
    obtain ⟨a, b, a', b', hab, ha, -, -⟩ := copy_entry_eq_ok.mp hc
    cases hv.symm.trans hab
    exact ih ⟨a', ha⟩
  | value hv _ ih =>
    rintro ⟨c, hc⟩
    obtain ⟨a, b, a', b', hab, -, hb, -⟩ := copy_entry_eq_ok.mp hc
    cases hv.symm.trans hab
    exact ih ⟨b', hb⟩
  | field hvs hu _ ih =>
    rintro ⟨c, hc⟩
    obtain ⟨vs, ws, hvs', hws, -⟩ := copy_struct_eq_ok.mp hc
    obtain rfl := Option.some.inj (hvs.symm.trans hvs')
    exact ih ((exists_of_forall₂ hws _ hu).imp fun _ h => h.2)
  | part hvs hu _ ih =>
    rintro ⟨c, hc⟩
    obtain ⟨vs, ws, hvs', hws, -⟩ := copy_tuple_eq_ok.mp hc
    obtain rfl := Option.some.inj (hvs.symm.trans hvs')
    exact ih ((exists_of_forall₂ hws _ hu).imp fun _ h => h.2)

theorem exists_of_toBool {x : Except Fault Value} (h : x.toBool = true) : ∃ w, x = .ok w := by
  cases x with
  | error f => cases h
  | ok w => exact ⟨w, rfl⟩

theorem exists_pair_of_takenHere {k x : WireType} (h : takenHere (.entry k x) v = true) :
    ∃ a c, v.elements? = some [a, c] := by
  obtain ⟨vs, hvs, hlen⟩ := (Option.any_eq_true _ _).mp h
  obtain ⟨a, c, rfl⟩ := List.length_eq_two.mp (beq_iff_eq.mp hlen)
  exact ⟨a, c, hvs⟩

theorem takenHere_of_copy (h : t.copy v = .ok c) : takenHere t v = true := by
  cases t with
  | basic b =>
    rw [copy_eq, copyWith] at h
    rw [takenHere, h]
    rfl
  | variant =>
    rcases copy_variant_eq_ok.mp h with ⟨_, _, hb, -⟩ | ⟨_, _, _, _, hb, -⟩ <;>
    · rw [takenHere, hb]
      rfl
  | array e =>
    obtain ⟨vs, ws, hvs, -⟩ := copy_array_eq_ok.mp h
    rw [takenHere, hvs, Option.isSome_some]
  | dict k x =>
    obtain ⟨ps, qs, es, hps, -⟩ := copy_dict_eq_ok.mp h
    rw [takenHere, hps, Option.isSome_some]
  | entry k x =>
    obtain ⟨a, b, a', b', hab, -⟩ := copy_entry_eq_ok.mp h
    rw [takenHere, hab]
    rfl
  | struct fs =>
    obtain ⟨vs, ws, hvs, -⟩ := copy_struct_eq_ok.mp h
    rw [takenHere, hvs, Option.isSome_some]
  | tuple fs =>
    obtain ⟨vs, ws, hvs, -⟩ := copy_tuple_eq_ok.mp h
    rw [takenHere, hvs, Option.isSome_some]

theorem keyedHere_of_copy (h : t.copy v = .ok c) : keyedHere t v := by
  cases t with
  | dict k x =>
    obtain ⟨ps, qs, es, hps, hqs, hfold, -⟩ := copy_dict_eq_ok.mp h
    intro ps' hps' p hp a b hab a' ha
    obtain rfl := Option.some.inj (hps.symm.trans hps')
    obtain ⟨q, hmem, hq⟩ := exists_of_forall₂ hqs p hp
    obtain ⟨_, _, a'', b', hab', ha', -, rfl⟩ := copy_entry_eq_ok.mp hq
    cases hab.symm.trans hab'
    obtain rfl := Except.ok.inj (ha.symm.trans ha')
    exact Value.hashable_of_foldlM_addEntry hfold hmem
  | _ => trivial

/-- What can be taken apart, with keys that can serve as keys, can be copied. -/
theorem exists_copy {n : Nat} (hwithin : Within n t v) :
    Taken t v → Keyed t v → ∃ c, t.copy v = .ok c := by
  induction hwithin with
  | @basic _ b v =>
    intro htaken _
    rw [copy_eq, copyWith]
    exact exists_of_toBool htaken.here
  | @variant n v _ ih =>
    intro htaken hkeyed
    obtain ⟨b, hb⟩ := exists_of_toBool htaken.here
    obtain ⟨m, p, _ | t, rfl⟩ := exists_variant_of_boxed hb
    · exact ⟨_, copy_variant_eq_ok.mpr (.inl ⟨m, p, hb, rfl⟩)⟩
    · obtain ⟨p', hp⟩ := ih m p t hb (htaken.held hb) (hkeyed.held hb)
      exact ⟨_, copy_variant_eq_ok.mpr (.inr ⟨m, p, t, p', hb, hp, rfl⟩)⟩
  | @array n e v _ ih =>
    intro htaken hkeyed
    obtain ⟨vs, hvs⟩ := Option.isSome_iff_exists.mp htaken.here
    obtain ⟨ws, hws⟩ := exists_forall₂ fun u hu =>
      ih vs hvs u hu (htaken.element hvs hu) (hkeyed.element hvs hu)
    exact ⟨_, copy_array_eq_ok.mpr ⟨vs, ws, hvs, hws, rfl⟩⟩
  | @dict n k x v _ ih =>
    intro htaken hkeyed
    obtain ⟨ps, hps⟩ := Option.isSome_iff_exists.mp htaken.here
    obtain ⟨qs, hqs⟩ := exists_forall₂ fun p hp =>
      ih ps hps p hp (htaken.pair hps hp) (hkeyed.pair hps hp)
    have hentries : ∀ q ∈ qs, ∃ a y, q = .entry a y ∧ a.unhashable? = none := by
      intro q hq
      obtain ⟨p, hp, hcopy⟩ := exists_of_forall₂ hqs.flip q hq
      obtain ⟨a, b, a', b', hab, ha, -, rfl⟩ := copy_entry_eq_ok.mp hcopy
      exact ⟨a', b', rfl, hkeyed.here ps hps p hp a b hab a' ha⟩
    obtain ⟨es, hes⟩ := Value.exists_addEntries hentries []
    exact ⟨_, copy_dict_eq_ok.mpr ⟨ps, qs, es, hps, hqs, hes, rfl⟩⟩
  | @entry n k x v _ _ ihk ihx =>
    intro htaken hkeyed
    obtain ⟨a, c, hv⟩ := exists_pair_of_takenHere htaken.here
    obtain ⟨a', ha⟩ := ihk a c hv (htaken.key hv) (hkeyed.key hv)
    obtain ⟨c', hc⟩ := ihx a c hv (htaken.value hv) (hkeyed.value hv)
    exact ⟨_, copy_entry_eq_ok.mpr ⟨a, c, a', c', hv, ha, hc, rfl⟩⟩
  | @struct n fs v _ ih =>
    intro htaken hkeyed
    obtain ⟨vs, hvs⟩ := Option.isSome_iff_exists.mp htaken.here
    obtain ⟨ws, hws⟩ := exists_forall₂ fun p hp =>
      ih vs hvs p hp (htaken.field hvs hp) (hkeyed.field hvs hp)
    exact ⟨_, copy_struct_eq_ok.mpr ⟨vs, ws, hvs, hws, rfl⟩⟩
  | @tuple n fs v _ ih =>
    intro htaken hkeyed
    obtain ⟨vs, hvs⟩ := Option.isSome_iff_exists.mp htaken.here
    obtain ⟨ws, hws⟩ := exists_forall₂ fun p hp =>
      ih vs hvs p hp (htaken.part hvs hp) (hkeyed.part hvs hp)
    exact ⟨_, copy_tuple_eq_ok.mpr ⟨vs, ws, hvs, hws, rfl⟩⟩

/-- **A value can be copied just where it can be taken apart and has keys that can serve as keys.**
Neither its shape nor the containers of its type matter. -/
theorem copies_iff : (∃ c, t.copy v = .ok c) ↔ Taken t v ∧ Keyed t v := by
  constructor
  · intro h
    refine ⟨fun s w hw => ?_, fun s w hw => ?_⟩ <;> obtain ⟨c, hc⟩ := copies_of_place hw h
    · exact takenHere_of_copy hc
    · exact keyedHere_of_copy hc
  · rintro ⟨htaken, hkeyed⟩
    exact exists_copy (within_depth t v) htaken hkeyed

/-! ## What copying keeps -/

/-- A property of what stands in a place that copying keeps. The entries of a copied dict are pairs
of what may have come from two of them. -/
structure Survives (P : WireType → Value → Prop) : Prop where
  copy : ∀ {t v c}, P t v → t.copy v = .ok c → P t c
  pair : ∀ {k x v a c}, P (.entry k x) v → P (.entry k x) (.tuple [a, c])

/-- A copy in the place of a variant holds a copy of what was held there, as the same type. -/
theorem exists_held_of_copy {o : Option WireType} (hc : copy .variant v = .ok c)
    (hb : boxed c = .ok (.variant m p o)) :
    ∃ m' q, boxed v = .ok (.variant m' q o) ∧ ∀ t, o = some t → t.copy q = .ok p := by
  rcases copy_variant_eq_ok.mp hc with ⟨m', q, hb', rfl⟩ | ⟨m', q, t, p', hb', hp, rfl⟩ <;> cases hb
  · exact ⟨m', q, hb', nofun⟩
  · exact ⟨m', q, hb', fun u hu => Option.some.inj hu ▸ hp⟩

/-- **Copying keeps everywhere what it keeps in each place.** -/
theorem Everywhere.copy {P : WireType → Value → Prop} (hP : Survives P) {n : Nat}
    (hwithin : Within n t v) : Everywhere P t v → ∀ c, t.copy v = .ok c → Everywhere P t c := by
  induction hwithin with
  | basic => exact fun h c hc => .basic (hP.copy h.here hc)
  | @variant n v _ ih =>
    intro h c hc
    refine .variant (hP.copy h.here hc) fun m p t hb => ?_
    obtain ⟨m', q, hboxed, hp⟩ := exists_held_of_copy hc hb
    exact ih m' q t hboxed (h.held hboxed) p (hp t rfl)
  | @array n e v _ ih =>
    intro h c hc
    refine .array (hP.copy h.here hc) fun us hus => ?_
    obtain ⟨vs, ws, hvs, hws, rfl⟩ := copy_array_eq_ok.mp hc
    cases hus
    intro w hw
    obtain ⟨u, hu, hcopy⟩ := exists_of_forall₂ hws.flip w hw
    exact ih vs hvs u hu (h.element hvs hu) w hcopy
  | @dict n k x v _ ih =>
    intro h c hc
    refine .dict (hP.copy h.here hc) fun us hus => ?_
    obtain ⟨ps, qs, es, hps, hqs, hfold, rfl⟩ := copy_dict_eq_ok.mp hc
    have hentries : ∀ q ∈ qs, ∃ a b, q = .entry a b ∧
        ((∃ u, P (.entry k x) u) ∧ Everywhere P k a) ∧ Everywhere P x b := by
      intro q hq
      obtain ⟨p, hp, hcopy⟩ := exists_of_forall₂ hqs.flip q hq
      have hall := ih ps hps p hp (h.pair hps hp) q hcopy
      obtain ⟨_, _, a, b, -, -, -, rfl⟩ := copy_entry_eq_ok.mp hcopy
      exact ⟨a, b, rfl, ⟨⟨_, hall.here⟩, hall.key rfl⟩, hall.value rfl⟩
    have hall := Value.forall_foldlM_addEntry hentries (by simp) hfold
    cases hus
    intro q hq
    obtain ⟨e, he, rfl⟩ := List.mem_map.mp hq
    obtain ⟨⟨⟨u, hu⟩, hkey⟩, hvalue⟩ := hall e he
    refine .entry (hP.pair hu) fun a b hab => ?_
    cases hab
    exact ⟨hkey, hvalue⟩
  | @entry n k x v _ _ ihk ihx =>
    intro h c hc
    refine .entry (hP.copy h.here hc) fun a' b' hab' => ?_
    obtain ⟨a, b, a'', b'', hab, ha, hb, rfl⟩ := copy_entry_eq_ok.mp hc
    cases hab'
    exact ⟨ihk a b hab (h.key hab) a' ha, ihx a b hab (h.value hab) b' hb⟩
  | @struct n fs v _ ih =>
    intro h c hc
    refine .struct (hP.copy h.here hc) fun us hus => ?_
    obtain ⟨vs, ws, hvs, hws, rfl⟩ := copy_struct_eq_ok.mp hc
    cases hus
    exact (forall_zip_of_forall₂ (fun q hq => ih vs hvs q hq (h.field hvs hq)) hws).2
  | @tuple n fs v _ ih =>
    intro h c hc
    refine .tuple (hP.copy h.here hc) fun us hus => ?_
    obtain ⟨vs, ws, hvs, hws, rfl⟩ := copy_tuple_eq_ok.mp hc
    cases hus
    exact (forall_zip_of_forall₂ (fun q hq => ih vs hvs q hq (h.part hvs hq)) hws).2

/-- A row of as many values as there are types is copied to one of as many. -/
theorem fits_row {fs : List WireType} {vs ws : List Value}
    {R : WireType × Value → Value → Prop} (h : v.fields?.any (·.length == fs.length) = true)
    (hvs : v.elements? = some vs) (hws : List.Forall₂ R (fs.zip vs) ws) :
    (Value.tuple ws).fields?.any (·.length == fs.length) = true := by
  obtain ⟨us, hus, hlen⟩ := (Option.any_eq_true _ _).mp h
  obtain rfl := Option.some.inj (hvs.symm.trans (Value.eq_of_fields? hus))
  have hws := hws.length_eq
  rw [List.length_zip, beq_iff_eq.mp hlen, Nat.min_self] at hws
  exact beq_iff_eq.mpr hws.symm

theorem survives_fitsHere : Survives fun t v => fitsHere t v = true where
  copy {t v c} h hc := by
    cases t with
    | basic b =>
      cases canonical_of_copy hc with
      | basic hholds =>
        rw [fitsHere, hholds.convert]
        rfl
    | variant => cases canonical_of_copy hc <;> rfl
    | array e =>
      obtain ⟨_, _, -, -, rfl⟩ := copy_array_eq_ok.mp hc
      rfl
    | dict k x =>
      obtain ⟨_, _, _, -, -, -, rfl⟩ := copy_dict_eq_ok.mp hc
      rfl
    | entry k x =>
      obtain ⟨_, _, _, _, -, -, -, rfl⟩ := copy_entry_eq_ok.mp hc
      rfl
    | struct fs =>
      obtain ⟨vs, ws, hvs, hws, rfl⟩ := copy_struct_eq_ok.mp hc
      exact fits_row h hvs hws
    | tuple fs =>
      obtain ⟨vs, ws, hvs, hws, rfl⟩ := copy_tuple_eq_ok.mp hc
      exact fits_row h hvs hws
  pair _ := rfl

theorem survives_openableHere : Survives openableHere where
  copy {t v c} h hc := by
    cases t with
    | variant =>
      intro m p t hb
      obtain ⟨m', q, hboxed, -⟩ := exists_held_of_copy hc hb
      exact h m' q t hboxed
    | _ => exact h
  pair h := h

theorem survives_filledHere : Survives filledHere where
  copy {t v c} h hc := by
    cases t with
    | variant =>
      intro m p hb
      obtain ⟨m', q, hboxed, -⟩ := exists_held_of_copy hc hb
      exact h m' q hboxed
    | _ => trivial
  pair _ := trivial

theorem takenHere_of_fitsHere (h : fitsHere t v = true) : takenHere t v = true := by
  cases t with
  | basic b => exact h
  | variant => exact h
  | array e | dict k x =>
    obtain ⟨vs, hvs⟩ := Option.isSome_iff_exists.mp h
    exact Option.isSome_iff_exists.mpr ⟨vs, Value.eq_of_collection? hvs⟩
  | entry k x =>
    obtain ⟨⟨a, b⟩, hab⟩ := Option.isSome_iff_exists.mp h
    rw [takenHere, Value.eq_of_entryParts? hab]
    rfl
  | struct fs | tuple fs =>
    obtain ⟨vs, hvs, -⟩ := (Option.any_eq_true _ _).mp h
    exact Option.isSome_iff_exists.mpr ⟨vs, Value.eq_of_fields? hvs⟩

/-- What fits can be taken apart. -/
theorem FitsAll.taken (h : FitsAll t v) : Taken t v := fun s w hw =>
  takenHere_of_fitsHere (h s w hw)

/-- **What fits still fits when it has been copied.** -/
theorem FitsAll.copy (h : FitsAll t v) (hc : t.copy v = .ok c) : FitsAll t c :=
  Everywhere.copy survives_fitsHere (within_depth t v) h c hc

theorem Openable.copy (h : Openable t v) (hc : t.copy v = .ok c) : Openable t c :=
  Everywhere.copy survives_openableHere (within_depth t v) h c hc

theorem Filled.copy (h : Filled t v) (hc : t.copy v = .ok c) : Filled t c :=
  Everywhere.copy survives_filledHere (within_depth t v) h c hc

end WireType

end TypedBus
