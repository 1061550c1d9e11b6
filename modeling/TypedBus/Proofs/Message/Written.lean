import TypedBus.Proofs.Message.Places
import TypedBus.Proofs.Message.ReadExact
import TypedBus.Proofs.Message.WriteCalls

/-!
# What writing puts into a stream

A value that has been written as one of a type is there to be read: the items that it adds are read
as its copy (`written_encode`), provided that the registry has the type of every variant that
is written, in the entries of dicts that are set again as well (`WireType.Known`). The entries of a
dict are all written, and the copy is what is left of them when they are set in turn; reading sets
them in turn as well.
-/

namespace TypedBus

open Message WireType

/-! ## The variants that are written -/

/-- The variant is written where the value is written as one of the type. -/
inductive WireType.Boxes : WireType → Value → Value → Prop
  | here {v b : Value} (h : boxed v = .ok b) : Boxes .variant v b
  | inside {m : Mark} {t : WireType} {v p b : Value}
      (h : boxed v = .ok (.variant m p (some t))) (hb : Boxes t p b) : Boxes .variant v b
  | array {e : WireType} {v u b : Value} {vs : List Value} (hvs : v.elements? = some vs)
      (hu : u ∈ vs) (hb : Boxes e u b) : Boxes (.array e) v b
  | dict {k x : WireType} {v p b : Value} {ps : List Value} (hps : v.pairs? = some ps)
      (hp : p ∈ ps) (hb : Boxes (.entry k x) p b) : Boxes (.dict k x) v b
  | key {k x : WireType} {v a c b : Value} (hv : v.elements? = some [a, c]) (hb : Boxes k a b) :
      Boxes (.entry k x) v b
  | value {k x : WireType} {v a c b : Value} (hv : v.elements? = some [a, c]) (hb : Boxes x c b) :
      Boxes (.entry k x) v b
  | struct {f : WireType} {fs : List WireType} {v u b : Value} {vs : List Value}
      (hvs : v.elements? = some vs) (hu : (f, u) ∈ fs.zip vs) (hb : Boxes f u b) :
      Boxes (.struct fs) v b
  | tuple {f : WireType} {fs : List WireType} {v u b : Value} {vs : List Value}
      (hvs : v.elements? = some vs) (hu : (f, u) ∈ fs.zip vs) (hb : Boxes f u b) :
      Boxes (.tuple fs) v b

/-- Every variant that is written holds something, and the registry has the type of that for its
signature. -/
def WireType.Known (ρ : Registry) (t : WireType) (v : Value) : Prop :=
  ∀ b, Boxes t v b → ∃ m p u, b = .variant m p (some u) ∧ ρ.lookup? u.signature = some u

/-! ## What has been written -/

namespace Message

variable {ρ : Registry} {m m' m₁ m₂ : Message} {ts us : List WireType} {ws xs : List Value}

/-- Between two states of a message, items have been added that are read as these values of these
types. -/
structure Wrote (ρ : Registry) (ts : List WireType) (ws : List Value) (m m' : Message) : Prop where
  writable : m'.Writable
  depth : m'.frames.length = m.frames.length
  descriptors : m.stream.descriptors <+: m'.stream.descriptors
  items : ∃ seg, m'.stream.items = m.stream.items ++ seg ∧
    Reads ρ m'.stream.descriptors ts seg ws

theorem Wrote.nil (hm : m.Writable) : Wrote ρ [] [] m m :=
  ⟨hm, rfl, List.prefix_rfl, [], (List.append_nil _).symm, .nil⟩

theorem Wrote.append (h : Wrote ρ ts ws m m₁) (h' : Wrote ρ us xs m₁ m₂) :
    Wrote ρ (ts ++ us) (ws ++ xs) m m₂ := by
  obtain ⟨seg, hseg, hread⟩ := h.items
  obtain ⟨seg', hseg', hread'⟩ := h'.items
  refine ⟨h'.writable, h'.depth.trans h.depth, h.descriptors.trans h'.descriptors, seg ++ seg', ?_,
    (hread.mono h'.descriptors).append hread'⟩
  rw [hseg', hseg, List.append_assoc]

theorem Wrote.cons {t : WireType} {w : Value} (h : Wrote ρ [t] [w] m m₁)
    (h' : Wrote ρ ts ws m₁ m₂) : Wrote ρ (t :: ts) (w :: ws) m m₂ :=
  h.append h'

theorem length_of_begins {s : Text} {fs fs' : List Frame} (h : Frame.Begins s fs fs') :
    fs'.length = fs.length := by
  cases h <;> rfl

/-- What is written between two markers has been written in brackets. -/
theorem wrote_bracket {c : Container} {body : Action Unit} {P : List Value → Prop}
    (hm : m.Writable)
    (h : (do openContainer c; body; closeContainer).run m = (.ok (), m'))
    (hbody : ∀ {m₀ m₁ : Message}, m₀.Writable → body.run m₀ = (.ok (), m₁) →
      ∃ ws, P ws ∧ Wrote ρ ts ws m₀ m₁) :
    ∃ ws, P ws ∧ ∀ {t w}, (∀ {ds inside}, Reads ρ ds ts inside ws →
      Reads ρ ds [t] (.opening c :: (inside ++ [.closing])) [w]) → Wrote ρ [t] [w] m m' := by
  obtain ⟨_, m₀, hopen, h⟩ := Action.run_bind_eq_ok.mp h
  obtain ⟨_, m₁, hrun, hclose⟩ := Action.run_bind_eq_ok.mp h
  obtain ⟨fs, hstep, rfl⟩ := (run_openContainer_eq_ok hm).mp hopen
  obtain ⟨ws, hP, hwrote⟩ := hbody (hm.add _ _) hrun
  obtain ⟨fs', hstep', rfl⟩ := (run_closeContainer_eq_ok hwrote.writable).mp hclose
  refine ⟨ws, hP, fun hread => ?_⟩
  obtain ⟨seg, hseg, hinside⟩ := hwrote.items
  refine ⟨hwrote.writable.add _ _, ?_, hwrote.descriptors, _, ?_, hread hinside⟩
  · obtain ⟨-, fs₁, fields, hb, -, rfl⟩ := Item.step_opening_iff.mp hstep
    obtain ⟨f, hframes, -⟩ := Item.step_closing_iff.mp hstep'
    have hdepth := hwrote.depth
    rw [hframes] at hdepth
    simp only [add_frames, List.length_cons, length_of_begins hb] at hdepth ⊢
    omega
  · rw [add_items, hseg, add_items]
    simp

end Message

/-! ## Basic values -/

/-- What a message carries for a value is accepted as that value. -/
theorem BasicType.Holds.accepts_carry {b : BasicType} {x : Value} (h : b.Holds x) (m : Message) :
    b.Accepts (m.carry x).2.stream.descriptors (m.carry x).1 x := by
  by_cases hb : b = .handle
  · subst hb
    cases h with
    | @handle n =>
      refine .handle (d := .integer n) rfl (Int.natCast_nonneg _) ?_ rfl
      simp [carry, Stream.addDescriptor]
  · have hconv := h.convert_carried hb
    cases h with
    | handle => exact absurd rfl hb
    | _ => exact .plain hb hconv

namespace WireType

variable {ρ : Registry} {box : Value → Action Unit} {e k x t : WireType} {fs : List WireType}
  {v w b : Value} {vs : List Value} {m m' : Message}

/-- A value that is written as one of the type is there to be read as its copy. -/
def Written (ρ : Registry) (box : Value → Action Unit) (t : WireType) : Prop :=
  ∀ ⦃v : Value⦄ ⦃m m' : Message⦄, Known ρ t v → m.Writable →
    (encodeWith box t v).run m = (.ok (), m') →
      ∃ w, t.copy v = .ok w ∧ Wrote ρ [t] [w] m m'

theorem written_basic (b : BasicType) : Written ρ box (.basic b) := by
  intro v m m' _ hm h
  rw [encodeWith] at h
  obtain ⟨x, fs, hx, hstep, rfl⟩ := (run_encode_basic_eq_ok hm).mp h
  have hholds := BasicType.holds_of_convert hx
  refine ⟨x, by rw [copy_eq, copyWith, hx], (hm.carry x).add _ _, ?_, ?_, _, ?_,
    .basic (hholds.accepts_carry m) .nil⟩
  · rw [add_frames, length_of_begins (Item.step_basic_iff.mp hstep)]
  · rw [add_descriptors]
    cases x <;> simp [carry, Stream.addDescriptor]
  · rw [add_items, carry_items]

/-! ## Rows of values -/

theorem written_row : ∀ {fs : List WireType} {vs : List Value} {m m' : Message},
    (∀ f ∈ fs, Written ρ box f) → vs.length = fs.length →
    (∀ f v, (f, v) ∈ fs.zip vs → Known ρ f v) → m.Writable →
    (encodeFields box fs vs).run m = (.ok (), m') →
      ∃ ws, List.Forall₂ (fun p w => p.1.copy p.2 = .ok w) (fs.zip vs) ws ∧ Wrote ρ fs ws m m'
  | [], [], m, m', _, _, _, hm, h => by
    rw [encodeFields] at h
    cases h
    exact ⟨[], .nil, .nil hm⟩
  | [], _ :: _, _, _, _, hlen, _, _, _ => nomatch hlen
  | _ :: _, [], _, _, _, hlen, _, _, _ => nomatch hlen
  | f :: fs, v :: vs, m, m', hfs, hlen, hknown, hm, h => by
    obtain ⟨hf, hfs⟩ := List.forall_mem_cons.mp hfs
    rw [encodeFields] at h
    obtain ⟨_, m₁, hv, h⟩ := Action.run_bind_eq_ok.mp h
    rw [List.zip_cons_cons] at hknown ⊢
    obtain ⟨w, hw, hwrote⟩ := hf (hknown f v List.mem_cons_self) hm hv
    obtain ⟨ws, hws, hwrotes⟩ := written_row hfs (Nat.succ.inj hlen)
      (fun f v hmem => hknown f v (List.mem_cons_of_mem _ hmem)) hwrote.writable h
    exact ⟨w :: ws, .cons hw hws, hwrote.cons hwrotes⟩

/-- The elements of an array are written as a row of copies. -/
theorem written_elements (he : Written ρ box e) (hknown : ∀ v ∈ vs, Known ρ e v)
    (hm : m.Writable) (h : (vs.forM (encodeWith box e)).run m = (.ok (), m')) :
    ∃ ws, List.Forall₂ (fun v w => e.copy v = .ok w) vs ws ∧
      Wrote ρ (List.replicate vs.length e) ws m m' := by
  have hzip : ∀ vs : List Value,
      (List.replicate vs.length e).zip vs = vs.map fun v => (e, v) := fun vs => by
    induction vs with
    | nil => rfl
    | cons v vs ih =>
      rw [List.length_cons, List.replicate_succ, List.zip_cons_cons, ih, List.map_cons]
  have hknown' : ∀ f v, (f, v) ∈ (List.replicate vs.length e).zip vs → Known ρ f v := by
    intro f v hmem
    rw [hzip] at hmem
    obtain ⟨u, hu, ⟨⟩⟩ := List.mem_map.mp hmem
    exact hknown v hu
  rw [forM_eq_encodeFields] at h
  obtain ⟨ws, hws, hwrote⟩ := written_row (fun f hf => List.eq_of_mem_replicate hf ▸ he)
    List.length_replicate.symm hknown' hm h
  rw [hzip, List.forall₂_map_left_iff] at hws
  exact ⟨ws, hws, hwrote⟩

/-! ## Composite values -/

theorem written_array (he : Written ρ box e) : Written ρ box (.array e) := by
  intro v m m' hknown hm h
  rw [encodeWith, Action.collection_eq] at h
  obtain ⟨vs, m₀, hcollection, hrest⟩ := Action.run_bind_eq_ok.mp h
  obtain ⟨hvs, rfl⟩ := Action.run_orRefuse_eq_ok.mp hcollection
  have hvs := Value.eq_of_collection? hvs
  obtain ⟨ws, hws, hwrote⟩ := wrote_bracket hm hrest fun hm₀ hrun =>
    written_elements he (fun u hu b hb => hknown b (.array hvs hu hb)) hm₀ hrun
  refine ⟨.list none ws, ?_, hwrote fun hread => .array hread .nil⟩
  simp only [copy_eq] at hws ⊢
  exact copyWith_array_eq_ok.mpr ⟨vs, ws, hvs, hws, rfl⟩

theorem written_entry (hk : Written ρ box k) (hx : Written ρ box x) :
    Written ρ box (.entry k x) := by
  intro v m m' hknown hm h
  rw [encodeWith, Action.entryParts_eq] at h
  obtain ⟨⟨a, c⟩, m₀, hparts, hrest⟩ := Action.run_bind_eq_ok.mp h
  obtain ⟨hac, rfl⟩ := Action.run_orRefuse_eq_ok.mp hparts
  have hac := Value.eq_of_entryParts? hac
  have hbracket : (do
      openContainer (entryOf k x)
      (do encodeWith box k a; encodeWith box x c)
      closeContainer).run m₀ = (.ok (), m') := by
    rwa [bind_assoc]
  have hbody : ∀ {m₁ m₂ : Message}, m₁.Writable →
      (do encodeWith box k a; encodeWith box x c).run m₁ = (.ok (), m₂) →
      ∃ ws, (∃ a' c', ws = [a', c'] ∧ k.copy a = .ok a' ∧ x.copy c = .ok c') ∧
        Wrote ρ [k, x] ws m₁ m₂ := by
    intro m₁ m₂ hm₁ hrun
    obtain ⟨_, m₃, hruna, hrunc⟩ := Action.run_bind_eq_ok.mp hrun
    obtain ⟨a', ha, hwrotea⟩ := hk (fun b hb => hknown b (.key hac hb)) hm₁ hruna
    obtain ⟨c', hc, hwrotec⟩ := hx (fun b hb => hknown b (.value hac hb)) hwrotea.writable hrunc
    exact ⟨[a', c'], ⟨a', c', rfl, ha, hc⟩, hwrotea.cons hwrotec⟩
  obtain ⟨ws, ⟨a', c', rfl, ha, hc⟩, hwrote⟩ := wrote_bracket hm hbracket hbody
  refine ⟨.entry a' c', ?_, hwrote fun hread => .entry hread .nil⟩
  simp only [copy_eq] at ha hc ⊢
  exact copyWith_entry_eq_ok.mpr ⟨a, c, a', c', hac, ha, hc, rfl⟩

theorem written_dict {b : BasicType} (hentry : Written ρ box (.entry (.basic b) x)) :
    Written ρ box (.dict (.basic b) x) := by
  intro v m m' hknown hm h
  rw [encodeWith_dict, Action.collection_eq] at h
  obtain ⟨ps, m₀, hcollection, hrest⟩ := Action.run_bind_eq_ok.mp h
  obtain ⟨hps, rfl⟩ := Action.run_orRefuse_eq_ok.mp hcollection
  have hps := Value.eq_of_collection? hps
  obtain ⟨qs, hqs, hwrote⟩ := wrote_bracket hm hrest fun hm₀ hrun =>
    written_elements hentry (fun p hp b hb => hknown b (.dict hps hp hb)) hm₀ hrun
  simp only [copy_eq] at hqs
  -- the keys are of a basic type, so that each of them can be set
  have hkeys : ∀ q ∈ qs, ∃ a c, q = .entry a c ∧ a.unhashable? = none := by
    refine forall_of_forall₂ (fun p q hq => ?_) hqs
    obtain ⟨a, c, a', c', -, ha, -, rfl⟩ := copyWith_entry_eq_ok.mp hq
    rw [copyWith] at ha
    exact ⟨a', c', rfl, (BasicType.holds_of_convert ha).hashable⟩
  obtain ⟨es, hes⟩ := Value.exists_addEntries hkeys []
  refine ⟨.dict es, ?_, hwrote fun hread => .dict hread hes .nil⟩
  rw [copy_eq]
  exact copyWith_dict_eq_ok.mpr ⟨ps, qs, es, hps, hqs, hes, rfl⟩

theorem written_struct (hfs : ∀ f ∈ fs, Written ρ box f) : Written ρ box (.struct fs) := by
  intro v m m' hknown hm h
  rw [encodeWith, Action.fields_eq] at h
  obtain ⟨vs, m₀, hfields, hrest⟩ := Action.run_bind_eq_ok.mp h
  obtain ⟨hvs, rfl⟩ := Action.run_orRefuse_eq_ok.mp hfields
  have hvs := Value.eq_of_fields? hvs
  split at hrest
  · rw [Action.run_bind_of_error (Action.run_fail _ _)] at hrest
    cases hrest
  · rename_i hlen
    obtain ⟨ws, hws, hwrote⟩ := wrote_bracket hm hrest fun hm₀ hrun =>
      written_row hfs (not_not.mp hlen) (fun f u hu b hb => hknown b (.struct hvs hu hb)) hm₀ hrun
    refine ⟨.tuple ws, ?_, hwrote fun hread => .struct hread .nil⟩
    simp only [copy_eq] at hws ⊢
    exact copyWith_struct_eq_ok.mpr ⟨vs, ws, hvs, hws, rfl⟩

theorem written_tuple (hfs : ∀ f ∈ fs, Written ρ box f) : Written ρ box (.tuple fs) := by
  intro v m m' hknown hm h
  rw [encodeWith, Action.fields_eq] at h
  obtain ⟨vs, m₀, hfields, hrest⟩ := Action.run_bind_eq_ok.mp h
  obtain ⟨hvs, rfl⟩ := Action.run_orRefuse_eq_ok.mp hfields
  have hvs := Value.eq_of_fields? hvs
  split at hrest
  · rw [Action.run_bind_of_error (Action.run_fail _ _)] at hrest
    cases hrest
  · rename_i hlen
    obtain ⟨ws, hws, hwrote⟩ := written_row hfs (not_not.mp hlen)
      (fun f u hu b hb => hknown b (.tuple hvs hu hb)) hm hrest
    obtain ⟨seg, hseg, hread⟩ := hwrote.items
    refine ⟨.tuple ws, ?_, hwrote.writable, hwrote.depth, hwrote.descriptors, seg, hseg, ?_⟩
    · simp only [copy_eq] at hws ⊢
      exact copyWith_tuple_eq_ok.mpr ⟨vs, ws, hvs, hws, rfl⟩
    · simpa using Reads.tuple hread .nil

/-! ## Variants -/

mutual

/-- **What is written is there to be read as its copy**, if that is so for variants. -/
theorem written_of_variant (hbox : Written ρ box .variant) :
    ∀ t : WireType, t.IsElement → Written ρ box t
  | .basic b, _ => written_basic b
  | .variant, _ => hbox
  | .array e, h => written_array (written_of_variant hbox e h.ofArray)
  | .dict k x, h => by
    obtain ⟨⟨b, rfl⟩, hx, -⟩ := h.ofDict.ofEntry
    exact written_dict (written_entry (written_basic b)
      (written_of_variant hbox x (.reduced hx)))
  | .entry k x, h => by
    obtain ⟨⟨b, rfl⟩, hx, -⟩ := h.ofEntry
    exact written_entry (written_basic b) (written_of_variant hbox x (.reduced hx))
  | .struct fs, h => written_struct (written_of_variantAll hbox fs fun f hf =>
      .reduced (h.ofStruct.1 f hf))
  | .tuple fs, h => absurd h fun h => h.not_tuple

theorem written_of_variantAll (hbox : Written ρ box .variant) :
    ∀ fs : List WireType, (∀ f ∈ fs, f.IsElement) → ∀ f ∈ fs, Written ρ box f
  | [], _ => fun _ hf => nomatch hf
  | f :: fs, h => by
    obtain ⟨hf, hfs⟩ := List.forall_mem_cons.mp h
    have h₁ := written_of_variant hbox f hf
    have h₂ := written_of_variantAll hbox fs hfs
    exact List.forall_mem_cons.mpr ⟨h₁, h₂⟩

end

theorem written_writingBoxed (hρ : ρ.Filled) : ∀ n, Written ρ (writingBoxed n) .variant
  | 0 => by
    intro v m m' _ _ h
    rw [encodeWith] at h
    cases h
  | n + 1 => by
    intro v m m' hknown hm h
    rw [encodeWith, writingBoxed, encodeBoxed] at h
    obtain ⟨b, m₀, hlift, hrest⟩ := Action.run_bind_eq_ok.mp h
    obtain ⟨hb, rfl⟩ := Action.run_lift_eq_ok.mp hlift
    obtain ⟨mark, p, t, rfl, hl⟩ := hknown b (.here hb)
    have ht := written_of_variant (written_writingBoxed hρ n) t (.reduced (hρ.lookup hl).2)
    simp only [encodeWithin_eq] at hrest
    have hbody : ∀ {m₁ m₂ : Message}, m₁.Writable →
        (encodeWith (writingBoxed n) t p).run m₁ = (.ok (), m₂) →
        ∃ ws, (∃ w, ws = [w] ∧ t.copy p = .ok w) ∧ Wrote ρ [t] ws m₁ m₂ := by
      intro m₁ m₂ hm₁ hrun
      obtain ⟨w, hw, hwrote⟩ := ht (fun b hb' => hknown b (.inside hb hb')) hm₁ hrun
      exact ⟨[w], ⟨w, rfl, hw⟩, hwrote⟩
    obtain ⟨ws, ⟨w, rfl, hw⟩, hwrote⟩ := wrote_bracket hm hrest hbody
    have hcopy := copy_variant_eq_ok.mpr (.inr ⟨_, _, _, _, hb, hw, rfl⟩)
    exact ⟨_, hcopy, hwrote fun hread => .variant hl hread .nil⟩

/-- A type that values can be read back as: a reduced one, or a row of these. -/
inductive IsReadable : WireType → Prop
  | reduced {t : WireType} (h : t.isReduced = true) : IsReadable t
  | row {fs : List WireType} (h : ∀ f ∈ fs, f.isReduced = true) : IsReadable (.tuple fs)

/-- **What is written is there to be read as its copy.** -/
theorem written_encode (hρ : ρ.Filled) (ht : t.IsReadable) (hknown : Known ρ t v)
    (hm : m.Writable) (h : (t.encode v).run m = (.ok (), m')) :
    ∃ w, t.copy v = .ok w ∧ Wrote ρ [t] [w] m m' := by
  rw [encode, Action.run_ifValid hm.valid, encodeWithin_eq] at h
  have hbox : Written ρ (writingBoxed v.depth) .variant := written_writingBoxed hρ _
  cases ht with
  | reduced ht => exact written_of_variant hbox t (.reduced ht) hknown hm h
  | row hfs =>
    exact written_tuple (written_of_variantAll hbox _ fun f hf => .reduced (hfs f hf)) hknown hm h

end WireType

end TypedBus
