import TypedBus.Message.Calls
import TypedBus.Proofs.Message.Decode
import TypedBus.Proofs.Stream.Grammar
import TypedBus.Proofs.Value.Convert

/-!
# Reading succeeds on complete values

A value of a reduced type is read exactly when the items at the cursor begin with a complete value
of its signature, in the grammar `Item.Spells`, whose basic values are accepted and whose variants
hold what the registry knows (`read_exact`). For that, the grammar is compared with `Reads`, which
goes by types and gives the value: both have the same items (`Reads.spells`, `Item.Spells.reads`).
-/

namespace TypedBus

open Message WireType

/-- What a reader takes: basic values that are accepted by the table of their code, and variants
whose content has a type in the registry. -/
def Item.Rules.read (ρ : Registry) (ds : List Value) : Item.Rules where
  basic code v := ∃ b : BasicType, code = [b.code] ∧ ∃ w, b.Accepts ds v w
  container c := c.kind = .variant → ρ.contains c.content = true

/-! ## Signatures tell types apart -/

namespace WireType

variable {t : WireType} {content : Text}

theorem code_ne_of_mem {p : CodePoint} (b : BasicType)
    (hp : p ∈ [CodePoint.scalar 'v', .scalar 'a', .scalar '(', .scalar '{']) : b.code ≠ p := by
  rcases b with ⟨_ | _⟩ | _ <;> revert p <;> decide

theorem eq_basic_of_signature {b : BasicType} (h : t.IsElement)
    (hsig : [b.code] = t.signature) : t = .basic b := by
  have hv : b.code ≠ .scalar 'v' := code_ne_of_mem b (by simp)
  have ha : b.code ≠ .scalar 'a' := code_ne_of_mem b (by simp)
  cases t with
  | basic b' =>
    have : BasicType.ofCode? b.code = BasicType.ofCode? b'.code := by
      rw [(List.cons.inj hsig).1]
    simpa using this.symm
  | tuple => exact absurd h fun h => h.not_tuple
  | variant => simp [signature, hv] at hsig
  | array | dict => simp [signature, ha] at hsig
  | entry | struct => simp [signature] at hsig

theorem eq_variant_of_signature (h : t.IsElement) (hsig : [.scalar 'v'] = t.signature) :
    t = .variant := by
  cases t with
  | variant => rfl
  | basic b =>
    exact absurd (List.cons.inj hsig).1.symm (code_ne_of_mem b (by simp))
  | tuple => exact absurd h fun h => h.not_tuple
  | array | dict | entry | struct => simp [signature] at hsig

/-- The type of an array is told by its signature but for the spelling of dicts. -/
theorem eq_array_of_signature (h : t.IsElement) (hsig : .scalar 'a' :: content = t.signature) :
    (∃ e, t = .array e ∧ content = e.signature) ∨
      ∃ k x, t = .dict k x ∧ content = (WireType.entry k x).signature := by
  cases t with
  | array e => exact .inl ⟨e, rfl, (List.cons.inj hsig).2⟩
  | dict k x => exact .inr ⟨k, x, rfl, (List.cons.inj hsig).2⟩
  | basic b =>
    exact absurd (List.cons.inj hsig).1.symm (code_ne_of_mem b (by simp))
  | tuple => exact absurd h fun h => h.not_tuple
  | variant | entry | struct => simp [signature] at hsig

theorem eq_struct_of_signature (h : t.IsElement)
    (hsig : .scalar '(' :: (content ++ [.scalar ')']) = t.signature) :
    ∃ fs, t = .struct fs ∧ content = signatures fs := by
  cases t with
  | struct fs =>
    simp only [signature, List.cons.injEq, true_and, List.append_cancel_right_eq] at hsig
    exact ⟨fs, rfl, hsig⟩
  | basic b =>
    exact absurd (List.cons.inj hsig).1.symm (code_ne_of_mem b (by simp))
  | tuple => exact absurd h fun h => h.not_tuple
  | variant | array | dict | entry => simp [signature] at hsig

theorem eq_entry_of_signature (h : t.IsElement)
    (hsig : .scalar '{' :: (content ++ [.scalar '}']) = t.signature) :
    ∃ k x, t = .entry k x ∧ content = k.signature ++ x.signature := by
  cases t with
  | entry k x =>
    simp only [signature, List.cons.injEq, true_and, List.append_cancel_right_eq] at hsig
    exact ⟨k, x, rfl, hsig⟩
  | basic b =>
    exact absurd (List.cons.inj hsig).1.symm (code_ne_of_mem b (by simp))
  | tuple => exact absurd h fun h => h.not_tuple
  | variant | array | dict | struct => simp [signature] at hsig

end WireType

/-! ## The entries of dicts -/

theorem BasicType.Accepts.holds {ds : List Value} {b : BasicType} {v w : Value}
    (h : b.Accepts ds v w) : b.Holds w := by
  cases h with
  | plain _ h => exact BasicType.holds_of_convert h
  | handle => exact .handle

variable {ρ : Registry} {ds : List Value}

/-- What dict entries are read as are entries with keys of the type of keys. -/
theorem Reads.entries {b : BasicType} {x : WireType} :
    ∀ {n : Nat} {items : List Item} {vs : List Value},
      Reads ρ ds (List.replicate n (.entry (.basic b) x)) items vs →
      ∀ v ∈ vs, ∃ a y, v = .entry a y ∧ b.Holds a
  | 0, _, _, h => by
    cases h
    exact nofun
  | n + 1, _, _, h => by
    rw [List.replicate_succ] at h
    cases h with
    | entry hin hs =>
      cases hin with
      | basic hacc _ =>
        exact List.forall_mem_cons.mpr ⟨⟨_, _, rfl, hacc.holds⟩, hs.entries⟩

/-! ## The two grammars -/

/-- What is read as values of a row of types is a row of complete values of their signatures. -/
theorem Reads.spells (hρ : ρ.Filled) {ts : List WireType} {items : List Item} {ws : List Value}
    (h : Reads ρ ds ts items ws) :
    ∀ {parent}, (∀ t ∈ ts, t.IsElement) →
      (parent = some .array ∨ ∀ t ∈ ts, t.isReduced = true) →
      Item.Spells (.read ρ ds) parent (ts.map signature) items := by
  induction h with
  | nil => exact fun _ _ => .nil
  | basic h _ ih =>
    intro parent hts hp
    have hmore := ih (List.forall_mem_cons.mp hts).2
      (hp.imp_right fun h => (List.forall_mem_cons.mp h).2)
    exact .basic ⟨_, rfl, _, h⟩ hmore
  | @variant t ts w inside items ws hl _ _ ihin ih =>
    intro parent hts hp
    have ht := (hρ.lookup hl).2
    have hinside : Item.Spells (.read ρ ds) (some .variant) [t.signature] inside :=
      ihin (by simpa using IsElement.reduced ht) (.inr (by simpa using ht))
    have hmore := ih (List.forall_mem_cons.mp hts).2
      (hp.imp_right fun h => (List.forall_mem_cons.mp h).2)
    refine .container (c := variantOf t) (fun _ => ?_) (fun h => by cases h) rfl hinside hmore
    simp [Registry.contains, variantOf, hl]
  | @array e ts n inside items vs ws _ _ ihin ih =>
    intro parent hts hp
    have he := (List.forall_mem_cons.mp hts).1.ofArray
    have hinside := ihin (fun u hu => (List.eq_of_mem_replicate hu) ▸ he) (.inl rfl)
    rw [List.map_replicate] at hinside
    have hmore := ih (List.forall_mem_cons.mp hts).2
      (hp.imp_right fun h => (List.forall_mem_cons.mp h).2)
    exact .container (c := arrayOf e) (fun h => by cases h) (fun h => by cases h) ⟨n, rfl⟩
      hinside hmore
  | @dict k x ts n inside items vs ws es _ _ _ ihin ih =>
    intro parent hts hp
    have he := (List.forall_mem_cons.mp hts).1.ofDict
    have hinside := ihin (fun u hu => (List.eq_of_mem_replicate hu) ▸ he) (.inl rfl)
    rw [List.map_replicate] at hinside
    have hmore := ih (List.forall_mem_cons.mp hts).2
      (hp.imp_right fun h => (List.forall_mem_cons.mp h).2)
    exact .container (c := arrayOf (.entry k x)) (fun h => by cases h) (fun h => by cases h)
      ⟨n, rfl⟩ hinside hmore
  | @entry k x ts inside items a b ws _ _ ihin ih =>
    intro parent hts hp
    obtain ⟨⟨key, rfl⟩, hx, hf⟩ := (List.forall_mem_cons.mp hts).1.ofEntry
    have hreduced : ∀ t ∈ [.basic key, x], t.isReduced = true := by
      simpa using ⟨isReduced_basic key, hx⟩
    have hinside : Item.Spells (.read ρ ds) (some .dictEntry) ([.basic key, x].map signature)
        inside :=
      ihin (fun t ht => .reduced (hreduced t ht)) (.inr hreduced)
    have hmore := ih (List.forall_mem_cons.mp hts).2
      (hp.imp_right fun h => (List.forall_mem_cons.mp h).2)
    -- an entry is no reduced type, so that it stands in an array
    have hparent : parent = some .array := hp.resolve_right fun h => by
      cases (isReduced_iff.mp (h _ List.mem_cons_self)).2
    exact .container (c := entryOf (.basic key) x) (fun h => by cases h) (fun _ => hparent) hf
      hinside hmore
  | @struct fs ts inside items vs ws _ _ ihin ih =>
    intro parent hts hp
    obtain ⟨hfs, hf⟩ := (List.forall_mem_cons.mp hts).1.ofStruct
    have hinside : Item.Spells (.read ρ ds) (some .struct) (fs.map signature) inside :=
      ihin (fun t ht => .reduced (hfs t ht)) (.inr hfs)
    have hmore := ih (List.forall_mem_cons.mp hts).2
      (hp.imp_right fun h => (List.forall_mem_cons.mp h).2)
    exact .container (c := structOf fs) (fun h => by cases h) (fun h => by cases h) hf hinside hmore
  | tuple =>
    intro parent hts
    exact absurd (hts _ List.mem_cons_self) fun h => h.not_tuple

/-- A row of complete values with the signatures of a row of types is read as values of these. -/
theorem Item.Spells.reads (hρ : ρ.Filled) {parent : Option Kind} {ss : List Text}
    {items : List Item} (h : Item.Spells (.read ρ ds) parent ss items) :
    ∀ {ts}, ss = ts.map signature → (∀ t ∈ ts, t.IsElement) → ∃ ws, Reads ρ ds ts items ws := by
  induction h with
  | nil =>
    intro ts hss _
    rw [List.map_eq_nil_iff.mp hss.symm]
    exact ⟨[], .nil⟩
  | @basic parent code v ss items hb _ ih =>
    intro ts hss hts
    obtain ⟨t, ts, rfl, hsig, rfl⟩ := List.map_eq_cons_iff.mp hss.symm
    obtain ⟨ht, hts'⟩ := List.forall_mem_cons.mp hts
    obtain ⟨b, rfl, w, hacc⟩ := hb
    obtain rfl := eq_basic_of_signature ht hsig.symm
    obtain ⟨ws, hws⟩ := ih rfl hts'
    exact ⟨w :: ws, .basic hacc hws⟩
  | @container parent c inner ss inside items hc hp hch _ _ ihin ih =>
    intro ts hss hts
    obtain ⟨t, ts, rfl, hsig, rfl⟩ := List.map_eq_cons_iff.mp hss.symm
    obtain ⟨ht, hts⟩ := List.forall_mem_cons.mp hts
    obtain ⟨ws, hws⟩ := ih rfl hts
    obtain ⟨kind, content⟩ := c
    cases kind with
    | variant =>
      obtain rfl := eq_variant_of_signature ht hsig.symm
      obtain ⟨u, hu⟩ := Option.isSome_iff_exists.mp (hc rfl)
      obtain ⟨rfl, hred⟩ := hρ.lookup hu
      obtain rfl : [u.signature] = inner := Except.ok.inj hch
      obtain ⟨vs, hvs⟩ := @ihin [u] rfl (by simpa using IsElement.reduced hred)
      obtain ⟨w, rfl⟩ := List.length_eq_one_iff.mp hvs.length_eq
      exact ⟨_, .variant hu hvs hws⟩
    | array =>
      obtain ⟨n, rfl⟩ := hch
      obtain ⟨e, rfl, rfl⟩ | ⟨k, x, rfl, rfl⟩ := eq_array_of_signature ht hsig.symm
      · obtain ⟨vs, hvs⟩ := @ihin (List.replicate n e) (by rw [List.map_replicate])
          (fun u hu => (List.eq_of_mem_replicate hu) ▸ ht.ofArray)
        exact ⟨_, .array hvs hws⟩
      · obtain ⟨vs, hvs⟩ := @ihin (List.replicate n (.entry k x))
          (by rw [List.map_replicate]) (fun u hu => (List.eq_of_mem_replicate hu) ▸ ht.ofDict)
        obtain ⟨⟨key, rfl⟩, -, -⟩ := ht.ofDict.ofEntry
        have hentries : ∀ v ∈ vs, ∃ a y, v = .entry a y ∧ a.unhashable? = none := fun v hv =>
          let ⟨a, y, hv, ha⟩ := hvs.entries v hv
          ⟨a, y, hv, ha.hashable⟩
        obtain ⟨es, hes⟩ := Value.exists_addEntries hentries []
        exact ⟨_, .dict hvs hes hws⟩
    | struct =>
      obtain ⟨fs, rfl, rfl⟩ := eq_struct_of_signature ht hsig.symm
      obtain ⟨hfs, hf⟩ := ht.ofStruct
      obtain ⟨vs, hvs⟩ := ihin (Except.ok.inj (hch.symm.trans hf)) fun f hmem =>
        .reduced (hfs f hmem)
      exact ⟨_, .struct hvs hws⟩
    | dictEntry =>
      obtain ⟨k, x, rfl, rfl⟩ := eq_entry_of_signature ht hsig.symm
      obtain ⟨⟨key, rfl⟩, hx, hf⟩ := ht.ofEntry
      obtain ⟨vs, hvs⟩ := @ihin [.basic key, x] (Except.ok.inj (hch.symm.trans hf))
        (by simpa using ⟨IsElement.reduced (isReduced_basic key), IsElement.reduced hx⟩)
      obtain ⟨a, b, rfl⟩ := List.length_eq_two.mp hvs.length_eq
      exact ⟨_, .entry hvs hws⟩

namespace Message

/-- On a valid message, reading as what an expression names is reading as that type. -/
theorem run_read {e : TypeExpr} {t : WireType} {m : Message} (he : e.canonical = .ok t)
    (hv : m.isValid = true) : (read ρ e).run m = (t.decode ρ).run m := by
  rw [read, Action.run_ifValid hv, he, Action.run_bind_of_ok Action.run_lift_ok]

/-- **A value of a reduced type is read exactly when a complete value of its signature is next**
that a reader takes. Reading then takes just these items; what it answers is theirs, with the
elements of arrays in their order, and it answers the same on any message with the same descriptors
in which these items are next. -/
theorem read_exact (hρ : ρ.Filled) {e : TypeExpr} {t : WireType} (he : e.canonical = .ok t)
    (ht : t.isReduced = true) {m : Message} (hv : m.isValid = true)
    (hs : m.stream.isSealed = true) :
    ((∃ w m', (read ρ e).run m = (.ok w, m')) ↔
      ∃ seg tail, m.rest = seg ++ tail ∧
        Item.Spells (.read ρ m.stream.descriptors) none [t.signature] seg) ∧
    ∀ w m', (read ρ e).run m = (.ok w, m') →
      ∃ seg tail, m.rest = seg ++ tail ∧
        Item.Spells (.read ρ m.stream.descriptors) none [t.signature] seg ∧
        m' = m.skip seg.length ∧ Reads ρ m.stream.descriptors [t] seg [w] ∧
        ∀ m₁ tail₁, m₁.isValid = true → m₁.stream.isSealed = true →
          m₁.stream.descriptors = m.stream.descriptors → m₁.rest = seg ++ tail₁ →
          (read ρ e).run m₁ = (.ok w, m₁.skip seg.length) := by
  have helement : ∀ u ∈ [t], u.IsElement := by simpa using IsElement.reduced ht
  have hreduced : ∀ u ∈ [t], u.isReduced = true := by simpa using ht
  have hexact {w : Value} {m' : Message} : (t.decode ρ).run m = (.ok w, m') ↔ _ :=
    run_decode_eq_ok hρ (.reduced ht) ⟨hv, hs⟩
  rw [run_read he hv]
  refine ⟨⟨?_, ?_⟩, ?_⟩
  · rintro ⟨w, m', h⟩
    obtain ⟨seg, tail, hrest, -, hread⟩ := hexact.mp h
    exact ⟨seg, tail, hrest, hread.spells hρ helement (.inr hreduced)⟩
  · rintro ⟨seg, tail, hrest, hspells⟩
    obtain ⟨ws, hread⟩ : ∃ ws, Reads ρ m.stream.descriptors [t] seg ws :=
      hspells.reads hρ rfl helement
    obtain ⟨w, rfl⟩ := List.length_eq_one_iff.mp hread.length_eq
    exact ⟨w, _, hexact.mpr ⟨seg, tail, hrest, rfl, hread⟩⟩
  · intro w m' h
    obtain ⟨seg, tail, hrest, rfl, hread⟩ := hexact.mp h
    refine ⟨seg, tail, hrest, hread.spells hρ helement (.inr hreduced), rfl, hread, ?_⟩
    intro m₁ tail₁ hv₁ hs₁ hds hrest₁
    rw [run_read he hv₁]
    exact (run_decode_eq_ok hρ (.reduced ht) ⟨hv₁, hs₁⟩).mpr
      ⟨seg, tail₁, hrest₁, rfl, hds ▸ hread⟩

/-- A sealed message of an array of one handle. -/
def handleArray : Message where
  stream :=
    { items := [.opening (arrayOf (.basic .handle)), .basic [BasicType.handle.code] (.integer 0),
        .closing]
      descriptors := [.integer 3]
      isSealed := true }

theorem reads_handleArray :
    ∃ w m', (read .common (.wire (.array (.basic .handle)))).run handleArray = (.ok w, m') := by
  have hchildren : (arrayOf (.basic .handle)).Children [[BasicType.handle.code]] := ⟨1, rfl⟩
  have haccepts : BasicType.Accepts [.integer 3] .handle (.integer 0) (.handle 3) :=
    .handle rfl (by decide) rfl rfl
  have hinside : Item.Spells (.read .common [.integer 3]) (some .array) [[BasicType.handle.code]]
      [.basic [BasicType.handle.code] (.integer 0)] :=
    .one ⟨.handle, rfl, _, haccepts⟩
  exact (read_exact Registry.filled_common (t := .array (.basic .handle)) rfl
    (by decide +kernel) rfl rfl).1.mpr
    ⟨_, [], (List.append_nil _).symm, .bracket (by nofun) (by nofun) hchildren hinside⟩

end Message

end TypedBus
