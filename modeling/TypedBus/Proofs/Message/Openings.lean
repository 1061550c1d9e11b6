import TypedBus.Proofs.Message.Announced

/-!
# Writing as a matter of what is open

Whether a value can be written, and what is open then, is a matter of the containers that are open
before: neither the items that are there nor the descriptors play a part (`Action.Uniform`). So the
writing of a value can be told as a relation of open containers (`Action.Leads`), which a write in
several steps goes through one after the other (`leads_bind`, `leads_bracket`).

What is written leaves the outer containers as they are, and begins some values in the innermost
one: as many as its type announces, unless an empty variant is in it
(`WireType.counted_of_within`).
-/

namespace TypedBus

open Message WireType

/-! ## Brackets -/

namespace Item

variable {fs fs₁ fs₂ fs' : List Frame} {c : Container} {R R' : List Frame → List Frame → Prop}

/-- Opening a container leads to one row of open containers. -/
theorem Step.opening_unique (h : Step fs (.opening c) fs₁) (h' : Step fs (.opening c) fs₂) :
    fs₁ = fs₂ := by
  obtain ⟨-, gs, fields, hb, hf, rfl⟩ := step_opening_iff.mp h
  obtain ⟨-, gs', fields', hb', hf', rfl⟩ := step_opening_iff.mp h'
  rw [hb.eq_advance, hb'.eq_advance, Except.ok.inj (hf.symm.trans hf')]

/-- A container is opened, what is open inside moves as told, and the container is closed. -/
def Bracket (c : Container) (R : List Frame → List Frame → Prop) (fs fs' : List Frame) : Prop :=
  ∃ fs₁ fs₂, Step fs (.opening c) fs₁ ∧ R fs₁ fs₂ ∧ Step fs₂ .closing fs'

theorem Bracket.mono (h : Bracket c R fs fs')
    (hR : ∀ fs₁ fs₂, Step fs (.opening c) fs₁ → R fs₁ fs₂ → R' fs₁ fs₂) : Bracket c R' fs fs' :=
  let ⟨fs₁, fs₂, hopen, hinside, hclose⟩ := h
  ⟨fs₁, fs₂, hopen, hR fs₁ fs₂ hopen hinside, hclose⟩

/-- What is bracketed is one value where it stands. -/
theorem Bracket.eq_advance (h : Bracket c R fs fs')
    (hR : ∀ fs₁ fs₂, Step fs (.opening c) fs₁ → R fs₁ fs₂ → ∃ n, fs₂ = Frame.advance n fs₁) :
    fs' = Frame.advance 1 fs := by
  obtain ⟨fs₁, fs₂, hopen, hinside, hclose⟩ := h
  obtain ⟨n, rfl⟩ := hR fs₁ fs₂ hopen hinside
  obtain ⟨-, gs, fields, hb, -, rfl⟩ := step_opening_iff.mp hopen
  obtain ⟨f, hframes, -⟩ := step_closing_iff.mp hclose
  rw [Frame.advance, List.cons.injEq] at hframes
  rw [← hframes.2, hb.eq_advance]

/-- Values that begin in an array are not counted. -/
theorem Step.advance_of_array (hc : c.kind = .array) (h : Step fs (.opening c) fs₁) (n : Nat) :
    Frame.advance n fs₁ = fs₁ := by
  obtain ⟨-, gs, fields, -, -, rfl⟩ := step_opening_iff.mp h
  simp [Frame.advance, hc]

end Item

/-! ## What an action leads to -/

namespace Action

variable {α : Type} {x y : Action Unit} {fs fs' : List Frame}

/-- On every message that can be written to and has these containers open, the action succeeds, and
it leaves those open. -/
def Leads (x : Action Unit) (fs fs' : List Frame) : Prop :=
  ∀ m : Message, m.Writable → m.frames = fs →
    ∃ m', x.run m = (.ok (), m') ∧ m'.Writable ∧ m'.frames = fs'

/-- Where the action answers, it answers the same on every message with the same containers open,
and leaves the same open. -/
def Uniform {α : Type} (x : Action α) : Prop :=
  ∀ ⦃m a m'⦄, m.Writable → x.run m = (.ok a, m') →
    m'.Writable ∧ ∀ m₁ : Message, m₁.Writable → m₁.frames = m.frames →
      ∃ m₁', x.run m₁ = (.ok a, m₁') ∧ m₁'.Writable ∧ m₁'.frames = m'.frames

/-- The action adds this item to a message, wherever the item may stand. -/
def AddsItem (item : Item) (x : Action Unit) : Prop :=
  ∀ ⦃m m' : Message⦄, m.Writable →
    (x.run m = (.ok (), m') ↔ ∃ fs, Item.Step m.frames item fs ∧ m' = m.add item fs)

theorem addsItem_openContainer (c : Container) : AddsItem (.opening c) (openContainer c) :=
  fun _ _ hm => run_openContainer_eq_ok hm

theorem addsItem_closeContainer : AddsItem .closing closeContainer :=
  fun _ _ hm => run_closeContainer_eq_ok hm

theorem AddsItem.uniform {item : Item} (hx : AddsItem item x) : Uniform x := by
  intro m a m' hm h
  obtain ⟨fs, hstep, rfl⟩ := (hx hm).mp h
  refine ⟨hm.add _ _, fun n hn hframes => ⟨_, ?_, hn.add item fs, rfl⟩⟩
  exact (hx hn).mpr ⟨fs, hframes ▸ hstep, rfl⟩

/-- **What the steps of writing do is a matter of what is open.** -/
theorem admits_uniform : Admits fun _ x => Uniform x where
  pure a := by
    intro m a' m' hm h
    cases h
    exact ⟨hm, fun m₁ hm₁ hframes => ⟨m₁, rfl, hm₁, hframes⟩⟩
  bind hx hf := by
    intro m b m' hm h
    obtain ⟨a, m₁, hrun, h⟩ := run_bind_eq_ok.mp h
    obtain ⟨hm₁, hsame⟩ := hx hm hrun
    obtain ⟨hm', hsame'⟩ := hf a hm₁ h
    refine ⟨hm', fun n hn hframes => ?_⟩
    obtain ⟨n₁, hrun₁, hn₁, hframes₁⟩ := hsame n hn hframes
    obtain ⟨n', hrun', hn', hframes'⟩ := hsame' n₁ hn₁ hframes₁
    exact ⟨n', (run_bind_of_ok hrun₁).trans hrun', hn', hframes'⟩
  ifValid hx := by
    intro m a m' hm h
    rw [run_ifValid hm.valid] at h
    obtain ⟨hm', hsame⟩ := hx hm h
    refine ⟨hm', fun n hn hframes => ?_⟩
    rw [run_ifValid hn.valid]
    exact hsame n hn hframes
  fail f := by
    intro m a m' _ h
    cases h
  raise f := by
    intro m a m' _ h
    cases h
  openContainer c := (addsItem_openContainer c).uniform
  closeContainer := addsItem_closeContainer.uniform
  encodeBasic b v := by
    intro m a m' hm h
    obtain ⟨w, fs, hw, hstep, rfl⟩ := (run_encode_basic_eq_ok hm).mp h
    have hb := Item.step_basic_iff.mp hstep
    refine ⟨(hm.carry w).add _ _, fun n hn hframes => ⟨_, ?_,
      (hn.carry w).add (.basic [b.code] (n.carry w).1) fs, rfl⟩⟩
    exact (run_encode_basic_eq_ok hn).mpr
      ⟨w, fs, hw, Item.step_basic_iff.mpr (hframes ▸ hb), rfl⟩

theorem Uniform.leads {m m' : Message} (hx : Uniform x) (hm : m.Writable)
    (h : x.run m = (.ok (), m')) : x.Leads m.frames m'.frames := (hx hm h).2

/-- There is a message with these containers open. -/
theorem Leads.exists_run (h : x.Leads fs fs') :
    ∃ m m', m.Writable ∧ m.frames = fs ∧ x.run m = (.ok (), m') ∧ m'.Writable ∧ m'.frames = fs' :=
  let m : Message := { frames := fs }
  have hm : m.Writable := ⟨rfl, rfl⟩
  let ⟨m', hrun, hm', hframes⟩ := h m hm rfl
  ⟨m, m', hm, rfl, hrun, hm', hframes⟩

theorem leads_pure : (pure () : Action Unit).Leads fs fs' ↔ fs' = fs := by
  constructor
  · intro h
    obtain ⟨m, m', -, rfl, hrun, -, rfl⟩ := h.exists_run
    cases hrun
    rfl
  · rintro rfl m hm hframes
    exact ⟨m, rfl, hm, hframes⟩

theorem leads_bind (hx : Uniform x) (hy : Uniform y) :
    (do x; y : Action Unit).Leads fs fs' ↔ ∃ fs₁, x.Leads fs fs₁ ∧ y.Leads fs₁ fs' := by
  constructor
  · intro h
    obtain ⟨m, m', hm, rfl, hrun, -, rfl⟩ := h.exists_run
    obtain ⟨_, m₁, hrun₁, hrun'⟩ := run_bind_eq_ok.mp hrun
    exact ⟨m₁.frames, hx.leads hm hrun₁, hy.leads (hx hm hrun₁).1 hrun'⟩
  · rintro ⟨fs₁, h₁, h₂⟩ m hm hframes
    obtain ⟨m₁, hrun₁, hm₁, hframes₁⟩ := h₁ m hm hframes
    obtain ⟨m₂, hrun₂, hm₂, hframes₂⟩ := h₂ m₁ hm₁ hframes₁
    exact ⟨m₂, (run_bind_of_ok hrun₁).trans hrun₂, hm₂, hframes₂⟩

theorem leads_lift {o : Except Fault α} {f : α → Action Unit} :
    (do f (← lift o) : Action Unit).Leads fs fs' ↔ ∃ a, o = .ok a ∧ (f a).Leads fs fs' := by
  cases o with
  | error e =>
    refine ⟨fun h => ?_, fun ⟨_, h, _⟩ => nomatch h⟩
    obtain ⟨_, _, -, -, hrun, -⟩ := h.exists_run
    cases hrun
  | ok a => exact ⟨fun h => ⟨a, rfl, h⟩, fun ⟨_, ha, h⟩ => Except.ok.inj ha ▸ h⟩

theorem leads_orRefuse {v : Value} {failure : Text → Failure} {o : Option α}
    {f : α → Action Unit} :
    (do f (← orRefuse v failure o) : Action Unit).Leads fs fs' ↔
      ∃ a, o = some a ∧ (f a).Leads fs fs' := by
  constructor
  · intro h
    obtain ⟨m, m', hm, rfl, hrun, -⟩ := h.exists_run
    obtain ⟨a, m₁, hfound, -⟩ := run_bind_eq_ok.mp hrun
    obtain ⟨rfl, -⟩ := run_orRefuse_eq_ok.mp hfound
    exact ⟨a, rfl, h⟩
  · rintro ⟨a, rfl, h⟩
    exact h

/-- An action that fails unless a condition holds. -/
theorem leads_unless_fail {p : Prop} [Decidable p] {f : Failure} :
    (if p then (do fail f; x) else x : Action Unit).Leads fs fs' ↔ ¬ p ∧ x.Leads fs fs' := by
  by_cases hp : p
  · simp only [hp, if_true, not_true_eq_false, false_and, iff_false]
    intro h
    obtain ⟨_, _, -, -, hrun, -⟩ := h.exists_run
    cases hrun
  · simp [hp]

theorem AddsItem.leads {item : Item} (hx : AddsItem item x) :
    x.Leads fs fs' ↔ Item.Step fs item fs' := by
  constructor
  · intro h
    obtain ⟨m, m', hm, rfl, hrun, -, rfl⟩ := h.exists_run
    obtain ⟨fs, hstep, rfl⟩ := (hx hm).mp hrun
    exact hstep
  · rintro hstep m hm rfl
    exact ⟨_, (hx hm).mpr ⟨_, hstep, rfl⟩, hm.add _ _, rfl⟩

theorem leads_bracket {c : Container} (hx : Uniform x) :
    (do openContainer c; x; closeContainer : Action Unit).Leads fs fs' ↔
      Item.Bracket c x.Leads fs fs' := by
  have hrest : Uniform (do x; closeContainer) :=
    admits_uniform.bind hx fun _ => admits_uniform.closeContainer
  rw [leads_bind (admits_uniform.openContainer c) hrest]
  simp only [leads_bind hx admits_uniform.closeContainer, (addsItem_openContainer c).leads,
    addsItem_closeContainer.leads]
  constructor
  · rintro ⟨fs₁, h₁, fs₂, h₂, h₃⟩
    exact ⟨fs₁, fs₂, h₁, h₂, h₃⟩
  · rintro ⟨fs₁, fs₂, h₁, h₂, h₃⟩
    exact ⟨fs₁, h₁, fs₂, h₂, h₃⟩

theorem leads_encode_basic {b : BasicType} {v : Value} :
    (b.encode v).Leads fs fs' ↔ (∃ w, b.convert v = .ok w) ∧ Frame.Begins [b.code] fs fs' := by
  constructor
  · intro h
    obtain ⟨m, m', hm, rfl, hrun, -, rfl⟩ := h.exists_run
    obtain ⟨w, fs, hw, hstep, rfl⟩ := (run_encode_basic_eq_ok hm).mp hrun
    exact ⟨⟨w, hw⟩, Item.step_basic_iff.mp hstep⟩
  · rintro ⟨⟨w, hw⟩, hb⟩ m hm rfl
    exact ⟨_, (run_encode_basic_eq_ok hm).mpr ⟨w, fs', hw, .basic hb, rfl⟩,
      (hm.carry w).add _ _, rfl⟩

/-- Elements that leave open what is open are all written just where each of them is. -/
theorem leads_forM {f : Value → Action Unit} (hf : ∀ v, Uniform (f v)) {vs : List Value}
    (hkeep : ∀ v ∈ vs, ∀ fs', (f v).Leads fs fs' → fs' = fs) :
    (vs.forM f).Leads fs fs' ↔ fs' = fs ∧ ∀ v ∈ vs, (f v).Leads fs fs := by
  induction vs generalizing fs' with
  | nil => simpa using leads_pure
  | cons v vs ih =>
    obtain ⟨hv, hvs⟩ := List.forall_mem_cons.mp hkeep
    rw [List.forM, leads_bind (hf v) (admits_uniform.forM hf vs), List.forall_mem_cons]
    constructor
    · rintro ⟨fs₁, h₁, h₂⟩
      obtain rfl := hv fs₁ h₁
      obtain ⟨rfl, h₂⟩ := (ih hvs).mp h₂
      exact ⟨rfl, h₁, h₂⟩
    · rintro ⟨rfl, h₁, h₂⟩
      exact ⟨_, h₁, (ih hvs).mpr ⟨rfl, h₂⟩⟩

end Action

/-! ## Values of a type -/

namespace WireType

open TypedBus.Action

variable {n : Nat} {t e k x : WireType} {ts : List WireType} {v : Value} {fs fs' : List Frame}

theorem uniform_encodeWithin (n : Nat) (t : WireType) (v : Value) : Uniform (encodeWithin n t v) :=
  admits_uniform.encodeWithin n t v

theorem uniform_encodeFields (n : Nat) (ts : List WireType) (vs : List Value) :
    Uniform (encodeFields (writingBoxed n) ts vs) :=
  admits_uniform.encodeFields (fun v => by
    have h := uniform_encodeWithin n .variant v
    rwa [encodeWithin_eq, encodeWith] at h) ts vs

theorem leads_basic {b : BasicType} :
    (encodeWithin n (.basic b) v).Leads fs fs' ↔
      (∃ w, b.convert v = .ok w) ∧ Frame.Begins [b.code] fs fs' := by
  rw [encodeWithin_eq, encodeWith]
  exact leads_encode_basic

/-- For an empty variant nothing is written. -/
theorem leads_variant :
    (encodeWithin (n + 1) .variant v).Leads fs fs' ↔
      (∃ m p, boxed v = .ok (.variant m p none) ∧ fs' = fs) ∨
      ∃ m p t, boxed v = .ok (.variant m p (some t)) ∧
        Item.Bracket (variantOf t) (encodeWithin n t p).Leads fs fs' := by
  rw [encodeWithin, encodeWith]
  unfold encodeBoxed
  rw [leads_lift]
  constructor
  · rintro ⟨b, hb, h⟩
    obtain ⟨m, p, _ | t, rfl⟩ := exists_variant_of_boxed hb
    · exact .inl ⟨m, p, hb, leads_pure.mp h⟩
    · exact .inr ⟨m, p, t, hb, (leads_bracket (uniform_encodeWithin n t p)).mp h⟩
  · rintro (⟨m, p, hb, rfl⟩ | ⟨m, p, t, hb, h⟩)
    · exact ⟨_, hb, leads_pure.mpr rfl⟩
    · exact ⟨_, hb, (leads_bracket (uniform_encodeWithin n t p)).mpr h⟩

theorem leads_array :
    (encodeWithin n (.array e) v).Leads fs fs' ↔
      ∃ vs, v.collection? Value.elements? = some vs ∧
        Item.Bracket (arrayOf e) (vs.forM (encodeWithin n e)).Leads fs fs' := by
  have hrow (vs : List Value) : Uniform (vs.forM (encodeWithin n e)) :=
    admits_uniform.forM (uniform_encodeWithin n e) vs
  rw [encodeWithin_eq] at hrow ⊢
  rw [encodeWith, collection_eq, leads_orRefuse]
  simp only [leads_bracket (hrow _)]

theorem leads_dict :
    (encodeWithin n (.dict k x) v).Leads fs fs' ↔
      ∃ ps, v.collection? Value.pairs? = some ps ∧
        Item.Bracket (arrayOf (.entry k x)) (ps.forM (encodeWithin n (.entry k x))).Leads
          fs fs' := by
  have hrow (ps : List Value) : Uniform (ps.forM (encodeWithin n (.entry k x))) :=
    admits_uniform.forM (uniform_encodeWithin n _) ps
  rw [encodeWithin_eq] at hrow ⊢
  rw [encodeWith_dict, collection_eq, leads_orRefuse]
  simp only [leads_bracket (hrow _)]

theorem leads_entry :
    (encodeWithin n (.entry k x) v).Leads fs fs' ↔
      ∃ a c, v.entryParts? = some (a, c) ∧
        Item.Bracket (entryOf k x)
          (fun fs₁ fs₂ => ∃ gs, (encodeWithin n k a).Leads fs₁ gs ∧
            (encodeWithin n x c).Leads gs fs₂) fs fs' := by
  have hboth (a c : Value) : Uniform (do encodeWithin n k a; encodeWithin n x c) :=
    admits_uniform.bind (uniform_encodeWithin n k a) fun _ => uniform_encodeWithin n x c
  have hpair (a c : Value) (fs fs' : List Frame) :
      (do encodeWithin n k a; encodeWithin n x c : Action Unit).Leads fs fs' ↔ _ :=
    leads_bind (uniform_encodeWithin n k a) (uniform_encodeWithin n x c)
  have hbracket (a c : Value) (fs fs' : List Frame) :
      (do
        openContainer (entryOf k x)
        (do encodeWithin n k a; encodeWithin n x c)
        closeContainer : Action Unit).Leads fs fs' ↔ _ := leads_bracket (hboth a c)
  simp only [bind_assoc] at hbracket
  simp only [encodeWithin_eq] at hbracket hpair ⊢
  rw [encodeWith, entryParts_eq, leads_orRefuse, Prod.exists]
  simp only [hbracket, Item.Bracket, hpair]

theorem leads_struct :
    (encodeWithin n (.struct ts) v).Leads fs fs' ↔
      ∃ vs, v.fields? = some vs ∧ vs.length = ts.length ∧
        Item.Bracket (structOf ts) (encodeFields (writingBoxed n) ts vs).Leads fs fs' := by
  rw [encodeWithin_eq, encodeWith, fields_eq, leads_orRefuse]
  refine exists_congr fun vs => and_congr_right fun _ => ?_
  rw [← leads_bracket (uniform_encodeFields n ts vs)]
  exact leads_unless_fail.trans (and_congr_left fun _ => not_not)

theorem leads_tuple :
    (encodeWithin n (.tuple ts) v).Leads fs fs' ↔
      ∃ vs, v.fields? = some vs ∧ vs.length = ts.length ∧
        (encodeFields (writingBoxed n) ts vs).Leads fs fs' := by
  rw [encodeWithin_eq, encodeWith, fields_eq, leads_orRefuse]
  refine exists_congr fun vs => and_congr_right fun _ => ?_
  exact leads_unless_fail.trans (and_congr_left fun _ => not_not)

theorem leads_fields_cons {vs : List Value} :
    (encodeFields (writingBoxed n) (t :: ts) (v :: vs)).Leads fs fs' ↔
      ∃ gs, (encodeWithin n t v).Leads fs gs ∧
        (encodeFields (writingBoxed n) ts vs).Leads gs fs' := by
  rw [encodeFields, ← encodeWithin_eq]
  exact leads_bind (uniform_encodeWithin n t v) (uniform_encodeFields n ts vs)

/-! ### How many values begin -/

/-- The type says how many values begin where one of the type is written, unless an empty variant
is in it. -/
def Counted (n : Nat) (t : WireType) (v : Value) : Prop :=
  ∀ fs fs', (encodeWithin n t v).Leads fs fs' →
    ∃ i, fs' = Frame.advance i fs ∧ (Filled t v → i = t.pieces.length)

/-- The elements of an array do not move what is open, so all are written just where each is. -/
theorem leads_elements {c : Container} {vs : List Value} {fs₁ fs₂ : List Frame}
    (hopen : Item.Step fs (.opening c) fs₁) (hc : c.kind = .array)
    (h : ∀ u ∈ vs, Counted n e u) :
    (vs.forM (encodeWithin n e)).Leads fs₁ fs₂ ↔
      fs₂ = fs₁ ∧ ∀ u ∈ vs, (encodeWithin n e u).Leads fs₁ fs₁ := by
  refine leads_forM (uniform_encodeWithin n e) fun u hu gs hgs => ?_
  obtain ⟨i, rfl, -⟩ := h u hu fs₁ gs hgs
  exact hopen.advance_of_array hc i

/-- However many elements are in it, an array is one value where it stands. -/
theorem eq_advance_of_elements {c : Container} {vs : List Value} (hc : c.kind = .array)
    (h : Item.Bracket c (vs.forM (encodeWithin n e)).Leads fs fs')
    (hvs : ∀ u ∈ vs, Counted n e u) : fs' = Frame.advance 1 fs := by
  refine h.eq_advance fun fs₁ fs₂ hopen hinside => ⟨0, ?_⟩
  rw [Frame.advance_zero]
  exact ((leads_elements hopen hc hvs).mp hinside).1

/-- A row of values begins as many as its types announce, if each does. -/
theorem counted_fields :
    ∀ {ts : List WireType} {vs : List Value} {fs fs' : List Frame}, vs.length = ts.length →
      (∀ q ∈ ts.zip vs, Counted n q.1 q.2) →
      (encodeFields (writingBoxed n) ts vs).Leads fs fs' →
        ∃ i, fs' = Frame.advance i fs ∧
          ((∀ q ∈ ts.zip vs, Filled q.1 q.2) → i = (piecesAll ts).length)
  | [], _, fs, _, _, _, h => by
    rw [encodeFields] at h
    exact ⟨0, (leads_pure.mp h).trans (Frame.advance_zero fs).symm, fun _ => rfl⟩
  | _ :: _, [], _, _, hlen, _, _ => nomatch hlen
  | t :: ts, v :: vs, fs, _, hlen, hall, h => by
    obtain ⟨hv, hvs⟩ := List.forall_mem_cons.mp hall
    obtain ⟨gs, h₁, h₂⟩ := leads_fields_cons.mp h
    obtain ⟨i, rfl, hi⟩ := hv fs gs h₁
    obtain ⟨j, rfl, hj⟩ := counted_fields (Nat.succ.inj hlen) hvs h₂
    refine ⟨i + j, Frame.advance_advance j i fs, fun hfilled => ?_⟩
    obtain ⟨hone, hrest⟩ := List.forall_mem_cons.mp hfilled
    rw [hi hone, hj hrest, piecesAll, List.length_append]

/-- **What is written begins as many values as its type announces** in the innermost container,
unless an empty variant is in it, and leaves the outer ones as they are. -/
theorem counted_of_within (hwithin : Within n t v) : Counted n t v := by
  induction hwithin with
  | basic =>
    intro fs fs' h
    obtain ⟨-, hb⟩ := leads_basic.mp h
    exact ⟨1, hb.eq_advance, fun _ => rfl⟩
  | variant _ ih =>
    intro fs fs' h
    rcases leads_variant.mp h with ⟨m, p, hb, rfl⟩ | ⟨m, p, t, hb, h⟩
    · exact ⟨0, (Frame.advance_zero _).symm, fun hfilled => absurd hb (hfilled.here m p)⟩
    · refine ⟨1, h.eq_advance fun fs₁ fs₂ _ hinside => ?_, fun _ => rfl⟩
      exact (ih m p t hb fs₁ fs₂ hinside).imp fun _ hi => hi.1
  | array _ ih =>
    intro fs fs' h
    obtain ⟨vs, hvs, h⟩ := leads_array.mp h
    have hall := ih vs (Value.eq_of_collection? hvs)
    exact ⟨1, eq_advance_of_elements rfl h hall, fun _ => rfl⟩
  | dict _ ih =>
    intro fs fs' h
    obtain ⟨ps, hps, h⟩ := leads_dict.mp h
    have hall := ih ps (Value.eq_of_collection? hps)
    exact ⟨1, eq_advance_of_elements rfl h hall, fun _ => rfl⟩
  | entry _ _ ihk ihx =>
    intro fs fs' h
    obtain ⟨a, c, hac, h⟩ := leads_entry.mp h
    have hac := Value.eq_of_entryParts? hac
    refine ⟨1, h.eq_advance fun fs₁ fs₂ _ hinside => ?_, fun _ => rfl⟩
    obtain ⟨gs, h₁, h₂⟩ := hinside
    obtain ⟨i, rfl, -⟩ := ihk a c hac fs₁ gs h₁
    obtain ⟨j, rfl, -⟩ := ihx a c hac _ fs₂ h₂
    exact ⟨i + j, Frame.advance_advance j i fs₁⟩
  | struct _ ih =>
    intro fs fs' h
    obtain ⟨vs, hvs, hlen, h⟩ := leads_struct.mp h
    refine ⟨1, h.eq_advance fun fs₁ fs₂ _ hinside => ?_, fun _ => rfl⟩
    exact (counted_fields hlen (ih vs (Value.eq_of_fields? hvs)) hinside).imp
      fun _ hi => hi.1
  | tuple _ ih =>
    intro fs fs' h
    obtain ⟨vs, hvs, hlen, h⟩ := leads_tuple.mp h
    have hvs := Value.eq_of_fields? hvs
    obtain ⟨i, hi, hcount⟩ := counted_fields hlen (ih vs hvs) h
    exact ⟨i, hi, fun hfilled => hcount fun q hq => hfilled.part hvs hq⟩

end WireType

end TypedBus
