import TypedBus.Proofs.Message.Writing
import TypedBus.Proofs.Stream.Grammar

/-!
# The row of open containers and the grammar

Writing checks every item against the row of open containers alone (`Item.Step`). That this row is
enough to accept just the beginnings of well formed rows of items is the content of
`steps_iff_wellFormed_append`: the invariant `Pending` says what has been written inside each open
container, each step keeps it (`Pending.step`), and from it everything open can be completed and
closed (`Pending.complete`); the other way round, complete values pass through any row in which they
may begin (`Spells.steps`).

`Item.unclosed` finds the open containers and the number of values begun in each from the items
alone; the row of frames agrees with it (`Item.Steps.opens`).
-/

namespace TypedBus

namespace Item

/-- What a writer may add: values of the thirteen basic types and containers that bracket complete
types. -/
def Rules.written : Rules where
  basic code _ := ∃ b : BasicType, code = [b.code]
  container c := c.IsComplete

/-- The items are a row of complete values at the outermost level. -/
def WellFormed (items : List Item) : Prop := ∃ ss, Spells .written none ss items

/-- The items can be added one after the other. -/
inductive Steps : List Frame → List Item → List Frame → Prop
  | nil {fs : List Frame} : Steps fs [] fs
  | cons {fs fs₁ fs' : List Frame} {item : Item} {items : List Item} (h : Step fs item fs₁)
      (hs : Steps fs₁ items fs') : Steps fs (item :: items) fs'

variable {fs fs₁ fs' : List Frame} {item : Item} {items more : List Item}

theorem steps_append_iff :
    Steps fs (items ++ more) fs' ↔ ∃ fs₁, Steps fs items fs₁ ∧ Steps fs₁ more fs' := by
  induction items generalizing fs with
  | nil =>
    constructor
    · exact fun h => ⟨fs, .nil, h⟩
    · rintro ⟨_, ⟨⟩, h⟩
      exact h
  | cons item items ih =>
    constructor
    · intro h
      cases h with
      | cons h hs =>
        obtain ⟨fs₁, h₁, h₂⟩ := ih.mp hs
        exact ⟨fs₁, .cons h h₁, h₂⟩
    · rintro ⟨fs₁, h₁, h₂⟩
      cases h₁ with
      | cons h hs => exact .cons h (ih.mpr ⟨fs₁, hs, h₂⟩)

theorem Steps.snoc (h : Steps fs items fs₁) (hs : Step fs₁ item fs') :
    Steps fs (items ++ [item]) fs' :=
  steps_append_iff.mpr ⟨fs₁, h, .cons hs .nil⟩

end Item

namespace Frame

/-- Values of these signatures can begin one after the other. -/
inductive BeginsAll : List Text → List Frame → List Frame → Prop
  | nil {fs : List Frame} : BeginsAll [] fs fs
  | cons {s : Text} {ss : List Text} {fs fs₁ fs' : List Frame} (h : Begins s fs fs₁)
      (hs : BeginsAll ss fs₁ fs') : BeginsAll (s :: ss) fs fs'

variable {f f' : Frame} {fs fs' : List Frame} {s : Text}

theorem beginsAll_replicate (hk : f.container.kind = .array) :
    ∀ n, BeginsAll (List.replicate n f.container.content) (f :: fs) (f :: fs)
  | 0 => .nil
  | n + 1 => .cons (.element hk rfl) (beginsAll_replicate hk n)

/-- All the fields of a container that is no array can begin in order. -/
theorem beginsAll_fields {c : Container} {fields : List Text} (hk : c.kind ≠ .array) :
    ∀ i, i ≤ fields.length →
      BeginsAll (fields.drop i) ({ container := c, fields, index := i } :: fs)
        ({ container := c, fields, index := fields.length } :: fs) := by
  intro i hi
  obtain ⟨n, hn⟩ : ∃ n, fields.length - i = n := ⟨_, rfl⟩
  induction n generalizing i with
  | zero =>
    obtain rfl : i = fields.length := by omega
    rw [List.drop_length]
    exact .nil
  | succ n ih =>
    have hlt : i < fields.length := by omega
    rw [List.drop_eq_getElem_cons hlt]
    exact .cons (.field hk (List.getElem?_eq_getElem hlt)) (ih (i + 1) (by omega) (by omega))

/-- The children of a container can all begin in it in order, after which it may be closed. -/
theorem beginsAll_children {c : Container} {fields ss : List Text} (hch : c.Children ss)
    (hf : c.fields = .ok fields) :
    ∃ f : Frame, BeginsAll ss ({ container := c, fields } :: fs) (f :: fs) ∧
      (f.container.kind = .array ∨ f.index = f.fields.length) := by
  by_cases hk : c.kind = .array
  · simp only [Container.Children, hk] at hch
    obtain ⟨n, rfl⟩ := hch
    let f : Frame := { container := c, fields }
    exact ⟨f, beginsAll_replicate (f := f) hk n, .inl hk⟩
  · have hss : c.fields = .ok ss := by
      unfold Container.Children at hch
      split at hch
      · exact absurd ‹_› hk
      · exact hch
    obtain rfl : fields = ss := Except.ok.inj (hf.symm.trans hss)
    exact ⟨_, beginsAll_fields hk 0 (Nat.zero_le _), .inr rfl⟩

/-- The values that have begun in a frame: any number in an array, which are not counted, and as
many of the fields as were counted in anything else. -/
def Holds (f : Frame) (done : List Text) : Prop :=
  if f.container.kind = .array then
    f.index = 0 ∧ ∃ n, done = List.replicate n f.container.content
  else f.index ≤ f.fields.length ∧ done = f.fields.take f.index

theorem Holds.begins {done : List Text} (hf : f.Holds done) (hb : Begins s (f :: fs) (f' :: fs')) :
    f'.Holds (done ++ [s]) := by
  cases hb with
  | element hk hs =>
    unfold Holds at hf ⊢
    rw [if_pos hk] at hf ⊢
    obtain ⟨hi, n, rfl⟩ := hf
    exact ⟨hi, n + 1, by rw [hs, List.replicate_succ']⟩
  | field hk hs =>
    unfold Holds at hf ⊢
    rw [if_neg hk] at hf
    rw [if_neg hk]
    obtain ⟨hlt, hget⟩ := List.getElem?_eq_some_iff.mp hs
    exact ⟨hlt, by rw [hf.2, List.take_add_one, hs, Option.toList_some]⟩

/-- A frame that may be closed holds just the children of its container. -/
theorem Holds.children {done : List Text} (hf : f.Holds done)
    (hfields : f.container.fields = .ok f.fields)
    (h : f.container.kind = .array ∨ f.index = f.fields.length) : f.container.Children done := by
  unfold Holds at hf
  unfold Container.Children
  split at hf
  · rename_i hk
    rw [hk]
    exact hf.2
  · rename_i hk
    rw [hf.2, h.resolve_left hk, List.take_length]
    split
    · exact absurd ‹_› hk
    · exact hfields

end Frame

namespace Item

open TypedBus.Frame

/-- The kind of the innermost open container. -/
def innermost (fs : List Frame) : Option Kind := fs.head?.map fun f => f.container.kind

/-! ## Complete values pass -/

variable {parent : Option Kind} {fs fs' : List Frame} {ss : List Text} {items more : List Item}

/-- Complete values pass through any row of open containers in which they may begin. -/
theorem Spells.steps (h : Spells .written parent ss items) :
    ∀ {fs fs'}, BeginsAll ss fs fs' → Steps fs items fs' := by
  induction h with
  | nil =>
    rintro fs _ ⟨⟩
    exact .nil
  | basic hb _ ih =>
    rintro fs fs' (_ | ⟨h, hs⟩)
    obtain ⟨b, rfl⟩ := hb
    exact .cons (.basic h) (ih hs)
  | @container parent c inner ss inside items hc hp hch hin hs ihin ih =>
    rintro fs fs' (_ | ⟨h, hs⟩)
    have hvalid := Container.isValid_iff.mpr hc
    obtain ⟨fields, hf⟩ := Container.exists_fields hvalid
    obtain ⟨f, hinner, hclose⟩ := beginsAll_children hch hf
    exact .cons (.opening hvalid h hf)
      (steps_append_iff.mpr ⟨_, ihin hinner, .cons (.closing hclose) (ih hs)⟩)

/-- At the outermost level no value is a dict entry. -/
theorem Spells.beginsAll_nil (h : Spells .written parent ss items) (hp : parent = none) :
    BeginsAll ss [] [] := by
  induction h with
  | nil => exact .nil
  | basic hb _ ih =>
    obtain ⟨b, rfl⟩ := hb
    refine .cons (.top ?_) (ih hp)
    rcases b with ⟨_ | _⟩ | _ <;> decide
  | @container parent c _ _ _ _ hc hentry _ _ _ _ ih =>
    refine .cons (.top ?_) (ih hp)
    obtain ⟨kind, content⟩ := c
    cases kind with
    | dictEntry => exact absurd (hentry rfl) (by simp [hp])
    | array | struct | variant => simp [Container.signature]

/-! ## What the open containers hold -/

/-- What has been written where these containers are open: complete values at the outermost level,
and in each open container as many of those that it announces as have begun. -/
inductive Pending : List Frame → List Item → Prop
  | top {ss : List Text} {items : List Item} (h : Spells .written none ss items) : Pending [] items
  | inside {fs fs₁ : List Frame} {f : Frame} {before inside : List Item} {done : List Text}
      (hp : Pending fs before) (hc : f.container.isValid = true)
      (hb : Begins f.container.signature fs fs₁) (hf : f.container.fields = .ok f.fields)
      (hdone : f.Holds done) (hin : Spells .written (some f.container.kind) done inside) :
      Pending (f :: fs₁) (before ++ .opening f.container :: inside)

/-- A complete value may follow where it may begin. -/
theorem Pending.append {s : Text} (h : Pending fs items) (hb : Begins s fs fs')
    (hs : Spells .written (innermost fs) [s] more) : Pending fs' (items ++ more) := by
  cases h with
  | top h =>
    cases hb
    exact .top (h.append hs)
  | @inside fs fs₁ f before inside done hp hc hbf hf hdone hin =>
    rw [List.append_assoc, List.cons_append]
    cases hb with
    | element hk hs' =>
      have hbegins : Begins s (f :: fs₁) (f :: fs₁) := .element hk hs'
      exact .inside hp hc hbf hf (hdone.begins hbegins) (hin.append hs)
    | @field _ _ hk hs' =>
      have hbegins : Begins s (f :: fs₁) ({ f with index := f.index + 1 } :: fs₁) := .field hk hs'
      have hdone' := hdone.begins hbegins
      exact .inside (f := { f with index := f.index + 1 }) hp hc hbf hf hdone' (hin.append hs)

/-- A dict entry may begin in an array only. -/
theorem Pending.entry_parent {c : Container} (h : Pending fs items) (hb : Begins c.signature fs fs')
    (hk : c.kind = .dictEntry) : innermost fs = some .array := by
  have hhead : c.signature.head? = some (.scalar '{') := by simp [Container.signature, hk]
  cases hb with
  | top hne => exact absurd hhead hne
  | element hka => simp [innermost, hka]
  | field hka hs =>
    cases h with
    | inside _ hc _ hf =>
      -- The fields of a container that can be opened are complete types, and no entry is one.
      obtain ⟨ts, hts, hred⟩ := Container.fields_of_isValid hc hka
      rw [Except.ok.inj (hf.symm.trans hts)] at hs
      obtain ⟨t, ht, hsig⟩ := List.mem_map.mp (List.mem_of_getElem? hs)
      obtain ⟨p, rest, hp, hne, -⟩ := (WireType.isReduced_iff.mp (hred t ht)).2.signature_head
      rw [← hsig, hp, List.head?_cons, Option.some.injEq] at hhead
      exact absurd hhead hne

/-- **Each step keeps what the open containers hold.** -/
theorem Pending.step {item : Item} (h : Pending fs items) (hs : Step fs item fs') :
    Pending fs' (items ++ [item]) := by
  cases hs with
  | @basic _ _ b _ hb => exact h.append hb (.one ⟨b, rfl⟩)
  | @opening _ fs₁ c fields hc hb hf =>
    have hnone : Frame.Holds { container := c, fields } [] := by
      unfold Frame.Holds
      split
      · exact ⟨rfl, 0, rfl⟩
      · exact ⟨Nat.zero_le _, rfl⟩
    exact .inside (f := { container := c, fields }) h hc hb hf hnone .nil
  | closing hclose =>
    cases h with
    | @inside fs _ f before inside done hp hc hb hf hdone hin =>
      rw [List.append_assoc, List.cons_append]
      exact hp.append hb
        (.bracket (Container.isValid_iff.mp hc) (hp.entry_parent hb) (hdone.children hf hclose) hin)

theorem Pending.steps (h : Pending fs items) (hs : Steps fs more fs') :
    Pending fs' (items ++ more) := by
  induction hs generalizing items with
  | nil => rwa [List.append_nil]
  | cons hstep _ ih =>
    rw [List.append_cons]
    exact ih (h.step hstep)

/-! ## Everything open can be completed -/

mutual

/-- Every reduced type has a value, for arrays the empty one. -/
theorem exists_spells : ∀ {t : WireType}, t.isReduced = true →
    ∀ parent, ∃ items, Spells .written parent [t.signature] items
  | .basic b, _, _ => ⟨_, .one (v := .null) ⟨b, rfl⟩⟩
  | .variant, _, _ => by
    refine ⟨_, .bracket (c := ⟨.variant, [BasicType.string.code]⟩) ?_ nofun rfl
      (.one (v := .null) ⟨.string, rfl⟩)⟩
    exact Container.isComplete_of_isReduced (WireType.isReduced_basic .string) rfl
  | .array e, h, _ =>
    ⟨_, .bracket (c := ⟨.array, e.signature⟩) (Container.isComplete_of_isReduced h rfl) nofun
      ⟨0, rfl⟩ .nil⟩
  | .dict k v, h, _ =>
    ⟨_, .bracket (c := ⟨.array, (WireType.entry k v).signature⟩)
      (Container.isComplete_of_isReduced h rfl) nofun ⟨0, rfl⟩ .nil⟩
  | .entry k v, h, _ => by cases (WireType.isReduced_iff.mp h).2
  | .struct fs, h, _ => by
    obtain ⟨items, hitems⟩ := exists_spellsAll (WireType.isReduced_struct h).2 (some .struct)
    exact ⟨_, .bracket (c := ⟨.struct, WireType.signatures fs⟩)
      (Container.isComplete_of_isReduced h rfl) nofun (WireType.fields_structOf h) hitems⟩
  | .tuple fs, h, _ => by cases (WireType.isReduced_iff.mp h).2

theorem exists_spellsAll : ∀ {ts : List WireType}, (∀ t ∈ ts, t.isReduced = true) →
    ∀ parent, ∃ items, Spells .written parent (ts.map WireType.signature) items
  | [], _, _ => ⟨[], .nil⟩
  | t :: ts, h, parent => by
    obtain ⟨items, hitems⟩ := exists_spells (h t (by simp)) parent
    obtain ⟨more, hmore⟩ := exists_spellsAll (fun u hu => h u (List.mem_cons_of_mem t hu)) parent
    exact ⟨items ++ more, hitems.append hmore⟩

end

/-- The children that are missing from an open container can be added. -/
theorem Pending.missing {f : Frame} {done : List Text} (hc : f.container.isValid = true)
    (hf : f.container.fields = .ok f.fields) (hdone : f.Holds done) :
    ∃ ss items, Spells .written (some f.container.kind) ss items ∧
      f.container.Children (done ++ ss) := by
  by_cases hk : f.container.kind = .array
  · refine ⟨[], [], .nil, ?_⟩
    rw [List.append_nil]
    exact hdone.children hf (.inl hk)
  · obtain ⟨ts, hts, hred⟩ := Container.fields_of_isValid hc hk
    have hfields := Except.ok.inj (hf.symm.trans hts)
    have hmissing : ∀ t ∈ ts.drop f.index, t.isReduced = true := fun t ht =>
      hred t (List.mem_of_mem_drop ht)
    obtain ⟨items, hitems⟩ := exists_spellsAll hmissing (some f.container.kind)
    refine ⟨_, items, hitems, ?_⟩
    unfold Frame.Holds at hdone
    rw [if_neg hk] at hdone
    rw [hdone.2, hfields, List.map_drop, List.take_append_drop]
    unfold Container.Children
    split
    · exact absurd ‹_› hk
    · exact hts

/-- **Whatever is open can be completed and closed.** -/
theorem Pending.complete : ∀ {fs : List Frame} {items : List Item}, Pending fs items →
    ∃ more, WellFormed (items ++ more)
  | [], items, h => by
    cases h with
    | top h => exact ⟨[], _, by rwa [List.append_nil]⟩
  | f :: fs₁, _, h => by
    cases h with
    | @inside fs _ _ before inside done hp hc hb hf hdone hin =>
      obtain ⟨ss, missing, hmissing, hchildren⟩ := Pending.missing hc hf hdone
      have hclosed := hp.append hb
        (.bracket (Container.isValid_iff.mp hc) (hp.entry_parent hb) hchildren
          (hin.append hmissing))
      obtain ⟨more, hmore⟩ := hclosed.complete
      refine ⟨missing ++ .closing :: more, ?_⟩
      simpa using hmore

/-- **The row of open containers accepts just the beginnings of rows of complete values.** -/
theorem steps_iff_wellFormed_append :
    (∃ fs, Steps [] items fs) ↔ ∃ more, WellFormed (items ++ more) := by
  constructor
  · rintro ⟨fs, h⟩
    exact (Pending.steps (.top .nil) h).complete
  · rintro ⟨more, ss, h⟩
    obtain ⟨fs, hfs, -⟩ := steps_append_iff.mp (h.steps (h.beginsAll_nil rfl))
    exact ⟨fs, hfs⟩

/-- Once everything has been closed, what has been written is a row of complete values. -/
theorem Steps.wellFormed (h : Steps [] items []) : WellFormed items := by
  cases Pending.steps (.top .nil) h with
  | top h => exact ⟨_, h⟩

/-! ## What the items say is open -/

/-- One value more has begun in the innermost open container. -/
def countIn : List (Container × Nat) → List (Container × Nat)
  | [] => []
  | (c, n) :: cs => (c, n + 1) :: cs

/-- The containers that are open behind a row of items, the innermost first, each with the number of
values that have begun in it; so many were open before. -/
def unclosedAfter : List (Container × Nat) → List Item → List (Container × Nat)
  | cs, [] => cs
  | cs, .basic _ _ :: items => unclosedAfter (countIn cs) items
  | cs, .opening c :: items => unclosedAfter ((c, 0) :: countIn cs) items
  | cs, .closing :: items => unclosedAfter cs.tail items

/-- The containers that a row of items leaves open, the innermost first, each with the number of
values that have begun in it. -/
def unclosed (items : List Item) : List (Container × Nat) := unclosedAfter [] items

/-- The frame is that of a container in which so many values have begun; those of an array are not
counted. -/
def Opens (f : Frame) (u : Container × Nat) : Prop :=
  f.container = u.1 ∧ u.1.fields = .ok f.fields ∧ (u.1.kind ≠ .array → f.index = u.2)

theorem opens_begins {s : Text} {cs : List (Container × Nat)} (h : List.Forall₂ Opens fs cs)
    (hb : Begins s fs fs') : List.Forall₂ Opens fs' (countIn cs) := by
  cases hb with
  | top =>
    cases h
    exact .nil
  | element hk =>
    obtain ⟨u, us, ⟨hc, hf, -⟩, hus, rfl⟩ := List.forall₂_cons_left_iff.mp h
    exact .cons ⟨hc, hf, fun hne => absurd (hc ▸ hk) hne⟩ hus
  | field hk =>
    obtain ⟨u, us, ⟨hc, hf, hi⟩, hus, rfl⟩ := List.forall₂_cons_left_iff.mp h
    exact .cons ⟨hc, hf, fun hne => congrArg (· + 1) (hi hne)⟩ hus

theorem Steps.opensAfter (h : Steps fs items fs') :
    ∀ {cs}, List.Forall₂ Opens fs cs → List.Forall₂ Opens fs' (unclosedAfter cs items) := by
  induction h with
  | nil => exact fun h => h
  | cons hstep _ ih =>
    intro cs hcs
    cases hstep with
    | basic hb => exact ih (opens_begins hcs hb)
    | opening hc hb hf => exact ih (.cons ⟨rfl, hf, fun _ => rfl⟩ (opens_begins hcs hb))
    | closing =>
      obtain ⟨u, us, -, hus, rfl⟩ := List.forall₂_cons_left_iff.mp hcs
      exact ih hus

/-- **The row of frames is that of the open containers**, with the values counted that have begun in
each. -/
theorem Steps.opens (h : Steps [] items fs) : List.Forall₂ Opens fs (unclosed items) :=
  h.opensAfter .nil

end Item

end TypedBus
