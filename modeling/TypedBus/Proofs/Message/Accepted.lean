import TypedBus.Proofs.Message.Fitting
import TypedBus.Proofs.Message.Copying
import TypedBus.Proofs.Wire.Signature

/-!
# Values that are written

What keeps a value from being written: it does not fit somewhere, or a container that it would be
written with cannot be opened. `runs_encodeWithin` is the other direction: a value that fits
everywhere, with containers that can be opened and no empty variant, is written wherever the values
that its type announces may begin (`WireType.pieces`). Each part of the value finds its place,
since there is one way to put the content of a container together of complete types. So a value of
a reduced type is written to a new message just if it fits and its containers can be opened
(`writes_iff`).
-/

namespace TypedBus

open Message WireType

/-! ## What a container announces -/

theorem Signature.spelt_of_isSingle {s : Text} (h : isSingle s = true) : Spelt s := by
  obtain ⟨-, t, rfl, hfit, hreduce⟩ := isSingle_iff.mp h
  exact ⟨t, rfl, hreduce ▸ plain_reduce (hasTuple_of_fits hfit)⟩

namespace Container

variable {c : Container} {ss : List Text}

theorem spelt_signature (h : c.isValid = true) : Spelt c.signature := by
  obtain ⟨kind, content⟩ := c
  cases kind with
  | array | struct => exact Signature.spelt_of_isSingle h
  | dictEntry => exact (Signature.spelt_of_isSingle h).ofArray
  | variant => exact ⟨.variant, rfl, .variant⟩

/-- The fields of a container that is no array make up its content. -/
theorem flatten_fields (hk : c.kind ≠ .array) {fields : List Text} (hf : c.fields = .ok fields) :
    fields.flatten = c.content := by
  obtain ⟨kind, content⟩ := c
  cases kind with
  | array => exact absurd rfl hk
  | struct | dictEntry =>
    obtain ⟨-, hflat, -⟩ := Signature.split_eq_ok_iff.mp hf
    exact hflat.symm
  | variant =>
    cases hf
    exact List.flatten_singleton

/-- Whatever spellings make up the content of a container that is no array are its children. -/
theorem children_of_flatten (h : c.isValid = true) (hk : c.kind ≠ .array)
    (hss : ∀ s ∈ ss, Spelt s) (hflat : ss.flatten = c.content) : c.Children ss := by
  obtain ⟨ts, hf, hreduced⟩ := fields_of_isValid h hk
  have hts : ∀ s ∈ ts.map WireType.signature, Spelt s := List.forall_mem_map.mpr fun t ht =>
    Signature.spelt_of_isSingle (isSingle_signature (hreduced t ht))
  obtain rfl := eq_of_flatten hss hts (hflat.trans (flatten_fields hk hf).symm)
  unfold Children
  split
  · exact absurd ‹_› hk
  · exact hf

end Container

/-! ## What a type announces -/

namespace WireType

mutual

/-- The values that a value of the type is on the wire: those of its fields, if it is a tuple. -/
def pieces : WireType → List Text
  | .tuple fs => piecesAll fs
  | t => [t.signature]

/-- The values that values of a row of types are on the wire. -/
def piecesAll : List WireType → List Text
  | [] => []
  | t :: ts => pieces t ++ piecesAll ts

end

mutual

theorem flatten_pieces : ∀ t : WireType, t.pieces.flatten = t.signature
  | .tuple fs => flatten_piecesAll fs
  | .basic _ | .variant | .array _ | .dict _ _ | .entry _ _ | .struct _ => List.flatten_singleton

theorem flatten_piecesAll : ∀ ts : List WireType, (piecesAll ts).flatten = signatures ts
  | [] => rfl
  | t :: ts => by
    rw [piecesAll, List.flatten_append, flatten_pieces t, flatten_piecesAll ts, signatures]

end

theorem mem_piecesAll {s : Text} {ts : List WireType} :
    s ∈ piecesAll ts ↔ ∃ t ∈ ts, s ∈ t.pieces := by
  induction ts with
  | nil => simp [piecesAll]
  | cons t ts ih => simp [piecesAll, ih]

/-- What stands in a place fits, can be opened and is no empty variant. -/
def acceptedHere (t : WireType) (v : Value) : Prop :=
  fitsHere t v = true ∧ openableHere t v ∧ filledHere t v

variable {n : Nat} {t : WireType} {v : Value}

theorem accepted_iff :
    Everywhere acceptedHere t v ↔ FitsAll t v ∧ Openable t v ∧ Filled t v :=
  ⟨fun h => ⟨fun s w hw => (h s w hw).1, fun s w hw => (h s w hw).2.1,
    fun s w hw => (h s w hw).2.2⟩, fun ⟨hfits, hopen, hfilled⟩ s w hw =>
    ⟨hfits s w hw, hopen s w hw, hfilled s w hw⟩⟩

/-- A row of as many values as there are types is one that has been found in the value. -/
theorem exists_fields_of_fits {fs : List WireType}
    (h : v.fields?.any (·.length == fs.length) = true) :
    ∃ vs, v.fields? = some vs ∧ v.elements? = some vs ∧ vs.length = fs.length := by
  obtain ⟨vs, hvs, hlen⟩ := (Option.any_eq_true _ _).mp h
  exact ⟨vs, hvs, Value.eq_of_fields? hvs, beq_iff_eq.mp hlen⟩

theorem exists_mem_zip {α β : Type} {a : α} :
    ∀ {as : List α} {bs : List β}, bs.length = as.length → a ∈ as → ∃ b, (a, b) ∈ as.zip bs
  | _ :: _, [], hlen, _ => nomatch hlen
  | a' :: as, b :: bs, hlen, ha => by
    rcases List.mem_cons.mp ha with rfl | ha
    · exact ⟨b, List.mem_cons_self⟩
    · obtain ⟨b, hb⟩ := exists_mem_zip (Nat.succ.inj hlen) ha
      exact ⟨b, List.mem_cons_of_mem _ hb⟩

theorem spelt_piecesAll {fs : List WireType} {vs : List Value} (hlen : vs.length = fs.length)
    (h : ∀ p ∈ fs.zip vs, ∀ s ∈ p.1.pieces, Spelt s) : ∀ s ∈ piecesAll fs, Spelt s := by
  intro s hs
  obtain ⟨f, hf, hs⟩ := mem_piecesAll.mp hs
  obtain ⟨u, hu⟩ := exists_mem_zip hlen hf
  exact h (f, u) hu s hs

/-- What a type announces is spelt, where a value of it is accepted. -/
theorem spelt_pieces (hwithin : Within n t v) :
    Everywhere acceptedHere t v → ∀ s ∈ t.pieces, Spelt s := by
  induction hwithin with
  | @basic _ b _ => exact fun _ => List.forall_mem_singleton.mpr ⟨.basic b, rfl, .basic b⟩
  | variant => exact fun _ => List.forall_mem_singleton.mpr ⟨.variant, rfl, .variant⟩
  | array | dict | entry | struct =>
    exact fun h => List.forall_mem_singleton.mpr (Container.spelt_signature h.here.2.1)
  | @tuple n fs v _ ih =>
    intro h
    obtain ⟨vs, -, hvs, hlen⟩ := exists_fields_of_fits h.here.1
    exact spelt_piecesAll hlen fun p hp => ih vs hvs p hp (h.part hvs hp)

end WireType

/-! ## Actions that write what is announced -/

theorem Frame.beginsAll_append {ss ss' : List Text} {fs fs' : List Frame}
    (h : BeginsAll (ss ++ ss') fs fs') : ∃ fs₁, BeginsAll ss fs fs₁ ∧ BeginsAll ss' fs₁ fs' := by
  induction ss generalizing fs with
  | nil => exact ⟨fs, .nil, h⟩
  | cons s ss ih =>
    cases h with
    | cons hs h =>
      obtain ⟨fs₁, h₁, h₂⟩ := ih h
      exact ⟨fs₁, .cons hs h₁, h₂⟩

namespace Action

/-- Wherever values of these signatures can begin one after the other, the action writes them. -/
def Runs (ss : List Text) (x : Action Unit) : Prop :=
  ∀ ⦃m : Message⦄ ⦃fs : List Frame⦄, m.Writable → Frame.BeginsAll ss m.frames fs →
    ∃ m', x.run m = (.ok (), m') ∧ m'.Writable ∧ m'.frames = fs

variable {ss ss' : List Text} {x y : Action Unit}

theorem runs_pure : Runs [] (pure ()) := by
  rintro m _ hm ⟨⟩
  exact ⟨m, rfl, hm, rfl⟩

theorem Runs.bind (hx : Runs ss x) (hy : Runs ss' y) : Runs (ss ++ ss') (do x; y) := by
  intro m fs hm hb
  obtain ⟨fs₁, hb₁, hb₂⟩ := Frame.beginsAll_append hb
  obtain ⟨m₁, hrun₁, hm₁, rfl⟩ := hx hm hb₁
  obtain ⟨m₂, hrun₂, hm₂, hfs⟩ := hy hm₁ hb₂
  exact ⟨m₂, (run_bind_of_ok hrun₁).trans hrun₂, hm₂, hfs⟩

theorem runs_orRefuse {α : Type} {v : Value} {failure : Text → Failure} {o : Option α} {a : α}
    {f : α → Action Unit} (ho : o = some a) (hf : Runs ss (f a)) :
    Runs ss (do f (← orRefuse v failure o)) := by
  intro m fs hm hb
  rw [run_bind_of_ok (run_orRefuse_eq_ok.mpr ⟨ho, rfl⟩)]
  exact hf hm hb

theorem runs_lift {α : Type} {o : Except Fault α} {a : α} {f : α → Action Unit} (ho : o = .ok a)
    (hf : Runs ss (f a)) : Runs ss (do f (← lift o)) := by
  intro m fs hm hb
  rw [run_bind_of_ok (run_lift_eq_ok.mpr ⟨ho, rfl⟩)]
  exact hf hm hb

theorem runs_forM {s : Text} {f : Value → Action Unit} :
    ∀ {vs : List Value}, (∀ v ∈ vs, Runs [s] (f v)) → Runs (List.replicate vs.length s) (vs.forM f)
  | [], _ => runs_pure
  | v :: vs, h => by
    obtain ⟨hv, hvs⟩ := List.forall_mem_cons.mp h
    exact hv.bind (runs_forM hvs)

/-- **What brackets the children of a container writes the container.** -/
theorem Runs.bracket {c : Container} (h : Runs ss x) (hc : c.isValid = true)
    (hch : c.Children ss) : Runs [c.signature] (do openContainer c; x; closeContainer) := by
  rintro m fs hm (_ | ⟨hb, ⟨⟩⟩)
  obtain ⟨fields, hf⟩ := Container.exists_fields hc
  obtain ⟨f, hinner, hclose⟩ := Frame.beginsAll_children hch hf
  have hopen := (run_openContainer_eq_ok hm).mpr ⟨_, .opening hc hb hf, rfl⟩
  obtain ⟨m₁, hrun, hm₁, hframes⟩ := h (hm.add _ _) hinner
  have hstep : Item.Step m₁.frames .closing fs := hframes ▸ .closing hclose
  refine ⟨_, ?_, hm₁.add .closing fs, rfl⟩
  rw [run_bind_of_ok hopen, run_bind_of_ok hrun]
  exact (run_closeContainer_eq_ok hm₁).mpr ⟨fs, hstep, rfl⟩

/-- Elements are written one by one into an array of their type. -/
theorem runs_array {c : Container} {f : Value → Action Unit} {vs : List Value}
    (hk : c.kind = .array) (hc : c.isValid = true) (h : ∀ v ∈ vs, Runs [c.content] (f v)) :
    Runs [c.signature] (do openContainer c; vs.forM f; closeContainer) := by
  refine (runs_forM h).bracket hc ?_
  rw [Container.Children, hk]
  exact ⟨vs.length, rfl⟩

theorem runs_encode_basic {b : BasicType} {v w : Value} (h : b.convert v = .ok w) :
    Runs [[b.code]] (b.encode v) := by
  rintro m fs hm (_ | ⟨hb, ⟨⟩⟩)
  exact ⟨_, (run_encode_basic_eq_ok hm).mpr ⟨w, fs, h, .basic hb, rfl⟩, (hm.carry w).add _ _, rfl⟩

theorem runs_encodeFields {box : Value → Action Unit} :
    ∀ {fs : List WireType} {vs : List Value}, vs.length = fs.length →
      (∀ p ∈ fs.zip vs, Runs p.1.pieces (encodeWith box p.1 p.2)) →
      Runs (piecesAll fs) (encodeFields box fs vs)
  | [], _, _, _ => by
    rw [encodeFields]
    exact runs_pure
  | _ :: _, [], hlen, _ => nomatch hlen
  | f :: fs, v :: vs, hlen, h => by
    obtain ⟨hv, hvs⟩ := List.forall_mem_cons.mp h
    rw [encodeFields]
    exact hv.bind (runs_encodeFields (Nat.succ.inj hlen) hvs)

end Action

namespace WireType

open TypedBus.Action

variable {n : Nat} {t : WireType} {v : Value}

/-- Every value that is accepted in the place of a variant is boxed as a value of a type. -/
theorem exists_boxed (h : Everywhere acceptedHere .variant v) :
    ∃ m p t, boxed v = .ok (.variant m p (some t)) := by
  obtain ⟨b, hb⟩ := exists_of_toBool h.here.1
  obtain ⟨m, p, _ | t, rfl⟩ := exists_variant_of_boxed hb
  · exact absurd hb (h.here.2.2 m p)
  · exact ⟨m, p, t, hb⟩

theorem runs_encodeWithin (hwithin : Within n t v) :
    Everywhere acceptedHere t v → Runs t.pieces (encodeWithin n t v) := by
  induction hwithin with
  | @basic n b v =>
    intro h
    obtain ⟨w, hw⟩ := exists_of_toBool h.here.1
    rw [encodeWithin_eq, encodeWith]
    exact runs_encode_basic hw
  | @variant n v hinside ih =>
    intro h
    obtain ⟨m, p, t, hb⟩ := exists_boxed h
    have hvalid := h.here.2.1 m p t hb
    have hspelt := spelt_pieces (hinside m p t hb) (h.held hb)
    rw [encodeWithin, encodeWith]
    refine runs_lift hb ?_
    exact (ih m p t hb (h.held hb)).bracket hvalid
      (Container.children_of_flatten hvalid (by rintro ⟨⟩) hspelt (flatten_pieces t))
  | @array n e v hinside ih =>
    intro h
    obtain ⟨vs, hvs⟩ := Option.isSome_iff_exists.mp h.here.1
    have hvs' := Value.eq_of_collection? hvs
    have hvalid : (arrayOf e).isValid = true := h.here.2.1
    rw [encodeWithin_eq, encodeWith, collection_eq, ← encodeWithin_eq]
    refine runs_orRefuse hvs (runs_array rfl hvalid fun u hu => ?_)
    have hspelt := spelt_pieces (hinside vs hvs' u hu) (h.element hvs' hu)
    have hone : ∀ s ∈ [e.signature], Spelt s :=
      List.forall_mem_singleton.mpr (Container.spelt_signature hvalid).ofArray
    have hpieces : e.pieces = [e.signature] := by
      refine eq_of_flatten hspelt hone ?_
      rw [flatten_pieces, List.flatten_singleton]
    exact hpieces ▸ ih vs hvs' u hu (h.element hvs' hu)
  | @dict n k x v hinside ih =>
    intro h
    obtain ⟨ps, hps⟩ := Option.isSome_iff_exists.mp h.here.1
    have hps' := Value.eq_of_collection? hps
    have hvalid : (arrayOf (.entry k x)).isValid = true := h.here.2.1
    rw [encodeWithin_eq, encodeWith_dict, collection_eq, ← encodeWithin_eq]
    exact runs_orRefuse hps (runs_array rfl hvalid fun p hp => ih ps hps' p hp (h.pair hps' hp))
  | @entry n k x v hk hx ihk ihx =>
    intro h
    obtain ⟨⟨a, c⟩, hac⟩ := Option.isSome_iff_exists.mp h.here.1
    have hv := Value.eq_of_entryParts? hac
    have hvalid : (entryOf k x).isValid = true := h.here.2.1
    have hboth := (ihk a c hv (h.key hv)).bind (ihx a c hv (h.value hv))
    have hspelt : ∀ s ∈ k.pieces ++ x.pieces, Spelt s :=
      List.forall_mem_append.mpr
        ⟨spelt_pieces (hk a c hv) (h.key hv), spelt_pieces (hx a c hv) (h.value hv)⟩
    have hflat : (k.pieces ++ x.pieces).flatten = (entryOf k x).content := by
      rw [List.flatten_append, flatten_pieces, flatten_pieces]
      rfl
    have hrun := hboth.bracket hvalid
      (Container.children_of_flatten hvalid (by rintro ⟨⟩) hspelt hflat)
    simp only [bind_assoc] at hrun
    rw [encodeWithin_eq, encodeWith, entryParts_eq, ← encodeWithin_eq]
    exact runs_orRefuse hac hrun
  | @struct n fs v hinside ih =>
    intro h
    obtain ⟨vs, hvs, hvs', hlen⟩ := exists_fields_of_fits h.here.1
    have hvalid : (structOf fs).isValid = true := h.here.2.1
    have hfields : ∀ p ∈ fs.zip vs, Runs p.1.pieces (encodeWithin n p.1 p.2) := fun p hp =>
      ih vs hvs' p hp (h.field hvs' hp)
    have hspelt : ∀ s ∈ piecesAll fs, Spelt s := spelt_piecesAll hlen fun p hp =>
      spelt_pieces (hinside vs hvs' p hp) (h.field hvs' hp)
    rw [encodeWithin_eq] at hfields
    rw [encodeWithin_eq, encodeWith, fields_eq]
    refine runs_orRefuse hvs ?_
    rw [if_neg (not_not.mpr hlen)]
    exact (runs_encodeFields hlen hfields).bracket hvalid
      (Container.children_of_flatten hvalid (by rintro ⟨⟩) hspelt (flatten_piecesAll fs))
  | @tuple n fs v hinside ih =>
    intro h
    obtain ⟨vs, hvs, hvs', hlen⟩ := exists_fields_of_fits h.here.1
    have hfields : ∀ p ∈ fs.zip vs, Runs p.1.pieces (encodeWithin n p.1 p.2) := fun p hp =>
      ih vs hvs' p hp (h.part hvs' hp)
    rw [encodeWithin_eq] at hfields
    rw [encodeWithin_eq, encodeWith, fields_eq]
    refine runs_orRefuse hvs ?_
    rw [if_neg (not_not.mpr hlen)]
    exact runs_encodeFields hlen hfields

/-! ## New messages -/

theorem openableHere_of_succeeds (h : Succeeds (encodeWithin n t v)) : openableHere t v := by
  cases t with
  | basic b => trivial
  | tuple fs => trivial
  | variant =>
    obtain ⟨b, hb, h⟩ := h.variant
    intro m p t hb'
    exact (h m p t (Except.ok.inj (hb.symm.trans hb'))).1
  | array e =>
    rw [encodeWithin_eq] at h
    exact h.array.1
  | dict k x =>
    rw [encodeWithin_eq] at h
    exact h.dict.1
  | entry k x =>
    rw [encodeWithin_eq] at h
    exact h.entry.1
  | struct fs =>
    rw [encodeWithin_eq] at h
    exact h.struct.1

theorem openable_of_succeeds (h : Succeeds (encodeWithin n t v)) : Openable t v := by
  intro s w hplace
  obtain ⟨n, h⟩ := succeeds_of_place hplace h
  exact openableHere_of_succeeds h

/-- A value of a reduced type can begin at the outermost level. -/
theorem beginsAll_pieces (ht : t.isReduced = true) : Frame.BeginsAll t.pieces [] [] := by
  obtain ⟨-, hfit⟩ := isReduced_iff.mp ht
  obtain ⟨p, rest, hsig, hp, -⟩ := hfit.signature_head
  have hone : t.pieces = [t.signature] := by
    cases hfit <;> rfl
  rw [hone]
  refine .cons (.top ?_) .nil
  rw [hsig, List.head?_cons]
  exact fun h => hp (Option.some.inj h)

/-- **A value of a reduced type that holds no empty variant is written to a new message just if it
fits and its containers can be opened.** -/
theorem writes_iff (ht : t.isReduced = true) (hv : Filled t v) (e : Envelope) :
    (∃ m, (encodeWithin v.depth t v).run (ofEnvelope e) = (.ok (), m) ∧ m.isValid = true) ↔
      FitsAll t v ∧ Openable t v := by
  constructor
  · rintro ⟨m, hrun, -⟩
    exact ⟨fitsAll_of_succeeds ⟨_, m, hrun⟩, openable_of_succeeds ⟨_, m, hrun⟩⟩
  · rintro ⟨hfits, hopen⟩
    have hruns := runs_encodeWithin (within_depth t v) (accepted_iff.mpr ⟨hfits, hopen, hv⟩)
    obtain ⟨m, hrun, hm, -⟩ := hruns (m := ofEnvelope e) ⟨rfl, rfl⟩ (beginsAll_pieces ht)
    exact ⟨m, hrun, hm.valid⟩

end WireType

end TypedBus
