import Mathlib
import TypedBus.Message.Calls
import TypedBus.Proofs.Message.Nesting
import TypedBus.Proofs.Message.Places
import TypedBus.Proofs.Message.Stops
import TypedBus.Proofs.Value.Infer

/-!
# Values that do not fit

A value fits a type if it fits in each of its places. A value that has been written does
(`fitsAll_of_succeeds`). Where one does not, writing ends by a failure that is recorded, but for two
faults that escape (`ends_encodeWithin`): the one by which a value in the place of a variant cannot
be boxed, and the one by which a value that does not fit cannot be shown.

* `recorded_unless_unboxed`: what comes of any call that writes a value, whatever the message; and
  that a value that cannot be boxed raises what kept it from being boxed.
-/

namespace TypedBus

open Message WireType

/-! ## What has been written fits -/

namespace Action

/-- The action gives an answer for some message. -/
def Succeeds (x : Action Unit) : Prop := ∃ m m', x.run m = (.ok (), m')

variable {α : Type}

theorem Succeeds.bind {x y : Action Unit} (h : Succeeds (do x; y)) : Succeeds x ∧ Succeeds y := by
  obtain ⟨m, m', h⟩ := h
  obtain ⟨_, m₁, hx, hy⟩ := run_bind_eq_ok.mp h
  exact ⟨⟨m, m₁, hx⟩, ⟨m₁, m', hy⟩⟩

theorem Succeeds.orRefuse {v : Value} {failure : Text → Failure} {o : Option α}
    {f : α → Action Unit} (h : Succeeds (do f (← orRefuse v failure o))) :
    ∃ a, o = some a ∧ Succeeds (f a) := by
  obtain ⟨m, m', h⟩ := h
  obtain ⟨a, m₁, hx, hf⟩ := run_bind_eq_ok.mp h
  exact ⟨a, (run_orRefuse_eq_ok.mp hx).1, m₁, m', hf⟩

theorem Succeeds.forM {f : α → Action Unit} : ∀ {as : List α}, Succeeds (as.forM f) →
    ∀ a ∈ as, Succeeds (f a)
  | [], _ => nofun
  | _ :: _, h => List.forall_mem_cons.mpr ⟨h.bind.1, h.bind.2.forM⟩

/-- Only a container that can be opened is. -/
theorem Succeeds.isValid {c : Container} (h : Succeeds (openContainer c)) : c.isValid = true := by
  obtain ⟨m, m', h⟩ := h
  obtain ⟨_, m₁, hwritable, -⟩ := run_bind_eq_ok.mp h
  obtain ⟨fs, hstep, -⟩ := (run_openContainer_eq_ok (writable_of_run hwritable).1).mp h
  exact (Item.step_opening_iff.mp hstep).1

/-! ### Values of a type -/

variable {n : Nat} {box : Value → Action Unit} {e k x : WireType} {fs : List WireType} {v : Value}

theorem Succeeds.array (h : Succeeds (encodeWith box (.array e) v)) :
    (arrayOf e).isValid = true ∧ ∃ vs, v.collection? Value.elements? = some vs ∧
      ∀ u ∈ vs, Succeeds (encodeWith box e u) := by
  rw [encodeWith, collection_eq] at h
  obtain ⟨vs, hvs, h⟩ := h.orRefuse
  obtain ⟨hopen, h⟩ := h.bind
  exact ⟨hopen.isValid, vs, hvs, h.bind.1.forM⟩

theorem Succeeds.dict (h : Succeeds (encodeWith box (.dict k x) v)) :
    (arrayOf (.entry k x)).isValid = true ∧ ∃ ps, v.collection? Value.pairs? = some ps ∧
      ∀ p ∈ ps, Succeeds (encodeWith box (.entry k x) p) := by
  rw [encodeWith_dict, collection_eq] at h
  obtain ⟨ps, hps, h⟩ := h.orRefuse
  obtain ⟨hopen, h⟩ := h.bind
  exact ⟨hopen.isValid, ps, hps, h.bind.1.forM⟩

theorem Succeeds.entry (h : Succeeds (encodeWith box (.entry k x) v)) :
    (entryOf k x).isValid = true ∧ ∃ a c, v.entryParts? = some (a, c) ∧
      Succeeds (encodeWith box k a) ∧ Succeeds (encodeWith box x c) := by
  rw [encodeWith, entryParts_eq] at h
  obtain ⟨⟨a, c⟩, hac, h⟩ := h.orRefuse
  obtain ⟨hopen, h⟩ := h.bind
  exact ⟨hopen.isValid, a, c, hac, h.bind.1, h.bind.2.bind.1⟩

theorem Succeeds.fields {fs : List WireType} {vs : List Value}
    (h : Succeeds (encodeFields box fs vs)) :
    ∀ p ∈ fs.zip vs, Succeeds (encodeWith box p.1 p.2) := by
  induction fs generalizing vs with
  | nil => exact List.forall_mem_nil _
  | cons f fs ih =>
    cases vs with
    | nil => exact List.forall_mem_nil _
    | cons v vs =>
      rw [encodeFields] at h
      rw [List.zip_cons_cons]
      exact List.forall_mem_cons.mpr ⟨h.bind.1, ih h.bind.2⟩

theorem Succeeds.struct (h : Succeeds (encodeWith box (.struct fs) v)) :
    (structOf fs).isValid = true ∧ ∃ vs, v.fields? = some vs ∧ vs.length = fs.length ∧
      ∀ p ∈ fs.zip vs, Succeeds (encodeWith box p.1 p.2) := by
  rw [encodeWith, fields_eq] at h
  obtain ⟨vs, hvs, h⟩ := h.orRefuse
  split at h
  · obtain ⟨_, _, h⟩ := h
    rw [run_bind_of_error (run_fail _ _)] at h
    cases h
  · obtain ⟨hopen, h⟩ := h.bind
    exact ⟨hopen.isValid, vs, hvs, not_not.mp ‹_›, h.bind.1.fields⟩

theorem Succeeds.tuple (h : Succeeds (encodeWith box (.tuple fs) v)) :
    ∃ vs, v.fields? = some vs ∧ vs.length = fs.length ∧
      ∀ p ∈ fs.zip vs, Succeeds (encodeWith box p.1 p.2) := by
  rw [encodeWith, fields_eq] at h
  obtain ⟨vs, hvs, h⟩ := h.orRefuse
  split at h
  · obtain ⟨_, _, h⟩ := h
    rw [run_bind_of_error (run_fail _ _)] at h
    cases h
  · exact ⟨vs, hvs, not_not.mp ‹_›, h.fields⟩

theorem Succeeds.variant (h : Succeeds (encodeWithin n .variant v)) :
    ∃ b, boxed v = .ok b ∧ ∀ m p t, b = .variant m p (some t) →
      (variantOf t).isValid = true ∧ ∃ n, Succeeds (encodeWithin n t p) := by
  rw [encodeWithin_eq, encodeWith] at h
  cases n with
  | zero =>
    obtain ⟨_, _, h⟩ := h
    cases h
  | succ n =>
    obtain ⟨m, m', h⟩ := h
    obtain ⟨b, m₁, hb, h⟩ := run_bind_eq_ok.mp h
    refine ⟨b, (run_lift_eq_ok.mp hb).1, ?_⟩
    rintro mark p t rfl
    have h : Succeeds (do openContainer _; encodeWithin n t p; closeContainer) := ⟨m₁, m', h⟩
    obtain ⟨hopen, h⟩ := h.bind
    exact ⟨hopen.isValid, n, h.bind.1⟩

end Action

namespace WireType

open TypedBus.Action

variable {n : Nat} {t s : WireType} {v w : Value}

theorem fitsHere_of_succeeds (h : Succeeds (encodeWithin n t v)) : fitsHere t v = true := by
  rw [encodeWithin_eq] at h
  cases t with
  | basic b =>
    rw [encodeWith] at h
    obtain ⟨m, m', h⟩ := h
    obtain ⟨x, _, hx, -⟩ := run_bind_eq_ok.mp h
    rw [fitsHere, (run_liftOrFail_eq_ok.mp hx).1]
    rfl
  | variant =>
    rw [← encodeWithin_eq] at h
    obtain ⟨b, hb, -⟩ := h.variant
    rw [fitsHere, hb]
    rfl
  | array e =>
    obtain ⟨-, vs, hvs, -⟩ := h.array
    simp [fitsHere, hvs]
  | dict k x =>
    obtain ⟨-, ps, hps, -⟩ := h.dict
    simp [fitsHere, hps]
  | entry k x =>
    obtain ⟨-, a, c, hac, -⟩ := h.entry
    simp [fitsHere, hac]
  | struct fs =>
    obtain ⟨-, vs, hvs, hlen, -⟩ := h.struct
    simp [fitsHere, hvs, hlen]
  | tuple fs =>
    obtain ⟨vs, hvs, hlen, -⟩ := h.tuple
    simp [fitsHere, hvs, hlen]

/-- Where a value has been written, what stands in its places has been. -/
theorem succeeds_of_place (hplace : Place t v s w) :
    ∀ {n}, Succeeds (encodeWithin n t v) → ∃ n, Succeeds (encodeWithin n s w) := by
  induction hplace with
  | here => exact fun h => ⟨_, h⟩
  | held hb _ ih =>
    intro n h
    obtain ⟨b, hb', h⟩ := h.variant
    obtain rfl := Except.ok.inj (hb.symm.trans hb')
    obtain ⟨-, n, h⟩ := h _ _ _ rfl
    exact ih h
  | element hvs hu _ ih =>
    intro n h
    rw [encodeWithin_eq] at h
    obtain ⟨-, vs, hvs', h⟩ := h.array
    obtain rfl := Option.some.inj (hvs.symm.trans (Value.eq_of_collection? hvs'))
    exact ih (encodeWithin_eq n ▸ h _ hu)
  | pair hps hp _ ih =>
    intro n h
    rw [encodeWithin_eq] at h
    obtain ⟨-, ps, hps', h⟩ := h.dict
    obtain rfl := Option.some.inj (hps.symm.trans (Value.eq_of_collection? hps'))
    exact ih (encodeWithin_eq n ▸ h _ hp)
  | key hv _ ih =>
    intro n h
    rw [encodeWithin_eq] at h
    obtain ⟨-, a, c, hac, hk, -⟩ := h.entry
    cases hv.symm.trans (Value.eq_of_entryParts? hac)
    exact ih (encodeWithin_eq n ▸ hk)
  | value hv _ ih =>
    intro n h
    rw [encodeWithin_eq] at h
    obtain ⟨-, a, c, hac, -, hx⟩ := h.entry
    cases hv.symm.trans (Value.eq_of_entryParts? hac)
    exact ih (encodeWithin_eq n ▸ hx)
  | field hvs hu _ ih =>
    intro n h
    rw [encodeWithin_eq] at h
    obtain ⟨-, vs, hvs', -, h⟩ := h.struct
    obtain rfl := Option.some.inj (hvs.symm.trans (Value.eq_of_fields? hvs'))
    exact ih (encodeWithin_eq n ▸ h _ hu)
  | part hvs hu _ ih =>
    intro n h
    rw [encodeWithin_eq] at h
    obtain ⟨vs, hvs', -, h⟩ := h.tuple
    obtain rfl := Option.some.inj (hvs.symm.trans (Value.eq_of_fields? hvs'))
    exact ih (encodeWithin_eq n ▸ h _ hu)

/-- **A value that has been written fits in all its places.** -/
theorem fitsAll_of_succeeds (h : Succeeds (encodeWithin n t v)) : FitsAll t v := by
  intro s w hplace
  obtain ⟨n, h⟩ := succeeds_of_place hplace h
  exact fitsHere_of_succeeds h

/-! ## What stops the writing -/

/-- What a value that is written as one of a type may raise: a breach of the contract, the fault by
which a value in the place of a variant cannot be boxed, or the one by which a value that does not
fit cannot be shown. -/
inductive Escapes (t : WireType) (v : Value) (f : Fault) : Prop
  | contract (h : f.kind = .contract)
  | unboxed {w : Value} (hw : Place t v .variant w) (h : boxed w = .error f)
  | unshown {s : WireType} {w : Value} (hw : Place t v s w) (hfit : fitsHere s w = false)
      (h : w.display = .error f)

/-- The writing of the value as one of the type ends by itself, by a failure that is recorded, or by
what may be raised. -/
abbrev Ends (t : WireType) (v : Value) (x : Action Unit) : Prop :=
  ∀ m, SettlesBut (fun stop _ => ∃ f, stop = .raised f ∧ Escapes t v f) x m

variable {u p : Value} {e k x : WireType} {fs : List WireType} {vs : List Value} {c : Container}
  {body y : Action Unit} {f : Fault}

theorem Escapes.within (h : Escapes e u f) (hplace : ∀ s w, Place e u s w → Place t v s w) :
    Escapes t v f := by
  cases h with
  | contract h => exact .contract h
  | unboxed hw h => exact .unboxed (hplace _ _ hw) h
  | unshown hw hfit h => exact .unshown (hplace _ _ hw) hfit h

theorem Ends.within (h : Ends e u body) (hplace : ∀ s w, Place e u s w → Place t v s w) :
    Ends t v body := fun m =>
  (h m).mono fun _ _ ⟨f, hstop, hf⟩ => ⟨f, hstop, hf.within hplace⟩

theorem Ends.bind (h : Ends t v body) (hy : Ends t v y) : Ends t v (do body; y) :=
  fun m => (h m).bind fun _ m' _ => hy m'

theorem Ends.bracket (h : Ends t v body) :
    Ends t v (do openContainer c; body; closeContainer) := by
  refine fun m => settles_openContainer.but.bind fun _ m₁ _ => (h m₁).bind fun _ m₂ _ => ?_
  refine settlesBut_closeContainer.mono fun stop _ hstop => ?_
  exact ⟨_, hstop, .contract rfl⟩

theorem ends_forM {α : Type} {f : α → Action Unit} :
    ∀ {as : List α}, (∀ a ∈ as, Ends t v (f a)) → Ends t v (as.forM f)
  | [], _, _ => (settles_pure ()).but
  | _ :: _, h, m =>
    have h := List.forall_mem_cons.mp h
    (h.1 m).bind fun _ m' _ => ends_forM h.2 m'

theorem ends_encodeFields {box : Value → Action Unit} :
    ∀ {fs : List WireType} {vs : List Value},
      (∀ p ∈ fs.zip vs, Ends t v (encodeWith box p.1 p.2)) → Ends t v (encodeFields box fs vs)
  | [], _, _ => by
    rw [encodeFields]
    exact fun _ => (settles_pure ()).but
  | _ :: _, [], _ => by
    rw [encodeFields]
    exact fun _ => (settles_pure ()).but
  | f :: fs, v :: vs, h => by
    rw [List.zip_cons_cons] at h
    obtain ⟨hv, hvs⟩ := List.forall_mem_cons.mp h
    rw [encodeFields]
    exact hv.bind (ends_encodeFields hvs)

/-- What is refused does not fit. -/
theorem ends_orRefuse {α : Type} {failure : Text → Failure} {o : Option α} {g : α → Action Unit}
    (hfit : fitsHere t v = true → o.isSome = true) (hg : ∀ a, o = some a → Ends t v (g a)) :
    Ends t v (do g (← orRefuse v failure o)) := by
  intro m
  cases o with
  | some a => exact hg a rfl m
  | none =>
    have hfit : fitsHere t v = false := Bool.eq_false_iff.mpr fun h => nomatch hfit h
    refine SettlesBut.bind (fun stop m' h => ?_) fun _ _ h => absurd h run_refuse_ne_ok
    rcases hshow : v.display with f | shown
    · rw [orRefuse, refuse, hshow] at h
      cases h
      exact .inr ⟨f, rfl, .unshown .here hfit hshow⟩
    · exact .inl (settles_refuse hshow failure stop m' h)

theorem ends_fail {failure : Failure} : Ends t v (do Action.fail failure; body) :=
  fun _ => (settles_fail failure).but.bind fun _ _ h => nomatch h

/-- **Writing ends**, as long as the count of variants does not run out: a value that does not fit
is recorded, unless it stands in the place of a variant or cannot be shown. -/
theorem ends_encodeWithin (h : Within n t v) : Ends t v (encodeWithin n t v) := by
  induction h with
  | basic =>
    rw [encodeWithin_eq, encodeWith]
    exact fun _ => settles_encode_basic.but
  | @variant n v _ ih =>
    rw [encodeWithin, encodeWith, encodeBoxed]
    rcases hb : boxed v with f | b
    · rintro m stop m' ⟨⟩
      exact .inr ⟨f, rfl, .unboxed .here hb⟩
    · intro m
      refine SettlesBut.bind (fun _ _ h => by cases h) fun b' m' h => ?_
      cases h
      split
      · exact ((ih _ _ _ hb).within fun _ _ hw => .held hb hw).bracket m
      · exact (settles_pure ()).but
  | array _ ih =>
    rw [encodeWithin_eq] at ih ⊢
    rw [encodeWith, collection_eq]
    refine ends_orRefuse id fun vs hvs => (ends_forM fun u hu => ?_).bracket
    have hvs := Value.eq_of_collection? hvs
    exact (ih vs hvs u hu).within fun _ _ hw => .element hvs hu hw
  | dict _ ih =>
    rw [encodeWithin_eq] at ih ⊢
    rw [encodeWith_dict, collection_eq]
    refine ends_orRefuse id fun ps hps => (ends_forM fun p hp => ?_).bracket
    have hps := Value.eq_of_collection? hps
    exact (ih ps hps p hp).within fun _ _ hw => .pair hps hp hw
  | @entry n k x v _ _ ihk ihx =>
    rw [encodeWithin_eq] at ihk ihx ⊢
    rw [encodeWith, entryParts_eq]
    refine ends_orRefuse id fun parts hac => ?_
    obtain ⟨a, c⟩ := parts
    have hac := Value.eq_of_entryParts? hac
    have hk : Ends (.entry k x) v (encodeWith (writingBoxed n) k a) :=
      (ihk a c hac).within fun _ _ hw => .key hac hw
    have hx : Ends (.entry k x) v (encodeWith (writingBoxed n) x c) :=
      (ihx a c hac).within fun _ _ hw => .value hac hw
    simpa only [bind_assoc] using (hk.bind hx).bracket
  | struct _ ih =>
    rw [encodeWithin_eq] at ih ⊢
    rw [encodeWith, fields_eq]
    refine ends_orRefuse Option.isSome_of_any fun vs hvs => ?_
    split
    · exact ends_fail
    · have hvs := Value.eq_of_fields? hvs
      exact (ends_encodeFields fun p hp => (ih vs hvs p hp).within fun _ _ hw =>
        .field hvs hp hw).bracket
  | tuple _ ih =>
    rw [encodeWithin_eq] at ih ⊢
    rw [encodeWith, fields_eq]
    refine ends_orRefuse Option.isSome_of_any fun vs hvs => ?_
    split
    · exact ends_fail
    · have hvs := Value.eq_of_fields? hvs
      exact ends_encodeFields fun p hp => (ih vs hvs p hp).within fun _ _ hw =>
        .part hvs hp hw

end WireType

/-! ## Calls that write a value -/

namespace Message

/-- The wire type that a value is written as: the one that an expression names, or the one inferred
from the value. -/
def typeFor (v : Value) : Option TypeExpr → Except Fault WireType
  | some e => e.canonical
  | none => v.infer

/-- What the caller of a write counts on: the value fits its type in all its places, or a failure is
recorded, or a breach of the contract is raised. -/
def Recorded (v : Value) (type : Option TypeExpr) : Except Stop Unit × Message → Prop
  | (.ok (), _) => v.isMarker = true ∨ ∃ t, typeFor v type = .ok t ∧ FitsAll t v
  | (.error .failed, m) => m.isValid = false
  | (.error (.raised f), _) => f.kind = .contract
  | (.error .endless, _) => False

variable {m : Message} {v : Value} {type : Option TypeExpr}

theorem ofContract_typeFor (v : Value) (type : Option TypeExpr) : OfContract (typeFor v type) := by
  cases type with
  | some e => exact e.ofContract_canonical
  | none => exact v.ofContract_infer

/-- A value that is no marker is written as one of its type. -/
theorem run_write (hm : m.isValid = true) (hv : v.isMarker = false) :
    (write v type).run m =
      (do encodeWithin v.depth (← Action.lift (typeFor v type)) v).run m := by
  have hlift (x : Except Fault WireType) : (do (← Action.lift x).encode v).run m =
      (do encodeWithin v.depth (← Action.lift x) v).run m := by
    cases x with
    | error f => rfl
    | ok t =>
      rw [Action.run_bind_of_ok Action.run_lift_ok, Action.run_bind_of_ok Action.run_lift_ok,
        WireType.encode, Action.run_ifValid hm]
  rw [write_eq type hv, Action.run_ifValid hm]
  cases type <;> exact hlift _

/-- A value that cannot be boxed is not recorded in the place of a variant. -/
theorem run_write_unboxed {f : Fault} (hm : m.isValid = true) (hv : v.isMarker = false)
    (htype : typeFor v type = .ok .variant) (hbox : boxed v = .error f) :
    (write v type).run m = (.error (.raised f), m) := by
  obtain ⟨n, hn⟩ := Nat.exists_eq_add_of_le' v.depth_pos
  rw [run_write hm hv, htype, Action.run_bind_of_ok Action.run_lift_ok, hn, encodeWithin,
    encodeWith, encodeBoxed, hbox]
  rfl

/-- **What does not fit is recorded, unless it stands in the place of a variant or cannot be
shown**: a value that cannot be boxed there raises the fault that kept it from being boxed, and
leaves the message as it was. -/
theorem recorded_unless_unboxed (v : Value) (type : Option TypeExpr) :
    (∀ m, Recorded v type ((write v type).run m) ∨
      ∃ t f m', typeFor v type = .ok t ∧ (write v type).run m = (.error (.raised f), m') ∧
        Escapes t v f) ∧
    ∀ m f, m.isValid = true → v.isMarker = false → typeFor v type = .ok .variant →
      boxed v = .error f → (write v type).run m = (.error (.raised f), m) := by
  refine ⟨fun m => ?_, fun m f => run_write_unboxed⟩
  rcases hm : m.isValid with _ | _
  · left
    change Recorded v type ((WriteCall.value v type).action.run m)
    rw [WriteCall.run_of_invalid hm]
    exact hm
  rcases hv : v.isMarker with _ | _
  · rw [run_write hm hv]
    rcases htype : typeFor v type with f | t
    · exact .inl (ofContract_typeFor v type f htype)
    rw [Action.run_bind_of_ok Action.run_lift_ok]
    rcases hrun : (encodeWithin v.depth t v).run m with ⟨stop | _, m'⟩
    · rcases ends_encodeWithin (within_depth t v) m stop m' hrun with ⟨rfl, hinvalid⟩ | ⟨f, rfl, hf⟩
      · exact .inl hinvalid
      · exact .inr ⟨t, f, m', rfl, rfl, hf⟩
    · exact .inl (.inr ⟨t, htype, fitsAll_of_succeeds ⟨m, m', hrun⟩⟩)
  · left
    rcases hrun : (write v type).run m with ⟨stop | _, m'⟩
    · obtain ⟨c, rfl⟩ | rfl := Value.eq_of_isMarker hv
      · obtain ⟨rfl, hinvalid⟩ := settles_openContainer stop m' hrun
        exact hinvalid
      · rcases Action.settlesBut_closeContainer stop m' hrun with ⟨rfl, hinvalid⟩ | rfl
        · exact hinvalid
        · rfl
    · exact .inl hv

/-- An integer that is too wide for the type inferred from it, in the place of a variant: the fault
is raised, and the message is as valid as before. -/
theorem not_recorded_wideInteger :
    let v : Value := .integer (2 ^ 40)
    let type : Option TypeExpr := some (.wire .variant)
    (write v type).run (ofEnvelope {}) =
        (.error (.raised (.outOfRange (.ofInt (2 ^ 40)) .int32)), ofEnvelope {}) ∧
      ¬ Recorded v type ((write v type).run (ofEnvelope {})) := by
  intro v type
  have hbox : boxed v = .error (.outOfRange (.ofInt (2 ^ 40)) .int32) := rfl
  have hrun := (recorded_unless_unboxed v type).2 (ofEnvelope {}) _ rfl rfl rfl hbox
  refine ⟨hrun, fun h => ?_⟩
  rw [hrun] at h
  cases h

end Message

end TypedBus
