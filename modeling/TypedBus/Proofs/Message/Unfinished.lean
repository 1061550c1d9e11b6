import TypedBus.Proofs.Message.Fitting

/-!
# What a write leaves behind that raises

A composite value is written item by item, and a fault that is raised on the way leaves what has
been written: the message is valid, but its last value is unfinished and its containers are open
(`Message.Grows`). Only where the fault is raised before the first item is the message as it was.
Whether it is can be told from the value and its type alone, by `WireType.beginning`
(`untouched_unless_begun`).
-/

namespace TypedBus

open Message WireType

namespace Message

variable {m m₁ m' : Message} {seg more : List Item} {item : Item} {fs : List Frame}

/-- The second message is the first after these items have been added one by one, each where it may
stand, and the descriptors that they refer to. -/
inductive Grows (m : Message) : List Item → Message → Prop
  | refl (h : m.Writable) : Grows m [] m
  | opening {seg : List Item} {m₁ : Message} {c : Container} {fs : List Frame}
      (h : Grows m seg m₁) (hs : Item.Step m₁.frames (.opening c) fs) :
      Grows m (seg ++ [.opening c]) (m₁.add (.opening c) fs)
  | closing {seg : List Item} {m₁ : Message} {fs : List Frame} (h : Grows m seg m₁)
      (hs : Item.Step m₁.frames .closing fs) : Grows m (seg ++ [.closing]) (m₁.add .closing fs)
  | basic {seg : List Item} {m₁ : Message} {b : BasicType} {x : Value} {fs : List Frame}
      (h : Grows m seg m₁) (hx : b.Holds x)
      (hs : Item.Step m₁.frames (.basic [b.code] (m₁.carry x).1) fs) :
      Grows m (seg ++ [.basic [b.code] (m₁.carry x).1])
        ((m₁.carry x).2.add (.basic [b.code] (m₁.carry x).1) fs)

theorem Grows.writable (h : m.Grows seg m') : m'.Writable := by
  induction h with
  | refl h => exact h
  | opening _ _ ih | closing _ _ ih => exact ih.add _ _
  | basic _ _ _ ih => exact (ih.carry _).add _ _

theorem Grows.trans (h : m.Grows seg m₁) (hmore : m₁.Grows more m') :
    m.Grows (seg ++ more) m' := by
  induction hmore with
  | refl _ => rwa [List.append_nil]
  | opening _ hs ih =>
    rw [← List.append_assoc]
    exact ih.opening hs
  | closing _ hs ih =>
    rw [← List.append_assoc]
    exact ih.closing hs
  | basic _ hx hs ih =>
    rw [← List.append_assoc]
    exact ih.basic hx hs

theorem Grows.items (h : m.Grows seg m') : m'.stream.items = m.stream.items ++ seg := by
  induction h with
  | refl _ => rw [List.append_nil]
  | opening _ _ ih | closing _ _ ih => rw [add_items, ih, List.append_assoc]
  | basic _ _ _ ih => rw [add_items, carry_items, ih, List.append_assoc]

/-- The open containers are those that the items lead to. -/
theorem Grows.steps (h : m.Grows seg m') : Item.Steps m.frames seg m'.frames := by
  induction h with
  | refl _ => exact .nil
  | opening _ hs ih | closing _ hs ih | basic _ _ hs ih => exact ih.snoc hs

/-- What a caller sees of a message that is being written. -/
structure Untouched (m m' : Message) : Prop where
  items : m'.stream.items = m.stream.items
  descriptors : m'.stream.descriptors = m.stream.descriptors
  frames : m'.frames = m.frames
  isValid : m'.isValid = m.isValid

theorem Untouched.refl (m : Message) : m.Untouched m := ⟨rfl, rfl, rfl, rfl⟩

end Message

/-! ## Writing only adds -/

namespace Action

variable {α β : Type} {m m' : Message} {x : Action α}

/-- The action adds items to a message that is being written, and does nothing else to it, unless it
records a failure. -/
def OnlyAdds (x : Action α) : Prop :=
  ∀ ⦃m⦄, m.Writable → ∀ ⦃outcome m'⦄, x.run m = (outcome, m') → outcome ≠ .error .failed →
    ∃ seg, m.Grows seg m'

/-- Where an action raises nothing, only its success need be looked at. -/
theorem OnlyAdds.of_ok {x : Action Unit} (herror : ∀ m, m.Writable → Settles x m ∨ (x.run m).2 = m)
    (hok : ∀ m m', m.Writable → x.run m = (.ok (), m') → ∃ seg, m.Grows seg m') : OnlyAdds x := by
  intro m hm outcome m' h hfailed
  rcases outcome with stop | _
  · rcases herror m hm with hset | hsame
    · exact absurd (congrArg _ (hset stop m' h).1) hfailed
    · rw [h] at hsame
      subst hsame
      exact ⟨[], .refl hm⟩
  · exact hok m m' hm h

theorem onlyAdds_pure (a : α) : OnlyAdds (pure a : Action α) := by
  intro m hm outcome m' h _
  cases h
  exact ⟨[], .refl hm⟩

theorem onlyAdds_stop (s : Stop) : OnlyAdds (stop s : Action α) := by
  intro m hm outcome m' h _
  cases h
  exact ⟨[], .refl hm⟩

theorem OnlyAdds.bind {f : α → Action β} (hx : OnlyAdds x) (hf : ∀ a, OnlyAdds (f a)) :
    OnlyAdds (x >>= f) := by
  intro m hm outcome m' h hfailed
  rcases hrun : x.run m with ⟨stop | a, m₁⟩
  · rw [run_bind_of_error hrun, Prod.mk.injEq] at h
    obtain ⟨rfl, rfl⟩ := h
    exact hx hm hrun fun h => hfailed (by cases h; rfl)
  · rw [run_bind_of_ok hrun] at h
    obtain ⟨seg, hseg⟩ := hx hm hrun nofun
    obtain ⟨more, hmore⟩ := hf a hseg.writable h hfailed
    exact ⟨seg ++ more, hseg.trans hmore⟩

/-- **Whatever is written, the message only grows until a failure is recorded.** -/
theorem admits_onlyAdds : Admits fun _ => OnlyAdds where
  pure := onlyAdds_pure
  bind := OnlyAdds.bind
  ifValid hx m hm outcome m' h := by
    rw [run_ifValid hm.valid] at h
    exact hx hm h
  fail f m _ outcome m' h hfailed := by
    cases h
    exact absurd rfl hfailed
  raise f := onlyAdds_stop _
  openContainer c := .of_ok (fun _ _ => .inl settles_openContainer) fun m m' hm h => by
    obtain ⟨fs, hstep, rfl⟩ := (run_openContainer_eq_ok hm).mp h
    exact ⟨_, (Grows.refl hm).opening hstep⟩
  closeContainer := .of_ok (fun _ => settles_closeContainer_or) fun m m' hm h => by
    obtain ⟨fs, hstep, rfl⟩ := (run_closeContainer_eq_ok hm).mp h
    exact ⟨_, (Grows.refl hm).closing hstep⟩
  encodeBasic b v := .of_ok (fun _ _ => .inl settles_encode_basic) fun m m' hm h => by
    obtain ⟨x, fs, hx, hstep, rfl⟩ := (run_encode_basic_eq_ok hm).mp h
    exact ⟨_, (Grows.refl hm).basic (BasicType.holds_of_convert hx) hstep⟩

end Action

/-! ## How a write begins -/

/-- How the writing of a value begins. -/
inductive Beginning
  /-- A fault is raised before an item is written. -/
  | raises (f : Fault)
  /-- A failure is recorded before an item is written. -/
  | fails
  /-- An item is written, if it may stand where it is written. -/
  | writes
  /-- There is nothing to write. -/
  | nothing
  deriving Repr

/-- How two writings in a row begin: where there is nothing to write at first, like the second. -/
def Beginning.andThen (first next : Beginning) : Beginning :=
  match first with
  | nothing => next
  | first => first

namespace WireType

/-- A value that does not fit is refused, if it can be shown. -/
def refusal (v : Value) : Beginning :=
  match v.display with
  | .ok _ => .fails
  | .error f => .raises f

mutual

/-- How the writing of a value as one of a type begins. A tuple has no marker, so that it begins
like the first of its parts that anything is written for. -/
def beginning : WireType → Value → Beginning
  | basic b, v =>
    match b.convert v with
    | .ok _ => .writes
    | .error _ => .fails
  | variant, v =>
    match boxed v with
    | .ok (.variant _ _ (some _)) => .writes
    | .ok _ => .nothing
    | .error f => .raises f
  | array _, v => if (v.collection? Value.elements?).isSome then .writes else refusal v
  | dict _ _, v => if (v.collection? Value.pairs?).isSome then .writes else refusal v
  | entry _ _, v => if v.entryParts?.isSome then .writes else refusal v
  | struct fs, v =>
    match v.fields? with
    | none => refusal v
    | some vs => if vs.length = fs.length then .writes else .fails
  | tuple fs, v =>
    match v.fields? with
    | none => refusal v
    | some vs => if vs.length = fs.length then beginningOfRow fs vs else .fails

/-- How the writing of a row of values begins. -/
def beginningOfRow : List WireType → List Value → Beginning
  | [], _ => .nothing
  | _ :: _, [] => .nothing
  | f :: fs, v :: vs => (beginning f v).andThen (beginningOfRow fs vs)

end

end WireType

/-- The writing of a value to this message has begun like that. -/
def Beginning.Of (m : Message) (outcome : Except Stop Unit) (m' : Message) : Beginning → Prop
  | raises f => outcome = .error (.raised f) ∧ m' = m
  | fails => outcome = .error .failed
  | writes => outcome = .error .failed ∨ ∃ seg, seg ≠ [] ∧ m.Grows seg m'
  | nothing => outcome = .ok () ∧ m' = m

/-- The action begins like that on every message that is being written. -/
def Action.Begins (b : Beginning) (x : Action Unit) : Prop :=
  ∀ ⦃m⦄, m.Writable → b.Of m (x.run m).1 (x.run m).2

namespace Action

variable {m m' : Message} {x y : Action Unit} {b b' : Beginning} {v : Value} {c : Container}
  {failure : Text → Failure}

theorem begins_pure : Begins .nothing (pure ()) := fun _ _ => ⟨rfl, rfl⟩

theorem begins_raise (f : Fault) : Begins (.raises f) (raise f) := fun _ _ => ⟨rfl, rfl⟩

theorem begins_fail (f : Failure) : Begins .fails (do fail f; x) := fun _ _ => rfl

/-- Two actions in a row begin like the first, or like the second if the first does nothing. -/
theorem Begins.bind (hx : Begins b x) (hy : b = .nothing → Begins b' y) (hadds : OnlyAdds y) :
    Begins (b.andThen b') (do x; y) := by
  intro m hm
  have hbegins := hx hm
  rcases hrun : x.run m with ⟨stop | _, m₁⟩
  · rw [hrun] at hbegins
    rw [run_bind_of_error hrun]
    cases b with
    | nothing => cases hbegins.1
    | raises | fails | writes => exact hbegins
  · rw [hrun] at hbegins
    rw [run_bind_of_ok hrun]
    cases b with
    | nothing =>
      obtain ⟨-, rfl⟩ := hbegins
      exact hy rfl hm
    | raises => cases hbegins.1
    | fails => cases hbegins
    | writes =>
      obtain h | ⟨seg, hne, hseg⟩ := hbegins
      · cases h
      · -- what the second action adds comes behind what the first has added
        by_cases hfailed : (y.run m₁).1 = .error .failed
        · exact .inl hfailed
        · obtain ⟨more, hmore⟩ := hadds hseg.writable rfl hfailed
          exact .inr ⟨seg ++ more, by simp [hne], hseg.trans hmore⟩

theorem begins_openContainer : Begins .writes (openContainer c) := by
  intro m hm
  rcases hrun : (openContainer c).run m with ⟨stop | _, m₁⟩
  · exact .inl (congrArg _ (settles_openContainer stop m₁ hrun).1)
  · obtain ⟨fs, hstep, rfl⟩ := (run_openContainer_eq_ok hm).mp hrun
    exact .inr ⟨_, by simp, (Grows.refl hm).opening hstep⟩

theorem begins_encodeBasic (b : BasicType) (v : Value) :
    Begins (beginning (.basic b) v) (b.encode v) := by
  intro m hm
  rcases hx : b.convert v with f | x
  · rw [beginning, hx]
    unfold BasicType.encode
    rw [hx]
    rfl
  · rw [beginning, hx]
    rcases hrun : (b.encode v).run m with ⟨stop | _, m₁⟩
    · exact .inl (congrArg _ (settles_encode_basic stop m₁ hrun).1)
    · obtain ⟨y, fs, hy, hstep, rfl⟩ := (run_encode_basic_eq_ok hm).mp hrun
      exact .inr ⟨_, by simp, (Grows.refl hm).basic (BasicType.holds_of_convert hy) hstep⟩

/-- What stands between markers begins with its marker. -/
theorem begins_bracket (hx : OnlyAdds x) :
    Begins .writes (do openContainer c; x; closeContainer) := by
  have hadds : OnlyAdds (do x; closeContainer) := hx.bind fun _ => admits_onlyAdds.closeContainer
  have hnext : Beginning.writes = .nothing → Begins .writes (do x; closeContainer) := nofun
  exact begins_openContainer.bind hnext hadds

theorem begins_orRefuse {α : Type} {o : Option α} {g : α → Action Unit}
    (hg : ∀ a, o = some a → Begins b (g a)) (hnone : o = none → b = refusal v) :
    Begins b (do g (← orRefuse v failure o)) := by
  cases o with
  | some a => exact hg a rfl
  | none =>
    rw [hnone rfl]
    intro m hm
    unfold refusal orRefuse refuse
    cases v.display with
    | ok shown => exact rfl
    | error f => exact ⟨rfl, rfl⟩

end Action

namespace WireType

open TypedBus.Action

variable {n : Nat} {t : WireType} {v : Value}

theorem onlyAdds_encodeWith (n : Nat) (t : WireType) (v : Value) :
    OnlyAdds (encodeWith (writingBoxed n) t v) :=
  encodeWithin_eq n ▸ admits_onlyAdds.encodeWithin n t v

theorem onlyAdds_encodeFields (n : Nat) :
    ∀ (fs : List WireType) (vs : List Value), OnlyAdds (encodeFields (writingBoxed n) fs vs) :=
  admits_onlyAdds.encodeFields fun v => by
    simpa only [encodeWith] using onlyAdds_encodeWith n .variant v

theorem begins_encodeFields :
    ∀ {fs : List WireType} {vs : List Value},
      (∀ p ∈ fs.zip vs, Begins (beginning p.1 p.2) (encodeWith (writingBoxed n) p.1 p.2)) →
      Begins (beginningOfRow fs vs) (encodeFields (writingBoxed n) fs vs)
  | [], _, _ => by
    rw [encodeFields, beginningOfRow]
    exact begins_pure
  | _ :: _, [], _ => by
    rw [encodeFields, beginningOfRow]
    exact begins_pure
  | f :: fs, v :: vs, h => by
    rw [List.zip_cons_cons] at h
    obtain ⟨hv, hvs⟩ := List.forall_mem_cons.mp h
    rw [encodeFields, beginningOfRow]
    exact hv.bind (fun _ => begins_encodeFields hvs) (onlyAdds_encodeFields n fs vs)

/-- **The writing of a value begins as its type says**, as long as the count of variants does not
run out. -/
theorem begins_encodeWithin (h : Within n t v) : Begins (beginning t v) (encodeWithin n t v) := by
  induction h with
  | basic =>
    rw [encodeWithin_eq, encodeWith]
    exact begins_encodeBasic _ _
  | @variant n v _ _ =>
    rw [encodeWithin, encodeWith, encodeBoxed, beginning]
    rcases boxed v with f | b
    · exact begins_raise f
    · rw [show Action.lift (.ok b) = pure b from rfl, pure_bind]
      cases b with
      | variant m p o =>
        cases o with
        | none => exact begins_pure
        | some t => exact begins_bracket (admits_onlyAdds.encodeWithin n t p)
      | _ => exact begins_pure
  | array _ _ =>
    rw [encodeWithin_eq, encodeWith, collection_eq, beginning]
    refine begins_orRefuse (fun vs hvs => ?_) fun hvs => by rw [hvs]; rfl
    rw [hvs]
    exact begins_bracket (admits_onlyAdds.forM (onlyAdds_encodeWith _ _) vs)
  | dict _ _ =>
    rw [encodeWithin_eq, encodeWith_dict, collection_eq, beginning]
    refine begins_orRefuse (fun ps hps => ?_) fun hps => by rw [hps]; rfl
    rw [hps]
    exact begins_bracket (admits_onlyAdds.forM (onlyAdds_encodeWith _ _) ps)
  | @entry n k x _ _ _ _ _ =>
    rw [encodeWithin_eq, encodeWith, entryParts_eq, beginning]
    refine begins_orRefuse (fun parts hac => ?_) fun hac => by rw [hac]; rfl
    rw [hac]
    obtain ⟨a, c⟩ := parts
    have hpair : OnlyAdds (do encodeWith (writingBoxed n) k a; encodeWith (writingBoxed n) x c) :=
      (onlyAdds_encodeWith n k a).bind fun _ => onlyAdds_encodeWith n x c
    simpa only [bind_assoc, Option.isSome_some, if_true] using begins_bracket hpair
  | @struct n fs _ _ _ =>
    rw [encodeWithin_eq, encodeWith, fields_eq, beginning]
    refine begins_orRefuse (fun vs hvs => ?_) fun hvs => by rw [hvs]
    rw [hvs]
    by_cases hlen : vs.length = fs.length
    · simp only [hlen, ne_eq, not_true_eq_false, if_false, if_true]
      exact begins_bracket (onlyAdds_encodeFields n fs vs)
    · simp only [hlen, ne_eq, not_false_eq_true, if_false, if_true]
      exact begins_fail _
  | @tuple n fs _ _ ih =>
    rw [encodeWithin_eq] at ih ⊢
    rw [encodeWith, fields_eq, beginning]
    refine begins_orRefuse (fun vs hvs => ?_) fun hvs => by rw [hvs]
    rw [hvs]
    by_cases hlen : vs.length = fs.length
    · simp only [hlen, ne_eq, not_true_eq_false, if_false, if_true]
      exact begins_encodeFields (ih vs (Value.eq_of_fields? hvs))
    · simp only [hlen, ne_eq, not_false_eq_true, if_false, if_true]
      exact begins_fail _

end WireType

/-! ## Calls that raise -/

namespace WriteCall

open TypedBus.Action

/-- The fault that a call raises before it has written anything. Closing raises one where nothing is
open. -/
def faultAtOnce : WriteCall → Option Fault
  | opening _ | value (.opening _) _ => none
  | closing | value .closing _ => some .nothingToClose
  | value v type =>
    match typeFor v type with
    | .error f => some f
    | .ok t =>
      match beginning t v with
      | .raises f => some f
      | _ => none

variable {m m' : Message} {v : Value} {type : Option TypeExpr} {f : Fault}

theorem faultAtOnce_value (hv : v.isMarker = false) :
    (value v type).faultAtOnce =
      match typeFor v type with
      | .error f => some f
      | .ok t =>
        match beginning t v with
        | .raises f => some f
        | _ => none := by
  cases v <;> first | rfl | cases hv

/-- A write begins as its type says, unless it has none. -/
theorem begins_write {t : WireType} (hv : v.isMarker = false) (ht : typeFor v type = .ok t) :
    Begins (beginning t v) (write v type) := by
  intro m hm
  rw [run_write hm.valid hv, ht, run_bind_of_ok run_lift_ok]
  exact begins_encodeWithin (within_depth t v) hm

theorem run_write_of_typeFor_error (hm : m.isValid = true) (hv : v.isMarker = false)
    (ht : typeFor v type = .error f) : (write v type).run m = (.error (.raised f), m) := by
  rw [run_write hm hv, ht]
  rfl

/-- A fault that is raised at once leaves the message alone. -/
theorem run_of_faultAtOnce (hm : m.Writable) (hv : v.isMarker = false)
    (h : (value v type).faultAtOnce = some f) :
    (write v type).run m = (.error (.raised f), m) := by
  rw [faultAtOnce_value hv] at h
  rcases ht : typeFor v type with g | t
  · rw [ht, Option.some.injEq] at h
    subst h
    exact run_write_of_typeFor_error hm.valid hv ht
  · have hbegins := begins_write hv ht hm
    rw [ht] at h
    rcases hb : beginning t v with g | _ | _ | _ <;> simp only [hb, reduceCtorEq] at h
    rw [hb] at hbegins
    obtain rfl := Option.some.inj h
    exact Prod.ext hbegins.1 hbegins.2

/-- A fault that is raised later leaves a message that has grown. -/
theorem grows_of_raised (hm : m.Writable) (hv : v.isMarker = false)
    (h : (write v type).run m = (.error (.raised f), m'))
    (hlater : (value v type).faultAtOnce ≠ some f) : ∃ seg, seg ≠ [] ∧ m.Grows seg m' := by
  rw [faultAtOnce_value hv] at hlater
  rcases ht : typeFor v type with g | t
  · rw [run_write_of_typeFor_error hm.valid hv ht] at h
    cases h
    simp [ht] at hlater
  · have hbegins := begins_write hv ht hm
    rw [h] at hbegins
    simp only [ht] at hlater
    rcases hb : beginning t v with g | _ | _ | _ <;> rw [hb] at hbegins
    · obtain ⟨hg, -⟩ := hbegins
      cases hg
      simp [hb] at hlater
    · cases hbegins
    · exact hbegins.resolve_left nofun
    · cases hbegins.1

/-- **A call that raises leaves the message as it was exactly when the fault was raised before the
first item**; otherwise it leaves a valid message that has grown by the beginning of a value.
Opening a container never raises, closing one only where none is open, and a fault that the value
and its type have at once is raised on every message. -/
theorem untouched_unless_begun (hm : m.Writable) :
    (∀ (call : WriteCall) f m', call.action.run m = (.error (.raised f), m') →
      (∃ seg, m.Grows seg m') ∧ (m.Untouched m' ↔ call.faultAtOnce = some f)) ∧
    (∀ c f m', (openContainer c).run m ≠ (.error (.raised f), m')) ∧
    (∀ f m', closeContainer.run m = (.error (.raised f), m') → f = .nothingToClose ∧ m' = m) ∧
    ∀ v type f, v.isMarker = false → (value v type).faultAtOnce = some f →
      (write v type).run m = (.error (.raised f), m) := by
  have hopen : ∀ c f m', (openContainer c).run m ≠ (.error (.raised f), m') := fun c f m' h => by
    cases (settles_openContainer _ m' h).1
  have hclose : ∀ f m', closeContainer.run m = (.error (.raised f), m') →
      f = .nothingToClose ∧ m' = m := by
    intro f m' h
    by_cases hframes : m.frames = []
    · rw [run_closeContainer_of_nil hm hframes] at h
      cases h
      exact ⟨rfl, rfl⟩
    · cases (settles_closeContainer hframes _ m' h).1
  refine ⟨fun call f m' h => ⟨admits_action admits_onlyAdds call hm h nofun, ?_⟩, hopen, hclose,
    fun v type f hv => run_of_faultAtOnce hm hv⟩
  have hclosing : closeContainer.run m = (.error (.raised f), m') →
      (m.Untouched m' ↔ some .nothingToClose = some f) := by
    intro h
    obtain ⟨rfl, rfl⟩ := hclose f m' h
    exact ⟨fun _ => rfl, fun _ => .refl _⟩
  cases call with
  | opening c => exact absurd h (hopen c f m')
  | closing => exact hclosing h
  | value v type =>
    rcases hv : v.isMarker with _ | _
    · constructor
      · intro hsame
        by_contra hlater
        obtain ⟨seg, hne, hseg⟩ := grows_of_raised hm hv h hlater
        have hitems := hseg.items
        rw [hsame.items, List.self_eq_append_right] at hitems
        exact hne hitems
      · intro hat
        have hrun : (write v type).run m = (.error (.raised f), m') := h
        rw [run_of_faultAtOnce hm hv hat] at hrun
        cases hrun
        exact .refl _
    · obtain ⟨c, rfl⟩ | rfl := Value.eq_of_isMarker hv
      · exact absurd h (hopen c f m')
      · exact hclosing h

/-- A list of two integers, the second too wide for the type that is inferred from it. -/
def oneTooWide : WriteCall :=
  value (.list none [.integer 1, .integer (2 ^ 40)]) (some (.wire (.array .variant)))

/-- What is left of it on an empty message: the array is open, and its first variant is in it. -/
def afterOneTooWide : Message :=
  { stream := { items := [.opening ⟨.array, "v"⟩, .opening ⟨.variant, "i"⟩,
      .basic "i" (.integer 1), .closing] }
    frames := [{ container := ⟨.array, "v"⟩, fields := ["v"] }] }

theorem run_oneTooWide :
    oneTooWide.action.run (ofEnvelope {}) =
      (.error (.raised (.outOfRange (.ofInt (2 ^ 40)) .int32)), afterOneTooWide) := by
  cbv

/-- The call raises on the second integer, and leaves a valid message with the first in it. -/
theorem not_untouched_oneTooWide :
    (ofEnvelope {}).Writable ∧
      (∃ seg, (ofEnvelope {}).Grows seg afterOneTooWide) ∧
      ¬ (ofEnvelope {}).Untouched afterOneTooWide := by
  have hm : (ofEnvelope {}).Writable := ⟨rfl, rfl⟩
  obtain ⟨hgrows, huntouched⟩ := (untouched_unless_begun hm).1 oneTooWide _ _ run_oneTooWide
  refine ⟨hm, hgrows, fun h => ?_⟩
  have hlater : oneTooWide.faultAtOnce = none := by cbv
  rw [huntouched.mp h] at hlater
  cases hlater

/-- Not every call that raises leaves the message as it was. -/
theorem not_untouched_always :
    ¬ ∀ (m : Message) (call : WriteCall) (f : Fault) (m' : Message), m.Writable →
      call.action.run m = (.error (.raised f), m') → m.Untouched m' := fun h => by
  have hitems := (h (ofEnvelope {}) oneTooWide _ _ ⟨rfl, rfl⟩ run_oneTooWide).items
  cases hitems

end WriteCall

end TypedBus
