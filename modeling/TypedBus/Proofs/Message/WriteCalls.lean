import TypedBus.Message.Calls
import TypedBus.Proofs.Message.Building
import TypedBus.Proofs.Message.Nesting
import TypedBus.Proofs.Value.Convert

/-!
# What calls write

A message is written to by opening and closing containers and by writing values. `WriteCall` is such
a call, `WriteCall.after` the message after a row of them, whatever came of each.

* `after_wellFormed`: after any calls at all, composite values and calls that failed or raised
  included, a valid message holds the beginning of a row of complete values, and the whole of one
  if it can be rewound; its frames are the containers left open.
* `writeCalls_exact`: what is more, calls that open, close and write basic values all succeed
  exactly when the markers and codes that they spell begin a row of complete values.

What adding an item preserves of a valid message, all of writing preserves (`admits_of_step`);
`Message.Nested` is the invariant behind the first result.
-/

namespace TypedBus

open Message WireType

namespace Item

/-- The item without the value that it carries: a marker, or the code of a basic value. -/
def outline : Item → Item
  | basic code _ => basic code .null
  | item => item

end Item

/-- The value is the marker of a container. -/
def Value.isMarker : Value → Bool
  | opening _ | closing => true
  | _ => false

theorem Value.eq_of_isMarker {v : Value} (h : v.isMarker = true) :
    (∃ c, v = .opening c) ∨ v = .closing := by
  cases v with
  | opening c => exact .inl ⟨c, rfl⟩
  | closing => exact .inr rfl
  | _ => cases h

/-- A call by which a message is written to. -/
inductive WriteCall
  | opening (c : Container)
  | closing
  | value (v : Value) (type : Option TypeExpr)

namespace WriteCall

/-- What a call does. -/
def action : WriteCall → Action Unit
  | opening c => openContainer c
  | closing => closeContainer
  | value v type => write v type

/-- The message after a row of calls, whatever came of each. -/
def after (calls : List WriteCall) (m : Message) : Message :=
  calls.foldl (fun m call => (call.action.run m).2) m

/-- None of the calls, made one after the other, raises. -/
def NoneRaises : List WriteCall → Message → Prop
  | [], _ => True
  | call :: calls, m =>
    (∀ f, (call.action.run m).1 ≠ .error (.raised f)) ∧ NoneRaises calls (call.action.run m).2

/-- The item that a call spells, by its outline: a marker, be it given as a value or not, or the
code of a basic type whose table accepts the value. -/
inductive Spells : WriteCall → Item → Prop
  | opening {c : Container} : Spells (.opening c) (.opening c)
  | closing : Spells .closing .closing
  | openingValue {c : Container} {type : Option TypeExpr} :
      Spells (.value (.opening c) type) (.opening c)
  | closingValue {type : Option TypeExpr} : Spells (.value .closing type) .closing
  | basic {v x : Value} {e : TypeExpr} {b : BasicType} (hv : v.isMarker = false)
      (he : e.canonical = .ok (.basic b)) (hx : b.convert v = .ok x) :
      Spells (.value v (some e)) (.basic [b.code] .null)

end WriteCall

/-! ## Writing a basic value -/

namespace Message

variable {m m' : Message}

/-- What a message is given to carry for a value of a basic type, and the message after that: a
descriptor goes into the table. -/
def carry (x : Value) (m : Message) : Value × Message :=
  match x with
  | .handle n =>
    (.integer m.stream.descriptors.length,
      { m with stream := m.stream.addDescriptor (.integer n) })
  | x => (x.carried, m)

theorem carry_frames (x : Value) (m : Message) : (m.carry x).2.frames = m.frames := by
  cases x <;> rfl

theorem carry_items (x : Value) (m : Message) : (m.carry x).2.stream.items = m.stream.items := by
  cases x <;> rfl

theorem Writable.carry (h : m.Writable) (x : Value) : (m.carry x).2.Writable := by
  cases x <;> exact ⟨h.valid, h.unsealed⟩

/-- A value that the table of its type accepts is written as what the message carries for it. -/
theorem run_encode_basic {b : BasicType} {v x : Value} (hx : b.convert v = .ok x) :
    (b.encode v).run m = (writeBasic [b.code] (m.carry x).1).run (m.carry x).2 := by
  unfold BasicType.encode
  rw [Action.run_bind_of_ok (Action.run_liftOrFail_eq_ok.mpr ⟨hx, rfl⟩)]
  cases x <;> rfl

theorem settles_encode_basic {b : BasicType} {v : Value} : Action.Settles (b.encode v) m := by
  refine Action.settles_liftOrFail.bind fun x m' _ => ?_
  split
  · exact Action.Settles.bind (fun _ _ h => nomatch h) fun _ _ _ => settles_writeBasic
  · exact settles_writeBasic

theorem run_encode_basic_eq_ok {b : BasicType} {v : Value} (hm : m.Writable) :
    (b.encode v).run m = (.ok (), m') ↔
      ∃ x fs, b.convert v = .ok x ∧ Item.Step m.frames (.basic [b.code] (m.carry x).1) fs ∧
        m' = (m.carry x).2.add (.basic [b.code] (m.carry x).1) fs := by
  constructor
  · intro h
    obtain ⟨x, m₁, hx, -⟩ := Action.run_bind_eq_ok.mp h
    obtain ⟨hx, -⟩ := Action.run_liftOrFail_eq_ok.mp hx
    rw [run_encode_basic hx] at h
    obtain ⟨fs, hstep, rfl⟩ := (run_writeBasic_eq_ok (hm.carry x)).mp h
    rw [carry_frames] at hstep
    exact ⟨x, fs, hx, hstep, rfl⟩
  · rintro ⟨x, fs, hx, hstep, rfl⟩
    rw [← carry_frames x m] at hstep
    rw [run_encode_basic hx]
    exact (run_writeBasic_eq_ok (hm.carry x)).mpr ⟨fs, hstep, rfl⟩

theorem encode_basic (b : BasicType) (v : Value) :
    (WireType.basic b).encode v = Action.ifValid (b.encode v) := by
  unfold WireType.encode
  cases v.depth <;> simp only [WireType.encodeWithin, WireType.encodeWith]

/-- A value that is no marker is written as one of its type. -/
theorem write_eq {v : Value} (type : Option TypeExpr) (hv : v.isMarker = false) :
    write v type = Action.ifValid (do
      let t ← Action.lift (match type with | some e => e.canonical | none => v.infer)
      t.encode v) := by
  cases v <;> first | rfl | cases hv

theorem run_write_basic {v : Value} {e : TypeExpr} {b : BasicType} (hm : m.Writable)
    (hv : v.isMarker = false) (he : e.canonical = .ok (.basic b)) :
    (write v (some e)).run m = (b.encode v).run m := by
  rw [write_eq _ hv, Action.run_ifValid hm.valid]
  simp only [he]
  rw [Action.run_bind_of_ok Action.run_lift_ok, encode_basic, Action.run_ifValid hm.valid]

end Message

namespace WriteCall

variable {m m' : Message} {call : WriteCall} {calls : List WriteCall} {item : Item}
  {spelled : List Item}

/-- Nothing is done to an invalid message. -/
theorem run_of_invalid (h : m.isValid = false) (call : WriteCall) :
    call.action.run m = (.error .failed, m) := by
  have hopen (c : Container) : (openContainer c).run m = (.error .failed, m) :=
    Action.run_bind_of_error (run_writable_of_invalid h)
  have hclose : closeContainer.run m = (.error .failed, m) :=
    Action.run_bind_of_error (run_writable_of_invalid h)
  cases call with
  | opening c => exact hopen c
  | closing => exact hclose
  | value v type =>
    rcases hv : v.isMarker with _ | _
    · rw [action, write_eq type hv]
      exact Action.run_ifValid_of_invalid h
    · obtain ⟨c, rfl⟩ | rfl := Value.eq_of_isMarker hv
      · exact hopen c
      · exact hclose

theorem after_of_invalid (h : m.isValid = false) : ∀ calls, after calls m = m
  | [] => rfl
  | call :: calls => by
    rw [after, List.foldl_cons, run_of_invalid h call]
    exact after_of_invalid h calls

/-- A call has every property that the steps of writing have. -/
theorem admits_action {Q : (α : Type) → Action α → Prop} (hQ : Action.Admits Q)
    (call : WriteCall) : Q Unit call.action := by
  cases call with
  | opening c => exact hQ.openContainer c
  | closing => exact hQ.closeContainer
  | value v type =>
    rcases hv : v.isMarker with _ | _
    · rw [action, write_eq type hv]
      exact hQ.ifValid (hQ.bind (hQ.lift _) fun t => hQ.encode t v)
    · obtain ⟨c, rfl⟩ | rfl := Value.eq_of_isMarker hv
      · exact hQ.openContainer c
      · exact hQ.closeContainer

/-! ## Calls that spell items -/

/-- A call whose item has a step succeeds and adds it. -/
theorem Spells.run_of_step {fs : List Frame} (h : Spells call item) (hm : m.Writable)
    (hstep : Item.Step m.frames item fs) :
    ∃ m', call.action.run m = (.ok (), m') ∧ m'.Writable ∧ m'.frames = fs ∧
      m'.stream.items.map Item.outline = m.stream.items.map Item.outline ++ [item] := by
  cases h with
  | opening | openingValue =>
    exact ⟨_, (run_openContainer_eq_ok hm).mpr ⟨fs, hstep, rfl⟩, hm.add _ _, rfl, by
      simp [Item.outline]⟩
  | closing | closingValue =>
    exact ⟨_, (run_closeContainer_eq_ok hm).mpr ⟨fs, hstep, rfl⟩, hm.add _ _, rfl, by
      simp [Item.outline]⟩
  | @basic v x e b hv he hx =>
    have hcarried : Item.Step m.frames (.basic [b.code] (m.carry x).1) fs :=
      Item.step_basic_iff.mpr (Item.step_basic_iff.mp hstep)
    have hrun := (run_encode_basic_eq_ok hm).mpr ⟨x, fs, hx, hcarried, rfl⟩
    rw [← run_write_basic hm hv he] at hrun
    exact ⟨_, hrun, (hm.carry x).add _ _, rfl, by simp [carry_items, Item.outline]⟩

/-- A call whose item has no step raises or leaves the message invalid. -/
theorem Spells.step_of_run (h : Spells call item) (hm : m.Writable)
    (hraise : ∀ f, (call.action.run m).1 ≠ .error (.raised f))
    (hv : (call.action.run m).2.isValid = true) : ∃ fs, Item.Step m.frames item fs := by
  cases h with
  | opening | openingValue =>
    obtain ⟨_, m', hrun⟩ := settles_openContainer.ok hv
    obtain ⟨fs, hstep, -⟩ := (run_openContainer_eq_ok hm).mp hrun
    exact ⟨fs, hstep⟩
  | closing | closingValue =>
    by_cases hframes : m.frames = []
    · refine absurd ?_ (hraise .nothingToClose)
      change (closeContainer.run m).1 = _
      rw [run_closeContainer_of_nil hm hframes]
    · obtain ⟨_, m', hrun⟩ := (settles_closeContainer hframes).ok hv
      obtain ⟨fs, hstep, -⟩ := (run_closeContainer_eq_ok hm).mp hrun
      exact ⟨fs, hstep⟩
  | @basic v x e b hmark he hx =>
    rw [action, run_write_basic hm hmark he] at hv
    obtain ⟨_, m', hrun⟩ := settles_encode_basic.ok hv
    obtain ⟨_, fs, -, hstep, -⟩ := (run_encode_basic_eq_ok hm).mp hrun
    exact ⟨fs, .basic (Item.step_basic_iff.mp hstep)⟩

theorem runs_of_steps (h : List.Forall₂ Spells calls spelled) :
    ∀ {m : Message} {fs : List Frame}, m.Writable → Item.Steps m.frames spelled fs →
      NoneRaises calls m ∧ (after calls m).isValid = true ∧
        (after calls m).stream.items.map Item.outline =
          m.stream.items.map Item.outline ++ spelled := by
  induction h with
  | nil => exact fun hm _ => ⟨trivial, hm.valid, by simp [after]⟩
  | @cons call item calls spelled hcall _ ih =>
    rintro m fs hm (_ | ⟨hstep, hsteps⟩)
    obtain ⟨m', hrun, hm', rfl, hitems⟩ := hcall.run_of_step hm hstep
    obtain ⟨hraise, hvalid, hmore⟩ := ih hm' hsteps
    simp only [after, NoneRaises, List.foldl_cons, hrun] at hraise hvalid hmore ⊢
    refine ⟨⟨nofun, hraise⟩, hvalid, ?_⟩
    rw [hmore, hitems, List.append_assoc, List.singleton_append]

theorem steps_of_runs (h : List.Forall₂ Spells calls spelled) :
    ∀ {m : Message}, m.Writable → NoneRaises calls m → (after calls m).isValid = true →
      ∃ fs, Item.Steps m.frames spelled fs := by
  induction h with
  | nil => exact fun _ _ _ => ⟨_, .nil⟩
  | @cons call item calls spelled hcall _ ih =>
    rintro m hm ⟨hraise, hraises⟩ hv
    simp only [after, List.foldl_cons] at hv
    -- A call that left the message invalid would have left it so for good.
    have hv' : (call.action.run m).2.isValid = true := by
      rcases h : (call.action.run m).2.isValid with _ | _
      · have := after_of_invalid h calls
        simp only [after] at this
        rw [this, h] at hv
        cases hv
      · rfl
    obtain ⟨fs, hstep⟩ := hcall.step_of_run hm hraise hv'
    obtain ⟨m', hrun, hm', rfl, -⟩ := hcall.run_of_step hm hstep
    rw [hrun] at hraises hv
    obtain ⟨fs', hsteps⟩ := ih hm' hraises hv
    exact ⟨fs', .cons hstep hsteps⟩

end WriteCall

/-! ## Any calls -/

namespace Message

/-- As long as the message is valid it is still being written, and its items have come about by
steps that ended in its frames. -/
def Nested (m : Message) : Prop :=
  m.isValid = true →
    m.Writable ∧ m.writeFailed = false ∧ Item.Steps [] m.stream.items m.frames

theorem nested_ofEnvelope (e : Envelope) : (ofEnvelope e).Nested :=
  fun _ => ⟨⟨rfl, rfl⟩, rfl, .nil⟩

/-- What an action that adds an item preserves of a valid message: what its success preserves,
since where it does not succeed it leaves the message invalid or alone. -/
theorem keeps_of_ok {R : Message → Prop} {x : Action Unit}
    (hinvalid : ∀ m : Message, m.isValid = false → (x.run m).2.isValid = false)
    (hok : ∀ m m' : Message, R m → x.run m = (.ok (), m') → R m')
    (herror : ∀ m : Message, R m → Action.Settles x m ∨ (x.run m).2 = m) :
    Action.Keeps (fun m => m.isValid = true → R m) x := by
  intro m hm hv'
  rcases hv : m.isValid with _ | _
  · rw [hinvalid m hv] at hv'
    cases hv'
  · have hR := hm hv
    rcases hrun : x.run m with ⟨stop | _, m'⟩
    · rw [hrun] at hv'
      rcases herror m hR with hset | hsame
      · rw [(hset stop m' hrun).2] at hv'
        cases hv'
      · rw [hrun] at hsame
        exact hsame ▸ hR
    · exact hok m m' hR hrun

theorem isValid_carry (x : Value) (m : Message) : (m.carry x).2.isValid = m.isValid := by
  cases x <;> rfl

/-- Writing a basic value does not make an invalid message valid. -/
theorem isValid_run_encode_basic (hv : m.isValid = false) (b : BasicType) (v : Value) :
    ((b.encode v).run m).2.isValid = false := by
  rcases hx : b.convert v with f | x
  · unfold BasicType.encode
    rw [hx]
    exact isValid_fail _
  · have hcarry : (m.carry x).2.isValid = false := by rw [isValid_carry, hv]
    rw [run_encode_basic hx]
    unfold writeBasic
    rw [Action.run_bind_of_error (run_writable_of_invalid hcarry)]
    exact hcarry

/-- **What every step of writing preserves of a valid message, writing preserves**, whatever comes
of it. -/
theorem admits_of_step {R : Message → Prop} (hw : ∀ m, R m → m.Writable)
    (hopen : ∀ m c fs, R m → Item.Step m.frames (.opening c) fs → R (m.add (.opening c) fs))
    (hclose : ∀ m fs, R m → Item.Step m.frames .closing fs → R (m.add .closing fs))
    (hbasic : ∀ (m : Message) (b : BasicType) x fs, R m → b.Holds x →
      Item.Step m.frames (.basic [b.code] (m.carry x).1) fs →
        R ((m.carry x).2.add (.basic [b.code] (m.carry x).1) fs)) :
    Action.Admits fun _ => Action.Keeps fun m => m.isValid = true → R m where
  pure a := Action.keeps_pure a
  bind := Action.Keeps.bind
  ifValid := Action.Keeps.ifValid
  fail f m _ hv := by
    rw [Action.run_fail, isValid_fail] at hv
    cases hv
  raise _ := Action.keeps_stop _
  openContainer c := by
    refine keeps_of_ok (fun m hv => ?_) (fun m m' hR h => ?_) fun _ _ => .inl settles_openContainer
    · rwa [show (openContainer c).run m = _ from WriteCall.run_of_invalid hv (.opening c)]
    · obtain ⟨fs, hstep, rfl⟩ := (run_openContainer_eq_ok (hw m hR)).mp h
      exact hopen m c fs hR hstep
  closeContainer := by
    refine keeps_of_ok (fun m hv => ?_) (fun m m' hR h => ?_) fun m hR =>
      settles_closeContainer_or (hw m hR)
    · rwa [show closeContainer.run m = _ from WriteCall.run_of_invalid hv .closing]
    · obtain ⟨fs, hstep, rfl⟩ := (run_closeContainer_eq_ok (hw m hR)).mp h
      exact hclose m fs hR hstep
  encodeBasic b v := by
    refine keeps_of_ok (fun m hv => isValid_run_encode_basic hv b v) (fun m m' hR h => ?_)
      fun _ _ => .inl settles_encode_basic
    obtain ⟨x, fs, hx, hstep, rfl⟩ := (run_encode_basic_eq_ok (hw m hR)).mp h
    exact hbasic m b x fs hR (BasicType.holds_of_convert hx) hstep

/-- **Whatever comes of writing, frames and items stay in line.** -/
theorem admits_nested : Action.Admits fun _ => Action.Keeps Nested := by
  refine admits_of_step (fun _ h => h.1) ?_ ?_ ?_
  · rintro m c fs ⟨hw, hwf, hsteps⟩ hstep
    exact ⟨hw.add _ _, hwf, hsteps.snoc hstep⟩
  · rintro m fs ⟨hw, hwf, hsteps⟩ hstep
    exact ⟨hw.add _ _, hwf, hsteps.snoc hstep⟩
  · rintro m b x fs ⟨hw, hwf, hsteps⟩ - hstep
    refine ⟨(hw.carry x).add _ _, ?_, ?_⟩
    · cases x <;> exact hwf
    · rw [add_items, carry_items]
      exact hsteps.snoc hstep

end Message

namespace WriteCall

theorem nested_after {m : Message} (hm : m.Nested) : ∀ calls, (after calls m).Nested := by
  intro calls
  induction calls generalizing m with
  | nil => exact hm
  | cons call calls ih => exact ih (admits_action admits_nested call m hm)

/-- **Any calls, whatever came of each, leave a valid message with the beginning of a row of
complete values**, and with the frames of the containers left open; when it can be rewound, the row
is whole. -/
theorem after_wellFormed (e : Envelope) (calls : List WriteCall)
    (hv : (after calls (ofEnvelope e)).isValid = true) :
    (∃ more, Item.WellFormed ((after calls (ofEnvelope e)).stream.items ++ more)) ∧
      List.Forall₂ Item.Opens (after calls (ofEnvelope e)).frames
        (Item.unclosed (after calls (ofEnvelope e)).stream.items) ∧
      ∀ m, (after calls (ofEnvelope e)).rewind = .ok m →
        m.stream.items = (after calls (ofEnvelope e)).stream.items ∧
          Item.WellFormed m.stream.items := by
  obtain ⟨hw, hwf, hsteps⟩ := nested_after (nested_ofEnvelope e) calls hv
  generalize after calls (ofEnvelope e) = m at hw hwf hsteps ⊢
  refine ⟨Item.steps_iff_wellFormed_append.mp ⟨_, hsteps⟩, hsteps.opens, ?_⟩
  intro m' h
  unfold rewind at h
  split at h
  · simp [hw.unsealed, hwf] at h
  · rename_i hframes
    cases h
    rw [hframes] at hsteps
    exact ⟨rfl, hsteps.wellFormed⟩

/-- **A message takes just the beginnings of rows of complete values.** Calls that spell items all
succeed exactly when these begin such a row, and the message then holds them; and whatever calls
have been made, as long as the message is valid its items begin such a row, its frames are the
containers that they leave open, and they are a whole row if it can be rewound. -/
theorem writeCalls_exact (e : Envelope) :
    (∀ calls spelled, List.Forall₂ Spells calls spelled →
      ((NoneRaises calls (ofEnvelope e) ∧ (after calls (ofEnvelope e)).isValid = true) ↔
        ∃ more, Item.WellFormed (spelled ++ more)) ∧
      (NoneRaises calls (ofEnvelope e) → (after calls (ofEnvelope e)).isValid = true →
        (after calls (ofEnvelope e)).stream.items.map Item.outline = spelled)) ∧
    ∀ calls, (after calls (ofEnvelope e)).isValid = true →
      (∃ more, Item.WellFormed ((after calls (ofEnvelope e)).stream.items ++ more)) ∧
      List.Forall₂ Item.Opens (after calls (ofEnvelope e)).frames
        (Item.unclosed (after calls (ofEnvelope e)).stream.items) ∧
      ∀ m, (after calls (ofEnvelope e)).rewind = .ok m →
        m.stream.items = (after calls (ofEnvelope e)).stream.items ∧
          Item.WellFormed m.stream.items := by
  have hfresh : (ofEnvelope e).Writable := ⟨rfl, rfl⟩
  refine ⟨fun calls spelled h => ⟨⟨?_, ?_⟩, fun hraises hv => ?_⟩, after_wellFormed e⟩
  · rintro ⟨hraises, hv⟩
    exact Item.steps_iff_wellFormed_append.mp (steps_of_runs h hfresh hraises hv)
  · intro hmore
    obtain ⟨fs, hsteps⟩ := Item.steps_iff_wellFormed_append.mpr hmore
    obtain ⟨hraises, hv, -⟩ := runs_of_steps h hfresh hsteps
    exact ⟨hraises, hv⟩
  · obtain ⟨fs, hsteps⟩ := steps_of_runs h hfresh hraises hv
    exact (runs_of_steps h hfresh hsteps).2.2

/-- The calls that write an array of one integer. -/
def arrayCalls : List WriteCall :=
  [.opening (arrayOf .int32), .value (.integer 5) (some (.wire .int32)), .closing]

theorem runs_arrayCalls :
    NoneRaises arrayCalls (ofEnvelope {}) ∧ (after arrayCalls (ofEnvelope {})).isValid = true := by
  have hspells : List.Forall₂ Spells arrayCalls
      [.opening (arrayOf .int32), .basic [(BasicType.integer .int32).code] .null, .closing] :=
    .cons .opening (.cons (.basic (x := .fixed .int32 5) rfl rfl rfl) (.cons .closing .nil))
  have hchildren : (arrayOf .int32).Children [[(BasicType.integer .int32).code]] := ⟨1, rfl⟩
  have hinside : Item.Spells .written (some .array) [[(BasicType.integer .int32).code]]
      [.basic [(BasicType.integer .int32).code] .null] :=
    .one ⟨_, rfl⟩
  have hvalid : (arrayOf .int32).isValid = true := by decide +kernel
  have hwell : Item.WellFormed
      [.opening (arrayOf .int32), .basic [(BasicType.integer .int32).code] .null, .closing] :=
    ⟨_, .bracket (Container.isValid_iff.mp hvalid) (by nofun) hchildren hinside⟩
  exact ((writeCalls_exact {}).1 arrayCalls _ hspells).1.mpr ⟨[], hwell⟩

end WriteCall

end TypedBus
