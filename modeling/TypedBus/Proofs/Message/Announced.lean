import TypedBus.Proofs.Message.Accepted
import TypedBus.Proofs.Message.Descriptors
import TypedBus.Proofs.Message.Rereading

/-!
# What a write announces

A write that succeeds adds complete values, and their signatures are what its type announces: one
value, or one for each part of a tuple (`WireType.pieces`). `Message.Adds` says so of two states of
a message, whatever containers are open in it; actions that do this do it one after the other
(`Action.Announces`, `Announces.bind`), and what brackets the values of a container is one value
(`Announces.bracket`).

A dict entry stands nowhere but in an array. That a message has come about by uses keeps it so: the
open containers of a message that is being written are always those that its items have left open
(`Message.Growing`).

* `adds_announced`: after any uses, a write that raises nothing and leaves the message valid adds
  what its type announces; a row of such writes at the outermost level adds the signatures of its
  types to that of the message.
* `not_adds_marker`: a marker that is written as a value opens a container instead.
-/

namespace TypedBus

open Message WireType

/-! ## Open containers -/

namespace Frame

variable {f : Frame} {fs fs₁ fs' : List Frame} {s : Text} {ss ss' done : List Text}

/-- So many values more have begun in the innermost open container. An array does not count
them. -/
def advance (n : Nat) : List Frame → List Frame
  | [] => []
  | f :: fs => (if f.container.kind = .array then f else { f with index := f.index + n }) :: fs

/-- The containers can be open one inside the other. -/
def Proper (fs : List Frame) : Prop := ∃ items, Item.Pending fs items

theorem advance_zero (fs : List Frame) : advance 0 fs = fs := by
  cases fs with
  | nil => rfl
  | cons f fs => simp [advance]

theorem advance_advance (n k : Nat) (fs : List Frame) :
    advance n (advance k fs) = advance (k + n) fs := by
  cases fs with
  | nil => rfl
  | cons f fs =>
    by_cases hk : f.container.kind = .array
    · simp [advance, hk]
    · simp [advance, hk, Nat.add_assoc]

theorem Begins.eq_advance (h : Begins s fs fs') : fs' = advance 1 fs := by
  cases h with
  | top => rfl
  | element hk | field hk => simp [advance, hk]

theorem BeginsAll.eq_advance (h : BeginsAll ss fs fs') : fs' = advance ss.length fs := by
  induction h with
  | nil => rw [List.length_nil, advance_zero]
  | cons h _ ih => rw [ih, h.eq_advance, advance_advance, List.length_cons, Nat.add_comm]

theorem BeginsAll.append (h : BeginsAll ss fs fs₁) (h' : BeginsAll ss' fs₁ fs') :
    BeginsAll (ss ++ ss') fs fs' := by
  induction h with
  | nil => exact h'
  | cons h _ ih => exact .cons h (ih h')

theorem innermost_advance (n : Nat) (fs : List Frame) :
    Item.innermost (advance n fs) = Item.innermost fs := by
  cases fs with
  | nil => rfl
  | cons f fs => by_cases hk : f.container.kind = .array <;> simp [advance, Item.innermost, hk]

theorem holds_nil (c : Container) (fields : List Text) :
    Holds { container := c, fields } [] := by
  unfold Holds
  split
  · exact ⟨rfl, 0, rfl⟩
  · exact ⟨Nat.zero_le _, rfl⟩

theorem Begins.exists_frame (h : Begins s (f :: fs) fs') :
    ∃ f' : Frame, fs' = f' :: fs ∧ f'.container = f.container ∧ f'.fields = f.fields := by
  cases h with
  | element | field => exact ⟨_, rfl, rfl, rfl⟩

/-- Values that begin one after the other begin in the same open container. -/
theorem Holds.beginsAll (hf : f.Holds done) (h : BeginsAll ss (f :: fs) fs') :
    ∃ f' : Frame, fs' = f' :: fs ∧ f'.container = f.container ∧ f'.fields = f.fields ∧
      f'.Holds (done ++ ss) := by
  induction ss generalizing f done with
  | nil =>
    cases h
    exact ⟨f, rfl, rfl, rfl, by rwa [List.append_nil]⟩
  | cons s ss ih =>
    cases h with
    | cons hb hs =>
      obtain ⟨f₁, rfl, hc, hfields⟩ := hb.exists_frame
      obtain ⟨f', rfl, hc', hfields', hholds⟩ := ih (hf.begins hb) hs
      refine ⟨f', rfl, hc'.trans hc, hfields'.trans hfields, ?_⟩
      rwa [List.append_assoc] at hholds

end Frame

open TypedBus.Frame

/-! ## Adding complete values -/

namespace Message

variable {m m₁ m' : Message} {ss ss' : List Text}

/-- Between two states of a message, complete values of these signatures have been added, where the
containers are open that were open before. -/
structure Adds (ss : List Text) (m m' : Message) : Prop where
  writable : m'.Writable
  begins : BeginsAll ss m.frames m'.frames
  items : ∃ seg, m'.stream.items = m.stream.items ++ seg ∧
    Item.Spells .written (Item.innermost m.frames) ss seg

theorem Adds.nil (hm : m.Writable) : Adds [] m m :=
  ⟨hm, .nil, [], (List.append_nil _).symm, .nil⟩

theorem Adds.append (h : Adds ss m m₁) (h' : Adds ss' m₁ m') : Adds (ss ++ ss') m m' := by
  obtain ⟨seg, hseg, hspells⟩ := h.items
  obtain ⟨seg', hseg', hspells'⟩ := h'.items
  rw [h.begins.eq_advance, innermost_advance] at hspells'
  refine ⟨h'.writable, h.begins.append h'.begins, seg ++ seg', ?_, hspells.append hspells'⟩
  rw [hseg', hseg, List.append_assoc]

theorem Adds.proper (h : Adds ss m m') (hm : Proper m.frames) : Proper m'.frames := by
  obtain ⟨items, hpending⟩ := hm
  obtain ⟨seg, -, hspells⟩ := h.items
  exact ⟨_, hpending.steps (hspells.steps h.begins)⟩

end Message

namespace Action

variable {ss ss' : List Text} {x y : Action Unit} {c : Container}

/-- Where the action succeeds it adds complete values of these signatures. -/
def Announces (ss : List Text) (x : Action Unit) : Prop :=
  ∀ ⦃m m' : Message⦄, m.Writable → Proper m.frames → x.run m = (.ok (), m') → m.Adds ss m'

theorem announces_pure : Announces [] (pure ()) := by
  intro m m' hm _ h
  cases h
  exact .nil hm

theorem announces_fail (f : Failure) : Announces ss (do fail f; x) := by
  intro m m' _ _ h
  rw [run_bind_of_error (run_fail _ _)] at h
  cases h

theorem Announces.bind (hx : Announces ss x) (hy : Announces ss' y) :
    Announces (ss ++ ss') (do x; y) := by
  intro m m' hm hp h
  obtain ⟨_, m₁, hrun, h⟩ := run_bind_eq_ok.mp h
  have hadds := hx hm hp hrun
  exact hadds.append (hy hadds.writable (hadds.proper hp) h)

theorem announces_orRefuse {α : Type} {v : Value} {failure : Text → Failure} {o : Option α}
    {g : α → Action Unit} (hg : ∀ a, o = some a → Announces ss (g a)) :
    Announces ss (do g (← orRefuse v failure o)) := by
  intro m m' hm hp h
  obtain ⟨a, m₁, hfound, hrun⟩ := run_bind_eq_ok.mp h
  obtain ⟨ho, rfl⟩ := run_orRefuse_eq_ok.mp hfound
  exact hg a ho hm hp hrun

theorem announces_forM {f : Value → Action Unit} :
    ∀ {vs : List Value}, (∀ v ∈ vs, Announces ss (f v)) →
      Announces (List.replicate vs.length ss).flatten (vs.forM f)
  | [], _ => announces_pure
  | v :: vs, h => by
    obtain ⟨hv, hvs⟩ := List.forall_mem_cons.mp h
    exact hv.bind (announces_forM hvs)

/-- **Values in a bracket are one value.** Closing checks that they are the children of the
container, and what is open around it says where a dict entry may stand. -/
theorem Announces.bracket (hx : Announces ss x) :
    Announces [c.signature] (do openContainer c; x; closeContainer) := by
  intro m m' hm hp h
  obtain ⟨_, m₀, hopen, h⟩ := run_bind_eq_ok.mp h
  obtain ⟨_, m₁, hrun, hclose⟩ := run_bind_eq_ok.mp h
  obtain ⟨fs, hstep, rfl⟩ := (run_openContainer_eq_ok hm).mp hopen
  obtain ⟨items, hpending⟩ := hp
  obtain ⟨hc, fs₁, fields, hb, hf, rfl⟩ := Item.step_opening_iff.mp hstep
  have hinside := hx (hm.add _ _) ⟨_, hpending.step hstep⟩ hrun
  obtain ⟨fs', hstep', rfl⟩ := (run_closeContainer_eq_ok hinside.writable).mp hclose
  obtain ⟨f, hframes, hdone⟩ := Item.step_closing_iff.mp hstep'
  obtain ⟨f', hframes', hcontainer, hfields, hholds⟩ : ∃ f' : Frame, m₁.frames = f' :: fs₁ ∧
      f'.container = c ∧ f'.fields = fields ∧ f'.Holds ([] ++ ss) :=
    (holds_nil c fields).beginsAll hinside.begins
  obtain ⟨rfl, rfl⟩ := List.cons.inj (hframes.symm.trans hframes')
  have hchildren : c.Children ss := by
    rw [← hcontainer] at hf ⊢
    exact hholds.children (hfields ▸ hf) hdone
  obtain ⟨seg, hseg, hspells⟩ := hinside.items
  refine ⟨hinside.writable.add _ _, .cons hb .nil, .opening c :: (seg ++ [.closing]), ?_,
    .bracket (Container.isValid_iff.mp hc) (hpending.entry_parent hb) hchildren hspells⟩
  rw [add_items, hseg, add_items]
  simp

theorem announces_encode_basic (b : BasicType) (v : Value) :
    Announces [[b.code]] (b.encode v) := by
  intro m m' hm _ h
  obtain ⟨x, fs, hx, hstep, rfl⟩ := (run_encode_basic_eq_ok hm).mp h
  refine ⟨(hm.carry x).add _ _, .cons (Item.step_basic_iff.mp hstep) .nil,
    [.basic [b.code] (m.carry x).1], ?_, .one ⟨b, rfl⟩⟩
  rw [add_items, carry_items]

theorem announces_encodeFields {box : Value → Action Unit} :
    ∀ {fs : List WireType} {vs : List Value}, vs.length = fs.length →
      (∀ p ∈ fs.zip vs, Announces p.1.pieces (encodeWith box p.1 p.2)) →
      Announces (piecesAll fs) (encodeFields box fs vs)
  | [], _, _, _ => by
    rw [encodeFields]
    exact announces_pure
  | _ :: _, [], hlen, _ => nomatch hlen
  | f :: fs, v :: vs, hlen, h => by
    obtain ⟨hv, hvs⟩ := List.forall_mem_cons.mp h
    rw [encodeFields]
    exact hv.bind (announces_encodeFields (Nat.succ.inj hlen) hvs)

end Action

namespace WireType

open TypedBus.Action

variable {n : Nat} {t : WireType} {v : Value}

/-- **What is written as a value of a type is what the type announces**, unless an empty variant is
in it, for which nothing is written. -/
theorem announces_encodeWithin (hwithin : Within n t v) :
    Filled t v → Announces t.pieces (encodeWithin n t v) := by
  induction hwithin with
  | basic =>
    intro _
    rw [encodeWithin_eq, encodeWith]
    exact announces_encode_basic _ _
  | @variant n v _ ih =>
    intro hfilled m m' hm hp h
    rw [encodeWithin, encodeWith] at h
    obtain ⟨b, m₁, hlift, h⟩ := run_bind_eq_ok.mp h
    obtain ⟨hb, rfl⟩ := run_lift_eq_ok.mp hlift
    obtain ⟨mark, p, _ | t, rfl⟩ := exists_variant_of_boxed hb
    · exact absurd hb (hfilled.here mark p)
    · exact (ih mark p t hb (hfilled.held hb)).bracket hm hp h
  | array _ ih =>
    intro hfilled
    rw [encodeWithin_eq] at ih ⊢
    rw [encodeWith, collection_eq]
    refine announces_orRefuse fun vs hvs => ?_
    have hvs := Value.eq_of_collection? hvs
    exact (announces_forM fun u hu => ih vs hvs u hu (hfilled.element hvs hu)).bracket
  | dict _ ih =>
    intro hfilled
    rw [encodeWithin_eq] at ih ⊢
    rw [encodeWith_dict, collection_eq]
    refine announces_orRefuse fun ps hps => ?_
    have hps := Value.eq_of_collection? hps
    exact (announces_forM fun p hp => ih ps hps p hp (hfilled.pair hps hp)).bracket
  | @entry n k x v _ _ ihk ihx =>
    intro hfilled
    rw [encodeWithin_eq] at ihk ihx ⊢
    rw [encodeWith, entryParts_eq]
    refine announces_orRefuse fun parts hac => ?_
    obtain ⟨a, c⟩ := parts
    have hac := Value.eq_of_entryParts? hac
    have hboth := (ihk a c hac (hfilled.key hac)).bind (ihx a c hac (hfilled.value hac))
    have hentry : Announces [(entryOf k x).signature] _ := hboth.bracket
    simp only [bind_assoc] at hentry
    exact hentry
  | struct _ ih =>
    intro hfilled
    rw [encodeWithin_eq] at ih ⊢
    rw [encodeWith, fields_eq]
    refine announces_orRefuse fun vs hvs => ?_
    split
    · exact announces_fail _
    · rename_i hlen
      have hvs := Value.eq_of_fields? hvs
      exact (announces_encodeFields (not_not.mp hlen) fun p hp =>
        ih vs hvs p hp (hfilled.field hvs hp)).bracket
  | tuple _ ih =>
    intro hfilled
    rw [encodeWithin_eq] at ih ⊢
    rw [encodeWith, fields_eq]
    refine announces_orRefuse fun vs hvs => ?_
    split
    · exact announces_fail _
    · rename_i hlen
      have hvs := Value.eq_of_fields? hvs
      exact announces_encodeFields (not_not.mp hlen) fun p hp =>
        ih vs hvs p hp (hfilled.part hvs hp)

end WireType

/-! ## Messages that are being written -/

namespace Message

variable {m m' : Message} {start : List Item}

/-- As long as the message is being written, it holds these items, and behind them others that have
left just its open containers open. -/
structure Growing (start : List Item) (m : Message) : Prop where
  sound : m.isValid = true → m.writeFailed = false
  steps : m.stream.isSealed = false → m.writeFailed = false →
    ∃ seg, m.stream.items = start ++ seg ∧ Item.Steps [] seg m.frames

theorem growing_ofStream (s : Stream) : (ofStream s).Growing s.items :=
  ⟨fun _ => rfl, fun _ _ => ⟨[], (List.append_nil _).symm, .nil⟩⟩

theorem Growing.proper (h : m.Growing start) (hm : m.Writable) : Proper m.frames := by
  obtain ⟨seg, -, hsteps⟩ := h.steps hm.unsealed (h.sound hm.valid)
  exact ⟨seg, Item.Pending.steps (.top .nil) hsteps⟩

theorem enduring_sound : Enduring fun m => m.isValid = true → m.writeFailed = false where
  turns ht h hv := by
    rw [isValid, ht.failure] at hv
    rw [ht.writeFailed]
    exact h hv
  fail f _ hv := by
    rw [isValid_fail] at hv
    cases hv
  early _ hv := nomatch hv
  reset hreset _ _ := by
    obtain ⟨hw, rfl⟩ := resetFailure_eq_ok.mp hreset
    exact hw

theorem isSealed_of_rewind (h : m.rewind = .ok m') : m'.stream.isSealed = true := by
  unfold rewind at h
  split at h
  · split at h <;> cases h
    rfl
  · cases h
    rfl

/-- A message that has been sent is sealed, and one that could not be sent is as it was. -/
theorem send_cases (m : Message) (l : Loopback) :
    (m.send l).2.1 = m ∨ (m.send l).2.1.stream.isSealed = true := by
  unfold send
  split
  · exact .inl rfl
  · rename_i m₁ h
    obtain ⟨_, -, hrewind⟩ := bind_eq_ok.mp h
    exact .inr ((turns_loopback (m := m₁) l).isSealed (isSealed_of_rewind hrewind))

/-- The second message holds what the first does, with the same containers open, and has failed
while it was written if that has. -/
structure SameBuild (m m' : Message) : Prop where
  items : m'.stream.items = m.stream.items
  frames : m'.frames = m.frames
  writeFailed : m'.writeFailed = m.writeFailed

theorem SameBuild.refl (m : Message) : m.SameBuild m := ⟨rfl, rfl, rfl⟩

theorem OnlyAsked.sameBuild (h : m.OnlyAsked m') : m.SameBuild m' :=
  ⟨congrArg Stream.items h.stream, h.frames, h.writeFailed⟩

end Message

namespace Use

open TypedBus.Action

variable {m : Message} {start : List Item}

/-- A use that does not write leaves what has been built of a message that is being written, seals
the message, or is the end of it. -/
theorem perform_of_unsealed (hm : m.stream.isSealed = false) (u : Use) (hu : u.writing? = none) :
    m.SameBuild (u.perform m) ∨ (u.perform m).stream.isSealed = true ∨ (u.perform m).Final := by
  have hread : ∀ {ρ} {c : Call}, c.isReading = true → m.SameBuild (c.perform ρ m).2 :=
    fun hc => (Call.onlyAsked_perform hm hc (.refl m)).sameBuild
  cases u with
  | encode t v => cases hu
  | decode ρ t => exact .inl ((OnlyAsked.refl m).early (early_decode ρ t) hm).sameBuild
  | send l =>
    rcases send_cases m l with hkeep | hsealed
    · exact .inl (by rw [perform, hkeep]; exact .refl m)
    · exact .inr (.inl hsealed)
  | address destination => exact .inl ⟨rfl, rfl, rfl⟩
  | copy =>
    refine .inl ⟨rfl, ?_, rfl⟩
    simp [perform, Message.copy, hm]
  | call ρ c =>
    cases c with
    | write | openContainer | closeContainer => cases hu
    | read | enterContainer | exitContainer | atEnd | peekType | resetFailure =>
      exact .inl (hread rfl)
    | fail reason =>
      cases hv : m.isValid with
      | false => exact .inl (by rw [perform, Call.perform, fail_of_invalid hv]; exact .refl m)
      | true =>
        refine .inr (.inr ⟨isValid_fail _, ?_⟩)
        simp [perform, Call.perform, Message.fail, hv, hm]
    | check =>
      change m.SameBuild (Call.change m .message (m.check.map fun _ => m)).2 ∨ _
      cases m.check <;> exact .inl (.refl m)
    | rewind =>
      simp only [perform, Call.perform]
      rcases hrewind : m.rewind with f | m'
      · exact .inl (.refl m)
      · exact .inr (.inl (isSealed_of_rewind hrewind))

theorem growing_perform (h : m.Growing start) (u : Use) : (u.perform m).Growing start := by
  rcases hu : u.writing? with _ | x
  · refine ⟨keeps enduring_sound u (by simp [hu]) h.sound, fun hs hw => ?_⟩
    have hunsealed : m.stream.isSealed = false := by
      cases hm : m.stream.isSealed with
      | false => rfl
      | true =>
        have hcontent := keeps (enduring_sameContent m) u (by simp [hu]) (.refl m)
        rw [hcontent.isSealed hm] at hs
        cases hs
    rcases perform_of_unsealed hunsealed u hu with hsame | hsealed | hfinal
    · rw [hsame.items, hsame.frames]
      exact h.steps hunsealed (hsame.writeFailed ▸ hw)
    · rw [hsealed] at hs
      cases hs
    · rw [hfinal.writeFailed] at hw
      cases hw
  · rw [perform_of_writing? hu]
    generalize hrun : x.run m = result
    cases hrun ▸ comes hu m with
    | final hfinal =>
      exact ⟨(fun hv => by rw [hfinal.invalid] at hv; cases hv),
        (fun _ hw => by rw [hfinal.writeFailed] at hw; cases hw)⟩
    | grows hm _ hseg =>
      have hw := h.sound hm.valid
      refine ⟨fun _ => hseg.writeFailed.trans hw, fun _ _ => ?_⟩
      obtain ⟨seg, hitems, hsteps⟩ := h.steps hm.unsealed hw
      refine ⟨seg ++ _, ?_, Item.steps_append_iff.mpr ⟨_, hsteps, hseg.steps⟩⟩
      rw [hseg.items, hitems, List.append_assoc]
    | spared hvalid _ =>
      exact ⟨fun hv => h.sound (hvalid (Option.isNone_iff_eq_none.mp hv)), h.steps⟩

/-- **The open containers of a message are those that its items have left open**, whatever has been
done with it, as long as it is being written and has not failed. -/
theorem growing_after (uses : List Use) (h : m.Growing start) : (after uses m).Growing start := by
  induction uses generalizing m with
  | nil => exact h
  | cons u uses ih => exact ih (growing_perform h u)

end Use

/-! ## Signatures -/

namespace Item

variable {R : Rules} {parent : Option Kind} {ss : List Text} {items : List Item}

/-- Complete values count at the outermost level only. -/
theorem Spells.topLevel_append (h : Spells R parent ss items) :
    ∀ {depth : Int}, 0 ≤ depth → ∀ more : List Item,
      topLevel depth (items ++ more) = (if depth = 0 then ss else []) ++ topLevel depth more := by
  induction h with
  | nil => simp
  | basic _ _ ih =>
    intro depth hdepth more
    rw [List.cons_append, topLevel, ih hdepth]
    by_cases h : depth = 0 <;> simp [h]
  | container _ _ _ _ _ ihin ih =>
    intro depth hdepth more
    have hinside : ¬ depth + 1 = 0 := by omega
    rw [List.cons_append, topLevel, List.append_assoc, ihin (by omega), List.cons_append, topLevel,
      Int.add_sub_cancel, ih hdepth, if_neg hinside]
    by_cases h : depth = 0 <;> simp [h]

theorem WellFormed.append (h : WellFormed items) {more : List Item} (hmore : WellFormed more) :
    WellFormed (items ++ more) := by
  obtain ⟨ss, hss⟩ := h
  obtain ⟨ss', hss'⟩ := hmore
  exact ⟨_, hss.append hss'⟩

/-- Behind complete values, more of them add their signatures. -/
theorem WellFormed.topLevel_append (h : WellFormed items) {more : List Item}
    (hmore : Spells .written none ss more) :
    topLevel 0 (items ++ more) = topLevel 0 items ++ ss := by
  obtain ⟨ss', hss'⟩ := h
  have hitems := hss'.topLevel_append (Int.le_refl 0) []
  have hrest := hmore.topLevel_append (Int.le_refl 0) []
  simp only [List.append_nil, if_true, topLevel] at hitems hrest
  rw [hss'.topLevel_append (Int.le_refl 0), hrest, hitems, if_pos rfl]

end Item

namespace Message

variable {m m' : Message} {v : Value} {type : Option TypeExpr}

/-- A write that succeeds adds what its type announces. -/
theorem adds_of_write (hm : m.Writable) (hp : Proper m.frames) (hv : v.isMarker = false)
    (hfilled : ∀ t, typeFor v type = .ok t → Filled t v)
    (h : (write v type).run m = (.ok (), m')) :
    ∃ t, typeFor v type = .ok t ∧ m.Adds t.pieces m' := by
  rw [run_write hm.valid hv] at h
  obtain ⟨t, m₁, hlift, hrun⟩ := Action.run_bind_eq_ok.mp h
  obtain ⟨ht, rfl⟩ := Action.run_lift_eq_ok.mp hlift
  exact ⟨t, ht, announces_encodeWithin (within_depth t v) (hfilled t ht) hm hp hrun⟩

/-- Writes one after the other add what their types announce. -/
theorem adds_of_writes : ∀ {writes : List (Value × Option TypeExpr)} {m : Message}, m.Writable →
    Proper m.frames →
    (∀ w ∈ writes, w.1.isMarker = false ∧ ∀ t, typeFor w.1 w.2 = .ok t → Filled t w.1) →
    ((writes.map fun w => WriteCall.value w.1 w.2).forM WriteCall.action).run m = (.ok (), m') →
    ∃ ts, List.Forall₂ (fun w t => typeFor w.1 w.2 = .ok t) writes ts ∧ m.Adds (piecesAll ts) m'
  | [], m, hm, _, _, h => by
    cases h
    exact ⟨[], .nil, .nil hm⟩
  | w :: writes, m, hm, hp, hwrites, h => by
    obtain ⟨⟨hv, hfilled⟩, hwrites⟩ := List.forall_mem_cons.mp hwrites
    rw [List.map_cons, List.forM] at h
    obtain ⟨_, m₁, hrun, h⟩ := Action.run_bind_eq_ok.mp h
    obtain ⟨t, ht, hadds⟩ := adds_of_write hm hp hv hfilled hrun
    obtain ⟨ts, hts, hmore⟩ := adds_of_writes hadds.writable (hadds.proper hp) hwrites h
    exact ⟨t :: ts, .cons ht hts, hadds.append hmore⟩

end Message

namespace WriteCall

variable {m m' : Message}

/-- **What is written is what its type announces.** Whatever has been done with a message that is
still being written: a value in which no empty variant stands, and which is no marker, adds complete
values whose signatures are together that of its type, if nothing is raised and the message stays
valid; the open containers stay, and the innermost counts these values unless it is an array. At the
outermost level, a row of such writes adds the signatures of its types to that of the message. -/
theorem adds_announced (s : Stream) (uses : List Use) :
    let m := Use.after uses (ofStream s)
    m.Writable →
    (∀ v type outcome m', v.isMarker = false → (∀ t, typeFor v type = .ok t → Filled t v) →
      (write v type).run m = (outcome, m') → (∀ f, outcome ≠ .error (.raised f)) →
      m'.isValid = true →
      ∃ t seg, typeFor v type = .ok t ∧ m'.stream.items = m.stream.items ++ seg ∧
        Item.Spells .written (Item.innermost m.frames) t.pieces seg ∧
        t.pieces.flatten = t.signature ∧ m'.frames = advance t.pieces.length m.frames) ∧
    (Item.WellFormed s.items → m.frames = [] → ∀ writes : List (Value × Option TypeExpr),
      (∀ w ∈ writes, w.1.isMarker = false ∧ ∀ t, typeFor w.1 w.2 = .ok t → Filled t w.1) →
      let calls := writes.map fun w => value w.1 w.2
      NoneRaises calls m → (after calls m).isValid = true →
      ∃ ts, List.Forall₂ (fun w t => typeFor w.1 w.2 = .ok t) writes ts ∧
        (after calls m).frames = [] ∧
        (after calls m).stream.signature = m.stream.signature ++ signatures ts) := by
  intro m hm
  have hgrowing : m.Growing s.items := Use.growing_after uses (growing_ofStream s)
  have hproper := hgrowing.proper hm
  constructor
  · intro v type outcome m' hv hfilled hrun hraise hvalid
    have hok : outcome = .ok () := by
      rcases outcome with stop | _
      · rcases settles_action (.value v type) m stop m' hrun with ⟨-, hinvalid⟩ | ⟨f, rfl⟩
        · rw [hvalid] at hinvalid
          cases hinvalid
        · exact absurd rfl (hraise f)
      · rfl
    subst hok
    obtain ⟨t, ht, hadds⟩ := adds_of_write hm hproper hv hfilled hrun
    obtain ⟨seg, hseg, hspells⟩ := hadds.items
    exact ⟨t, seg, ht, hseg, hspells, flatten_pieces t, hadds.begins.eq_advance⟩
  · intro hstart htop writes hwrites calls hraises hvalid
    have hrun := run_forM_of_noneRaises hraises hvalid
    obtain ⟨ts, hts, hadds⟩ := adds_of_writes hm hproper hwrites hrun
    have hframes : (after calls m).frames = [] := by
      rw [hadds.begins.eq_advance, htop]
      rfl
    obtain ⟨seg, hseg, hspells⟩ := hadds.items
    -- what has been written so far is complete, since nothing is open
    have hwhole : Item.WellFormed m.stream.items := by
      obtain ⟨more, hitems, hsteps⟩ := hgrowing.steps hm.unsealed (hgrowing.sound hm.valid)
      rw [hitems]
      exact hstart.append (htop ▸ hsteps).wellFormed
    rw [htop] at hspells
    refine ⟨ts, hts, hframes, ?_⟩
    rw [Stream.signature, hseg, hwhole.topLevel_append hspells, Text.concat, List.flatten_append,
      flatten_piecesAll]
    rfl

/-- A struct of two integers and a variant is open. -/
def openStruct : List Use := [.call {} (.openContainer (structOf [.int32, .int32, .variant]))]

/-- Two integers as a tuple, and an integer in an array of variants. -/
def pairAndArray : List (Value × Option TypeExpr) :=
  [(.tuple [.integer 1, .integer 2], some (.wire (.tuple [.int32, .int32]))),
    (.list none [.integer 5], some (.wire (.array .variant)))]

/-- Two values are written as a tuple into an open struct, and at the outermost level before an
array of variants. -/
theorem adds_pair :
    let m := Use.after openStruct (ofStream {})
    let calls := pairAndArray.map fun w => value w.1 w.2
    m.Writable ∧
    (∃ m',
      (write (.tuple [.integer 1, .integer 2]) (some (.wire (.tuple [.int32, .int32])))).run m =
        (.ok (), m') ∧ m'.isValid = true ∧ m'.frames = advance 2 m.frames) ∧
    NoneRaises calls (ofStream {}) ∧ (after calls (ofStream {})).isValid = true ∧
      (after calls (ofStream {})).stream.signature = "iiav" := by
  intro m calls
  have hfilled : ∀ w ∈ pairAndArray,
      w.1.isMarker = false ∧ ∀ t, typeFor w.1 w.2 = .ok t → Filled t w.1 := by
    refine List.forall_mem_cons.mpr ⟨⟨rfl, ?_⟩, List.forall_mem_singleton.mpr ⟨rfl, ?_⟩⟩
    · rintro _ ⟨⟩
      refine .tuple trivial fun vs hvs => ?_
      cases hvs
      simp only [List.zip_cons_cons, List.zip_nil_left, List.forall_mem_cons]
      exact ⟨.basic trivial, .basic trivial, List.forall_mem_nil _⟩
    · rintro _ ⟨⟩
      refine .array trivial fun vs hvs => ?_
      cases hvs
      refine List.forall_mem_singleton.mpr (.variant ?_ ?_)
      · rintro m p ⟨⟩
      · rintro m p t ⟨⟩
        exact .basic trivial
  have hm : m.Writable := ⟨by decide +kernel, by decide +kernel⟩
  have hnew : (ofStream {}).Writable := ⟨rfl, rfl⟩
  obtain ⟨m', hrun, hvalid⟩ : ∃ m',
      (write (.tuple [.integer 1, .integer 2]) (some (.wire (.tuple [.int32, .int32])))).run
        (Use.after openStruct (ofStream {})) = (.ok (), m') ∧ m'.isValid = true :=
    ⟨_, by cbv, rfl⟩
  obtain ⟨t, seg, ⟨⟩, -, -, -, hframes⟩ := (adds_announced {} _ hm).1 _ _ _ m'
    (hfilled _ List.mem_cons_self).1 (hfilled _ List.mem_cons_self).2 hrun (fun _ h => by cases h)
    hvalid
  have hisOk : ((calls.forM action).run (ofStream {})).1.isOk = true := by cbv
  have hraises := noneRaises_of_isOk hisOk
  have hcalls : (after calls (ofStream {})).isValid = true := by cbv
  obtain ⟨ts, hts, -, hsignature⟩ := (adds_announced {} [] hnew).2 ⟨[], .nil⟩ rfl pairAndArray
    hfilled hraises hcalls
  refine ⟨hm, ⟨m', hrun, hvalid, hframes⟩, hraises, hcalls, ?_⟩
  -- the two types are those that have been asked for
  rcases hts with _ | ⟨⟨⟩, _ | ⟨⟨⟩, ⟨⟩⟩⟩
  exact hsignature

/-- A marker that is written as a value opens a container: what it adds is not complete. -/
theorem not_adds_marker :
    ¬ ∀ (s : Stream) (uses : List Use) (v : Value) (type : Option TypeExpr) (m' : Message),
      (Use.after uses (ofStream s)).Writable → (∀ t, typeFor v type = .ok t → Filled t v) →
      (write v type).run (Use.after uses (ofStream s)) = (.ok (), m') → m'.isValid = true →
      ∃ t ss seg, typeFor v type = .ok t ∧
        m'.stream.items = (Use.after uses (ofStream s)).stream.items ++ seg ∧
        Item.Spells .written (Item.innermost (Use.after uses (ofStream s)).frames) ss seg ∧
        ss.flatten = t.signature ∧
        m'.frames = advance ss.length (Use.after uses (ofStream s)).frames := by
  intro h
  have hrun : (write (.opening (arrayOf .int32)) (some (.wire (.array .int32)))).run (ofStream {}) =
      (.ok (), (ofStream {}).add (.opening (arrayOf .int32))
        [{ container := arrayOf .int32, fields := ["i"] }]) :=
    (run_openContainer_eq_ok ⟨rfl, rfl⟩).mpr
      ⟨_, .opening (by decide +kernel) (.top (by decide)) rfl, rfl⟩
  have hfilled : ∀ t, typeFor (.opening (arrayOf .int32)) (some (.wire (.array .int32))) = .ok t →
      Filled t (.opening (arrayOf .int32)) := by
    rintro _ ⟨⟩
    exact .array trivial nofun
  obtain ⟨t, ss, seg, -, -, -, -, hframes⟩ := h {} [] _ _ _ ⟨rfl, rfl⟩ hfilled hrun rfl
  cases hframes

end WriteCall

end TypedBus
