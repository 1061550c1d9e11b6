import TypedBus.Proofs.Message.Sealed
import TypedBus.Proofs.Wire.Complete

/-!
# What the items of a message hold

The items of a message that a program has made lie in the domains of their codes, whatever has been
done with it (`BasicType.Carries`). As long as it has not failed for good, its descriptors are in
order too: the items that refer to one carry the places of the table, each once and in order
(`Message.InStep`), and each use has added to the table just the descriptors that it wrote
(`Action.Hands`).

A descriptor goes into the table before its item is added, so in the middle of a write the two are
out of step. If the write ends there, the message has failed for good.

* `Use.items_in_step`: all of this after any uses of a new message.
-/

namespace TypedBus

open Message WireType

/-! ## Domains -/

/-- No character of the text is NUL or a lone surrogate. -/
def Text.IsClean (t : Text) : Prop := ∀ p ∈ t, p.is '\x00' = false ∧ p.isSurrogate = false

theorem Text.isClean_of_check {t u : Text} (h : t.check = .ok u) : t.IsClean := by
  unfold check at h
  split at h
  · cases h
  · split at h
    · cases h
    · rename_i hnul hsurrogate
      simp only [List.any_eq_true, not_exists, not_and, Bool.not_eq_true] at hnul hsurrogate
      exact fun p hp => ⟨hnul p hp, hsurrogate p hp⟩

/-- A plain value lies in the domain of a basic type, where the table holds so many descriptors. -/
def BasicType.Carries (places : Nat) : BasicType → Value → Prop
  | integer w, .integer n => w.least ≤ n ∧ n ≤ w.greatest
  | boolean, .boolean _ => True
  | double, .double _ => True
  | string, .text t => t.IsClean
  | objectPath, .text t => t.IsClean ∧ ObjectPath.isValid t = true
  | signature, .text t => t.IsClean ∧ Signature.isValid t = true
  | handle, .integer i => 0 ≤ i ∧ i < places
  | _, _ => False

/-- What writing adds lies in the domain of its code. -/
theorem Item.IsWritten.carries {places : Nat} {code : Text} {v : Value}
    (h : (Item.basic code v).IsWritten places) :
    ∃ b : BasicType, code = [b.code] ∧ b.Carries places v := by
  generalize hitem : Item.basic code v = item at h
  cases h with
  | @basic b x hx hb =>
    cases hitem
    refine ⟨b, rfl, ?_⟩
    cases hx with
    | integer hn => exact hn
    | boolean | double => trivial
    | string ht => exact Text.isClean_of_check ht
    | objectPath ht hp => exact ⟨Text.isClean_of_check ht, hp⟩
    | signature ht hs => exact ⟨Text.isClean_of_check ht, hs⟩
    | handle => exact absurd rfl hb
  | @handle i hi =>
    cases hitem
    exact ⟨.handle, rfl, Int.natCast_nonneg i, Int.ofNat_lt.mpr hi⟩
  | opening | closing => cases hitem

namespace Message

/-- What a message holds is what writing adds, whatever is written next. -/
theorem standing_holdsWritten : Standing HoldsWritten where
  frames _ h := ⟨h.items, h.descriptors⟩
  fail f h := ⟨by rw [stream_fail]; exact h.items, by rw [stream_fail]; exact h.descriptors⟩
  barred h := ⟨h.items, h.descriptors⟩
  push {m item} hitem h := (h.add hitem : (m.add item m.frames).HoldsWritten)
  attach n h := h.carry (.handle n)

theorem enduring_holdsWritten : Enduring HoldsWritten where
  turns ht h := ⟨by rw [ht.items, ht.descriptors]; exact h.items,
    by rw [ht.descriptors]; exact h.descriptors⟩
  fail := standing_holdsWritten.fail
  early h := ⟨h.items, h.descriptors⟩
  reset hreset h := by
    unfold resetFailure at hreset
    split at hreset <;> cases hreset
    exact ⟨h.items, h.descriptors⟩

end Message

/-! ## Places -/

/-- The place in the table that an item carries which refers to a descriptor. -/
def Item.place? : Item → Option Value
  | basic code v => if code = [BasicType.handle.code] then some v else none
  | _ => none

namespace Message

variable {m m' : Message} {seg : List Item}

/-- The items that refer to descriptors carry the places of the table, each once and in order. -/
def InStep (m : Message) : Prop :=
  m.stream.items.filterMap Item.place? =
    (List.range m.stream.descriptors.length).map fun i => .integer i

theorem place?_eq_none {b : BasicType} (hb : b ≠ .handle) (v : Value) :
    (Item.basic [b.code] v).place? = none := by
  refine if_neg fun hcode => hb (Option.some.inj ?_)
  rw [← BasicType.ofCode?_code b, List.singleton_inj.mp hcode, BasicType.ofCode?_code]

theorem InStep.add_of_place? {item : Item} {fs : List Frame} (hm : m.InStep)
    (h : item.place? = none) : (m.add item fs).InStep := by
  unfold InStep at hm ⊢
  rw [add_items, List.filterMap_append, hm, List.filterMap_cons_none h]
  exact List.append_nil _

/-- A descriptor that is written goes to the end of the table, and its place into the item. -/
theorem InStep.carry {b : BasicType} {x : Value} {fs : List Frame} (hm : m.InStep)
    (hx : b.Holds x) : ((m.carry x).2.add (.basic [b.code] (m.carry x).1) fs).InStep := by
  by_cases hb : b = .handle
  · subst hb
    cases hx with
    | @handle n =>
      have hlength : (m.stream.descriptors ++ [Value.integer n]).length =
          m.stream.descriptors.length + 1 := List.length_append
      unfold InStep at hm ⊢
      rw [add_items, List.filterMap_append, carry_items, hm]
      change _ = (List.range (m.stream.descriptors ++ [Value.integer n]).length).map _
      rw [hlength, List.range_succ, List.map_append]
      rfl
  · have hcarry : (m.carry x).2 = m := by
      cases hx <;> first | rfl | exact absurd rfl hb
    rw [hcarry]
    exact hm.add_of_place? (place?_eq_none hb _)

theorem Grows.inStep (h : m.Grows seg m') (hm : m.InStep) : m'.InStep := by
  induction h with
  | refl _ => exact hm
  | opening _ _ ih | closing _ _ ih => exact ih.add_of_place? rfl
  | basic _ hx _ ih => exact ih.carry hx

theorem Grows.writeFailed (h : m.Grows seg m') : m'.writeFailed = m.writeFailed := by
  induction h with
  | refl _ => rfl
  | opening _ _ ih | closing _ _ ih => exact ih
  | @basic _ m₁ b x fs _ _ _ ih =>
    rw [← ih]
    cases x <;> rfl

/-- As long as the message has not failed for good, its descriptors are in step. -/
structure Orderly (m : Message) : Prop where
  sound : m.isValid = true → m.writeFailed = false
  inStep : m.writeFailed = false → m.InStep

theorem SameContent.inStep (h : m.SameContent m') (hm : m.InStep) : m'.InStep := by
  unfold InStep
  rw [h.items, h.descriptors]
  exact hm

theorem Final.orderly (h : m.Final) : m.Orderly where
  sound hv := by
    rw [h.invalid] at hv
    cases hv
  inStep hw := by
    rw [h.writeFailed] at hw
    cases hw

theorem orderly_ofEnvelope (e : Envelope) : (ofEnvelope e).Orderly := ⟨fun _ => rfl, fun _ => rfl⟩

theorem enduring_orderly : Enduring Orderly where
  turns ht h := by
    refine ⟨?_, fun hw => ht.toSameContent.inStep (h.inStep ?_)⟩
    · rw [isValid, ht.failure, ht.writeFailed]
      exact h.sound
    · rwa [ht.writeFailed] at hw
  fail {m} f h := by
    refine ⟨fun hv => ?_, fun hw => ?_⟩
    · rw [isValid_fail] at hv
      cases hv
    · have hm : m.writeFailed = false := by
        unfold Message.fail at hw
        split at hw
        · exact (Bool.or_eq_false_iff.mp hw).1
        · exact hw
      unfold InStep
      rw [stream_fail]
      exact h.inStep hm
  early h := ⟨nofun, h.inStep⟩
  reset {m m'} hreset h := by
    unfold resetFailure at hreset
    split at hreset <;> cases hreset
    rename_i hw
    exact ⟨fun _ => by simpa using hw, h.inStep⟩

end Message

/-! ## What a use comes to -/

namespace Use

open TypedBus.Action

variable {u : Use} {x : Action Unit} {m : Message}

/-- What a use that writes comes to: the message fails for good, or grows, or keeps its content. -/
inductive Comes (u : Use) (m : Message) : Except Stop Unit × Message → Prop
  | final {outcome : Except Stop Unit} {m' : Message} (h : m'.Final) : Comes u m (outcome, m')
  | grows {outcome : Except Stop Unit} {m' : Message} {seg : List Item} (hm : m.Writable)
      (hrun : outcome ≠ .error .failed) (h : m.Grows seg m') : Comes u m (outcome, m')
  | spared {outcome : Except Stop Unit} {failure : Option Failure}
      (hvalid : failure = none → m.isValid = true)
      (hrun : outcome = .ok () → u.beginning = .nothing) : Comes u m (outcome, { m with failure })

theorem comes (hx : u.writing? = some x) (m : Message) : u.Comes m (x.run m) := by
  rcases hv : m.isValid with _ | _
  · rw [run_writing?_of_invalid hv hx]
    exact .spared (fun h => by rw [isValid, h]; rfl) fun h => by cases h
  rcases hs : m.stream.isSealed with _ | _
  · have hm : m.Writable := ⟨hv, hs⟩
    have hwritten := admits_of_writing? standing_beingWritten.admits hx m hm.beingWritten
    rcases hrun : x.run m with ⟨outcome, m'⟩
    rw [hrun] at hwritten
    by_cases hfailed : outcome = .error .failed
    · subst hfailed
      have hinvalid : m'.isValid = false := by
        obtain ⟨-, h⟩ | ⟨f, h⟩ := admits_of_writing? admits_settlesOrRaises hx m _ m' hrun
        · exact h
        · cases h
      exact .final ⟨hinvalid, hwritten.failed hinvalid⟩
    · obtain ⟨seg, hseg⟩ := admits_of_writing? admits_onlyAdds hx hm hrun hfailed
      exact .grows hm hfailed hseg
  · have hrun := beginsOnSealed_of_writing? hx ⟨hv, hs⟩
    have hspared (outcome : Except Stop Unit) (h : outcome = .ok () → u.beginning = .nothing) :
        u.Comes m (outcome, m) := .spared (fun _ => hv) h
    rcases hb : u.beginning with f | _ | _ | _ <;> rw [hb] at hrun
    · rw [show x.run m = _ from hrun]
      exact hspared _ fun h => by cases h
    · obtain ⟨f, hrun⟩ := hrun
      rw [hrun]
      exact .spared (fun h => by cases h) fun h => by cases h
    · rw [show x.run m = _ from hrun]
      exact .final final_barred
    · rw [show x.run m = _ from hrun]
      exact hspared _ fun _ => hb

/-- **Descriptors stay in step**, whatever is done with a message. -/
theorem orderly_after (uses : List Use) (h : m.Orderly) : (after uses m).Orderly := by
  refine keeps_after enduring_orderly (fun u x hx m h => ?_) uses h
  generalize hrun : x.run m = result
  cases hrun ▸ comes hx m with
  | final h => exact h.orderly
  | grows hm _ hseg =>
    have hw := h.sound hm.valid
    exact ⟨fun _ => hseg.writeFailed.trans hw, fun _ => hseg.inStep (h.inStep hw)⟩
  | spared hvalid _ =>
    refine ⟨fun hv => h.sound (hvalid (Option.isNone_iff_eq_none.mp hv)), h.inStep⟩

end Use

/-! ## The descriptors that are written -/

namespace WireType

mutual

/-- The descriptors in a value, written as one of a type, in order, given those in a variant. -/
def handlesWith (box : Value → List Int) : WireType → Value → List Int
  | basic b, v =>
    match b.convert v with
    | .ok (.handle n) => [n]
    | _ => []
  | variant, v => box v
  | array e, v => ((v.collection? Value.elements?).getD []).flatMap (handlesWith box e)
  | dict k x, v =>
    ((v.collection? Value.pairs?).getD []).flatMap fun p =>
      match p.entryParts? with
      | some (a, c) => handlesWith box k a ++ handlesWith box x c
      | none => []
  | entry k x, v =>
    match v.entryParts? with
    | some (a, c) => handlesWith box k a ++ handlesWith box x c
    | none => []
  | struct fs, v | tuple fs, v => handlesOfRow box fs (v.fields?.getD [])

/-- The descriptors in a row of values, written as ones of a row of types, in order. -/
def handlesOfRow (box : Value → List Int) : List WireType → List Value → List Int
  | [], _ => []
  | _ :: _, [] => []
  | f :: fs, v :: vs => handlesWith box f v ++ handlesOfRow box fs vs

end

/-- The descriptors in a value in the place of a variant, given those in a value of a type. -/
def handlesBoxed (handles : WireType → Value → List Int) (v : Value) : List Int :=
  match boxed v with
  | .ok (.variant _ p (some t)) => handles t p
  | _ => []

/-- The descriptors in a value, in which so many variants lie inside one another. -/
def handlesWithin : Nat → WireType → Value → List Int
  | 0 => handlesWith fun _ => []
  | n + 1 => handlesWith (handlesBoxed (handlesWithin n))

/-- The descriptors in a value, written as one of a type, in order. -/
def handles (t : WireType) (v : Value) : List Int := handlesWithin v.depth t v

end WireType

namespace Action

variable {m m' : Message} {x y : Action Unit} {hs hs' : List Int} {v : Value}
  {failure : Text → Failure}

/-- The action writes these descriptors in order, as many as it comes to before a fault stops it. -/
def Hands (hs : List Int) (x : Action Unit) : Prop :=
  ∀ ⦃m⦄, m.Writable → ∀ ⦃outcome m'⦄, x.run m = (outcome, m') → outcome ≠ .error .failed →
    ∃ ns, ns <+: hs ∧ m'.stream.descriptors = m.stream.descriptors ++ ns.map .integer ∧
      (outcome = .ok () → ns = hs ∧ m'.Writable)

theorem hands_pure : Hands [] (pure ()) := by
  intro m hm outcome m' h _
  cases h
  exact ⟨[], List.prefix_refl _, by simp, fun _ => ⟨rfl, hm⟩⟩

theorem hands_raise (f : Fault) : Hands hs (raise f) := by
  intro m hm outcome m' h _
  cases h
  exact ⟨[], List.nil_prefix, by simp, nofun⟩

theorem hands_fail (f : Failure) : Hands hs (do fail f; x) := by
  intro m hm outcome m' h hfailed
  rw [run_bind_of_error (run_fail f m)] at h
  cases h
  exact absurd rfl hfailed

theorem Hands.bind (hx : Hands hs x) (hy : Hands hs' y) : Hands (hs ++ hs') (do x; y) := by
  intro m hm outcome m' h hfailed
  rcases hrun : x.run m with ⟨stop | _, m₁⟩
  · rw [run_bind_of_error hrun] at h
    cases h
    obtain ⟨ns, hns, hdescriptors, -⟩ := hx hm hrun hfailed
    exact ⟨ns, hns.trans (List.prefix_append hs hs'), hdescriptors, nofun⟩
  · rw [run_bind_of_ok hrun] at h
    obtain ⟨_, -, hdescriptors, hok⟩ := hx hm hrun nofun
    obtain ⟨rfl, hm₁⟩ := hok rfl
    obtain ⟨ns, hns, hmore, hok'⟩ := hy hm₁ h hfailed
    refine ⟨_ ++ ns, (List.prefix_append_right_inj _).mpr hns, ?_, fun ho => ?_⟩
    · rw [hmore, hdescriptors, List.map_append, List.append_assoc]
    · obtain ⟨rfl, hm'⟩ := hok' ho
      exact ⟨rfl, hm'⟩

/-- Where an action that adds an item raises nothing, only its success need be looked at. -/
theorem Hands.of_ok (herror : ∀ m, m.Writable → Settles x m ∨ (x.run m).2 = m)
    (hok : ∀ m m', m.Writable → x.run m = (.ok (), m') →
      m'.stream.descriptors = m.stream.descriptors ++ hs.map .integer ∧ m'.Writable) :
    Hands hs x := by
  intro m hm outcome m' h hfailed
  rcases outcome with stop | _
  · rcases herror m hm with hset | hsame
    · exact absurd (congrArg _ (hset stop m' h).1) hfailed
    · rw [h] at hsame
      subst hsame
      exact ⟨[], List.nil_prefix, by simp, nofun⟩
  · obtain ⟨hdescriptors, hm'⟩ := hok m m' hm h
    exact ⟨hs, List.prefix_refl _, hdescriptors, fun _ => ⟨rfl, hm'⟩⟩

theorem hands_openContainer (c : Container) : Hands [] (openContainer c) :=
  .of_ok (fun _ _ => .inl settles_openContainer) fun m m' hm h => by
    obtain ⟨fs, -, rfl⟩ := (run_openContainer_eq_ok hm).mp h
    exact ⟨by simp, hm.add _ _⟩

theorem hands_closeContainer : Hands [] closeContainer :=
  .of_ok (fun _ => settles_closeContainer_or) fun m m' hm h => by
    obtain ⟨fs, -, rfl⟩ := (run_closeContainer_eq_ok hm).mp h
    exact ⟨by simp, hm.add _ _⟩

theorem hands_encodeBasic (box : Value → List Int) (b : BasicType) (v : Value) :
    Hands (handlesWith box (.basic b) v) (b.encode v) :=
  .of_ok (fun _ _ => .inl settles_encode_basic) fun m m' hm h => by
    obtain ⟨x, fs, hx, -, rfl⟩ := (run_encode_basic_eq_ok hm).mp h
    rw [handlesWith, hx]
    refine ⟨?_, (hm.carry x).add _ _⟩
    cases x with
    | handle n => rfl
    | _ => exact (List.append_nil _).symm

theorem hands_forM {α : Type} {g : α → List Int} {f : α → Action Unit}
    (h : ∀ a, Hands (g a) (f a)) : ∀ as : List α, Hands (as.flatMap g) (as.forM f)
  | [] => hands_pure
  | a :: as => by
    rw [List.flatMap_cons]
    exact (h a).bind (hands_forM h as)

theorem hands_orRefuse {α : Type} {o : Option α} {g : α → Action Unit}
    (hg : ∀ a, o = some a → Hands hs (g a)) : Hands hs (do g (← orRefuse v failure o)) := by
  cases o with
  | some a => exact hg a rfl
  | none =>
    unfold orRefuse refuse
    cases v.display with
    | ok shown => exact hands_fail (x := pure ()) (failure shown)
    | error f => exact hands_raise f

theorem Hands.bracket {c : Container} (h : Hands hs x) :
    Hands hs (do openContainer c; x; closeContainer) := by
  simpa using (hands_openContainer c).bind (h.bind hands_closeContainer)

/-! ### Values of a type -/

variable {box : Value → Action Unit} {hbox : Value → List Int}

mutual

/-- Writing a value writes the descriptors in it, if it does so where a variant is written. -/
theorem hands_encodeWith (hb : ∀ v, Hands (hbox v) (box v)) :
    ∀ (t : WireType) (v : Value), Hands (handlesWith hbox t v) (encodeWith box t v)
  | .basic b, v => by
    rw [encodeWith]
    exact hands_encodeBasic hbox b v
  | .variant, v => by
    rw [encodeWith, handlesWith]
    exact hb v
  | .array e, v => by
    rw [encodeWith, collection_eq, handlesWith]
    refine hands_orRefuse fun vs hvs => ?_
    rw [hvs, Option.getD_some]
    exact (hands_forM (hands_encodeWith hb e) vs).bracket
  | .dict k x, v => by
    rw [encodeWith, collection_eq, handlesWith]
    refine hands_orRefuse fun ps hps => ?_
    rw [hps, Option.getD_some]
    refine (hands_forM (fun p => ?_) ps).bracket
    rw [entryParts_eq]
    refine hands_orRefuse fun parts hac => ?_
    rw [hac]
    simpa only [bind_assoc] using
      ((hands_encodeWith hb k parts.1).bind (hands_encodeWith hb x parts.2)).bracket
  | .entry k x, v => by
    rw [encodeWith, entryParts_eq, handlesWith]
    refine hands_orRefuse fun parts hac => ?_
    rw [hac]
    simpa only [bind_assoc] using
      ((hands_encodeWith hb k parts.1).bind (hands_encodeWith hb x parts.2)).bracket
  | .struct fs, v => by
    rw [encodeWith, fields_eq, handlesWith]
    refine hands_orRefuse fun vs hvs => ?_
    rw [hvs, Option.getD_some]
    split
    · exact hands_fail _
    · exact (hands_encodeFields hb fs vs).bracket
  | .tuple fs, v => by
    rw [encodeWith, fields_eq, handlesWith]
    refine hands_orRefuse fun vs hvs => ?_
    rw [hvs, Option.getD_some]
    split
    · exact hands_fail _
    · exact hands_encodeFields hb fs vs

theorem hands_encodeFields (hb : ∀ v, Hands (hbox v) (box v)) :
    ∀ (fs : List WireType) (vs : List Value),
      Hands (handlesOfRow hbox fs vs) (encodeFields box fs vs)
  | [], _ => by
    rw [encodeFields, handlesOfRow]
    exact hands_pure
  | _ :: _, [] => by
    rw [encodeFields, handlesOfRow]
    exact hands_pure
  | f :: fs, v :: vs => by
    rw [encodeFields, handlesOfRow]
    exact (hands_encodeWith hb f v).bind (hands_encodeFields hb fs vs)

end

/-- **Writing a value writes the descriptors in it, in order.** -/
theorem hands_encodeWithin :
    ∀ (n : Nat) (t : WireType) (v : Value), Hands (handlesWithin n t v) (encodeWithin n t v)
  | 0, t, v => hands_encodeWith (fun _ => hands_raise _) t v
  | n + 1, t, v => by
    refine hands_encodeWith (fun v => ?_) t v
    unfold encodeBoxed handlesBoxed
    rcases boxed v with f | b
    · exact hands_raise f
    · rw [show Action.lift (.ok b) = pure b from rfl, pure_bind]
      cases b with
      | variant m p o =>
        cases o with
        | none => exact hands_pure
        | some t => exact (hands_encodeWithin n t p).bracket
      | _ => exact hands_pure

end Action

/-- A value that there is nothing to write for has no descriptors in it. -/
theorem WireType.handles_of_nothing {t : WireType} {v : Value} (h : t.beginning v = .nothing) :
    t.handles v = [] := by
  have hm : (ofEnvelope {}).Writable := ⟨rfl, rfl⟩
  have hbegins := begins_encodeWithin (within_depth t v) hm
  rw [h] at hbegins
  have hrun : (encodeWithin v.depth t v).run (ofEnvelope {}) = (.ok (), ofEnvelope {}) :=
    Prod.ext hbegins.1 hbegins.2
  obtain ⟨ns, -, hdescriptors, hok⟩ := Action.hands_encodeWithin v.depth t v hm hrun nofun
  rw [List.self_eq_append_right, List.map_eq_nil_iff] at hdescriptors
  exact (hok rfl).1.symm.trans hdescriptors

/-! ## Uses -/

namespace WriteCall

open TypedBus.Action

/-- The descriptors that a call writes, in order. -/
def handles : WriteCall → List Int
  | opening _ | closing => []
  | value v type =>
    if v.isMarker then []
    else
      match typeFor v type with
      | .error _ => []
      | .ok t => t.handles v

theorem hands_action (call : WriteCall) : Hands call.handles call.action := by
  cases call with
  | opening c => exact hands_openContainer c
  | closing => exact hands_closeContainer
  | value v type =>
    rw [handles]
    rcases hv : v.isMarker with _ | _
    · intro m hm
      rw [action, run_write hm.valid hv]
      rcases typeFor v type with f | t
      · exact hands_raise f hm
      · exact hands_encodeWithin v.depth t v hm
    · obtain ⟨c, rfl⟩ | rfl := Value.eq_of_isMarker hv
      · exact hands_openContainer c
      · exact hands_closeContainer

theorem handles_of_nothing {call : WriteCall} (h : call.beginning = .nothing) :
    call.handles = [] := by
  cases call with
  | opening | closing => rfl
  | value v type =>
    rw [beginning] at h
    rw [handles]
    split at h
    · cases h
    · rename_i hv
      rw [if_neg hv]
      rcases ht : typeFor v type with f | t
      · rfl
      · rw [ht] at h
        exact WireType.handles_of_nothing h

end WriteCall

namespace Use

open TypedBus.Action

/-- The descriptors that a use writes, in order. -/
def handles : Use → List Int
  | call _ (.write v type) => (WriteCall.value v type).handles
  | encode t v => t.handles v
  | _ => []

/-- The use writes all that it has to write. -/
def Completes (m : Message) (u : Use) : Prop := ∀ x, u.writing? = some x → (x.run m).1 = .ok ()

variable {u : Use} {x : Action Unit} {m : Message}

theorem handles_of_not_writing (h : u.writing? = none) : u.handles = [] := by
  cases u with
  | call ρ c => cases c <;> first | rfl | cases h
  | encode t v => cases h
  | _ => rfl

theorem handles_of_nothing (h : u.beginning = .nothing) : u.handles = [] := by
  cases u with
  | call ρ c =>
    cases c with
    | write v type =>
      have hcall : (WriteCall.value v type).beginning = .nothing := h
      exact WriteCall.handles_of_nothing hcall
    | _ => rfl
  | encode t v => exact WireType.handles_of_nothing h
  | _ => rfl

theorem hands_of_writing? (h : u.writing? = some x) : Hands u.handles x := by
  unfold writing? at h
  split at h <;> cases h
  case h_1 v type => exact WriteCall.hands_action (.value v type)
  case h_2 c => exact hands_openContainer c
  case h_3 => exact hands_closeContainer
  case h_4 t v =>
    intro m hm
    rw [WireType.encode, run_ifValid hm.valid]
    exact hands_encodeWithin v.depth t v hm

/-- **A use adds to the table the descriptors that it writes**, unless the message fails for
good. -/
theorem descriptors_perform (hw : (u.perform m).writeFailed = false) :
    ∃ ns, ns <+: u.handles ∧
      (u.perform m).stream.descriptors = m.stream.descriptors ++ ns.map .integer ∧
      (u.Completes m → ns = u.handles) := by
  rcases hx : u.writing? with _ | x
  · have hsame : m.SameContent (u.perform m) :=
      keeps (enduring_sameContent m) u (fun x h => by rw [hx] at h; cases h) (.refl m)
    refine ⟨[], List.nil_prefix, by simp [hsame.descriptors], fun _ => ?_⟩
    rw [handles_of_not_writing hx]
  · rw [perform_of_writing? hx] at hw ⊢
    have hcompletes (ho : u.Completes m) : (x.run m).1 = .ok () := ho x hx
    generalize hrun : x.run m = result at hw hcompletes
    cases hrun ▸ comes hx m with
    | final h =>
      rw [h.writeFailed] at hw
      cases hw
    | grows hm hfailed _ =>
      obtain ⟨ns, hns, hdescriptors, hok⟩ := hands_of_writing? hx hm hrun hfailed
      exact ⟨ns, hns, hdescriptors, fun ho => (hok (hcompletes ho)).1⟩
    | spared _ hnothing =>
      refine ⟨[], List.nil_prefix, by simp, fun ho => ?_⟩
      rw [handles_of_nothing (hnothing (hcompletes ho))]

/-- **Whatever is done with a new message, its items and its descriptors are in order**: every item
lies in the domain of its code; as long as the message has not failed for good, and so as long as it
is valid, the items that refer to a descriptor carry the places of the table, each once and in
order, and what is done next adds to the table the descriptors that it writes, all of them if it
succeeds. -/
theorem items_in_step (e : Envelope) (uses : List Use) :
    (∀ code v, .basic code v ∈ (after uses (ofEnvelope e)).stream.items →
      ∃ b : BasicType, code = [b.code] ∧
        b.Carries (after uses (ofEnvelope e)).stream.descriptors.length v) ∧
    ((after uses (ofEnvelope e)).isValid = true →
      (after uses (ofEnvelope e)).writeFailed = false) ∧
    ((after uses (ofEnvelope e)).writeFailed = false →
      (after uses (ofEnvelope e)).stream.items.filterMap Item.place? =
        (List.range (after uses (ofEnvelope e)).stream.descriptors.length).map
          fun i => .integer i) ∧
    ∀ u : Use, (u.perform (after uses (ofEnvelope e))).writeFailed = false →
      ∃ ns, ns <+: u.handles ∧
        (u.perform (after uses (ofEnvelope e))).stream.descriptors =
          (after uses (ofEnvelope e)).stream.descriptors ++ ns.map .integer ∧
        (u.Completes (after uses (ofEnvelope e)) → ns = u.handles) := by
  have hfresh : (ofEnvelope e).HoldsWritten := ⟨nofun, nofun⟩
  have hholds : (after uses (ofEnvelope e)).HoldsWritten :=
    keeps_after enduring_holdsWritten
      (fun _ _ hx => admits_of_writing? standing_holdsWritten.admits hx) uses hfresh
  have horderly := orderly_after uses (orderly_ofEnvelope e)
  exact ⟨fun code v hitem => (hholds.items _ hitem).carries, horderly.sound, horderly.inStep,
    fun u => descriptors_perform⟩

/-- A struct is written of a descriptor and a variant that holds another. -/
def writeTwoDescriptors : Use :=
  .call {} (.write (.tuple [.integer 7, .variant none (.handle 9) (some (.basic .handle))])
    (some (.wire (.struct [.basic .handle, .variant]))))

/-- The two descriptors are in the table in order, and their items refer to them. -/
theorem in_step_twoDescriptors :
    (writeTwoDescriptors.perform (ofEnvelope {})).writeFailed = false ∧
      (writeTwoDescriptors.perform (ofEnvelope {})).stream.descriptors =
        [.integer 7, .integer 9] ∧
      (writeTwoDescriptors.perform (ofEnvelope {})).stream.items.filterMap Item.place? =
        [.integer 0, .integer 1] := by
  have hw : (writeTwoDescriptors.perform (ofEnvelope {})).writeFailed = false := by cbv
  have hhandles : writeTwoDescriptors.handles = [7, 9] := by cbv
  have hcompletes : writeTwoDescriptors.Completes (ofEnvelope {}) := by
    rintro x ⟨⟩
    cbv
  obtain ⟨ns, -, hdescriptors, hall⟩ := (items_in_step {} []).2.2.2 writeTwoDescriptors hw
  obtain rfl := hall hcompletes
  rw [hhandles] at hdescriptors
  have hplaces := (items_in_step {} [writeTwoDescriptors]).2.2.1 hw
  change (writeTwoDescriptors.perform (ofEnvelope {})).stream.items.filterMap _ =
    (List.range (writeTwoDescriptors.perform _).stream.descriptors.length).map _ at hplaces
  change (writeTwoDescriptors.perform (ofEnvelope {})).stream.descriptors = _ at hdescriptors
  rw [hdescriptors] at hplaces
  exact ⟨hw, hdescriptors, hplaces⟩

end Use

end TypedBus
