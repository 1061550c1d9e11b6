import TypedBus.Proofs.Message.Fitting
import TypedBus.Proofs.Message.ReadExact

/-!
# Dicts as arrays of entries

On the wire a dict is an array of dict entries, and a type may spell it either way. Reading goes
about the two in steps of its own, which never part (`Action.Lockstep`): from any message at all,
reading a dict and reading an array of its entries stop alike and leave the same message, and where
they answer the dict is the one that comes of the entries in order (`Value.Merges`,
`WireType.lockstep_decode`). Writing a dict and writing the row of its keys and values is the same
(`WireType.encode_dict_eq`).

`Message.dict_spelling` puts both together.
-/

namespace TypedBus

open Message WireType

/-! ## Dicts that come of entries -/

namespace Value

/-- The dict comes of setting the keys to the values one after the other. A key that is there keeps
its place and takes the new value; any other goes behind the rest. -/
inductive Merges : List (Value × Value) → List (Value × Value) → Prop
  | nil : Merges [] []
  | new {ps es : List (Value × Value)} {a b : Value} (h : Merges ps es)
      (hnew : ∀ e ∈ es, agree e.1 a = false) : Merges (ps ++ [(a, b)]) (es ++ [(a, b)])
  | again {ps before after : List (Value × Value)} {key old a b : Value}
      (h : Merges ps (before ++ (key, old) :: after)) (hfirst : ∀ e ∈ before, agree e.1 a = false)
      (hkey : agree key a = true) : Merges (ps ++ [(a, b)]) (before ++ (key, b) :: after)

variable {ps es : List (Value × Value)} {a b : Value}

/-- Setting a key adds it behind the others, or changes the value of the first that agrees. -/
theorem insert_cases (a b : Value) (es : List (Value × Value)) :
    ((∀ e ∈ es, agree e.1 a = false) ∧ insert a b es = es ++ [(a, b)]) ∨
      ∃ before key old after, es = before ++ (key, old) :: after ∧
        (∀ e ∈ before, agree e.1 a = false) ∧ agree key a = true ∧
        insert a b es = before ++ (key, b) :: after := by
  induction es with
  | nil => exact .inl ⟨List.forall_mem_nil _, rfl⟩
  | cons e es ih =>
    rw [insert]
    rcases he : agree e.1 a with _ | _
    · rcases ih with ⟨hnew, hinsert⟩ | ⟨before, key, old, after, rfl, hfirst, hkey, hinsert⟩
      · exact .inl ⟨List.forall_mem_cons.mpr ⟨he, hnew⟩, by simp [hinsert]⟩
      · refine .inr ⟨e :: before, key, old, after, rfl, List.forall_mem_cons.mpr ⟨he, hfirst⟩,
          hkey, by simp [hinsert]⟩
    · exact .inr ⟨[], e.1, e.2, es, rfl, List.forall_mem_nil _, he, by simp⟩

theorem Merges.insert (h : Merges ps es) (a b : Value) :
    Merges (ps ++ [(a, b)]) (insert a b es) := by
  rcases insert_cases a b es with
    ⟨hnew, hinsert⟩ | ⟨before, key, old, after, rfl, hfirst, hkey, hinsert⟩
  · rw [hinsert]
    exact h.new hnew
  · rw [hinsert]
    exact h.again hfirst hkey

end Value

/-! ## Two actions that go the same way -/

namespace Action

variable {α α' β β' : Type} {R : α → β → Prop} {S : α' → β' → Prop} {x : Action α} {y : Action β}
  {f : α → Action α'} {g : β → Action β'} {m : Message}

/-- Both outcomes stop for the same reason or answer, with related answers, and leave the same
message. -/
inductive Together (R : α → β → Prop) : Except Stop α × Message → Except Stop β × Message → Prop
  | ok {a : α} {b : β} {m : Message} (h : R a b) : Together R (.ok a, m) (.ok b, m)
  | stop {s : Stop} {m : Message} : Together R (.error s, m) (.error s, m)

/-- From every message the two actions come to outcomes that go together. -/
def Lockstep (R : α → β → Prop) (x : Action α) (y : Action β) : Prop :=
  ∀ m, Together R (x.run m) (y.run m)

theorem lockstep_pure {a : α} {b : β} (h : R a b) : Lockstep R (pure a) (pure b) := fun _ => .ok h

/-- An action goes with itself, where what it answers is related to itself. -/
theorem lockstep_self {R : α → α → Prop} (h : ∀ a m m', x.run m = (.ok a, m') → R a a) :
    Lockstep R x x := by
  intro m
  rcases hrun : x.run m with ⟨_ | a, m'⟩
  · exact .stop
  · exact .ok (h a m m' hrun)

theorem Lockstep.bind (hx : Lockstep R x y) (hf : ∀ a b, R a b → Lockstep S (f a) (g b)) :
    Lockstep S (x >>= f) (y >>= g) := by
  intro m
  have h := hx m
  rw [run_bind, run_bind]
  generalize x.run m = outcome, y.run m = outcome' at h
  cases h with
  | ok h => exact hf _ _ h _
  | stop => exact .stop

/-- An action goes with itself before two that go the same way. -/
theorem Lockstep.after {z : Action α'} {f : α' → Action α} {g : α' → Action β}
    (h : ∀ a, Lockstep R (f a) (g a)) : Lockstep R (z >>= f) (z >>= g) :=
  (lockstep_self fun _ _ _ _ => rfl).bind fun _ _ hab => hab ▸ h _

theorem lockstep_untilEnd {step : α → Action α} {step' : β → Action β}
    (hstep : ∀ a b, R a b → Lockstep R (step a) (step' b)) :
    ∀ (n : Nat) {a : α} {b : β}, R a b → Lockstep R (untilEnd step n a) (untilEnd step' n b)
  | 0, _, _, _ => fun _ => .stop
  | n + 1, a, b, h => by
    rw [untilEnd, untilEnd]
    refine .after fun before => ?_
    split
    · exact lockstep_pure h
    · refine (hstep a b h).bind fun a b h => .after fun after => ?_
      split
      · exact lockstep_untilEnd hstep n h
      · exact fun _ => .stop

theorem lockstep_repeatUntilEnd {step : α → Action α} {step' : β → Action β}
    (hstep : ∀ a b, R a b → Lockstep R (step a) (step' b)) {a : α} {b : β} (h : R a b) :
    Lockstep R (repeatUntilEnd step a) (repeatUntilEnd step' b) :=
  .after fun _ => lockstep_untilEnd hstep _ h

end Action

/-! ## Reading -/

/-- What a basic type is read as is a value of it. -/
theorem BasicType.holds_of_run_decode {b : BasicType} {v : Value} {m m' : Message}
    (h : b.decode.run m = (.ok v, m')) : b.Holds v := by
  obtain ⟨u, m₁, -, h⟩ := Action.run_bind_eq_ok.mp h
  cases b with
  | handle =>
    have hresolve : ∀ {i}, (resolve i).run m₁ = (.ok v, m') → BasicType.handle.Holds v := by
      intro i h
      rw [resolve, Action.run_get_bind] at h
      split at h
      · exact absurd h Action.run_refuse_ne_ok
      · split at h
        · cases h
          exact .handle
        · split at h
          · cases h
          · exact absurd h Action.run_refuse_ne_ok
    cases u with
    | integer | fixed | handle => exact hresolve h
    | _ => exact absurd h Action.run_refuse_ne_ok
  | _ => exact BasicType.holds_of_convert (Action.run_liftOrFail_eq_ok.mp h).1

namespace WireType

variable {unbox : Action Value} {b : BasicType} {k x : WireType} {v : Value} {m m' : Message}

/-- An entry of a basic key is read as one whose key can serve in a dict. -/
theorem exists_entry_of_run (h : (decodeWith unbox (entry (.basic b) x)).run m = (.ok v, m')) :
    ∃ a c, v = .entry a c ∧ a.unhashable? = none := by
  rw [decodeWith_entry] at h
  obtain ⟨_, m₁, -, h⟩ := Action.run_bind_eq_ok.mp h
  obtain ⟨⟨a, c⟩, m₂, hpair, h⟩ := Action.run_bind_eq_ok.mp h
  obtain ⟨_, m₃, -, h⟩ := Action.run_bind_eq_ok.mp h
  obtain ⟨a', m₄, ha, hpair⟩ := Action.run_bind_eq_ok.mp hpair
  obtain ⟨c', m₅, -, hpair⟩ := Action.run_bind_eq_ok.mp hpair
  cases hpair
  cases h
  rw [decodeWith] at ha
  exact ⟨a, c, rfl, (BasicType.holds_of_run_decode ha).hashable⟩

/-- The elements are entries, and the dict comes of them. -/
def Gathers (vs : List Value) (es : List (Value × Value)) : Prop :=
  ∃ ps, vs = ps.map (fun p => .entry p.1 p.2) ∧ Value.Merges ps es

theorem lockstep_gatherStep (vs : List Value) (es : List (Value × Value)) (h : Gathers vs es) :
    Action.Lockstep Gathers
      (gatherStep unbox (entry (.basic b) x) (fun vs v => .ok (vs ++ [v])) vs)
      (gatherStep unbox (entry (.basic b) x) Value.addEntry es) := by
  have hentry : Action.Lockstep (fun v w => v = w ∧ ∃ a c, v = .entry a c ∧ a.unhashable? = none)
      (decodeWith unbox (entry (.basic b) x)) (decodeWith unbox (entry (.basic b) x)) :=
    Action.lockstep_self fun v m m' hrun => ⟨rfl, exists_entry_of_run hrun⟩
  refine hentry.bind ?_
  rintro _ _ ⟨rfl, a, c, rfl, ha⟩
  rw [Value.addEntry_eq_ok.mpr ⟨ha, rfl⟩]
  obtain ⟨ps, rfl, hmerges⟩ := h
  exact Action.lockstep_pure ⟨ps ++ [(a, c)], by simp, hmerges.insert a c⟩

/-- **Reading an array of entries and reading a dict go the same way.** -/
theorem lockstep_decodeWith :
    Action.Lockstep (fun v w => ∃ vs es, v = .list none vs ∧ w = .dict es ∧ Gathers vs es)
      (decodeWith unbox (array (entry (.basic b) x))) (decodeWith unbox (dict (.basic b) x)) := by
  rw [decodeWith_array, decodeWith_dict]
  refine .after fun _ => ?_
  refine (Action.lockstep_repeatUntilEnd lockstep_gatherStep ⟨[], rfl, .nil⟩).bind
    fun vs es h => .after fun _ => ?_
  exact Action.lockstep_pure ⟨vs, es, rfl, rfl, h⟩

theorem lockstep_decode (ρ : Registry) :
    Action.Lockstep (fun v w => ∃ vs es, v = .list none vs ∧ w = .dict es ∧ Gathers vs es)
      (decode ρ (array (entry (.basic b) x))) (decode ρ (dict (.basic b) x)) := by
  intro m
  cases hv : m.isValid with
  | false =>
    rw [decode, decode, Action.run_ifValid_of_invalid hv, Action.run_ifValid_of_invalid hv]
    exact .stop
  | true =>
    rw [run_decode hv, run_decode hv]
    exact lockstep_decodeWith m

/-! ## Writing -/

variable {box box' : Value → Action Unit} {n n' : Nat} {t : WireType}

theorem orRefuse_bind_congr {α β : Type} {failure : Text → Failure} {o : Option α}
    {f g : α → Action β} (h : ∀ a, o = some a → f a = g a) :
    (do f (← Action.orRefuse v failure o)) = (do g (← Action.orRefuse v failure o)) := by
  cases o with
  | none =>
    unfold Action.orRefuse Action.refuse
    cases v.display <;> rfl
  | some a => exact h a rfl

theorem forM_congr {f g : Value → Action Unit} :
    ∀ {vs : List Value}, (∀ u ∈ vs, f u = g u) → vs.forM f = vs.forM g
  | [], _ => rfl
  | u :: us, h => by
    obtain ⟨hu, hus⟩ := List.forall_mem_cons.mp h
    rw [List.forM, List.forM, hu, forM_congr hus]

theorem encodeFields_congr :
    ∀ {fs : List WireType} {vs : List Value},
      (∀ p ∈ fs.zip vs, encodeWith box p.1 p.2 = encodeWith box' p.1 p.2) →
      encodeFields box fs vs = encodeFields box' fs vs
  | [], _, _ => by rw [encodeFields, encodeFields]
  | _ :: _, [], _ => by rw [encodeFields, encodeFields]
  | f :: fs, v :: vs, h => by
    rw [List.zip_cons_cons] at h
    obtain ⟨hv, hvs⟩ := List.forall_mem_cons.mp h
    rw [encodeFields, encodeFields, hv, encodeFields_congr hvs]

/-- Two ways to write variants write a value alike where they write its parts alike. -/
theorem composes_encodeWith :
    Composes fun t v => encodeWith box t v = encodeWith box' t v where
  basic b v := by rw [encodeWith, encodeWith]
  array {e v} h := by
    rw [encodeWith, encodeWith, Action.collection_eq]
    exact orRefuse_bind_congr fun vs hvs => by
      rw [forM_congr (h vs (Value.eq_of_collection? hvs))]
  dict {k x v} h := by
    rw [encodeWith_dict, encodeWith_dict, Action.collection_eq]
    exact orRefuse_bind_congr fun ps hps => by
      rw [forM_congr (h ps (Value.eq_of_collection? hps))]
  entry {k x v} h := by
    rw [encodeWith, encodeWith, Action.entryParts_eq]
    refine orRefuse_bind_congr fun parts hparts => ?_
    obtain ⟨a, c⟩ := parts
    obtain ⟨ha, hc⟩ := h a c (Value.eq_of_entryParts? hparts)
    simp only [ha, hc]
  struct {fs v} h := by
    rw [encodeWith, encodeWith, Action.fields_eq]
    exact orRefuse_bind_congr fun vs hvs => by
      rw [encodeFields_congr (h vs (Value.eq_of_fields? hvs))]
  tuple {fs v} h := by
    rw [encodeWith, encodeWith, Action.fields_eq]
    exact orRefuse_bind_congr fun vs hvs => by
      rw [encodeFields_congr (h vs (Value.eq_of_fields? hvs))]

/-- To count more variants than lie inside one another makes no difference. -/
theorem encodeWithin_of_le (h : Within n t v) (hn : n ≤ n') :
    encodeWithin n t v = encodeWithin n' t v := by
  rw [encodeWithin_eq, encodeWithin_eq]
  induction h generalizing n' with
  | @variant n v h ih =>
    obtain ⟨n', rfl⟩ : ∃ j, n' = j + 1 := ⟨n' - 1, by omega⟩
    rw [encodeWith, encodeWith, writingBoxed, writingBoxed, encodeBoxed, encodeBoxed]
    rcases hb : boxed v with f | b
    · rfl
    · rw [show Action.lift (.ok b) = pure b from rfl, pure_bind, pure_bind]
      cases b with
      | variant m p o =>
        cases o with
        | none => rfl
        | some t =>
          simp only [encodeWithin_eq]
          rw [ih m p t hb (Nat.le_of_succ_le_succ hn)]
      | _ => rfl
  | basic => exact composes_encodeWith.basic _ _
  | array _ ih => exact composes_encodeWith.array fun vs hvs u hu => ih vs hvs u hu hn
  | dict _ ih => exact composes_encodeWith.dict fun ps hps p hp => ih ps hps p hp hn
  | entry _ _ ihk ihx =>
    exact composes_encodeWith.entry fun a c hac => ⟨ihk a c hac hn, ihx a c hac hn⟩
  | struct _ ih => exact composes_encodeWith.struct fun vs hvs p hp => ih vs hvs p hp hn
  | tuple _ ih => exact composes_encodeWith.tuple fun vs hvs p hp => ih vs hvs p hp hn

/-- **A dict is written as the row of its keys and values is.** -/
theorem encode_dict_eq (es : List (Value × Value)) (mark : Option Nat) :
    encode (dict k x) (.dict es) =
      encode (array (entry k x)) (.list mark (es.map fun e => .tuple [e.1, e.2])) := by
  have hpairs : (Value.dict es).collection? Value.pairs? =
      some (es.map fun e => .tuple [e.1, e.2]) := rfl
  have hrow : (Value.list mark (es.map fun e => .tuple [e.1, e.2])).collection? Value.elements? =
      some (es.map fun e => .tuple [e.1, e.2]) := rfl
  have hdict := encodeWithin_of_le (within_depth (dict k x) (.dict es)) (Nat.le_max_left _
    (Value.list mark (es.map fun e => .tuple [e.1, e.2])).depth)
  have hlist := encodeWithin_of_le (within_depth (array (entry k x))
    (.list mark (es.map fun e => .tuple [e.1, e.2]))) (Nat.le_max_right (Value.dict es).depth _)
  rw [encode, encode, hdict, hlist, encodeWithin_eq, encodeWith_dict, encodeWith,
    Action.collection_eq, Action.collection_eq, hpairs, hrow]
  rfl

end WireType

/-! ## The two spellings -/

namespace Message

/-- **Both spellings of a dict come to the same.** From any message, a dict of a reduced type and
an array of its entries are read alike: both stop for the same reason or both answer, and they leave
the same message; the dict comes of the entries in their order. And on any message, to write a dict
and to write the row of its keys and values as an array of entries has the same outcome and leaves
the same message. -/
theorem dict_spelling {k x : WireType} (hr : (dict k x).isReduced = true) {e e' : TypeExpr}
    (he : e.canonical = .ok (dict k x)) (he' : e'.canonical = .ok (array (entry k x)))
    (m : Message) :
    (∀ ρ,
      (∃ stop m', (read ρ e).run m = (.error stop, m') ∧ (read ρ e').run m = (.error stop, m')) ∨
      ∃ ps es m', (read ρ e').run m = (.ok (.list none (ps.map fun p => .entry p.1 p.2)), m') ∧
        (read ρ e).run m = (.ok (.dict es), m') ∧ Value.Merges ps es) ∧
    ∀ es mark, (write (.dict es) (some e)).run m =
      (write (.list mark (es.map fun e => .tuple [e.1, e.2])) (some e')).run m := by
  obtain ⟨⟨b, rfl⟩, -, -⟩ := (IsElement.reduced hr).ofDict.ofEntry
  cases hv : m.isValid with
  | false =>
    refine ⟨fun ρ => .inl ⟨.failed, m, ?_, ?_⟩, fun es mark => ?_⟩
    · exact Action.run_ifValid_of_invalid hv
    · exact Action.run_ifValid_of_invalid hv
    · rw [write_eq _ rfl, write_eq _ rfl, Action.run_ifValid_of_invalid hv,
        Action.run_ifValid_of_invalid hv]
  | true =>
    refine ⟨fun ρ => ?_, fun es mark => ?_⟩
    · rw [run_read he hv, run_read he' hv]
      have htogether := lockstep_decode (b := b) (x := x) ρ m
      generalize (decode ρ (array (entry (.basic b) x))).run m = outcome,
        (decode ρ (dict (.basic b) x)).run m = outcome' at htogether
      cases htogether with
      | stop => exact .inl ⟨_, _, rfl, rfl⟩
      | ok h =>
        obtain ⟨_, es, rfl, rfl, ps, rfl, hmerges⟩ := h
        exact .inr ⟨ps, es, _, rfl, rfl, hmerges⟩
    · rw [write_eq _ rfl, write_eq _ rfl, Action.run_ifValid hv, Action.run_ifValid hv]
      simp only [he, he']
      rw [Action.run_bind_of_ok Action.run_lift_ok, Action.run_bind_of_ok Action.run_lift_ok,
        encode_dict_eq]

section Examples

/-- A dict of texts and integers. -/
def counts : WireType := .dict .string .int32

/-- The dict as an array of its entries. -/
def countEntries : WireType := .array (.entry .string .int32)

/-- A received dict in which a key stands twice. -/
def repeatedKey : Message :=
  ofStream
    { items :=
        [.opening (arrayOf (.entry .string .int32)),
          .opening (entryOf .string .int32), .basic "s" (.text "a"), .basic "i" (.integer 1),
          .closing,
          .opening (entryOf .string .int32), .basic "s" (.text "a"), .basic "i" (.integer 2),
          .closing, .closing]
      isSealed := true }

/-- A key that stands twice in a received dict keeps its place and takes the second value. -/
theorem spelling_repeatedKey :
    counts.isReduced = true ∧
    ∃ ps es m', ps.length = 2 ∧
      (read .common (.wire countEntries)).run repeatedKey =
        (.ok (.list none (ps.map fun p => .entry p.1 p.2)), m') ∧
      (read .common (.wire counts)).run repeatedKey = (.ok (.dict es), m') ∧
      es.length = 1 ∧ Value.Merges ps es := by
  have hr : counts.isReduced = true := by decide +kernel
  have hlist : ∃ vs, ((read .common (.wire countEntries)).run repeatedKey).1 =
      .ok (.list none vs) ∧ vs.length = 2 := ⟨_, by cbv, rfl⟩
  have hdict : ∃ es, ((read .common (.wire counts)).run repeatedKey).1 = .ok (.dict es) ∧
      es.length = 1 := ⟨_, by cbv, rfl⟩
  obtain ⟨vs, hvs, hlength⟩ := hlist
  obtain ⟨es', hes, hone⟩ := hdict
  have hcounts : (TypeExpr.wire counts).canonical = .ok counts := rfl
  have hentries : (TypeExpr.wire countEntries).canonical = .ok countEntries := rfl
  rcases (dict_spelling hr hcounts hentries repeatedKey).1 .common with
    ⟨stop, m', hstop, -⟩ | ⟨ps, es, m', harray, hdict, hmerges⟩
  · rw [hstop] at hes
    cases hes
  · rw [harray] at hvs
    rw [hdict] at hes
    cases hvs
    cases hes
    exact ⟨hr, ps, es', m', by simpa using hlength, harray, hdict, hone, hmerges⟩

end Examples

end Message

end TypedBus
