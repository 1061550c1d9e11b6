import TypedBus.Proofs.Message.Reads

/-!
# Reading is exact

Reading a value of a type succeeds on just the items that `Reads` calls a value of it, with just the
value that `Reads` gives, and moves the cursor behind them.

* `decode_sound`: what reading answers is what the items that it took are read as.
* `Reads.run`: items that are values of a row of types are read, whatever stands behind them.

Both are inductions on what `Reads` is put together of; arrays come down to rows of one type by
`of_run_untilEnd` and `run_untilEnd`, which say that repeating a step until the end of a container
is doing it as often as there are elements.
-/

namespace TypedBus

open Message

namespace WireType

variable {ρ : Registry} {unbox : Action Value} {m m' : Message} {t e k x : WireType}
  {ts fs : List WireType} {v w : Value} {ws : List Value} {β : Type}

/-! ## Rows -/

theorem run_decodeFields_cons_eq_ok :
    (decodeFields unbox (t :: ts)).run m = (.ok ws, m') ↔
      ∃ w ws' m₁, (decodeWith unbox t).run m = (.ok w, m₁) ∧
        (decodeFields unbox ts).run m₁ = (.ok ws', m') ∧ ws = w :: ws' := by
  rw [decodeFields, Action.run_bind_eq_ok]
  constructor
  · rintro ⟨w, m₁, hw, h⟩
    obtain ⟨ws', m₂, hws, h⟩ := Action.run_bind_eq_ok.mp h
    obtain ⟨rfl, rfl⟩ := Prod.mk.inj h |>.imp_left fun h => Except.ok.inj h
    exact ⟨w, ws', m₁, hw, hws, rfl⟩
  · rintro ⟨w, ws', m₁, hw, hws, rfl⟩
    exact ⟨w, m₁, hw, Action.run_bind_eq_ok.mpr ⟨ws', m', hws, rfl⟩⟩

theorem run_decodeFields_nil_eq_ok :
    (decodeFields unbox []).run m = (.ok ws, m') ↔ ws = [] ∧ m' = m := by
  rw [decodeFields, Action.run_pure, Prod.mk.injEq, Except.ok.injEq]
  exact and_congr eq_comm eq_comm

theorem run_decodeFields_one :
    (decodeFields unbox [t]).run m = (.ok [w], m') ↔ (decodeWith unbox t).run m = (.ok w, m') := by
  rw [run_decodeFields_cons_eq_ok]
  constructor
  · rintro ⟨u, us, m₁, hw, hnil, h⟩
    obtain ⟨rfl, rfl⟩ := run_decodeFields_nil_eq_ok.mp hnil
    cases h
    exact hw
  · exact fun h => ⟨w, [], m', h, run_decodeFields_nil_eq_ok.mpr ⟨rfl, rfl⟩, rfl⟩

/-! ## Until the end -/

/-- Read an element and put it to what has been gathered. -/
def gatherStep (unbox : Action Value) (e : WireType) (put : β → Value → Except Fault β) (b : β) :
    Action β := do
  let v ← decodeWith unbox e
  Action.lift (put b v)

theorem decodeWith_array :
    decodeWith unbox (array e) = (do
      enterContainer (arrayOf e)
      let vs ← repeatUntilEnd (gatherStep unbox e fun vs v => .ok (vs ++ [v])) []
      exitContainer
      pure (.list none vs)) := by
  rw [decodeWith]
  rfl

theorem decodeWith_dict :
    decodeWith unbox (dict k x) = (do
      enterContainer (arrayOf (entry k x))
      let es ← repeatUntilEnd (gatherStep unbox (entry k x) Value.addEntry) []
      exitContainer
      pure (.dict es)) := by
  rw [decodeWith]
  have hstep : gatherStep unbox (entry k x) Value.addEntry = (fun es => do
      enterContainer (entryOf k x)
      let a ← decodeWith unbox k
      let b ← decodeWith unbox x
      exitContainer
      Action.lift (Value.insertKey a b es)) := by
    funext es
    simp only [gatherStep, decodeWith, bind_assoc, pure_bind, Value.addEntry]
  rw [hstep]

/-- Read the key and the value of an entry. -/
def decodePair (unbox : Action Value) (k x : WireType) : Action (Value × Value) := do
  let a ← decodeWith unbox k
  let b ← decodeWith unbox x
  pure (a, b)

theorem decodeWith_entry :
    decodeWith unbox (entry k x) = (do
      enterContainer (entryOf k x)
      let p ← decodePair unbox k x
      exitContainer
      pure (.entry p.1 p.2)) := by
  simp only [decodeWith, decodePair, bind_assoc, pure_bind]

theorem run_decodePair_eq_ok {a b : Value} :
    (decodePair unbox k x).run m = (.ok (a, b), m') ↔
      (decodeFields unbox [k, x]).run m = (.ok [a, b], m') := by
  rw [run_decodeFields_cons_eq_ok, decodePair, Action.run_bind_eq_ok]
  constructor
  · rintro ⟨_, m₁, ha, h⟩
    obtain ⟨_, m₂, hb, h⟩ := Action.run_bind_eq_ok.mp h
    obtain ⟨⟨rfl, rfl⟩, rfl⟩ : (_ = a ∧ _ = b) ∧ _ = m' := by simpa using h
    exact ⟨_, [_], m₁, ha, run_decodeFields_one.mpr hb, rfl⟩
  · rintro ⟨_, _, m₁, ha, hb, h⟩
    cases h
    exact ⟨a, m₁, ha, Action.run_bind_eq_ok.mpr ⟨b, m', run_decodeFields_one.mp hb, rfl⟩⟩

/-- What has been gathered until the end was read as a row of elements. -/
theorem of_run_untilEnd {put : β → Value → Except Fault β} {b b' : β} :
    ∀ {n m}, (untilEnd (gatherStep unbox e put) n b).run m = (.ok b', m') →
      ∃ k vs, (decodeFields unbox (List.replicate k e)).run m = (.ok vs, m') ∧
        vs.foldlM put b = .ok b' ∧ m'.atEnd = true := by
  intro n
  induction n generalizing b with
  | zero => exact fun h => nomatch h
  | succ n ih =>
    intro m h
    rw [untilEnd, Action.run_get_bind] at h
    split at h
    · rename_i hend
      rw [Action.run_pure, Prod.mk.injEq, Except.ok.injEq] at h
      obtain ⟨rfl, rfl⟩ := h
      exact ⟨0, [], run_decodeFields_nil_eq_ok.mpr ⟨rfl, rfl⟩, rfl, hend⟩
    · obtain ⟨b₁, m₁, hstep, h⟩ := Action.run_bind_eq_ok.mp h
      obtain ⟨v, m₂, hv, hlift⟩ := Action.run_bind_eq_ok.mp hstep
      obtain ⟨hput, rfl⟩ := Action.run_lift_eq_ok.mp hlift
      rw [Action.run_get_bind] at h
      split at h
      · obtain ⟨k, vs, hvs, hfold, hend⟩ := ih h
        refine ⟨k + 1, v :: vs, ?_, ?_, hend⟩
        · rw [List.replicate_succ]
          exact run_decodeFields_cons_eq_ok.mpr ⟨v, vs, m₁, hv, hvs, rfl⟩
        · rw [List.foldlM_cons, hput]
          exact hfold
      · cases h

/-- A row of elements is gathered until the end, in as many steps as items are left. -/
theorem run_untilEnd {put : β → Value → Except Fault β} {b b' : β}
    (helement : ∀ {m w m'}, m.Readable → (decodeWith unbox e).run m = (.ok w, m') →
      ∃ item seg tail, m.rest = item :: (seg ++ tail) ∧ item ≠ .closing ∧
        m' = m.skip (seg.length + 1)) :
    ∀ {k n m vs}, m.Readable → m.rest.length < n →
      (decodeFields unbox (List.replicate k e)).run m = (.ok vs, m') →
      vs.foldlM put b = .ok b' → m'.atEnd = true →
      (untilEnd (gatherStep unbox e put) n b).run m = (.ok b', m') := by
  intro k
  induction k generalizing b with
  | zero =>
    intro n m vs hm hn hvs hfold hend
    obtain ⟨n, rfl⟩ : ∃ n', n = n' + 1 := ⟨n - 1, by omega⟩
    obtain ⟨rfl, rfl⟩ := run_decodeFields_nil_eq_ok.mp hvs
    cases hfold
    rw [untilEnd, Action.run_get_bind, if_pos hend, Action.run_pure]
  | succ k ih =>
    intro n m vs hm hn hvs hfold hend
    obtain ⟨n, rfl⟩ : ∃ n', n = n' + 1 := ⟨n - 1, by omega⟩
    rw [List.replicate_succ] at hvs
    obtain ⟨v, vs, m₁, hv, hvs, rfl⟩ := run_decodeFields_cons_eq_ok.mp hvs
    obtain ⟨item, seg, tail, hrest, hitem, rfl⟩ := helement hm hv
    rw [List.foldlM_cons] at hfold
    obtain ⟨b₁, hput, hfold⟩ := bind_eq_ok.mp hfold
    have hnot : ¬m.atEnd = true := by
      rw [atEnd_iff hm, hrest]
      simp [hitem]
    have hlen : (m.skip (seg.length + 1)).rest.length < n := by
      simp only [rest_skip, List.length_drop]
      simp only [hrest, List.length_cons, List.length_append] at hn ⊢
      omega
    have hstep : (gatherStep unbox e put b).run m = (.ok b₁, m.skip (seg.length + 1)) :=
      Action.run_bind_eq_ok.mpr ⟨v, _, hv, Action.run_lift_eq_ok.mpr ⟨hput, rfl⟩⟩
    rw [untilEnd, Action.run_get_bind, if_neg hnot, Action.run_bind_of_ok hstep,
      Action.run_get_bind, if_pos (by simp)]
    exact ih (hm.skip _) hlen hvs hfold hend

/-! ## What is read -/

/-- What reading a value of a type answers is what the items that it took are read as. -/
def Sound (ρ : Registry) (unbox : Action Value) (t : WireType) : Prop :=
  ∀ ⦃m w m'⦄, m.Readable → (decodeWith unbox t).run m = (.ok w, m') →
    ∃ seg tail, m.rest = seg ++ tail ∧ m' = m.skip seg.length ∧
      Reads ρ m.stream.descriptors [t] seg [w]

/-- Where every type is read soundly, so is a row of them. -/
theorem sound_row : ∀ {ts ws m}, (∀ t ∈ ts, Sound ρ unbox t) → m.Readable →
    (decodeFields unbox ts).run m = (.ok ws, m') →
    ∃ seg tail, m.rest = seg ++ tail ∧ m' = m.skip seg.length ∧
      Reads ρ m.stream.descriptors ts seg ws
  | [], _, m, _, _, h => by
    obtain ⟨rfl, rfl⟩ := run_decodeFields_nil_eq_ok.mp h
    exact ⟨[], _, rfl, rfl, .nil⟩
  | t :: ts, _, m, hts, hm, h => by
    obtain ⟨w, ws, m₁, hw, hws, rfl⟩ := run_decodeFields_cons_eq_ok.mp h
    obtain ⟨seg, tail, hrest, rfl, hread⟩ := hts t (by simp) hm hw
    obtain ⟨seg', tail', hrest', rfl, hreads⟩ :=
      sound_row (fun u hu => hts u (List.mem_cons_of_mem t hu)) (hm.skip _) hws
    rw [rest_skip_append hrest] at hrest'
    refine ⟨seg ++ seg', tail', by rw [hrest, hrest', List.append_assoc], ?_, hread.cons hreads⟩
    rw [skip_skip, List.length_append]

/-- The items are values of one type, and this has been gathered from them. -/
def Gathered (ρ : Registry) (ds : List Value) (e : WireType) (put : β → Value → Except Fault β)
    (b b' : β) (items : List Item) : Prop :=
  ∃ n vs, Reads ρ ds (List.replicate n e) items vs ∧ vs.foldlM put b = .ok b'

/-- Elements of an array, read soundly one by one, are read soundly until its end. -/
theorem sound_gather {put : β → Value → Except Fault β} {b b' : β} (he : Sound ρ unbox e)
    (hm : m.Readable)
    (h : (repeatUntilEnd (gatherStep unbox e put) b).run m = (.ok b', m')) :
    (∃ seg tail, m.rest = seg ++ tail ∧ m' = m.skip seg.length ∧
      Gathered ρ m.stream.descriptors e put b b' seg) ∧ m'.atEnd = true := by
  rw [repeatUntilEnd, Action.run_get_bind] at h
  obtain ⟨n, vs, hvs, hfold, hend⟩ := of_run_untilEnd h
  obtain ⟨seg, tail, hrest, hskip, hread⟩ := sound_row
    (fun t ht => (List.eq_of_mem_replicate ht) ▸ he) hm hvs
  exact ⟨⟨seg, tail, hrest, hskip, n, vs, hread, hfold⟩, hend⟩

/-- What has been read between two markers moves the cursor behind the second. -/
theorem sound_bracket {α : Type} {c : Container} {body : Action α} {f : α → Value}
    {P : α → List Item → Prop} (hm : m.Readable)
    (h : (do enterContainer c; let a ← body; exitContainer; pure (f a)).run m = (.ok w, m'))
    (hbody : ∀ {fields a m₁}, body.run (m.enter c fields) = (.ok a, m₁) →
      (∃ seg tail, (m.enter c fields).rest = seg ++ tail ∧
        m₁ = (m.enter c fields).skip seg.length ∧ P a seg) ∧
      (c.kind = .array → m₁.atEnd = true)) :
    ∃ a inside tail, m.rest = (.opening c :: (inside ++ [.closing])) ++ tail ∧
      m' = m.skip (.opening c :: (inside ++ [Item.closing])).length ∧ P a inside ∧ w = f a := by
  obtain ⟨a, inside, tail, hrest, hP, hpure⟩ := of_run_bracket hm h hbody
  rw [Action.run_pure, Prod.mk.injEq, Except.ok.injEq] at hpure
  obtain ⟨rfl, rfl⟩ := hpure
  exact ⟨a, inside, tail, by simp [hrest], by simp, hP, rfl⟩

theorem sound_entry (hk : Sound ρ unbox k) (hx : Sound ρ unbox x) : Sound ρ unbox (entry k x) := by
  intro m w m' hm h
  rw [decodeWith_entry] at h
  obtain ⟨⟨a, b⟩, inside, tail, hrest, hskip, hreads, rfl⟩ :=
    sound_bracket (P := fun p seg => Reads ρ m.stream.descriptors [k, x] seg [p.1, p.2]) hm h
      fun hrun => ⟨sound_row (by simpa using ⟨hk, hx⟩) (hm.enter _ _)
        (run_decodePair_eq_ok.mp hrun), nofun⟩
  exact ⟨_, tail, hrest, hskip, .entry hreads .nil⟩

mutual

/-- **What reading answers is what the items that it took are read as**, if that holds of
variants. -/
theorem decodeWith_sound (hunbox : Sound ρ unbox .variant) : ∀ t, Sound ρ unbox t
  | .basic b => by
    intro m w m' hm h
    rw [decodeWith] at h
    obtain ⟨v, rest, hrest, hacc, rfl⟩ := (run_decode_basic_eq_ok hm).mp h
    exact ⟨[_], rest, hrest, rfl, .basic hacc .nil⟩
  | .variant => hunbox
  | .array e => by
    intro m w m' hm h
    rw [decodeWith_array] at h
    obtain ⟨vs, inside, tail, hrest, hskip, ⟨n, us, hreads, hfold⟩, rfl⟩ :=
      sound_bracket (P := Gathered ρ m.stream.descriptors e _ _) hm h fun hrun =>
        let ⟨hin, hend⟩ := sound_gather (decodeWith_sound hunbox e) (hm.enter _ _) hrun
        ⟨hin, fun _ => hend⟩
    rw [foldlM_push, List.nil_append, Except.ok.injEq] at hfold
    subst hfold
    exact ⟨_, tail, hrest, hskip, .array hreads .nil⟩
  | .dict k x => by
    intro m w m' hm h
    rw [decodeWith_dict] at h
    obtain ⟨es, inside, tail, hrest, hskip, ⟨n, vs, hreads, hfold⟩, rfl⟩ :=
      sound_bracket (P := Gathered ρ m.stream.descriptors (.entry k x) _ _) hm h fun hrun =>
        let ⟨hin, hend⟩ := sound_gather
          (sound_entry (decodeWith_sound hunbox k) (decodeWith_sound hunbox x)) (hm.enter _ _) hrun
        ⟨hin, fun _ => hend⟩
    exact ⟨_, tail, hrest, hskip, .dict hreads hfold .nil⟩
  | .entry k x => sound_entry (decodeWith_sound hunbox k) (decodeWith_sound hunbox x)
  | .struct fs => by
    intro m w m' hm h
    rw [decodeWith] at h
    obtain ⟨vs, inside, tail, hrest, hskip, hreads, rfl⟩ :=
      sound_bracket (P := fun vs seg => Reads ρ m.stream.descriptors fs seg vs) hm h fun hrun =>
        ⟨sound_row (decodeWith_soundAll hunbox fs) (hm.enter _ _) hrun, nofun⟩
    exact ⟨_, tail, hrest, hskip, .struct hreads .nil⟩
  | .tuple fs => by
    intro m w m' hm h
    rw [decodeWith] at h
    obtain ⟨vs, m₁, hvs, hpure⟩ := Action.run_bind_eq_ok.mp h
    rw [Action.run_pure, Prod.mk.injEq, Except.ok.injEq] at hpure
    obtain ⟨rfl, rfl⟩ := hpure
    obtain ⟨seg, tail, hrest, rfl, hreads⟩ := sound_row (decodeWith_soundAll hunbox fs) hm hvs
    exact ⟨seg, tail, hrest, rfl, by simpa using Reads.tuple hreads .nil⟩

theorem decodeWith_soundAll (hunbox : Sound ρ unbox .variant) :
    ∀ ts : List WireType, ∀ t ∈ ts, Sound ρ unbox t
  | [] => fun _ ht => nomatch ht
  | t :: ts => by
    have ht := decodeWith_sound hunbox t
    have hts := decodeWith_soundAll hunbox ts
    exact List.forall_mem_cons.mpr ⟨ht, hts⟩

end

/-! ## Variants -/

/-- How a variant is read, in which so many variants lie inside one another. -/
def unboxing (ρ : Registry) : Nat → Action Value
  | 0 => Action.stop .endless
  | n + 1 => decodeBoxed ρ (decodeWithin ρ n)

theorem decodeWithin_eq (n : Nat) : decodeWithin ρ n = decodeWith (unboxing ρ n) := by
  cases n <;> rfl

/-- Reading counts the variants by the items that are left. -/
theorem run_decode (hv : m.isValid = true) :
    (decode ρ t).run m = (decodeWith (unboxing ρ (m.rest.length + 1)) t).run m := by
  rw [decode, Action.run_ifValid hv, Action.run_get_bind, decodeWithin_eq]

theorem peekType_opening {c : Container} {rest : List Item} (hm : m.Readable)
    (hrest : m.rest = .opening c :: rest) : m.peekType = ([c.kind.code], c.content) := by
  simp [peekType, hm.isSealed, peek_eq_head, hrest]

theorem sound_decodeBoxed {decode : WireType → Action Value}
    (hdecode : ∀ t ⦃m w m'⦄, m.Readable → (decode t).run m = (.ok w, m') →
      ∃ seg tail, m.rest = seg ++ tail ∧ m' = m.skip seg.length ∧
        Reads ρ m.stream.descriptors [t] seg [w]) :
    Sound ρ (decodeBoxed ρ decode) .variant := by
  intro m w m' hm h
  rw [decodeWith, decodeBoxed, Action.run_get_bind] at h
  rcases hpeek : m.peekType with ⟨code, content⟩
  simp only [hpeek] at h
  split at h
  · rcases hlookup : ρ.lookup? content with _ | t
    · simp [hlookup] at h
    · simp only [hlookup] at h
      obtain ⟨v, inside, tail, hrest, hskip, hread, rfl⟩ :=
        sound_bracket (P := fun v seg => Reads ρ m.stream.descriptors [t] seg [v]) hm h
          fun hrun => ⟨hdecode t (hm.enter _ _) hrun, nofun⟩
      rw [List.cons_append] at hrest
      rw [peekType_opening hm hrest, Prod.mk.injEq] at hpeek
      obtain ⟨-, rfl⟩ := hpeek
      exact ⟨_, tail, hrest, hskip, .variant hlookup hread .nil⟩
  · obtain ⟨_, _, -, hfail⟩ := Action.run_bind_eq_ok.mp h
    simp at hfail

theorem sound_unboxing : ∀ n, Sound ρ (unboxing ρ n) .variant
  | 0 => fun _ _ _ _ h => by simp [unboxing, decodeWith] at h
  | n + 1 => sound_decodeBoxed fun t => by
    rw [decodeWithin_eq]
    exact decodeWith_sound (sound_unboxing n) t

/-- **What reading answers is what the items that it took are read as.** -/
theorem decode_sound (hm : m.Readable) (h : (decode ρ t).run m = (.ok w, m')) :
    ∃ seg tail, m.rest = seg ++ tail ∧ m' = m.skip seg.length ∧
      Reads ρ m.stream.descriptors [t] seg [w] := by
  rw [run_decode hm.valid] at h
  exact decodeWith_sound (sound_unboxing _) t hm h

/-! ## Everything is read -/

/-- An element takes an item that closes nothing. -/
theorem Sound.element (hsound : Sound ρ unbox e) (he : e.IsElement) (hm : m.Readable)
    (h : (decodeWith unbox e).run m = (.ok w, m')) :
    ∃ item seg tail, m.rest = item :: (seg ++ tail) ∧ item ≠ .closing ∧
      m' = m.skip (seg.length + 1) := by
  obtain ⟨seg, tail, hrest, rfl, hread⟩ := hsound hm h
  obtain ⟨item, seg, rfl, hitem⟩ := hread.head he
  exact ⟨item, seg, tail, hrest, hitem, rfl⟩

/-- A row of elements between the markers of an array is gathered. -/
theorem run_gather {n j : Nat} {put : β → Value → Except Fault β} {b b' : β}
    {inside tail : List Item} {vs : List Value} (he : e.IsElement) (hm : m.Readable)
    (hrest : m.rest = inside ++ .closing :: tail)
    (hrun : (decodeFields (unboxing ρ n) (List.replicate j e)).run m =
      (.ok vs, m.skip inside.length))
    (hfold : vs.foldlM put b = .ok b') :
    (repeatUntilEnd (gatherStep (unboxing ρ n) e put) b).run m =
      (.ok b', m.skip inside.length) := by
  rw [repeatUntilEnd, Action.run_get_bind]
  refine run_untilEnd (fun hm h => (decodeWith_sound (sound_unboxing n) e).element he hm h) hm
    (Nat.lt_succ_self _) hrun hfold ?_
  refine (atEnd_iff (hm.skip _)).mpr (.inr ⟨tail, ?_⟩)
  exact rest_skip_append hrest

end WireType

namespace Reads

open WireType

variable {ρ : Registry} {ds : List Value}

/-- What comes behind a value that has been read is read from there. -/
theorem run_cons {unbox : Action Value} {t : WireType} {ts : List WireType}
    {seg items tail : List Item} {w : Value} {ws : List Value} {m : Message} {n : Nat}
    (hm : m.Readable) (hds : m.stream.descriptors = ds) (hrest : m.rest = seg ++ (items ++ tail))
    (hn : m.rest.length < n)
    (hw : (decodeWith unbox t).run m = (.ok w, m.skip seg.length))
    (ih : ∀ {m : Message}, m.Readable → m.stream.descriptors = ds → m.rest = items ++ tail →
      m.rest.length < n → (decodeFields unbox ts).run m = (.ok ws, m.skip items.length)) :
    (decodeFields unbox (t :: ts)).run m = (.ok (w :: ws), m.skip (seg ++ items).length) := by
  have hrest' : (m.skip seg.length).rest = items ++ tail := rest_skip_append hrest
  refine run_decodeFields_cons_eq_ok.mpr ⟨w, ws, _, hw, ?_, rfl⟩
  rw [List.length_append, ← skip_skip]
  refine ih (hm.skip _) hds hrest' ?_
  rw [hrest']
  simp only [hrest, List.length_append] at hn ⊢
  omega

/-- What comes behind a bracketed value is read from there, when its inside is read. -/
theorem run_cons_bracket {α : Type} {unbox : Action Value} {t : WireType} {ts : List WireType}
    {inside items tail : List Item} {ws : List Value} {m : Message} {n : Nat} {c : Container}
    {fields : List Text} {body : Action α} {a : α} {f : α → Value} (hf : c.fields = .ok fields)
    (hm : m.Readable) (hds : m.stream.descriptors = ds)
    (hrest : m.rest = .opening c :: (inside ++ .closing :: items) ++ tail)
    (hn : m.rest.length < n)
    (hdecode : (decodeWith unbox t).run m =
      (do enterContainer c; let a ← body; exitContainer; pure (f a)).run m)
    (hbody : ∀ {m : Message} {tail : List Item}, m.Readable → m.stream.descriptors = ds →
      m.rest = inside ++ .closing :: tail → m.rest.length + 1 < n →
      body.run m = (.ok a, m.skip inside.length))
    (ih : ∀ {m : Message}, m.Readable → m.stream.descriptors = ds → m.rest = items ++ tail →
      m.rest.length < n → (decodeFields unbox ts).run m = (.ok ws, m.skip items.length)) :
    (decodeFields unbox (t :: ts)).run m =
      (.ok (f a :: ws), m.skip (.opening c :: (inside ++ Item.closing :: items)).length) := by
  have hrest' : m.rest = .opening c :: (inside ++ .closing :: (items ++ tail)) := by
    rw [hrest, List.cons_append, List.append_assoc, List.cons_append]
  have hinside : (m.enter c fields).rest = inside ++ .closing :: (items ++ tail) :=
    rest_enter_cons hrest'
  have hlen : (m.enter c fields).rest.length + 1 < n := by
    rw [hrest', List.length_cons] at hn
    rwa [hinside]
  have hw : (decodeWith unbox t).run m =
      (.ok (f a), m.skip (.opening c :: (inside ++ [Item.closing])).length) := by
    rw [hdecode, run_bracket hm hf hrest' (hbody (hm.enter c fields) hds hinside hlen)]
    simp
  have hseg : m.rest = .opening c :: (inside ++ [Item.closing]) ++ (items ++ tail) := by
    simp [hrest']
  simpa using run_cons hm hds hseg hn hw ih

/-- **Items that are values of a row of types are read as just these**, whatever stands behind
them. -/
theorem run (hρ : ρ.Filled) {ts : List WireType} {items : List Item} {ws : List Value}
    (h : Reads ρ ds ts items ws) :
    (∀ t ∈ ts, t.IsElement) → ∀ {n : Nat} {tail : List Item} {m : Message}, m.Readable →
      m.stream.descriptors = ds → m.rest = items ++ tail → m.rest.length < n →
      (decodeFields (unboxing ρ n) ts).run m = (.ok ws, m.skip items.length) := by
  induction h with
  | nil =>
    intro _ n tail m _ _ _ _
    exact run_decodeFields_nil_eq_ok.mpr ⟨rfl, rfl⟩
  | @basic b ts v w items ws hacc _ ih =>
    intro hts n tail m hm hds hrest hn
    have hseg : m.rest = [.basic [b.code] v] ++ (items ++ tail) := hrest
    refine run_cons hm hds hseg hn ?_ (ih (List.forall_mem_cons.mp hts).2)
    rw [decodeWith]
    exact (run_decode_basic_eq_ok hm).mpr ⟨v, _, hrest, hds ▸ hacc, rfl⟩
  | @variant t ts w inside items ws hl _ _ ihin ih =>
    intro hts n tail m hm hds hrest hn
    obtain ⟨n, rfl⟩ : ∃ n', n = n' + 1 := ⟨n - 1, by omega⟩
    have ht : ∀ u ∈ [t], u.IsElement := by simpa using IsElement.reduced (hρ.lookup hl).2
    have hdecode : (decodeWith (unboxing ρ (n + 1)) .variant).run m =
        (do enterContainer (variantOf t); let v ← decodeWithin ρ n t; exitContainer
            pure (Value.variant none v (some t))).run m := by
      rw [decodeWith, unboxing, decodeBoxed, Action.run_get_bind, peekType_opening hm hrest]
      simp only [variantOf, hl, if_true]
    refine run_cons_bracket (f := fun v => .variant none v (some t)) rfl hm hds hrest hn hdecode
      (fun hm₁ hds₁ hrest₁ hn₁ => ?_) (ih (List.forall_mem_cons.mp hts).2)
    rw [decodeWithin_eq, ← run_decodeFields_one]
    exact ihin ht hm₁ hds₁ hrest₁ (by omega)
  | @array e ts j inside items vs ws _ _ ihin ih =>
    intro hts n tail m hm hds hrest hn
    obtain ⟨ht, hts⟩ := List.forall_mem_cons.mp hts
    refine run_cons_bracket rfl hm hds hrest hn (by rw [decodeWith_array])
      (fun hm₁ hds₁ hrest₁ hn₁ => ?_) (ih hts)
    refine run_gather ht.ofArray hm₁ hrest₁ (ihin ?_ hm₁ hds₁ hrest₁ (by omega)) ?_
    · exact fun u hu => (List.eq_of_mem_replicate hu) ▸ ht.ofArray
    · exact foldlM_push [] vs
  | @dict k x ts j inside items vs ws es _ hd _ ihin ih =>
    intro hts n tail m hm hds hrest hn
    obtain ⟨ht, hts⟩ := List.forall_mem_cons.mp hts
    refine run_cons_bracket rfl hm hds hrest hn (by rw [decodeWith_dict])
      (fun hm₁ hds₁ hrest₁ hn₁ => ?_) (ih hts)
    refine run_gather ht.ofDict hm₁ hrest₁ (ihin ?_ hm₁ hds₁ hrest₁ (by omega)) hd
    exact fun u hu => (List.eq_of_mem_replicate hu) ▸ ht.ofDict
  | @entry k x ts inside items a b ws _ _ ihin ih =>
    intro hts n tail m hm hds hrest hn
    obtain ⟨ht, hts'⟩ := List.forall_mem_cons.mp hts
    obtain ⟨⟨key, rfl⟩, hx, hf⟩ := ht.ofEntry
    refine run_cons_bracket (a := (a, b)) (f := fun p => .entry p.1 p.2) hf hm hds hrest hn
      (by rw [decodeWith_entry]) (fun hm₁ hds₁ hrest₁ hn₁ => ?_) (ih hts')
    refine run_decodePair_eq_ok.mpr (ihin ?_ hm₁ hds₁ hrest₁ (by omega))
    simpa using ⟨IsElement.reduced (isReduced_basic key), IsElement.reduced hx⟩
  | @struct fs ts inside items vs ws _ _ ihin ih =>
    intro hts n tail m hm hds hrest hn
    obtain ⟨ht, hts⟩ := List.forall_mem_cons.mp hts
    obtain ⟨hfs, hf⟩ := ht.ofStruct
    refine run_cons_bracket hf hm hds hrest hn (by rw [decodeWith])
      (fun hm₁ hds₁ hrest₁ hn₁ => ?_) (ih hts)
    exact ihin (fun f hf => .reduced (hfs f hf)) hm₁ hds₁ hrest₁ (by omega)
  | tuple hin hs ihin ih =>
    intro hts
    exact absurd (hts _ List.mem_cons_self) fun h => h.not_tuple

end Reads

/-- **Reading is exact**: it answers with just what the items at the cursor are read as, and moves
the cursor behind them. -/
theorem WireType.run_decode_eq_ok {ρ : Registry} (hρ : ρ.Filled) {t : WireType} (ht : t.IsElement)
    {m m' : Message} {w : Value} (hm : m.Readable) :
    (decode ρ t).run m = (.ok w, m') ↔
      ∃ seg tail, m.rest = seg ++ tail ∧ m' = m.skip seg.length ∧
        Reads ρ m.stream.descriptors [t] seg [w] := by
  refine ⟨decode_sound hm, ?_⟩
  rintro ⟨seg, tail, hrest, rfl, hread⟩
  rw [run_decode hm.valid, ← run_decodeFields_one]
  exact hread.run hρ (by simpa using ht) hm rfl hrest (Nat.lt_succ_self _)

end TypedBus
