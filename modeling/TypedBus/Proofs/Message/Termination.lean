import TypedBus.Proofs.Message.Clock
import TypedBus.Proofs.Message.ReadExact
import TypedBus.Proofs.Wire.Plain

/-!
# When reading comes to an end

A value of a type takes an item, unless the type is a tuple of nothing or of such tuples
(`WireType.isIdle`). A loop over elements that take something comes to an end with the items, and
one over idle elements never does unless it stands at its end already.

* `ahead_of_decodeWith`: a value whose type is not idle takes an item.
* `followed_of_variant`: reading a value by the clock does what reading it does.
* `terminates_unless_idle`: a read terminates unless it comes to stand in an array of idle elements
  that holds something.
* `not_terminates_of_idle`: and there it does not.
-/

namespace TypedBus

open Message

/-! ## Values that take no item -/

namespace WireType

mutual

/-- A value of the type takes no item: it is a tuple of nothing, or of such tuples. -/
def isIdle : WireType → Bool
  | tuple fs => areIdle fs
  | _ => false

/-- Every type of the row is idle. -/
def areIdle : List WireType → Bool
  | [] => true
  | f :: fs => isIdle f && areIdle fs

end

mutual

/-- An array of idle elements occurs in the type. -/
def hasIdleArray : WireType → Bool
  | basic _ | variant => false
  | array e => isIdle e || hasIdleArray e
  | dict k x | entry k x => hasIdleArray k || hasIdleArray x
  | struct fs | tuple fs => anyHasIdleArray fs

/-- An array of idle elements occurs in one of a row of types. -/
def anyHasIdleArray : List WireType → Bool
  | [] => false
  | f :: fs => hasIdleArray f || anyHasIdleArray fs

end

theorem isIdle_of_no_tuple {t : WireType} (h : t.hasTuple = false) : t.isIdle = false := by
  cases t with
  | tuple => cases h
  | _ => rfl

mutual

/-- No array is idle where there is no tuple. -/
theorem hasIdleArray_of_no_tuple : ∀ {t : WireType}, t.hasTuple = false → t.hasIdleArray = false
  | basic _, _ | variant, _ => rfl
  | array e, h => by
    have he : e.hasTuple = false := h
    rw [hasIdleArray, isIdle_of_no_tuple he, hasIdleArray_of_no_tuple he]
    rfl
  | dict _ _, h | entry _ _, h => by
    obtain ⟨hk, hx⟩ := Bool.or_eq_false_iff.mp h
    rw [hasIdleArray, hasIdleArray_of_no_tuple hk, hasIdleArray_of_no_tuple hx]
    rfl
  | struct _, h => anyHasIdleArray_of_no_tuple h
  | tuple _, h => nomatch h

theorem anyHasIdleArray_of_no_tuple :
    ∀ {ts : List WireType}, anyHasTuple ts = false → anyHasIdleArray ts = false
  | [], _ => rfl
  | _ :: _, h => by
    obtain ⟨ht, hts⟩ := Bool.or_eq_false_iff.mp h
    rw [anyHasIdleArray, hasIdleArray_of_no_tuple ht, anyHasIdleArray_of_no_tuple hts]
    rfl

end

mutual

/-- An idle type is read without looking at the message, by the clock or without it. -/
theorem exists_of_isIdle : ∀ {t : WireType}, t.isIdle = true → ∃ v,
    (∀ unbox, decodeWith unbox t = pure v) ∧ ∀ clock unbox, decodeFor clock unbox t = pure v
  | tuple fs, h => by
    obtain ⟨vs, hdecode, hfor⟩ := exists_of_areIdle h
    refine ⟨.tuple vs, fun unbox => ?_, fun clock unbox => ?_⟩
    · rw [decodeWith, hdecode, pure_bind]
    · rw [decodeFor, hfor, pure_bind]

theorem exists_of_areIdle : ∀ {ts : List WireType}, areIdle ts = true → ∃ vs,
    (∀ unbox, decodeFields unbox ts = pure vs) ∧
      ∀ clock unbox, decodeFieldsFor clock unbox ts = pure vs
  | [], _ => ⟨[], fun _ => by rw [decodeFields], fun _ _ => by rw [decodeFieldsFor]⟩
  | _ :: _, h => by
    obtain ⟨ht, hts⟩ := Bool.and_eq_true_iff.mp h
    obtain ⟨v, hdecode, hfor⟩ := exists_of_isIdle ht
    obtain ⟨vs, hdecodes, hfors⟩ := exists_of_areIdle hts
    refine ⟨v :: vs, fun unbox => ?_, fun clock unbox => ?_⟩
    · rw [decodeFields, hdecode, pure_bind, hdecodes, pure_bind]
    · rw [decodeFieldsFor, hfor, pure_bind, hfors, pure_bind]

end

end WireType

open WireType in
/-- Items that a row is read from are none only if all of it is idle. -/
theorem Reads.areIdle {ρ : Registry} {ds : List Value} {ts : List WireType} {items : List Item}
    {ws : List Value} (h : Reads ρ ds ts items ws) (hitems : items = []) : areIdle ts = true := by
  induction h with
  | nil => rfl
  | basic | variant | array | dict | entry | struct => cases hitems
  | tuple _ _ ihin ih =>
    obtain ⟨hin, hrest⟩ := List.append_eq_nil_iff.mp hitems
    exact Bool.and_eq_true_iff.mpr ⟨ihin hin, ih hrest⟩

/-! ## Progress -/

namespace Message

variable {m m' : Message}

/-- The message stands in an array of idle elements, and not at the end of it. -/
structure Stuck (m : Message) : Prop where
  readable : m.Readable
  notAtEnd : m.atEnd = false
  frame : ∃ e fields fs, WireType.isIdle e = true ∧
    m.frames = { container := WireType.arrayOf e, fields } :: fs

/-- The second message is the first some items further on. -/
structure Ahead (m m' : Message) : Prop where
  readable : m'.Readable
  cursor : m.stream.cursor < m'.stream.cursor
  rest : m'.rest.length < m.rest.length

theorem ahead_skip {seg tail : List Item} (hm : m.Readable) (hrest : m.rest = seg ++ tail)
    (hne : seg ≠ []) : m.Ahead (m.skip seg.length) := by
  have hpos : 0 < seg.length := List.length_pos_iff.mpr hne
  refine ⟨hm.skip _, by simp [hpos], ?_⟩
  rw [rest_skip_append hrest, hrest, List.length_append]
  omega

end Message

namespace WireType

open TypedBus.Action

variable {ρ : Registry} {k clock : Nat} {m m' : Message} {t e : WireType} {v : Value}

/-- **A value whose type is not idle takes an item.** -/
theorem ahead_of_decodeWith (ht : t.isIdle = false) (hm : m.Readable)
    (h : (decodeWith (unboxing ρ k) t).run m = (.ok v, m')) : m.Ahead m' := by
  obtain ⟨seg, tail, hrest, rfl, hread⟩ := decodeWith_sound (sound_unboxing k) t hm h
  refine ahead_skip hm hrest fun hseg => ?_
  have hidle := hread.areIdle hseg
  rw [areIdle, ht] at hidle
  cases hidle

theorem readable_of_decodeWith (hm : m.Readable)
    (h : (decodeWith (unboxing ρ k) t).run m = (.ok v, m')) :
    m'.Readable ∧ m'.rest.length ≤ m.rest.length := by
  obtain ⟨seg, tail, hrest, rfl, -⟩ := decodeWith_sound (sound_unboxing k) t hm h
  refine ⟨hm.skip _, ?_⟩
  rw [rest_skip, List.length_drop]
  omega

end WireType

/-! ## Loops -/

namespace Action

variable {β : Type} {m : Message} {step stepFor : β → Action β} {clock fuel : Nat}
  {stuck : Message → Prop}

/-- A step that takes an item whenever it answers, and is followed as far as it goes, is followed
when it is repeated. -/
theorem follows_untilEnd
    (hstep : ∀ b m, m.Readable → m.rest.length < fuel →
      Follows (m.rest.length < clock) stuck (stepFor b) (step b) m)
    (hahead : ∀ b m b' m', m.Readable → (step b).run m = (.ok b', m') → m.Ahead m') :
    ∀ {n b m}, m.Readable → m.rest.length < n → n ≤ fuel → ∀ count,
      Follows (m.rest.length < clock ∧ m.rest.length < count) stuck (passes stepFor count b)
        (untilEnd step n b) m := by
  intro n
  induction n with
  | zero => exact fun _ h => nomatch h
  | succ n ih =>
    intro b m hm hn hfuel
    have hsucc : ∀ count, Follows (m.rest.length < clock ∧ m.rest.length < count + 1) stuck
        (passes stepFor (count + 1) b) (untilEnd step (n + 1) b) m := by
      intro count
      by_cases hend : m.atEnd = true
      · refine Follows.congr (.refl (settles_pure b).but) ?_ ?_
        · rw [passes, run_get_bind, if_pos hend]
        · rw [untilEnd, run_get_bind, if_pos hend]
      · have hfollows : Follows (m.rest.length < clock ∧ m.rest.length < count + 1) stuck
            (stepFor b >>= passes stepFor count) (step b >>= untilEnd step n) m := by
          refine ((hstep b m hm (by omega)).mono And.left fun _ h => h).bind fun b₁ m₁ h => ?_
          obtain ⟨hm₁, -, hrest⟩ := hahead b m b₁ m₁ hm h
          exact (ih hm₁ (by omega) (by omega) count).mono (fun h => by omega) fun _ h => h
        refine hfollows.congr ?_ ?_
        · rw [passes, run_get_bind, if_neg hend]
        · -- the check that the cursor has moved on succeeds
          rw [untilEnd, run_get_bind, if_neg hend]
          rcases hrun : (step b).run m with ⟨stop | b₁, m₁⟩
          · rw [run_bind_of_error hrun, run_bind_of_error hrun]
          · rw [run_bind_of_ok hrun, run_bind_of_ok hrun, run_get_bind,
              if_pos (hahead b m b₁ m₁ hm hrun).cursor]
    intro count
    cases count with
    | zero => exact ⟨.inl rfl, fun h => absurd h.2 (Nat.not_lt_zero _), (hsucc 0).stops⟩
    | succ count => exact hsucc count

/-- A step that always answers and changes nothing is repeated for ever, unless the end is next. -/
theorem run_passes_idle (put : β → β) (hend : m.atEnd = false) :
    ∀ count b, (passes (fun b => pure (put b)) count b).run m = (.error .endless, m)
  | 0, _ => rfl
  | count + 1, b => by
    rw [passes, run_get_bind, if_neg (by simp [hend]), run_bind_of_ok (run_pure _ _)]
    exact run_passes_idle put hend count (put b)

theorem run_untilEnd_idle {put : β → β} {n : Nat} {b : β} (hend : m.atEnd = false) :
    (untilEnd (fun b => pure (put b)) n b).run m = (.error .endless, m) := by
  cases n with
  | zero => rfl
  | succ n =>
    rw [untilEnd, run_get_bind, if_neg (by simp [hend]), run_bind_of_ok (run_pure _ _),
      run_get_bind, if_neg (Nat.lt_irrefl _)]
    rfl

/-- So is it by the clock. -/
theorem follows_idle (clock : Nat) (put : β → β) (b : β) (hm : m.Readable)
    (hframe : ∃ e fields fs, WireType.isIdle e = true ∧
      m.frames = { container := WireType.arrayOf e, fields } :: fs) :
    Follows (m.rest.length < clock) Stuck (passes (fun b => pure (put b)) clock b)
      (repeatUntilEnd (fun b => pure (put b)) b) m := by
  rcases hend : m.atEnd with _ | _
  · have hx : (repeatUntilEnd (fun b => pure (put b)) b).run m = (.error .endless, m) := by
      rw [repeatUntilEnd, run_get_bind]
      exact run_untilEnd_idle hend
    refine ⟨.inl ?_, fun _ h => ?_, fun stop m' h => ?_⟩
    · rw [run_passes_idle put hend]
    · rw [hx] at h
      exact absurd rfl h
    · rw [hx] at h
      cases h
      exact .inr (.inr ⟨rfl, hm, hend, hframe⟩)
  · have hx : (repeatUntilEnd (fun b => pure (put b)) b).run m = (.ok b, m) := by
      rw [repeatUntilEnd, run_get_bind, untilEnd, run_get_bind, if_pos hend]
      rfl
    refine ⟨?_, fun hclock _ => ?_, fun stop m' h => ?_⟩
    · cases clock with
      | zero => exact .inl rfl
      | succ n =>
        right
        rw [hx, passes, run_get_bind, if_pos hend]
        rfl
    · obtain ⟨n, rfl⟩ : ∃ n, clock = n + 1 := ⟨clock - 1, by omega⟩
      rw [hx, passes, run_get_bind, if_pos hend]
      rfl
    · rw [hx] at h
      cases h

end Action

/-! ## Whole values -/

namespace WireType

open TypedBus.Action

variable {ρ : Registry} {k clock : Nat} {m : Message} {unboxClocked : Action Value}
  {t e a b : WireType} {ts : List WireType} {enough : Prop} {stuck : Message → Prop}

/-- What lies between two markers is followed where its inside is. -/
theorem follows_bracket {α : Type} {c : Container} {body bodyFor : Action α} {f : α → Value}
    (hm : m.Readable)
    (hbody : ∀ fields, (m.enter c fields).rest.length < m.rest.length →
      Follows enough stuck bodyFor body (m.enter c fields)) :
    Follows enough stuck
      (do enterContainer c; let a ← bodyFor; exitContainer; pure (f a))
      (do enterContainer c; let a ← body; exitContainer; pure (f a)) m := by
  refine (Follows.refl (settlesOrRaises_enterContainer c)).bind fun _ m₁ henter => ?_
  obtain ⟨rest, fields, hrest, -, rfl⟩ := (run_enterContainer_eq_ok hm).mp henter
  have hshorter : (m.enter c fields).rest.length < m.rest.length := by
    rw [rest_enter_cons hrest, hrest]
    exact Nat.lt_succ_self _
  refine (hbody fields hshorter).bind fun a m₂ _ => ?_
  exact .refl (settlesOrRaises_exitContainer.bind fun _ _ _ => (settles_pure _).but)

/-- Reading a value of the type is followed by the clock, from wherever fewer than so many items are
left. -/
def Followed (ρ : Registry) (k clock : Nat) (unboxClocked : Action Value) (t : WireType) : Prop :=
  ∀ ⦃m⦄, m.Readable → m.rest.length < k →
    Follows (m.rest.length < clock) (fun m' => t.hasIdleArray = true ∧ m'.Stuck)
      (decodeFor clock unboxClocked t) (decodeWith (unboxing ρ k) t) m

/-- So is reading a row of values, if each of them is. -/
theorem follows_row (hts : ∀ t ∈ ts, Followed ρ k clock unboxClocked t) (hm : m.Readable)
    (hk : m.rest.length < k) :
    Follows (m.rest.length < clock) (fun m' => anyHasIdleArray ts = true ∧ m'.Stuck)
      (decodeFieldsFor clock unboxClocked ts) (decodeFields (unboxing ρ k) ts) m := by
  induction ts generalizing m with
  | nil =>
    rw [decodeFieldsFor, decodeFields]
    exact .refl (settles_pure _).but
  | cons t ts ih =>
    obtain ⟨ht, hts⟩ := List.forall_mem_cons.mp hts
    rw [decodeFieldsFor, decodeFields]
    refine ((ht hm hk).mono id fun _ h => ⟨Bool.or_eq_true_iff.mpr (.inl h.1), h.2⟩).bind
      fun v m₁ hrun => ?_
    obtain ⟨hm₁, hle⟩ := readable_of_decodeWith hm hrun
    refine ((ih hts hm₁ (by omega)).mono (fun h => by omega) fun _ h =>
      ⟨Bool.or_eq_true_iff.mpr (.inr h.1), h.2⟩).bind fun _ _ _ => ?_
    exact .refl (settles_pure _).but

theorem entryWith_eq {key value : Action Value} :
    entryWith a b key value = (do
      enterContainer (entryOf a b)
      let p ← (do let x ← key; let y ← value; pure (x, y))
      exitContainer
      pure (.entry p.1 p.2)) := by
  simp only [entryWith, bind_assoc, pure_bind]

theorem decodeWith_entry_eq {unbox : Action Value} :
    decodeWith unbox (.entry a b) = entryWith a b (decodeWith unbox a) (decodeWith unbox b) := by
  rw [decodeWith]
  rfl

/-- So is reading an entry, if its key and its value are. -/
theorem followed_entry (ha : Followed ρ k clock unboxClocked a)
    (hb : Followed ρ k clock unboxClocked b) : Followed ρ k clock unboxClocked (.entry a b) := by
  intro m hm hk
  rw [decodeFor, decodeWith_entry_eq, entryWith_eq, entryWith_eq]
  refine follows_bracket hm fun fields hlt => ?_
  have hin := hm.enter (entryOf a b) fields
  refine ((ha hin (by omega)).mono (fun h => by omega) fun _ h =>
    ⟨Bool.or_eq_true_iff.mpr (.inl h.1), h.2⟩).bind fun x m₁ hrun => ?_
  obtain ⟨hm₁, hle⟩ := readable_of_decodeWith hin hrun
  refine ((hb hm₁ (by omega)).mono (fun h => by omega) fun _ h =>
    ⟨Bool.or_eq_true_iff.mpr (.inr h.1), h.2⟩).bind fun _ _ _ => ?_
  exact .refl (settles_pure _).but

/-- Gathering elements each of which takes an item is followed. -/
theorem follows_gather {β : Type} (put : β → Value → Except Fault β) (x : β)
    (he : Followed ρ k clock unboxClocked e) (hidle : e.isIdle = false) (hm : m.Readable)
    (hk : m.rest.length < k) :
    Follows (m.rest.length < clock) (fun m' => e.hasIdleArray = true ∧ m'.Stuck)
      (passes (gatherWith (decodeFor clock unboxClocked e) put) clock x)
      (repeatUntilEnd (gatherStep (unboxing ρ k) e put) x) m := by
  have hstep : ∀ x m, m.Readable → m.rest.length < k →
      Follows (m.rest.length < clock) (fun m' => e.hasIdleArray = true ∧ m'.Stuck)
        (gatherWith (decodeFor clock unboxClocked e) put x) (gatherStep (unboxing ρ k) e put x)
        m := fun x m hm hk =>
    (he hm hk).bind fun _ _ _ => .refl (settlesOrRaises_lift _)
  have hahead : ∀ x m x' m', m.Readable →
      (gatherStep (unboxing ρ k) e put x).run m = (.ok x', m') → m.Ahead m' :=
    fun x m x' m' hm hrun => by
      obtain ⟨v, m₁, hv, hlift⟩ := run_bind_eq_ok.mp hrun
      obtain ⟨-, rfl⟩ := run_lift_eq_ok.mp hlift
      exact ahead_of_decodeWith hidle hm hv
  have hloop := follows_untilEnd hstep hahead (n := m.rest.length + 1) (b := x) hm
    (Nat.lt_succ_self _) hk clock
  exact (hloop.mono (fun h => ⟨h, h⟩) fun _ h => h).congr rfl
    (by rw [repeatUntilEnd, run_get_bind])

mutual

/-- **Reading is followed by the clock**, if it is where a variant is read. -/
theorem followed_of_variant (hv : Followed ρ k clock unboxClocked .variant) :
    ∀ t, Followed ρ k clock unboxClocked t
  | .basic b => by
    intro m _ _
    rw [decodeFor, decodeWith]
    exact .refl (settlesOrRaises_decodeBasic b)
  | .variant => hv
  | .array e => by
    intro m hm hk
    rw [decodeFor, decodeWith_array]
    refine follows_bracket hm fun fields hlt => ?_
    rcases hidle : e.isIdle with _ | _
    · exact (follows_gather _ _ (followed_of_variant hv e) hidle (hm.enter _ _) (by omega)).mono
        (fun h => by omega) fun _ h => ⟨Bool.or_eq_true_iff.mpr (.inr h.1), h.2⟩
    · obtain ⟨v, hdecode, hfor⟩ := exists_of_isIdle hidle
      refine ((follows_idle clock (fun vs => vs ++ [v]) [] (hm.enter (arrayOf e) fields)
        ⟨e, fields, m.frames, hidle, rfl⟩).mono (fun h => by omega) fun _ h =>
        ⟨Bool.or_eq_true_iff.mpr (.inl hidle), h⟩).congr ?_ ?_
      · rw [hfor]
        rfl
      · have hstep : gatherStep (unboxing ρ k) e (fun vs v => .ok (vs ++ [v])) =
            fun vs => pure (vs ++ [v]) := by
          funext vs
          rw [gatherStep, hdecode]
          rfl
        rw [hstep]
  | .dict a b => by
    intro m hm hk
    rw [decodeFor, decodeWith_dict]
    refine follows_bracket hm fun fields hlt => ?_
    have hentry := followed_entry (followed_of_variant hv a) (followed_of_variant hv b)
    have hgather := follows_gather Value.addEntry [] hentry rfl
      (hm.enter (arrayOf (.entry a b)) fields) (by omega)
    refine (hgather.mono (fun h => by omega) fun _ h => h).congr ?_ rfl
    rw [decodeFor]
  | .entry a b => followed_entry (followed_of_variant hv a) (followed_of_variant hv b)
  | .struct fs => by
    intro m hm hk
    rw [decodeFor, decodeWith]
    refine follows_bracket hm fun fields hlt => ?_
    exact (follows_row (followed_of_variantAll hv fs) (hm.enter _ _) (by omega)).mono
      (fun h => by omega) fun _ h => h
  | .tuple fs => by
    intro m hm hk
    rw [decodeFor, decodeWith]
    exact (follows_row (followed_of_variantAll hv fs) hm hk).bind fun _ _ _ =>
      .refl (settles_pure _).but

theorem followed_of_variantAll (hv : Followed ρ k clock unboxClocked .variant) :
    ∀ ts : List WireType, ∀ t ∈ ts, Followed ρ k clock unboxClocked t
  | [] => fun _ ht => nomatch ht
  | t :: ts => by
    have ht := followed_of_variant hv t
    have hts := followed_of_variantAll hv ts
    exact List.forall_mem_cons.mpr ⟨ht, hts⟩

end

/-! ## Variants -/

/-- Reading a variant is followed where reading its content is. -/
theorem follows_decodeBoxed {decodeFor decode : WireType → Action Value} (hm : m.Readable)
    (hdecode : ∀ s t, ρ.lookup? s = some t → ∀ m₁, m₁.Readable →
      m₁.rest.length < m.rest.length → Follows enough stuck (decodeFor t) (decode t) m₁) :
    Follows enough stuck (decodeBoxed ρ decodeFor) (decodeBoxed ρ decode) m := by
  refine (Follows.refl fun _ _ h => by cases h).bind fun m₁ m₂ hget => ?_
  cases hget
  rcases m.peekType with ⟨code, content⟩
  simp only
  split
  · rcases hl : ρ.lookup? content with _ | t
    · exact .refl (settles_fail _).but
    · exact follows_bracket hm fun fields hlt => hdecode content t hl _ (hm.enter _ _) hlt
  · exact .refl ((settlesOrRaises_enterContainer _).bind fun _ _ _ => (settles_fail _).but)

/-- **Reading a variant is followed by the clock**, which counts how deep it lies; what a variant
holds has no tuples, so that nothing in it is idle. -/
theorem followed_unboxing (hρ : ρ.Filled) :
    ∀ k clock, Followed ρ k clock (unboxFor ρ clock) .variant := by
  intro k
  induction k with
  | zero => exact fun _ _ _ h => absurd h (Nat.not_lt_zero _)
  | succ k ih =>
    intro clock m hm hk
    have hsucc : ∀ clock, Follows (m.rest.length < clock + 1) (fun _ => False)
        (unboxFor ρ (clock + 1)) (unboxing ρ (k + 1)) m := by
      intro clock
      rw [unboxFor, unboxing, decodeWithin_eq]
      refine follows_decodeBoxed hm fun s t hl m₁ hm₁ hlt => ?_
      have htuple := hasTuple_of_fits (isReduced_iff.mp (hρ.lookup hl).2).2
      have ht := followed_of_variant (ih clock) t hm₁ (by omega)
      refine ht.mono (fun h => by omega) fun _ h => ?_
      rw [hasIdleArray_of_no_tuple htuple] at h
      exact Bool.false_ne_true h.1
    rw [decodeFor, decodeWith]
    cases clock with
    | zero => exact ⟨.inl rfl, fun h => absurd h (Nat.not_lt_zero _),
        ((hsucc 0).mono id fun _ h => h.elim).stops⟩
    | succ clock => exact (hsucc clock).mono id fun _ h => h.elim

end WireType

/-! ## Reading from a message -/

namespace Message

open TypedBus.Action WireType

variable {ρ : Registry} {m : Message}

/-- **Reading is followed by the clock**, and the number of items that are left is enough. -/
theorem follows_read (type : TypeExpr) (clock : Nat) (hρ : ρ.Filled)
    (hm : m.stream.isSealed = true) :
    Follows (m.rest.length < clock)
      (fun m' => (∃ t, type.canonical = .ok t ∧ t.hasIdleArray = true) ∧ m'.Stuck)
      (readFor ρ clock type) (Message.read ρ type) m := by
  rcases hv : m.isValid with _ | _
  · refine (Follows.refl (x := Message.read ρ type) fun stop m' h => ?_).congr ?_ rfl
    · rw [Message.read, run_ifValid_of_invalid hv] at h
      cases h
      exact .inl ⟨rfl, hv⟩
    · rw [readFor, Message.read, run_ifValid_of_invalid hv, run_ifValid_of_invalid hv]
  · have hm : m.Readable := ⟨hv, hm⟩
    have hvalue : Follows (m.rest.length < clock)
        (fun m' => (∃ t, type.canonical = .ok t ∧ t.hasIdleArray = true) ∧ m'.Stuck)
        (do let t ← Action.lift type.canonical; t.decodeFor clock (unboxFor ρ clock))
        (do let t ← Action.lift type.canonical; t.decode ρ) m := by
      refine (Follows.refl (settlesOrRaises_lift _)).bind fun t m₁ hlift => ?_
      obtain ⟨ht, rfl⟩ := run_lift_eq_ok.mp hlift
      have ht := followed_of_variant (followed_unboxing hρ (m₁.rest.length + 1) clock) t hm
        (Nat.lt_succ_self _)
      exact (ht.mono id fun _ h => ⟨⟨t, ‹_›, h.1⟩, h.2⟩).congr rfl (run_decode hv)
    exact hvalue.congr (by rw [readFor, run_ifValid hv]) (by rw [Message.read, run_ifValid hv])

/-- A read terminates unless it stops for going on for ever. -/
theorem terminates_iff {type : TypeExpr} (hρ : ρ.Filled) (hm : m.stream.isSealed = true) :
    Terminates ρ type m ↔ ((Message.read ρ type).run m).1 ≠ .error .endless := by
  constructor
  · rintro ⟨clock, hclock⟩ hendless
    rcases (follows_read type clock hρ hm).approx with hstop | hsame
    · exact hclock hstop
    · rw [hsame] at hclock
      exact hclock hendless
  · intro hend
    refine ⟨m.rest.length + 1, ?_⟩
    rw [(follows_read type _ hρ hm).exact (Nat.lt_succ_self _) hend]
    exact hend

/-- What a pass of a loop is to do: whenever it answers it has taken an item, and otherwise the
message is invalid, or something was raised, or the element holds an array that it is stuck in. -/
structure Advances {α : Type} (x : Action α) (m : Message) : Prop where
  takes : ∀ a m', x.run m = (.ok a, m') → m.Ahead m'
  stops : SettlesBut (fun stop m' => (∃ f, stop = .raised f) ∨ stop = .endless ∧ m'.Stuck) x m

/-- **Every pass of a loop whose elements are not idle advances.** -/
theorem advances_pass {β : Type} {e : WireType} {k : Nat} {put : β → Value → Except Fault β} {b : β}
    (hρ : ρ.Filled) (he : e.isIdle = false) (hm : m.Readable) (hk : m.rest.length < k) :
    Advances (gatherStep (unboxing ρ k) e put b) m where
  takes b' m' hrun := by
    obtain ⟨v, m₁, hv, hlift⟩ := run_bind_eq_ok.mp hrun
    obtain ⟨-, rfl⟩ := run_lift_eq_ok.mp hlift
    exact ahead_of_decodeWith he hm hv
  stops := by
    have helement := (followed_of_variant (followed_unboxing hρ k 0) e hm hk).stops
    refine SettlesBut.bind (helement.mono fun _ _ => Or.imp_right fun h => ⟨h.1, h.2.2⟩) ?_
    exact fun v m₁ _ => (settlesOrRaises_lift _).mono fun _ _ h => .inl h

/-- **A read terminates unless it gets stuck in an array of idle elements.** Where it terminates, it
needs no more passes of any loop, and no more variants inside one another, than items are left. -/
theorem terminates_unless_idle (type : TypeExpr) (hρ : ρ.Filled)
    (hm : m.stream.isSealed = true) :
    (Terminates ρ type m ∨ ∃ t m', type.canonical = .ok t ∧ t.hasIdleArray = true ∧
        (Message.read ρ type).run m = (.error .endless, m') ∧ m'.Stuck ∧
        ∀ clock, ((readFor ρ clock type).run m).1 = .error .endless) ∧
      (Terminates ρ type m → ∀ clock, m.rest.length < clock →
        (readFor ρ clock type).run m = (Message.read ρ type).run m) ∧
      ∀ (e : WireType) {β : Type} (put : β → Value → Except Fault β) (b : β) (k : Nat)
        (m₁ : Message), e.isIdle = false → m₁.Readable → m₁.rest.length < k →
          Advances (gatherStep (unboxing ρ k) e put b) m₁ := by
  refine ⟨?_, fun h clock hclock => ?_, fun e β put b k m₁ he hm₁ hk =>
    advances_pass hρ he hm₁ hk⟩
  by_cases hterm : Terminates ρ type m
  · exact .inl hterm
  · right
    have hendless : ((Message.read ρ type).run m).1 = .error .endless :=
      not_not.mp fun h => hterm ((terminates_iff hρ hm).mpr h)
    rcases hrun : (Message.read ρ type).run m with ⟨_, m'⟩
    rw [hrun] at hendless
    subst hendless
    have hstops := (follows_read type 0 hρ hm).stops
    rcases hstops _ _ hrun with ⟨hstop, -⟩ | ⟨_, hstop⟩ | ⟨-, ⟨t, ht, hidle⟩, hstuck⟩
    · cases hstop
    · cases hstop
    · exact ⟨t, m', ht, hidle, rfl, hstuck, fun clock => not_not.mp fun h => hterm ⟨clock, h⟩⟩
  · exact (follows_read type clock hρ hm).exact hclock ((terminates_iff hρ hm).mp h)

/-- A message that holds an array of a single number. -/
def oneNumber : Message :=
  ofStream
    { items := [.opening (arrayOf .int32), .basic "i" (.integer 1), .closing], isSealed := true }

theorem terminates_oneNumber :
    Terminates {} (.wire (.array (.tuple [.int32]))) oneNumber ∧
      (readFor {} 4 (.wire (.array (.tuple [.int32])))).run oneNumber =
        (Message.read {} (.wire (.array (.tuple [.int32])))).run oneNumber := by
  obtain ⟨hterm, hsame, -⟩ := terminates_unless_idle (m := oneNumber)
    (.wire (.array (.tuple [.int32]))) .empty rfl
  have hterm := hterm.resolve_right fun ⟨t, _, ht, hidle, _⟩ => by
    cases ht
    cases hidle
  exact ⟨hterm, hsame hterm 4 (Nat.lt_succ_self 3)⟩

/-- **Nobody reads an array of idle elements that holds something to its end.** -/
theorem not_terminates_of_idle {e : WireType} {fields : List Text} {item : Item} {rest : List Item}
    (he : e.isIdle = true) (hf : (arrayOf e).fields = .ok fields) (hm : m.Readable)
    (hrest : m.rest = .opening (arrayOf e) :: item :: rest) (hitem : item ≠ .closing) :
    ¬Terminates ρ (.wire (.array e)) m := by
  rintro ⟨clock, hclock⟩
  refine hclock ?_
  obtain ⟨v, -, hfor⟩ := exists_of_isIdle he
  have henter := (run_enterContainer_eq_ok hm).mpr ⟨_, fields, hrest, hf, rfl⟩
  have hend : (m.enter (arrayOf e) fields).atEnd = false := by
    rw [Bool.eq_false_iff, ne_eq, atEnd_iff (hm.enter _ _), rest_enter_cons hrest]
    simp [hitem]
  have hstep : gatherWith (decodeFor clock (unboxFor ρ clock) e) (fun vs v => .ok (vs ++ [v])) =
      fun vs => pure (vs ++ [v]) := by
    rw [hfor]
    rfl
  have hpasses := run_passes_idle (fun vs => vs ++ [v]) hend clock []
  have hlift : (Action.lift (TypeExpr.wire (.array e)).canonical).run m = (.ok (.array e), m) := rfl
  rw [readFor, run_ifValid hm.valid, run_bind_of_ok hlift, decodeFor, run_bind_of_ok henter, hstep,
    run_bind_of_error hpasses]

/-- A message that holds an array of a number without the type of it. -/
def numberAmongNothings : Message :=
  ofStream
    { items := [.opening (arrayOf (.tuple [])), .basic "i" (.integer 1), .closing]
      isSealed := true }

/-- Not every read of a sealed message terminates. -/
theorem not_terminates_always :
    ¬∀ (ρ : Registry) (type : TypeExpr) (m : Message), ρ.Filled → m.stream.isSealed = true →
      Terminates ρ type m := by
  intro h
  have hrest : numberAmongNothings.rest =
      [.opening (arrayOf (.tuple [])), .basic "i" (.integer 1), .closing] := rfl
  exact not_terminates_of_idle rfl rfl ⟨rfl, rfl⟩ hrest nofun
    (h {} (.wire (.array (.tuple []))) numberAmongNothings .empty rfl)

end Message

end TypedBus
