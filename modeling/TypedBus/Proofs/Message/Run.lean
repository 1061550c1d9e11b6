import TypedBus.Message.Basic

/-!
# Running actions

How a run of an action comes by its answer: an answer of two actions in a row is one of the second,
after an answer of the first (`Action.run_bind_eq_ok`), and what lifts an outcome answers only with
that outcome and leaves the message alone.

`Action.Settles` is what the caller of a fallible action counts on: where it gives no answer, a
failure has been recorded and nothing was raised (`Action.SettlesBut` leaves room for exceptions).
`Action.Keeps` is for what an action preserves however it ends.
-/

namespace TypedBus

namespace Action

variable {α β : Type} {m m' : Message} {a : α} {b : β}

theorem run_bind_eq_ok {x : Action α} {f : α → Action β} :
    (x >>= f).run m = (.ok b, m') ↔
      ∃ a m₁, x.run m = (.ok a, m₁) ∧ (f a).run m₁ = (.ok b, m') := by
  rw [run_bind]
  rcases hx : x.run m with ⟨_ | a, m₁⟩
  · simp
  · simp only [Prod.mk.injEq, Except.ok.injEq]
    constructor
    · exact fun h => ⟨a, m₁, ⟨rfl, rfl⟩, h⟩
    · rintro ⟨a', m₂, ⟨rfl, rfl⟩, h⟩
      exact h

theorem run_bind_of_ok {x : Action α} {f : α → Action β} (h : x.run m = (.ok a, m')) :
    (x >>= f).run m = (f a).run m' := by
  rw [run_bind, h]

theorem run_bind_of_error {x : Action α} {f : α → Action β} {stop : Stop}
    (h : x.run m = (.error stop, m')) : (x >>= f).run m = (.error stop, m') := by
  rw [run_bind, h]

theorem run_get_bind {f : Message → Action α} : (get >>= f).run m = (f m).run m :=
  run_bind_of_ok (run_get m)

theorem run_lift_eq_ok {x : Except Fault α} :
    (lift x).run m = (.ok a, m') ↔ x = .ok a ∧ m' = m := by
  cases x <;> simp [lift, raise, eq_comm]

theorem run_liftOrFail_eq_ok {failure : Fault → Failure} {x : Except Fault α} :
    (liftOrFail failure x).run m = (.ok a, m') ↔ x = .ok a ∧ m' = m := by
  cases x <;> simp [liftOrFail, eq_comm]

@[simp] theorem run_lift_ok : (lift (.ok a)).run m = (.ok a, m) := rfl

theorem run_refuse_ne_ok {v : Value} {failure : Text → Failure} :
    (refuse v failure : Action α).run m ≠ (.ok a, m') := by
  unfold refuse
  split <;> simp [raise]

@[simp] theorem run_ifValid {x : Action α} (h : m.isValid = true) : (ifValid x).run m = x.run m :=
  if_pos h

theorem run_ifValid_of_invalid {x : Action α} (h : m.isValid = false) :
    (ifValid x).run m = (.error .failed, m) :=
  if_neg (by simp [h])

end Action

namespace Message

variable {m : Message}

@[simp] theorem isValid_fail (f : Failure) : (m.fail f).isValid = false := by
  unfold fail
  split
  · rfl
  · rename_i h
    simpa using h

end Message

namespace Action

variable {α β : Type} {m : Message}

/-- Where the action gives no answer, it has recorded a failure; it raises nothing and does not go
on for ever. -/
def Settles (x : Action α) (m : Message) : Prop :=
  ∀ stop m', x.run m = (.error stop, m') → stop = .failed ∧ m'.isValid = false

/-- An action that settles and leaves the message valid has given an answer. -/
theorem Settles.ok {x : Action α} (h : Settles x m) (hv : (x.run m).2.isValid = true) :
    ∃ a m', x.run m = (.ok a, m') := by
  rcases hrun : x.run m with ⟨stop | a, m'⟩
  · rw [hrun, (h stop m' hrun).2] at hv
    cases hv
  · exact ⟨a, m', rfl⟩

theorem settles_pure (a : α) : Settles (pure a) m := by
  intro stop m' h
  simp at h

theorem settles_fail (f : Failure) : Settles (fail f : Action α) m := by
  intro stop m' h
  rw [run_fail, Prod.mk.injEq, Except.error.injEq] at h
  obtain ⟨rfl, rfl⟩ := h
  exact ⟨rfl, Message.isValid_fail f⟩

theorem settles_get_bind {f : Message → Action α} : Settles (get >>= f) m ↔ Settles (f m) m := by
  unfold Settles
  rw [run_get_bind]

theorem Settles.bind {x : Action α} {f : α → Action β} (hx : Settles x m)
    (hf : ∀ a m', x.run m = (.ok a, m') → Settles (f a) m') : Settles (x >>= f) m := by
  intro stop m' h
  rcases hrun : x.run m with ⟨stop' | a, m₁⟩
  · rw [run_bind_of_error hrun, Prod.mk.injEq, Except.error.injEq] at h
    obtain ⟨rfl, rfl⟩ := h
    exact hx stop' m₁ hrun
  · rw [run_bind_of_ok hrun] at h
    exact hf a m₁ hrun stop m' h

theorem settles_liftOrFail {failure : Fault → Failure} {x : Except Fault α} :
    Settles (liftOrFail failure x) m := by
  cases x with
  | ok a => exact settles_pure a
  | error f => exact settles_fail (failure f)

/-- The action settles, but for the stops that are allowed besides. -/
def SettlesBut (allowed : Stop → Message → Prop) (x : Action α) (m : Message) : Prop :=
  ∀ stop m', x.run m = (.error stop, m') →
    (stop = .failed ∧ m'.isValid = false) ∨ allowed stop m'

theorem Settles.but {allowed : Stop → Message → Prop} {x : Action α} (h : Settles x m) :
    SettlesBut allowed x m :=
  fun stop m' hrun => .inl (h stop m' hrun)

theorem SettlesBut.mono {allowed allowed' : Stop → Message → Prop} {x : Action α}
    (h : SettlesBut allowed x m) (hall : ∀ stop m', allowed stop m' → allowed' stop m') :
    SettlesBut allowed' x m :=
  fun stop m' hrun => (h stop m' hrun).imp_right (hall stop m')

theorem SettlesBut.bind {allowed : Stop → Message → Prop} {x : Action α} {f : α → Action β}
    (hx : SettlesBut allowed x m)
    (hf : ∀ a m', x.run m = (.ok a, m') → SettlesBut allowed (f a) m') :
    SettlesBut allowed (x >>= f) m := by
  intro stop m' h
  rcases hrun : x.run m with ⟨stop' | a, m₁⟩
  · rw [run_bind_of_error hrun, Prod.mk.injEq, Except.error.injEq] at h
    obtain ⟨rfl, rfl⟩ := h
    exact hx stop' m₁ hrun
  · rw [run_bind_of_ok hrun] at h
    exact hf a m₁ hrun stop m' h

/-- An action that looks at the message settles where what it does then settles. -/
theorem settlesBut_get_bind {allowed : Stop → Message → Prop} {f : Message → Action α} :
    SettlesBut allowed (get >>= f) m ↔ SettlesBut allowed (f m) m := by
  unfold SettlesBut
  rw [run_get_bind]

/-- What holds of a message still holds when the action has ended, be it with an answer or not. -/
def Keeps (P : Message → Prop) (x : Action α) : Prop := ∀ m, P m → P (x.run m).2

section Keeps

variable {P : Message → Prop}

theorem keeps_pure (a : α) : Keeps P (pure a) := fun _ h => h

theorem keeps_stop (s : Stop) : Keeps P (stop s : Action α) := fun _ h => h

theorem Keeps.bind {x : Action α} {f : α → Action β} (hx : Keeps P x) (hf : ∀ a, Keeps P (f a)) :
    Keeps P (x >>= f) := by
  intro m hm
  have h := hx m hm
  rw [run_bind]
  generalize x.run m = outcome at h ⊢
  rcases outcome with ⟨_ | a, m'⟩
  · exact h
  · exact hf a m' h

theorem Keeps.ifValid {x : Action α} (hx : Keeps P x) : Keeps P (ifValid x) := by
  intro m hm
  rcases h : m.isValid with _ | _
  · rw [run_ifValid_of_invalid h]
    exact hm
  · rw [run_ifValid h]
    exact hx m hm

end Keeps

/-- A value that can be shown can be refused. -/
theorem settles_refuse {v : Value} {shown : Text} (h : v.display = .ok shown)
    (failure : Text → Failure) : Settles (refuse v failure : Action α) m := by
  unfold refuse
  rw [h]
  exact settles_fail _

end Action

end TypedBus
