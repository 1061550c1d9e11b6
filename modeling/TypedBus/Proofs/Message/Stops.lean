import TypedBus.Proofs.Message.WriteCalls

/-!
# How writing stops

A call that writes to a message either succeeds, or records a failure, or raises (`settles_action`).
So a message that is still valid after calls none of which raised has taken every one of them
(`run_forM_of_noneRaises`).
-/

namespace TypedBus

open Message

namespace Action

variable {α : Type} {m : Message}

/-- The action stops only by recording a failure or by raising. -/
abbrev SettlesOrRaises (x : Action α) (m : Message) : Prop :=
  SettlesBut (fun stop _ => ∃ f, stop = .raised f) x m

theorem settlesOrRaises_raise (f : Fault) : SettlesOrRaises (raise f : Action α) m := by
  intro stop m' h
  cases h
  exact .inr ⟨f, rfl⟩

theorem SettlesBut.ifValid {allowed : Stop → Message → Prop} {x : Action α}
    (h : SettlesBut allowed x m) : SettlesBut allowed (ifValid x) m := by
  rcases hv : m.isValid with _ | _
  · intro stop m' hrun
    rw [run_ifValid_of_invalid hv] at hrun
    cases hrun
    exact .inl ⟨rfl, hv⟩
  · unfold SettlesBut
    rwa [run_ifValid hv]

/-- Closing raises nothing but that there is nothing to close. -/
theorem settlesBut_closeContainer :
    SettlesBut (fun stop _ => stop = .raised .nothingToClose) closeContainer m := by
  by_cases hframes : m.frames = []
  · refine settles_writable.but.bind fun _ m₁ hrun => ?_
    obtain ⟨-, rfl⟩ := writable_of_run hrun
    rw [settlesBut_get_bind, hframes]
    intro stop m' hstop
    cases hstop
    exact .inr rfl
  · exact (settles_closeContainer hframes).but

theorem admits_settlesOrRaises : Admits fun _ x => ∀ m, SettlesOrRaises x m where
  pure a _ := (settles_pure a).but
  bind hx hf m := (hx m).bind fun a m' _ => hf a m'
  ifValid hx m := (hx m).ifValid
  fail f _ := (settles_fail f).but
  raise f _ := settlesOrRaises_raise f
  openContainer _ _ := settles_openContainer.but
  closeContainer _ := settlesBut_closeContainer.mono fun _ _ h => ⟨_, h⟩
  encodeBasic _ _ _ := settles_encode_basic.but

end Action

namespace WriteCall

open TypedBus.Action

/-- **A call either succeeds, or records a failure, or raises.** -/
theorem settles_action (call : WriteCall) : ∀ m, SettlesOrRaises call.action m :=
  admits_action admits_settlesOrRaises call

/-- **A message that is valid after calls none of which raised has taken them all.** -/
theorem run_forM_of_noneRaises : ∀ {calls : List WriteCall} {m : Message},
    NoneRaises calls m → (after calls m).isValid = true →
      (calls.forM action).run m = (.ok (), after calls m)
  | [], _, _, _ => rfl
  | call :: calls, m, hraises, hv => by
    obtain ⟨hraise, hraises⟩ := hraises
    rw [after, List.foldl_cons] at hv ⊢
    rw [List.forM]
    rcases hrun : call.action.run m with ⟨stop | _, m'⟩
    · rw [hrun] at hraise hv
      rcases settles_action call m stop m' hrun with ⟨rfl, hinvalid⟩ | ⟨f, rfl⟩
      · have hafter := after_of_invalid hinvalid calls
        rw [after] at hafter
        rw [hafter, hinvalid] at hv
        cases hv
      · exact absurd rfl (hraise f)
    · rw [hrun] at hraises hv
      rw [run_bind_of_ok hrun]
      exact run_forM_of_noneRaises hraises hv

/-- Calls that all succeed raise nothing. -/
theorem noneRaises_of_isOk {calls : List WriteCall} {m : Message}
    (h : ((calls.forM action).run m).1.isOk = true) : NoneRaises calls m := by
  induction calls generalizing m with
  | nil => trivial
  | cons call calls ih =>
    rw [List.forM] at h
    rcases hrun : call.action.run m with ⟨stop | _, m'⟩
    · rw [run_bind_of_error hrun] at h
      cases h
    · rw [run_bind_of_ok hrun] at h
      rw [NoneRaises, hrun]
      exact ⟨fun f hf => (by cases hf), ih h⟩

end WriteCall

end TypedBus
