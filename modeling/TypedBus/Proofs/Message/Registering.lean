import TypedBus.Proofs.Message.Uses
import TypedBus.Proofs.Registrations

/-!
# Reading with more types registered

A reader looks up the signature of every variant it meets, at whatever depth. A signature that has a
type keeps it when more are registered, so a reader with the larger registry goes the same way, item
by item, up to the first variant that only the larger registry has a type for
(`Action.SameUnless`, `WireType.sameUnless_decodeWithin`). There the other one stops, with the
cursor before the variant (`Message.BeforeNewVariant`).

`Message.read_after` states it for every row of calls on the registry.
-/

namespace TypedBus

open Message WireType

/-! ## Two actions that part at one kind of failure only -/

namespace Action

variable {α β : Type} {P : Message → Prop} {x y : Action α} {f g : α → Action β} {m : Message}

/-- From every message the second action has the same outcome as the first, unless the first fails
and leaves a message of this kind. -/
def SameUnless (P : Message → Prop) (x y : Action α) : Prop :=
  ∀ m, y.run m = x.run m ∨ ∃ m', x.run m = (.error .failed, m') ∧ P m'

theorem sameUnless_self (x : Action α) : SameUnless P x x := fun _ => .inl rfl

theorem SameUnless.bind (hx : SameUnless P x y) (hf : ∀ a, SameUnless P (f a) (g a)) :
    SameUnless P (x >>= f) (y >>= g) := by
  intro m
  rcases hx m with hsame | ⟨m', hfailed, hm'⟩
  · rw [run_bind, run_bind, hsame]
    rcases x.run m with ⟨stop | a, m₁⟩
    · exact .inl rfl
    · exact hf a m₁
  · exact .inr ⟨m', run_bind_of_error hfailed, hm'⟩

/-- What comes after the same beginning. -/
theorem SameUnless.after {z : Action β} {f g : β → Action α} (h : ∀ b, SameUnless P (f b) (g b)) :
    SameUnless P (z >>= f) (z >>= g) :=
  (sameUnless_self z).bind h

theorem SameUnless.ifValid (h : SameUnless P x y) : SameUnless P (ifValid x) (ifValid y) := by
  intro m
  cases hv : m.isValid with
  | false => exact .inl (by rw [run_ifValid_of_invalid hv, run_ifValid_of_invalid hv])
  | true =>
    rw [run_ifValid hv, run_ifValid hv]
    exact h m

theorem sameUnless_untilEnd {step step' : α → Action α}
    (hstep : ∀ a, SameUnless P (step a) (step' a)) :
    ∀ (n : Nat) (a : α), SameUnless P (untilEnd step n a) (untilEnd step' n a)
  | 0, _ => sameUnless_self _
  | n + 1, a => by
    rw [untilEnd, untilEnd]
    refine .after fun before => ?_
    split
    · exact sameUnless_self _
    · refine (hstep a).bind fun a => .after fun after => ?_
      split
      · exact sameUnless_untilEnd hstep n a
      · exact sameUnless_self _

theorem sameUnless_repeatUntilEnd {step step' : α → Action α}
    (hstep : ∀ a, SameUnless P (step a) (step' a)) (a : α) :
    SameUnless P (repeatUntilEnd step a) (repeatUntilEnd step' a) :=
  .after fun _ => sameUnless_untilEnd hstep _ a

end Action

/-! ## Reading values of a type -/

namespace WireType

variable {P : Message → Prop} {unbox unbox' : Action Value}

mutual

/-- A value of a type is read the same way as long as its variants are. -/
theorem sameUnless_decodeWith (h : Action.SameUnless P unbox unbox') :
    ∀ t : WireType, Action.SameUnless P (decodeWith unbox t) (decodeWith unbox' t)
  | .basic _ => by
    rw [decodeWith, decodeWith]
    exact Action.sameUnless_self _
  | .variant => by
    rw [decodeWith, decodeWith]
    exact h
  | .array e => by
    rw [decodeWith, decodeWith]
    refine .after fun _ => ?_
    refine (Action.sameUnless_repeatUntilEnd (fun vs => ?_) []).bind fun _ =>
      Action.sameUnless_self _
    exact (sameUnless_decodeWith h e).bind fun _ => Action.sameUnless_self _
  | .dict k x => by
    rw [decodeWith, decodeWith]
    refine .after fun _ => ?_
    refine (Action.sameUnless_repeatUntilEnd (fun es => .after fun _ => ?_) []).bind fun _ =>
      Action.sameUnless_self _
    exact (sameUnless_decodeWith h k).bind fun _ =>
      (sameUnless_decodeWith h x).bind fun _ => Action.sameUnless_self _
  | .entry k x => by
    rw [decodeWith, decodeWith]
    refine .after fun _ => ?_
    exact (sameUnless_decodeWith h k).bind fun _ =>
      (sameUnless_decodeWith h x).bind fun _ => Action.sameUnless_self _
  | .struct fs => by
    rw [decodeWith, decodeWith]
    exact .after fun _ => (sameUnless_decodeFields h fs).bind fun _ => Action.sameUnless_self _
  | .tuple fs => by
    rw [decodeWith, decodeWith]
    exact (sameUnless_decodeFields h fs).bind fun _ => Action.sameUnless_self _

theorem sameUnless_decodeFields (h : Action.SameUnless P unbox unbox') :
    ∀ fs : List WireType, Action.SameUnless P (decodeFields unbox fs) (decodeFields unbox' fs)
  | [] => by
    rw [decodeFields, decodeFields]
    exact Action.sameUnless_self _
  | f :: fs => by
    rw [decodeFields, decodeFields]
    exact (sameUnless_decodeWith h f).bind fun _ =>
      (sameUnless_decodeFields h fs).bind fun _ => Action.sameUnless_self _

end

end WireType

/-! ## A registry and a larger one -/

theorem Message.run_enterContainer_of_invalid {m : Message} (h : m.isValid = false)
    (c : Container) : (enterContainer c).run m = (.error .failed, m) := by
  simp [enterContainer, readable, Action.run_bind, h]

/-- Reading has failed before a variant, because its signature has no type in the first registry;
it has one in the second. -/
structure Message.BeforeNewVariant (ρ ρ' : Registry) (m : Message) (signature : Text) : Prop where
  next : m.peekType = ([Kind.variant.code], signature)
  failure : m.failure = some (.unregistered signature)
  unknown : ρ.lookup? signature = none
  known : ∃ t, ρ'.lookup? signature = some t

namespace WireType

variable {ρ ρ' : Registry}

/-- Variants are read the same way up to the first one of a signature that is new. -/
theorem sameUnless_decodeBoxed (hρ : ∀ s t, ρ.lookup? s = some t → ρ'.lookup? s = some t)
    {decode decode' : WireType → Action Value}
    (h : ∀ t, Action.SameUnless (fun m => ∃ s, m.BeforeNewVariant ρ ρ' s) (decode t) (decode' t)) :
    Action.SameUnless (fun m => ∃ s, m.BeforeNewVariant ρ ρ' s)
      (decodeBoxed ρ decode) (decodeBoxed ρ' decode') := by
  intro m
  rw [decodeBoxed, decodeBoxed, Action.run_get_bind, Action.run_get_bind]
  rcases hpeek : m.peekType with ⟨code, s⟩
  simp only
  split
  · rename_i hcode
    subst hcode
    rcases hs : ρ.lookup? s with _ | t
    · rcases hs' : ρ'.lookup? s with _ | t'
      · exact .inl rfl
      · cases hv : m.isValid with
        | false =>
          -- nothing is recorded any more, and nothing read
          refine .inl ?_
          rw [Action.run_bind_of_error (run_enterContainer_of_invalid hv _), Action.run_fail,
            fail_of_invalid hv]
        | true =>
          refine .inr ⟨_, rfl, s, ?_, by simp [Message.fail, hv], hs, t', hs'⟩
          rw [peekType, stream_fail]
          exact hpeek
    · rw [hρ s t hs]
      refine Action.SameUnless.after (fun _ => (h t).bind fun _ => ?_) m
      exact Action.sameUnless_self _
  · exact .inl rfl

theorem sameUnless_decodeWithin (hρ : ∀ s t, ρ.lookup? s = some t → ρ'.lookup? s = some t) :
    ∀ (n : Nat) (t : WireType), Action.SameUnless (fun m => ∃ s, m.BeforeNewVariant ρ ρ' s)
      (decodeWithin ρ n t) (decodeWithin ρ' n t)
  | 0, _ => Action.sameUnless_self _
  | n + 1, t =>
    sameUnless_decodeWith (sameUnless_decodeBoxed hρ (sameUnless_decodeWithin hρ n)) t

end WireType

namespace Message

/-- **Registering more types changes no outcome of reading** but that of stopping before a variant
whose signature had none. From any message, and for any expression, a value that is read with a
registry is read with the registry after any row of calls too, the same value with the same message
left. Where reading stops, it stops with the later registry for the same reason and leaves the same
message, or it has stopped before a variant, for which a type has been registered since. -/
theorem read_after (ρ : Registry) (calls : List Registry.Call) (e : TypeExpr) (m : Message) :
    (∀ v m', (read ρ e).run m = (.ok v, m') → (read (ρ.after calls) e).run m = (.ok v, m')) ∧
    ∀ stop m', (read ρ e).run m = (.error stop, m') →
      (read (ρ.after calls) e).run m = (.error stop, m') ∨
        stop = .failed ∧ ∃ s, m'.BeforeNewVariant ρ (ρ.after calls) s := by
  have hread : Action.SameUnless (fun m => ∃ s, m.BeforeNewVariant ρ (ρ.after calls) s)
      (read ρ e) (read (ρ.after calls) e) :=
    .ifValid <| .after fun _ => .ifValid <| .after fun _ =>
      sameUnless_decodeWithin (fun _ _ h => Registry.lookup_after h calls) _ _
  rcases hread m with hsame | ⟨m₁, hfailed, hnew⟩
  · rw [hsame]
    exact ⟨fun _ _ h => h, fun _ _ h => .inl h⟩
  · rw [hfailed]
    refine ⟨fun _ _ h => by simp at h, fun stop m' h => ?_⟩
    cases h
    exact .inr ⟨rfl, hnew⟩

/-- A sealed message of an array of two variants. -/
def textAndPoint : Message :=
  ofStream
    { items :=
        [.opening (arrayOf .variant),
          .opening (variantOf .string), .basic "s" (.text "a"), .closing,
          .opening (variantOf (.struct [.int32])), .opening (structOf [.int32]),
          .basic "i" (.integer 1), .closing, .closing, .closing]
      isSealed := true }

/-- The common types do not tell how to read the second variant; the struct registered for it
does. -/
theorem read_after_textAndPoint :
    let variants : TypeExpr := .wire (.array .variant)
    let ρ := Registry.common.after [.register (.wire (.struct [.int32]))]
    (∃ m', (read .common variants).run textAndPoint = (.error .failed, m') ∧
      m'.stream.cursor = 4 ∧ ∃ s, m'.BeforeNewVariant .common ρ s) ∧
    ∃ v m', (read ρ variants).run textAndPoint = (.ok v, m') := by
  intro variants ρ
  have hcommon : ((read .common variants).run textAndPoint).1.isOk = false ∧
      ((read .common variants).run textAndPoint).2.stream.cursor = 4 := by decide +kernel
  have hlater : ((read ρ variants).run textAndPoint).1.isOk = true := by decide +kernel
  obtain ⟨v, m₁, hread⟩ : ∃ v m', (read ρ variants).run textAndPoint = (.ok v, m') := by
    rcases h : (read ρ variants).run textAndPoint with ⟨_ | v, m'⟩
    · rw [h] at hlater
      cases hlater
    · exact ⟨v, m', rfl⟩
  refine ⟨?_, v, m₁, hread⟩
  rcases h : (read .common variants).run textAndPoint with ⟨stop | v, m'⟩
  · rw [h] at hcommon
    rcases (read_after .common _ variants textAndPoint).2 stop m' h with hsame | ⟨rfl, hnew⟩
    · rw [hread] at hsame
      cases hsame
    · exact ⟨m', rfl, hcommon.2, hnew⟩
  · rw [h] at hcommon
    cases hcommon.1

end Message

end TypedBus
