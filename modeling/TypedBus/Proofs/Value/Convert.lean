import TypedBus.Proofs.Outcome
import TypedBus.Value.Convert

/-!
# What conversion makes

`BasicType.Holds` lists the values that conversion to a basic type can make: one kind of value for
each type, within its bounds. Conversion makes nothing else (`holds_of_convert`), leaves such a
value as it is (`Holds.convert`), and makes it again out of what a message carries for it
(`Holds.convert_carried`).
-/

namespace TypedBus

theorem Value.refuse_ne_ok {α : Type} {v : Value} {fault : Text → Fault} {a : α} :
    v.refuse fault ≠ .ok a := by
  unfold Value.refuse
  cases v.display <;> simp [bind, Except.bind]

/-- One of the two infinities. -/
def Value.isInfinity : Value → Bool
  | .double d => d.isInfinite
  | _ => false

/-- An infinity overflows when it is converted to an integer. -/
theorem Value.toInteger_of_isInfinity {v : Value} (h : v.isInfinity = true) :
    v.toInteger = .error .infinityToInteger := by
  cases v with
  | double d =>
    have hd : d.isInfinite = true := h
    have hn : d.isNaN = false := by
      simp only [Double.isInfinite, Double.isNaN, Bool.and_eq_true, beq_iff_eq] at hd ⊢
      simp [hd.2]
    simp only [toInteger, withoutAxes, integerOfDouble, hd, hn, if_true, Bool.false_eq_true,
      if_false]
  | _ => cases h

theorem Text.check_eq_ok {t u : Text} (h : t.check = .ok u) : u = t := by
  unfold Text.check at h
  split at h
  · cases h
  · split at h
    · cases h
    · exact (Except.ok.inj h).symm

/-- An integer of a fixed width is made just of an integer within its bounds. -/
theorem IntWidth.make_eq_ok {w : IntWidth} {n : Int} {v : Value} :
    w.make n = .ok v ↔ w.Holds n ∧ v = .fixed w n := by
  unfold IntWidth.make
  by_cases hn : w.Holds n
  · simp [hn, eq_comm]
  · simp [hn, Value.refuse_ne_ok]

namespace BasicType

/-- The values of a basic type in its own form. -/
inductive Holds : BasicType → Value → Prop
  | integer {w : IntWidth} {n : Int} (h : w.Holds n) : Holds (integer w) (.fixed w n)
  | boolean {b : Bool} : Holds boolean (.boolean b)
  | double {d : Double} : Holds double (.double d)
  | string {t : Text} (h : t.check = .ok t) : Holds string (.text t)
  | objectPath {t : Text} (h : t.check = .ok t) (hp : ObjectPath.isValid t = true) :
      Holds objectPath (.path t)
  | signature {t : Text} (h : t.check = .ok t) (hs : Signature.isValid t = true) :
      Holds signature (.signature t)
  | handle {n : Int} : Holds handle (.handle n)

variable {b : BasicType} {v w : Value}

/-- **Conversion makes values of the type in its own form.** -/
theorem holds_of_convert (h : b.convert v = .ok w) : b.Holds w := by
  cases b <;> unfold convert at h <;> simp only at h
  case integer width =>
    split at h
    · exact absurd h Value.refuse_ne_ok
    · obtain ⟨n, -, h⟩ := bind_eq_ok.mp h
      obtain ⟨hn, rfl⟩ := IntWidth.make_eq_ok.mp h
      exact .integer hn
  case boolean =>
    split at h
    · exact absurd h Value.refuse_ne_ok
    · obtain ⟨_, -, h⟩ := bind_eq_ok.mp h
      cases h
      exact .boolean
  case double =>
    split at h
    · exact absurd h Value.refuse_ne_ok
    · obtain ⟨_, -, h⟩ := bind_eq_ok.mp h
      cases h
      exact .double
  case string =>
    split at h
    · exact absurd h Value.refuse_ne_ok
    · obtain ⟨t, ht, h⟩ := bind_eq_ok.mp h
      cases h
      obtain rfl := Text.check_eq_ok ht
      exact .string ht
  case objectPath =>
    split at h
    · exact absurd h Value.refuse_ne_ok
    · obtain ⟨t, ht, hmade⟩ := bind_eq_ok.mp h
      obtain rfl := Text.check_eq_ok ht
      split at hmade
      · rename_i hp
        cases hmade
        exact .objectPath ht hp
      · cases hmade
  case signature =>
    split at h
    · exact absurd h Value.refuse_ne_ok
    · obtain ⟨t, ht, hmade⟩ := bind_eq_ok.mp h
      obtain rfl := Text.check_eq_ok ht
      split at hmade
      · rename_i hs
        cases hmade
        exact .signature ht hs
      · cases hmade
  case handle =>
    split at h
    · exact absurd h Value.refuse_ne_ok
    · obtain ⟨_, -, h⟩ := bind_eq_ok.mp h
      cases h
      exact .handle

/-- A value in the form of its type is converted to itself. -/
theorem Holds.convert (h : b.Holds v) : b.convert v = .ok v := by
  cases h with
  | integer h =>
    simp [BasicType.convert, Value.isDouble, Value.text?, Value.toInteger, Value.withoutAxes,
      IntWidth.make, h, bind, Except.bind]
  | boolean | double | handle => rfl
  | string h => simp [BasicType.convert, Value.text?, h, bind, Except.bind]
  | objectPath h hp => simp [BasicType.convert, Value.text?, h, hp, bind, Except.bind]
  | signature h hs => simp [BasicType.convert, Value.text?, h, hs, bind, Except.bind]

/-- What a message carries for a value is converted back to it; a handle is not carried so. -/
theorem Holds.convert_carried (h : b.Holds v) (hb : b ≠ .handle) :
    b.convert v.carried = .ok v := by
  cases h with
  | integer h =>
    simp [BasicType.convert, Value.carried, Value.isDouble, Value.text?, Value.toInteger,
      Value.withoutAxes, IntWidth.make, h, bind, Except.bind]
  | boolean | double => rfl
  | string h => simp [BasicType.convert, Value.carried, Value.text?, h, bind, Except.bind]
  | objectPath h hp =>
    simp [BasicType.convert, Value.carried, Value.text?, h, hp, bind, Except.bind]
  | signature h hs => simp [BasicType.convert, Value.carried, Value.text?, h, hs, bind, Except.bind]
  | handle => exact absurd rfl hb

/-- Values of basic types can be dict keys. -/
theorem Holds.hashable (h : b.Holds v) : v.unhashable? = none := by
  cases h <;> rfl

theorem Holds.depth (h : b.Holds v) : v.depth = 1 := by
  cases h <;> rfl

end BasicType

end TypedBus
