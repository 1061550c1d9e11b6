import TypedBus.Proofs.Value.Dict

/-!
# Likeness

A value is like itself, whatever it holds (`Value.alike_self`): two values that are one and the same
differ in nothing that `Value.alike` looks at, since it takes all NaNs for one. An ordinary value,
one without NaNs and machine values (`Value.Ordinary`), is equal to itself as well
(`Value.Ordinary.eq_self`).
-/

namespace TypedBus

theorem Number.eqWith_self (x : Number) : x.eqWith true x = true := by
  cases x with
  | integer n => simp [Number.eqWith]
  | double d => cases h : d.isNaN <;> simp [Number.eqWith, Double.eq, h]

namespace Value

/-! ## Ordinary values -/

mutual

/-- Neither a NaN nor a machine value is in the value, and no two keys of a dict in it agree, as in
every dict that has come about by setting keys. -/
def Ordinary : Value → Prop
  | double d => d.isNaN = false
  | scalar _ | grid _ => False
  | list _ vs | tuple vs => OrdinaryAll vs
  | dict es => Distinct es ∧ OrdinaryEntries es
  | entry k v => Ordinary k ∧ Ordinary v
  | variant _ p _ => Ordinary p
  | _ => True

/-- All values of a row are ordinary. -/
def OrdinaryAll : List Value → Prop
  | [] => True
  | v :: vs => Ordinary v ∧ OrdinaryAll vs

/-- All keys and values of a dict are ordinary. -/
def OrdinaryEntries : List (Value × Value) → Prop
  | [] => True
  | (k, v) :: es => (Ordinary k ∧ Ordinary v) ∧ OrdinaryEntries es

end

/-! ## Values and themselves -/

theorem scalarAlike_self (s : Scalar) : scalarAlike s s = true := by
  cases s <;> simp [scalarAlike, number?, Number.eqWith_self]

theorem gridAlike_self (g : Grid) : gridAlike g g = true := by
  simp only [gridAlike, beq_self_eq_true, Bool.true_and, Bool.and_true, List.all_eq_true]
  intro c hc
  obtain ⟨i, hi, rfl⟩ := List.mem_iff_getElem.mp hc
  rw [List.getElem_zip]
  exact scalarAlike_self _

variable {oneNaN : Bool}

mutual

/-- **A value is like itself**, and equal to itself if it is ordinary. -/
theorem eqWith_self : ∀ v : Value, (oneNaN = false → Ordinary v) → eqWith oneNaN v v = true
  | list _ vs, hv => by rw [eqWith]; exact eqAllWith_self vs hv
  | tuple vs, hv => by rw [eqWith]; exact eqAllWith_self vs hv
  | dict es, hv => by
    rw [eqWith]
    simpa using eqEntriesWith_self es es (fun h => (hv h).2) fun _ h => h
  | entry k v, hv => by
    rw [eqWith]
    simp [row?, eqWith_self k fun h => (hv h).1, eqWith_self v fun h => (hv h).2]
  | variant _ p t, hv => by
    rw [eqWith]
    simp [eqWith_self p hv]
  | null, _ | bytes _, _ | opening _, _ | closing, _ | thing _, _ => by
    simp [eqWith, plainEq, number?, text?]
  | boolean _, _ | integer _, _ | fixed _ _, _ | handle _, _ => by
    simp [eqWith, plainEq, number?, Number.eqWith]
  | double d, hv => by
    cases oneNaN with
    | true => simp [eqWith, plainEq, number?, Number.eqWith_self]
    | false =>
      have hd : d.isNaN = false := hv rfl
      simp [eqWith, plainEq, number?, Number.eqWith, Double.eq, hd]
  | scalar s, hv => by
    cases oneNaN with
    | true => cases s <;> simp [eqWith, plainEq, number?, Number.eqWith_self]
    | false => cases hv rfl
  | text _, _ | path _, _ | signature _, _ => by simp [eqWith, plainEq, number?, text?]
  | grid g, hv => by
    cases oneNaN with
    | true => simp [eqWith, plainEq, number?, text?, gridAlike_self]
    | false => cases hv rfl

theorem eqAllWith_self : ∀ vs : List Value, (oneNaN = false → OrdinaryAll vs) →
    eqAllWith oneNaN vs vs = true
  | [], _ => rfl
  | v :: vs, hvs => by
    rw [eqAllWith, eqWith_self v fun h => (hvs h).1, eqAllWith_self vs fun h => (hvs h).2,
      Bool.or_true, Bool.and_true]

theorem eqEntriesWith_self : ∀ es fs : List (Value × Value),
    (oneNaN = false → OrdinaryEntries es) → (∀ e ∈ es, e ∈ fs) → eqEntriesWith oneNaN es fs = true
  | [], _, _, _ => by rw [eqEntriesWith]
  | (k, v) :: es, fs, hes, h => by
    obtain ⟨he, htail⟩ := List.forall_mem_cons.mp h
    rw [eqEntriesWith, eqEntriesWith_self es fs (fun h => (hes h).2) htail, Bool.and_true,
      List.any_eq_true]
    have hk : eqWith oneNaN k k = true := eqWith_self k fun h => (hes h).1.1
    have hv : eqWith oneNaN v v = true := eqWith_self v fun h => (hes h).1.2
    exact ⟨(k, v), he, by rw [hk, hv, Bool.or_true, Bool.or_true]; rfl⟩

end

theorem alike_self (v : Value) : v.alike v = true := eqWith_self v nofun

theorem Ordinary.eq_self {v : Value} (h : v.Ordinary) : v.eq v = true := eqWith_self v fun _ => h

end Value

end TypedBus
