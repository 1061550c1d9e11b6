import TypedBus.Wire.TypeExpr

/-!
# Why there is no wire type

A value from which no wire type can be inferred, and an expression that names none, are breaches of
the contract, whatever lies inside them that keeps them from having one (`Value.ofContract_infer`,
`TypeExpr.ofContract_canonical`).
-/

namespace TypedBus

/-- Where there is no answer, the contract has been breached. -/
def OfContract {α : Type} (x : Except Fault α) : Prop := ∀ f, x = .error f → f.kind = .contract

section

variable {α β : Type} {x : Except Fault α} {g : α → Except Fault β}

theorem ofContract_ok (a : α) : OfContract (.ok a) := nofun

theorem ofContract_error {f : Fault} (h : f.kind = .contract) :
    OfContract (.error f : Except Fault α) := by
  rintro _ ⟨⟩
  exact h

theorem OfContract.bind (hx : OfContract x) (hg : ∀ a, OfContract (g a)) :
    OfContract (x >>= g) := by
  cases x with
  | error f => exact ofContract_error (hx f rfl)
  | ok a => exact hg a

end

theorem MachineType.ofContract_wireType (t : MachineType) : OfContract t.wireType := by
  unfold MachineType.wireType
  split
  · exact ofContract_ok _
  · exact ofContract_error rfl

theorem WireType.ofContract_common (ts : List WireType) : OfContract (WireType.common ts) := by
  unfold WireType.common
  split
  · exact ofContract_error rfl
  · exact ofContract_ok _
  · exact ofContract_error rfl

namespace Value

mutual

/-- **Where no wire type can be inferred, the contract is breached.** The values that have none can
all be shown. -/
theorem ofContract_infer : ∀ v : Value, OfContract (infer v)
  | boolean _ | fixed _ _ | handle _ | path _ | signature _ | variant _ _ _ | integer _ | double _
  | text _ => ofContract_ok _
  | null | bytes _ | opening _ | closing | thing _ | tuple [] => ofContract_error rfl
  | scalar s => s.type.ofContract_wireType
  | grid g => by
    unfold infer
    split
    · exact g.type.ofContract_wireType.bind fun _ => ofContract_ok _
    · exact ofContract_error rfl
  | entry k v =>
    (ofContract_infer k).bind fun _ => (ofContract_infer v).bind fun _ => ofContract_ok _
  | tuple (v :: vs) =>
    (ofContract_infer v).bind fun _ => (ofContract_inferAll vs).bind fun _ => ofContract_ok _
  | list _ vs =>
    (ofContract_inferAll vs).bind fun _ =>
      (WireType.ofContract_common _).bind fun _ => ofContract_ok _
  | dict es =>
    (ofContract_inferKeys es).bind fun _ => (WireType.ofContract_common _).bind fun _ =>
      (ofContract_inferValues es).bind fun _ =>
        (WireType.ofContract_common _).bind fun _ => ofContract_ok _

theorem ofContract_inferAll : ∀ vs : List Value, OfContract (inferAll vs)
  | [] => ofContract_ok _
  | v :: vs =>
    (ofContract_infer v).bind fun _ => (ofContract_inferAll vs).bind fun _ => ofContract_ok _

theorem ofContract_inferKeys : ∀ es : List (Value × Value), OfContract (inferKeys es)
  | [] => ofContract_ok _
  | (k, _) :: es =>
    (ofContract_infer k).bind fun _ => (ofContract_inferKeys es).bind fun _ => ofContract_ok _

theorem ofContract_inferValues : ∀ es : List (Value × Value), OfContract (inferValues es)
  | [] => ofContract_ok _
  | (_, v) :: es =>
    (ofContract_infer v).bind fun _ => (ofContract_inferValues es).bind fun _ => ofContract_ok _

end

end Value

namespace TypeExpr

mutual

/-- **An expression that names no wire type breaches the contract.** -/
theorem ofContract_canonical : ∀ e : TypeExpr, OfContract e.canonical
  | wire _ | plainInteger => ofContract_ok _
  | machine t => t.ofContract_wireType
  | generic .list _ [e] => (ofContract_canonical e).bind fun _ => ofContract_ok _
  | generic .dict _ [k, v] =>
    (ofContract_canonical k).bind fun _ => (ofContract_canonical v).bind fun _ => ofContract_ok _
  | generic .tuple typing (e :: es) => by
    unfold canonical
    split
    · exact ofContract_error rfl
    · exact (ofContract_canonical e).bind fun _ =>
        (ofContract_canonicals es).bind fun _ => ofContract_ok _
  | generic .list _ [] | generic .list _ (_ :: _ :: _) | generic .dict _ []
  | generic .dict _ [_] | generic .dict _ (_ :: _ :: _ :: _) | generic .tuple _ []
  | plainClass _ | dots | text _ | reference _ | other _ => ofContract_error rfl

theorem ofContract_canonicals : ∀ es : List TypeExpr, OfContract (canonicals es)
  | [] => ofContract_ok _
  | e :: es =>
    (ofContract_canonical e).bind fun _ => (ofContract_canonicals es).bind fun _ => ofContract_ok _

end

end TypeExpr

end TypedBus
