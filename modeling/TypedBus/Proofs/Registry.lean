import TypedBus.Proofs.Wire.Complete
import TypedBus.Registry

/-!
# Registries filled by registration

`Registry.Filled` is how a registry comes about: it starts empty, takes types through
`Registry.register` only, and may be frozen. What it holds for a signature is a type in reduced form
that has this signature (`Registry.Filled.lookup`), so that reading a variant by its signature alone
reads what the signature announces.
-/

namespace TypedBus

namespace Registry

/-- The registry has come about by registrations. -/
inductive Filled : Registry → Prop
  | empty : Filled {}
  | register {r r' : Registry} {e : TypeExpr} {t : WireType} (hr : Filled r)
      (h : r.register e = .ok (t, r')) : Filled r'
  | freeze {r : Registry} (hr : Filled r) : Filled r.freeze

/-- What a registry holds is kept under its own signature, and is in reduced form. -/
def Sound (r : Registry) : Prop := ∀ e ∈ r.types, e.1 = e.2.signature ∧ e.2.isReduced = true

theorem Sound.add {r : Registry} {t : WireType} (hr : r.Sound) (ht : t.isReduced = true) :
    (r.add t).2.Sound := by
  unfold Registry.add
  split
  · exact hr
  · intro e he
    rcases List.mem_append.mp he with he | he
    · exact hr e he
    · rw [List.mem_singleton.mp he]
      exact ⟨rfl, ht⟩

/-- A registration either leaves the registry as it is or adds a reduced type to it. -/
theorem register_eq_ok {r r' : Registry} {e : TypeExpr} {t : WireType}
    (h : r.register e = .ok (t, r')) :
    ∃ u, e.canonical = .ok u ∧ u.isReduced = true ∧ r' = (r.add u).2 := by
  unfold Registry.register at h
  split at h
  · cases h
  · obtain ⟨u, hu, h⟩ := bind_eq_ok.mp h
    split at h
    · rename_i hred
      exact ⟨u, hu, hred, (congrArg Prod.snd (Except.ok.inj h)).symm⟩
    · cases h

theorem Filled.sound {r : Registry} (h : Filled r) : r.Sound := by
  induction h with
  | empty => intro e he; cases he
  | register hr h ih =>
    obtain ⟨u, -, hred, rfl⟩ := register_eq_ok h
    exact ih.add hred
  | freeze hr ih => exact ih

/-- **A registered type is in reduced form and has the signature that it was found by.** -/
theorem Filled.lookup {r : Registry} (h : Filled r) {s : Text} {t : WireType}
    (hs : r.lookup? s = some t) : t.signature = s ∧ t.isReduced = true := by
  obtain ⟨e, he, rfl⟩ := Option.map_eq_some_iff.mp hs
  obtain ⟨hsig, hred⟩ := h.sound e (List.mem_of_find?_eq_some he)
  have hfound : e.1 = s := by simpa using List.find?_some he
  exact ⟨hsig ▸ hfound, hred⟩

theorem filled_add {r : Registry} {t : WireType} (hr : Filled r) (hf : r.isFrozen = false)
    (ht : t.isReduced = true) : Filled (r.add t).2 := by
  refine hr.register (e := .wire t) (t := (r.add t).1) ?_
  simp only [Registry.register, hf, TypeExpr.canonical, bind, Except.bind, ht, if_true,
    Bool.false_eq_true, if_false]

theorem isFrozen_add (r : Registry) (t : WireType) : (r.add t).2.isFrozen = r.isFrozen := by
  unfold Registry.add
  split <;> rfl

/-- Reduced types that are added one after the other make a filled registry. -/
theorem filled_foldl_add :
    ∀ {ts : List WireType} {r : Registry}, Filled r → r.isFrozen = false →
      (∀ t ∈ ts, t.isReduced = true) → Filled (ts.foldl (fun r t => (r.add t).2) r)
  | [], _, hr, _, _ => hr
  | t :: ts, r, hr, hf, hts => by
    have hadd := filled_add hr hf (hts t (by simp))
    rw [List.foldl_cons]
    exact filled_foldl_add hadd (by rw [isFrozen_add, hf]) fun u hu => hts u (by simp [hu])

/-- The registry of the common types has come about by registrations. -/
theorem filled_common : Filled common := by
  refine filled_foldl_add .empty rfl ?_
  decide +kernel

end Registry

end TypedBus
