import TypedBus.Proofs.Value.Depth

/-!
# Values in the form of their type

`WireType.Canonical` lists the values of a type in its own form. Copying makes nothing else
(`canonical_of_copy`), and leaves such a value as it is (`Canonical.copy`).
-/

namespace TypedBus

namespace WireType

/-- The values of a type in its own form. A struct or a tuple may lack its last fields, since
copying gives it no more than there were. -/
inductive Canonical : WireType → Value → Prop
  | basic {b : BasicType} {w : Value} (h : b.Holds w) : Canonical (.basic b) w
  | emptyVariant : Canonical .variant .emptyVariant
  | variant {t : WireType} {p : Value} (h : Canonical t p) :
      Canonical .variant (.variant none p (some t))
  | array {e : WireType} {vs : List Value} (h : ∀ v ∈ vs, Canonical e v) :
      Canonical (.array e) (.list none vs)
  | dict {k x : WireType} {es : List (Value × Value)} (hd : Value.Distinct es)
      (hh : ∀ p ∈ es, p.1.unhashable? = none) (hk : ∀ p ∈ es, Canonical k p.1)
      (hx : ∀ p ∈ es, Canonical x p.2) : Canonical (.dict k x) (.dict es)
  | entry {k x : WireType} {a b : Value} (ha : Canonical k a) (hb : Canonical x b) :
      Canonical (.entry k x) (.entry a b)
  | struct {fs : List WireType} {vs : List Value} (hlen : vs.length ≤ fs.length)
      (h : ∀ p ∈ fs.zip vs, Canonical p.1 p.2) : Canonical (.struct fs) (.tuple vs)
  | tuple {fs : List WireType} {vs : List Value} (hlen : vs.length ≤ fs.length)
      (h : ∀ p ∈ fs.zip vs, Canonical p.1 p.2) : Canonical (.tuple fs) (.tuple vs)

variable {box : Value → Except Fault Value} {t : WireType} {v w : Value}

/-! ## Copying leaves them as they are -/

/-- Where every field of a row of no more fields than there are types has an image, so does the
row. -/
theorem forall₂_zip_map {P : WireType × Value → Value → Prop} {g : Value → Value} :
    ∀ {fs : List WireType} {vs : List Value}, vs.length ≤ fs.length →
      (∀ p ∈ fs.zip vs, P p (g p.2)) → List.Forall₂ P (fs.zip vs) (vs.map g)
  | [], [], _, _ => .nil
  | _ :: _, [], _, _ => .nil
  | f :: fs, v :: vs, hlen, h => by
    rw [List.zip_cons_cons] at h ⊢
    obtain ⟨hv, hvs⟩ := List.forall_mem_cons.mp h
    exact .cons hv (forall₂_zip_map (Nat.le_of_succ_le_succ hlen) hvs)

theorem forall₂_zip_self {P : WireType × Value → Value → Prop} {fs : List WireType}
    {vs : List Value} (hlen : vs.length ≤ fs.length) (h : ∀ p ∈ fs.zip vs, P p p.2) :
    List.Forall₂ P (fs.zip vs) vs := by
  simpa using forall₂_zip_map (g := id) hlen h

/-- **Copying leaves a value in the form of its type as it is.** -/
theorem Canonical.copy (h : Canonical t w) : t.copy w = .ok w := by
  induction h with
  | basic h =>
    rw [copy_eq, copyWith]
    exact h.convert
  | emptyVariant =>
    rw [copy_eq, copyWith]
    rfl
  | variant h ih =>
    rw [copy_eq, copyWith, boxWith, ih]
    rfl
  | array h ih => exact copy_array_eq_ok.mpr ⟨_, _, rfl, List.forall₂_same.mpr ih, rfl⟩
  | @dict k x es hd hh hk hx ihk ihx =>
    refine copy_dict_eq_ok.mpr ⟨_, es.map fun e => .entry e.1 e.2, es, rfl, ?_,
      Value.foldlM_addEntry [] hd hh, rfl⟩
    rw [List.forall₂_map_left_iff, List.forall₂_map_right_iff, List.forall₂_same]
    intro p hp
    exact copy_entry_eq_ok.mpr ⟨p.1, p.2, p.1, p.2, rfl, ihk p hp, ihx p hp, rfl⟩
  | entry ha hb iha ihb => exact copy_entry_eq_ok.mpr ⟨_, _, _, _, rfl, iha, ihb, rfl⟩
  | struct hlen h ih => exact copy_struct_eq_ok.mpr ⟨_, _, rfl, forall₂_zip_self hlen ih, rfl⟩
  | tuple hlen h ih => exact copy_tuple_eq_ok.mpr ⟨_, _, rfl, forall₂_zip_self hlen ih, rfl⟩

/-! ## Copying makes nothing else -/

theorem canonical_dict {k x : WireType} {vs : List Value} {es : List (Value × Value)}
    (hvs : ∀ v ∈ vs, Canonical (.entry k x) v) (h : vs.foldlM Value.addEntry [] = .ok es) :
    Canonical (.dict k x) (.dict es) := by
  have hentry : ∀ v ∈ vs, ∃ a b, v = .entry a b ∧ Canonical k a ∧ Canonical x b := by
    intro v hv
    cases hvs v hv with
    | entry ha hb => exact ⟨_, _, rfl, ha, hb⟩
  have hshape : ∀ v ∈ vs, ∃ a b, v = .entry a b := fun v hv =>
    let ⟨a, b, hv, _⟩ := hentry v hv
    ⟨a, b, hv⟩
  have hall := Value.forall_foldlM_addEntry hentry (by simp) h
  exact .dict (Value.Distinct.foldlM_addEntry .nil hshape h)
    (Value.hashable_foldlM_addEntry hshape (by simp) h) (fun p hp => (hall p hp).1)
    fun p hp => (hall p hp).2

mutual

/-- Copying makes values in the form of their type, if it does in the place of a variant. -/
theorem canonical_of_copyWith (hbox : ∀ v w, box v = .ok w → Canonical .variant w) :
    ∀ (t : WireType) (v w : Value), copyWith box t v = .ok w → Canonical t w
  | .basic b, v, w, h => .basic (BasicType.holds_of_convert (by rwa [copyWith] at h))
  | .variant, v, w, h => hbox v w (by rwa [copyWith] at h)
  | .array e, v, w, h => by
    obtain ⟨vs, ws, -, hws, rfl⟩ := copyWith_array_eq_ok.mp h
    exact .array (forall_of_forall₂ (canonical_of_copyWith hbox e) hws)
  | .dict k x, v, w, h => by
    obtain ⟨ps, qs, es, -, hqs, hfold, rfl⟩ := copyWith_dict_eq_ok.mp h
    refine canonical_dict (forall_of_forall₂ (fun p q hq => ?_) hqs) hfold
    obtain ⟨a, b, a', b', -, ha, hb, rfl⟩ := copyWith_entry_eq_ok.mp hq
    exact .entry (canonical_of_copyWith hbox k a a' ha) (canonical_of_copyWith hbox x b b' hb)
  | .entry k x, v, w, h => by
    obtain ⟨a, b, a', b', -, ha, hb, rfl⟩ := copyWith_entry_eq_ok.mp h
    exact .entry (canonical_of_copyWith hbox k a a' ha) (canonical_of_copyWith hbox x b b' hb)
  | .struct fs, v, w, h => by
    obtain ⟨vs, ws, -, hws, rfl⟩ := copyWith_struct_eq_ok.mp h
    obtain ⟨hlen, hall⟩ := forall_zip_of_forall₂ (canonical_of_copyWithAll hbox fs vs) hws
    exact .struct hlen hall
  | .tuple fs, v, w, h => by
    obtain ⟨vs, ws, -, hws, rfl⟩ := copyWith_tuple_eq_ok.mp h
    obtain ⟨hlen, hall⟩ := forall_zip_of_forall₂ (canonical_of_copyWithAll hbox fs vs) hws
    exact .tuple hlen hall

theorem canonical_of_copyWithAll (hbox : ∀ v w, box v = .ok w → Canonical .variant w) :
    ∀ (fs : List WireType) (vs : List Value), ∀ p ∈ fs.zip vs, ∀ w,
      copyWith box p.1 p.2 = .ok w → Canonical p.1 w
  | [], _, _, hp => nomatch hp
  | _ :: _, [], _, hp => nomatch hp
  | f :: fs, v :: vs, p, hp => by
    rcases List.mem_cons.mp hp with rfl | hp
    · exact canonical_of_copyWith hbox f v
    · exact canonical_of_copyWithAll hbox fs vs p hp

end

theorem canonical_of_boxing : ∀ (n : Nat) (v w : Value), boxing n v = .ok w → Canonical .variant w
  | 0, _, _, h => nomatch h
  | n + 1, v, w, h => by
    have hcopy : ∀ t v w, WireType.copyWithin n t v = .ok w → Canonical t w := by
      rw [copyWithin_eq]
      exact canonical_of_copyWith (canonical_of_boxing n)
    rw [boxing, boxWith.eq_def] at h
    split at h
    · cases h
      exact .emptyVariant
    · obtain ⟨p, hp, h⟩ := bind_eq_ok.mp h
      cases h
      exact .variant (hcopy _ _ _ hp)
    · cases h
      exact .emptyVariant
    · obtain ⟨t, -, h⟩ := bind_eq_ok.mp h
      obtain ⟨p, hp, h⟩ := bind_eq_ok.mp h
      cases h
      exact .variant (hcopy _ _ _ hp)

/-- **Copying makes values in the form of their type.** -/
theorem canonical_of_copy (h : t.copy v = .ok w) : Canonical t w := by
  rw [copy, copyWithin_eq] at h
  exact canonical_of_copyWith (canonical_of_boxing _) t v w h

end WireType

end TypedBus
