import TypedBus.Proofs.Message.Building
import TypedBus.Proofs.Value.Canonical

/-!
# The places of a value

Writing a value as one of a type goes down both and comes to a value for each part of the type, the
places of the value (`WireType.Place`); from a variant, or what is boxed as one, it goes on into
what that holds. Whether the value fits is a matter of its places alone (`WireType.FitsAll`).

The writer counts down as it goes into variants, from the depth of the value. `WireType.Within` says
that the count does not run out, and it never does (`within_depth`), though a value that has been
boxed may be deeper than it was.
-/

namespace TypedBus

namespace WireType

/-- In the value, written as one of the first type, this value is written as one of the second. -/
inductive Place : WireType → Value → WireType → Value → Prop
  | here {t : WireType} {v : Value} : Place t v t v
  | held {m : Mark} {t s : WireType} {v p w : Value} (h : boxed v = .ok (.variant m p (some t)))
      (hw : Place t p s w) : Place .variant v s w
  | element {e s : WireType} {v u w : Value} {vs : List Value} (hvs : v.elements? = some vs)
      (hu : u ∈ vs) (hw : Place e u s w) : Place (.array e) v s w
  | pair {k x s : WireType} {v p w : Value} {ps : List Value} (hps : v.pairs? = some ps)
      (hp : p ∈ ps) (hw : Place (.entry k x) p s w) : Place (.dict k x) v s w
  | key {k x s : WireType} {v a c w : Value} (hv : v.elements? = some [a, c])
      (hw : Place k a s w) : Place (.entry k x) v s w
  | value {k x s : WireType} {v a c w : Value} (hv : v.elements? = some [a, c])
      (hw : Place x c s w) : Place (.entry k x) v s w
  | field {f s : WireType} {fs : List WireType} {v u w : Value} {vs : List Value}
      (hvs : v.elements? = some vs) (hu : (f, u) ∈ fs.zip vs) (hw : Place f u s w) :
      Place (.struct fs) v s w
  | part {f s : WireType} {fs : List WireType} {v u w : Value} {vs : List Value}
      (hvs : v.elements? = some vs) (hu : (f, u) ∈ fs.zip vs) (hw : Place f u s w) :
      Place (.tuple fs) v s w

/-- What stands in a place fits the type, as far as can be told without looking at its parts. -/
def fitsHere : WireType → Value → Bool
  | .basic b, v => (b.convert v).toBool
  | .variant, v => (boxed v).toBool
  | .array _, v => (v.collection? Value.elements?).isSome
  | .dict _ _, v => (v.collection? Value.pairs?).isSome
  | .entry _ _, v => v.entryParts?.isSome
  | .struct fs, v | .tuple fs, v => v.fields?.any (·.length == fs.length)

/-- Every value in the value fits the type in whose place it stands. -/
def FitsAll (t : WireType) (v : Value) : Prop := ∀ s w, Place t v s w → fitsHere s w = true

/-! ## The count of variants -/

/-- Writing the value as one of the type goes into at most so many variants inside one another. -/
inductive Within : Nat → WireType → Value → Prop
  | basic {n : Nat} {b : BasicType} {v : Value} : Within n (.basic b) v
  | variant {n : Nat} {v : Value}
      (h : ∀ m p t, boxed v = .ok (.variant m p (some t)) → Within n t p) :
      Within (n + 1) .variant v
  | array {n : Nat} {e : WireType} {v : Value}
      (h : ∀ vs, v.elements? = some vs → ∀ u ∈ vs, Within n e u) : Within n (.array e) v
  | dict {n : Nat} {k x : WireType} {v : Value}
      (h : ∀ ps, v.pairs? = some ps → ∀ p ∈ ps, Within n (.entry k x) p) : Within n (.dict k x) v
  | entry {n : Nat} {k x : WireType} {v : Value}
      (hk : ∀ a c, v.elements? = some [a, c] → Within n k a)
      (hx : ∀ a c, v.elements? = some [a, c] → Within n x c) : Within n (.entry k x) v
  | struct {n : Nat} {fs : List WireType} {v : Value}
      (h : ∀ vs, v.elements? = some vs → ∀ p ∈ fs.zip vs, Within n p.1 p.2) :
      Within n (.struct fs) v
  | tuple {n : Nat} {fs : List WireType} {v : Value}
      (h : ∀ vs, v.elements? = some vs → ∀ p ∈ fs.zip vs, Within n p.1 p.2) :
      Within n (.tuple fs) v

variable {n : Nat}

theorem composes_within : Composes (Within n) where
  basic _ _ := .basic
  array := .array
  dict := .dict
  entry h := .entry (fun a c hac => (h a c hac).1) fun a c hac => (h a c hac).2
  struct := .struct
  tuple := .tuple

/-- A copy goes no deeper into variants where the copies of its parts do not. -/
theorem composes_within_copy : Composes fun t v => ∀ w, t.copy v = .ok w → Within n t w where
  basic _ _ _ _ := .basic
  array {e v} h w hw := by
    obtain ⟨vs, ws, hvs, hws, rfl⟩ := copy_array_eq_ok.mp hw
    have hboth := (List.forall₂_and_left _ _).mpr ⟨h vs hvs, hws⟩
    refine .array fun us hus => ?_
    cases hus
    exact forall_of_forall₂ (fun u w hu => hu.1 w hu.2) hboth
  dict {k x v} h w hw := by
    obtain ⟨ps, qs, es, hps, hqs, hfold, rfl⟩ := copy_dict_eq_ok.mp hw
    have hboth := (List.forall₂_and_left _ _).mpr ⟨h ps hps, hqs⟩
    have hentries : ∀ q ∈ qs, ∃ a c, q = .entry a c ∧ Within n k a ∧ Within n x c := by
      refine forall_of_forall₂ (fun p q hp => ?_) hboth
      obtain ⟨hp, hq⟩ := hp
      have hwithin := hp q hq
      obtain ⟨_, _, a, c, -, -, -, rfl⟩ := copy_entry_eq_ok.mp hq
      cases hwithin with
      | entry hk hx => exact ⟨a, c, rfl, hk a c rfl, hx a c rfl⟩
    have hall := Value.forall_foldlM_addEntry hentries (by simp) hfold
    refine .dict fun us hus p hp => ?_
    cases hus
    obtain ⟨e, he, rfl⟩ := List.mem_map.mp hp
    refine .entry (fun _ _ h => ?_) fun _ _ h => ?_
    · cases h
      exact (hall e he).1
    · cases h
      exact (hall e he).2
  entry {k x v} h w hw := by
    obtain ⟨a, c, a', c', hac, ha, hc, rfl⟩ := copy_entry_eq_ok.mp hw
    obtain ⟨hk, hx⟩ := h a c hac
    refine .entry (fun _ _ h => ?_) fun _ _ h => ?_
    · cases h
      exact hk a' ha
    · cases h
      exact hx c' hc
  struct {fs v} h w hw := by
    obtain ⟨vs, ws, hvs, hws, rfl⟩ := copy_struct_eq_ok.mp hw
    refine .struct fun us hus => ?_
    cases hus
    exact (forall_zip_of_forall₂ (h vs hvs) hws).2
  tuple {fs v} h w hw := by
    obtain ⟨vs, ws, hvs, hws, rfl⟩ := copy_tuple_eq_ok.mp hw
    refine .tuple fun us hus => ?_
    cases hus
    exact (forall_zip_of_forall₂ (h vs hvs) hws).2

section Boxing

variable {v w : Value}

/-- A value that is no variant is boxed as its inferred type. -/
theorem boxed_eq (hv : ∀ m p u, v ≠ .variant m p u) : boxed v = boxWith copy v := by
  cases v with
  | variant m p u => exact absurd rfl (hv m p u)
  | _ => rfl

/-- What is no variant is copied as one by boxing it. -/
theorem boxed_eq_copy (hv : ∀ m p u, v ≠ .variant m p u) : boxed v = copy .variant v := by
  rw [boxed_eq hv, copy_eq, copyWith]

/-- What is boxed is in the form of its type, unless it was a variant before. -/
theorem canonical_of_boxed {m : Mark} {p : Value} {t : WireType}
    (hv : ∀ m p u, v ≠ .variant m p u) (hb : boxed v = .ok (.variant m p (some t))) :
    Canonical t p := by
  rw [boxed_eq_copy hv] at hb
  cases canonical_of_copy hb with
  | variant h => exact h

/-- A value is boxed as a variant. -/
theorem exists_variant_of_boxed (hb : boxed v = .ok w) : ∃ m p o, w = .variant m p o := by
  by_cases hv : ∃ m p o, v = .variant m p o
  · obtain ⟨m, p, o, rfl⟩ := hv
    cases hb
    exact ⟨m, p, o, rfl⟩
  · rw [boxed_eq_copy fun m p o h => hv ⟨m, p, o, h⟩] at hb
    cases canonical_of_copy hb <;> exact ⟨_, _, _, rfl⟩

/-- **A value is copied as a variant by boxing it and copying what it then holds.** -/
theorem copy_variant_eq_ok {c : Value} :
    copy .variant v = .ok c ↔
      (∃ m p, boxed v = .ok (.variant m p none) ∧ c = .emptyVariant) ∨
      ∃ m p t p', boxed v = .ok (.variant m p (some t)) ∧ t.copy p = .ok p' ∧
        c = .variant none p' (some t) := by
  by_cases hv : ∃ m p o, v = .variant m p o
  · obtain ⟨m, p, _ | t, rfl⟩ := hv
    · rw [copy_eq, copyWith, boxWith]
      simp [boxed, eq_comm]
    · rw [copy_eq, copyWith, boxWith, bind_eq_ok]
      simp [boxed, eq_comm]
  · have hv : ∀ m p o, v ≠ .variant m p o := fun m p o h => hv ⟨m, p, o, h⟩
    constructor
    · intro h
      cases canonical_of_copy h with
      | emptyVariant => exact .inl ⟨_, _, boxed_eq_copy hv ▸ h, rfl⟩
      | variant hp => exact .inr ⟨_, _, _, _, boxed_eq_copy hv ▸ h, hp.copy, rfl⟩
    · -- what is held is a copy already, which copying leaves as it is
      rintro (⟨m, p, hb, rfl⟩ | ⟨m, p, t, p', hb, hp, rfl⟩) <;>
        rw [boxed_eq_copy hv] at hb <;> cases canonical_of_copy hb
      · exact hb
      · rename_i hcanonical
        obtain rfl := Except.ok.inj (hcanonical.copy.symm.trans hp)
        exact hb

/-- What a value is boxed as goes less deep into variants than the variants inside it, copied. -/
theorem within_boxed (hv : ∀ m p u, v ≠ .variant m p u) (hw : boxWith copy v = .ok w)
    (h : ∀ u : Value, u.depth < v.depth → ∀ w, copy .variant u = .ok w → Within n .variant w) :
    ∀ m p t, w = .variant m p (some t) → Within n t p := by
  rintro m p t rfl
  by_cases hnull : v = .null
  · subst hnull
    cases hw
  · rw [boxWith_of_infer hv hnull] at hw
    obtain ⟨t, ht, hw⟩ := bind_eq_ok.mp hw
    obtain ⟨p, hp, hw⟩ := bind_eq_ok.mp hw
    cases hw
    exact composes_within_copy.of_infer ht hv h p hp

/-- The depth of a value bounds how deep its copy as a variant goes. -/
theorem within_copy_variant : ∀ {n : Nat} {v : Value}, v.depth ≤ n →
    ∀ w, copy .variant v = .ok w → Within n .variant w
  | 0, v, hv, _, _ => absurd v.depth_pos (by omega)
  | n + 1, v, hv, w, hw => by
    refine .variant fun m p t hbox => ?_
    obtain rfl : w = .variant m p (some t) := by
      cases canonical_of_copy hw with
      | emptyVariant => cases hbox
      | variant _ =>
        cases hbox
        rfl
    rw [copy_eq, copyWith] at hw
    by_cases hvar : ∃ m p o, v = .variant m p o
    · obtain ⟨m, q, _ | u, rfl⟩ := hvar
      · cases hw
      · obtain ⟨q', hq, hw⟩ := bind_eq_ok.mp hw
        cases hw
        rw [Value.depth] at hv
        exact composes_within_copy.of_variant (fun _ hu => within_copy_variant hu) t q
          (by omega) p hq
    · have hvar : ∀ m p o, v ≠ .variant m p o := fun m p o h => hvar ⟨m, p, o, h⟩
      exact within_boxed hvar hw (fun u hu => within_copy_variant (by omega)) m p t rfl

theorem within_variant : ∀ {n : Nat} {v : Value}, v.depth ≤ n → Within n .variant v
  | 0, v, hv => absurd v.depth_pos (by omega)
  | n + 1, v, hv => by
    refine .variant fun m p t hbox => ?_
    by_cases hvar : ∃ m p o, v = .variant m p o
    · obtain ⟨m, q, u, rfl⟩ := hvar
      cases hbox
      rw [Value.depth] at hv
      exact composes_within.of_variant (fun _ hu => within_variant hu) t p (by omega)
    · have hvar : ∀ m p o, v ≠ .variant m p o := fun m p o h => hvar ⟨m, p, o, h⟩
      rw [boxed_eq hvar] at hbox
      exact within_boxed hvar hbox (fun u hu => within_copy_variant (by omega)) m p t rfl

end Boxing

/-- **The depth of a value bounds how deep it goes into variants**, whatever type it is written
as. -/
theorem within_depth (t : WireType) (v : Value) : Within v.depth t v :=
  composes_within.of_variant (fun _ hu => within_variant hu) t v (Nat.le_refl _)

end WireType

end TypedBus
