import TypedBus.Proofs.Value.Copy

/-!
# How deep copying goes

A property of values as ones of a type that is put together of the same property of their parts
(`WireType.Composes`) need only be looked at in the places of variants: at those no deeper than the
value (`Composes.of_variant`), and, where the type is inferred from the value, at those that lie
inside it (`Composes.of_infer`).

Copying counts down as it goes into variants, from the depth of the value. That is always enough:
a value that is boxed is no variant itself, and its inferred type has variants only where variants
lie inside it. So copying is what it would be without counting (`copy_eq`): what it does in the
place of a variant is copying again.
-/

namespace TypedBus

namespace Value

variable {u v : Value} {vs : List Value}

theorem depth_pos (v : Value) : 0 < v.depth := by
  cases v <;> simp [depth]

theorem depth_le_depths : ∀ {vs : List Value}, v ∈ vs → v.depth ≤ depths vs
  | u :: us, h => by
    rw [depths]
    rcases List.mem_cons.mp h with rfl | h
    · exact Nat.le_max_left _ _
    · exact Nat.le_trans (depth_le_depths h) (Nat.le_max_right _ _)

theorem depth_le_entryDepths {p : Value × Value} :
    ∀ {es : List (Value × Value)}, p ∈ es →
      p.1.depth ≤ entryDepths es ∧ p.2.depth ≤ entryDepths es
  | (k, v) :: es, h => by
    rw [entryDepths]
    rcases List.mem_cons.mp h with rfl | h
    · simp only
      omega
    · have := depth_le_entryDepths h
      omega

/-- An element is no deeper than the value that yields it. -/
theorem depth_le_of_mem_elements (h : v.elements? = some vs) (hu : u ∈ vs) :
    u.depth ≤ v.depth := by
  cases v with
  | list _ us | tuple us =>
    cases h
    have := depth_le_depths hu
    rw [depth]
    omega
  | dict es =>
    cases h
    obtain ⟨e, he, rfl⟩ := List.mem_map.mp hu
    have := depth_le_entryDepths he
    rw [depth]
    omega
  | entry k x =>
    cases h
    rw [depth]
    rcases List.mem_pair.mp hu with rfl | rfl <;> omega
  | text | path | signature | bytes =>
    cases h
    obtain ⟨_, -, rfl⟩ := List.mem_map.mp hu
    exact Nat.le_refl 1
  | grid g =>
    rcases hshape : g.shape with _ | ⟨n, shape⟩
    · simp [elements?, gridElements?, hshape] at h
    · have hlen : g.shape.length = shape.length + 1 := by rw [hshape, List.length_cons]
      rw [depth, hlen]
      rcases shape with _ | ⟨n', shape⟩
      · simp only [elements?, gridElements?, hshape, Option.some.injEq] at h
        subst h
        obtain ⟨_, -, rfl⟩ := List.mem_map.mp hu
        exact Nat.succ_le_succ (Nat.zero_le _)
      · simp only [elements?, gridElements?, hshape, Option.some.injEq] at h
        subst h
        obtain ⟨r, hr, rfl⟩ := List.mem_map.mp hu
        simp only [Grid.rows, hshape] at hr
        obtain ⟨i, -, rfl⟩ := List.mem_map.mp hr
        simp only [depth]
        omega
  | _ => cases h

theorem depth_le_of_mem_pairs (h : v.pairs? = some vs) (hu : u ∈ vs) : u.depth ≤ v.depth := by
  cases v with
  | dict es =>
    cases h
    obtain ⟨e, he, rfl⟩ := List.mem_map.mp hu
    have := depth_le_entryDepths he
    simp only [depth, depths]
    omega
  | _ => exact depth_le_of_mem_elements h hu

end Value

namespace WireType

/-! ## Going down a type -/

/-- A property of a value as one of a type that it has where its parts have it, as ones of the parts
of the type. -/
structure Composes (Q : WireType → Value → Prop) : Prop where
  basic : ∀ b v, Q (.basic b) v
  array : ∀ {e v}, (∀ vs, v.elements? = some vs → ∀ u ∈ vs, Q e u) → Q (.array e) v
  dict : ∀ {k x v}, (∀ ps, v.pairs? = some ps → ∀ p ∈ ps, Q (.entry k x) p) → Q (.dict k x) v
  entry : ∀ {k x v}, (∀ a c, v.elements? = some [a, c] → Q k a ∧ Q x c) → Q (.entry k x) v
  struct : ∀ {fs v}, (∀ vs, v.elements? = some vs → ∀ p ∈ fs.zip vs, Q p.1 p.2) → Q (.struct fs) v
  tuple : ∀ {fs v}, (∀ vs, v.elements? = some vs → ∀ p ∈ fs.zip vs, Q p.1 p.2) → Q (.tuple fs) v

variable {Q : WireType → Value → Prop} {d : Nat}

mutual

/-- What composes holds of a value if it holds of variants that are no deeper. -/
theorem Composes.of_variant (hQ : Composes Q) (h : ∀ u : Value, u.depth ≤ d → Q .variant u) :
    ∀ (t : WireType) (v : Value), v.depth ≤ d → Q t v
  | .basic b, v, _ => hQ.basic b v
  | .variant, v, hv => h v hv
  | .array e, v, hv => hQ.array fun vs hvs u hu =>
    of_variant hQ h e u (Nat.le_trans (Value.depth_le_of_mem_elements hvs hu) hv)
  | .dict k x, v, hv => hQ.dict fun ps hps p hp => hQ.entry fun a c hac =>
    have hp := Nat.le_trans (Value.depth_le_of_mem_pairs hps hp) hv
    have hin {u : Value} (hu : u ∈ [a, c]) : u.depth ≤ d :=
      Nat.le_trans (Value.depth_le_of_mem_elements hac hu) hp
    ⟨of_variant hQ h k a (hin (by simp)), of_variant hQ h x c (hin (by simp))⟩
  | .entry k x, v, hv => hQ.entry fun a c hac =>
    have hin {u : Value} (hu : u ∈ [a, c]) : u.depth ≤ d :=
      Nat.le_trans (Value.depth_le_of_mem_elements hac hu) hv
    ⟨of_variant hQ h k a (hin (by simp)), of_variant hQ h x c (hin (by simp))⟩
  | .struct fs, v, hv => hQ.struct fun vs hvs =>
    of_variantRow hQ h fs vs fun u hu =>
      Nat.le_trans (Value.depth_le_of_mem_elements hvs hu) hv
  | .tuple fs, v, hv => hQ.tuple fun vs hvs =>
    of_variantRow hQ h fs vs fun u hu =>
      Nat.le_trans (Value.depth_le_of_mem_elements hvs hu) hv

theorem Composes.of_variantRow (hQ : Composes Q) (h : ∀ u : Value, u.depth ≤ d → Q .variant u) :
    ∀ (fs : List WireType) (vs : List Value), (∀ v ∈ vs, v.depth ≤ d) →
      ∀ p ∈ fs.zip vs, Q p.1 p.2
  | [], _, _, _, hp => nomatch hp
  | _ :: _, [], _, _, hp => nomatch hp
  | f :: fs, v :: vs, hvs, p, hp => by
    obtain ⟨hv, hvs⟩ := List.forall_mem_cons.mp hvs
    rcases List.mem_cons.mp hp with rfl | hp
    · exact of_variant hQ h f v hv
    · exact of_variantRow hQ h fs vs hvs p hp

end

/-! ## Inferred types -/

/-- The wire type of a machine type is basic. -/
theorem exists_basic_of_wireType {t : MachineType} {u : WireType} (h : t.wireType = .ok u) :
    ∃ b, u = .basic b := by
  unfold MachineType.wireType at h
  split at h
  · rename_i hu
    cases h
    rcases t with _ | i | f
    · cases hu
      exact ⟨_, rfl⟩
    · obtain ⟨w, -, rfl⟩ := Option.map_eq_some_iff.mp hu
      exact ⟨_, rfl⟩
    · cases f <;> cases hu
      exact ⟨_, rfl⟩
  · cases h

/-- What composes holds of a value that is no variant, as one of the type inferred from it, if it
holds of the variants that lie inside it. -/
theorem Composes.of_infer (hQ : Composes Q) {v : Value} {t : WireType} (ht : v.infer = .ok t)
    (hv : ∀ m p u, v ≠ .variant m p u) (h : ∀ u : Value, u.depth < v.depth → Q .variant u) :
    Q t v := by
  have hinside : ∀ u : Value, u.depth ≤ v.depth - 1 → Q .variant u := fun u hu =>
    h u (by have := v.depth_pos; omega)
  cases v with
  | variant m p u => exact absurd rfl (hv m p u)
  | boolean | fixed | handle | path | signature | integer | double | text =>
    cases ht
    exact hQ.basic _ _
  | scalar s =>
    obtain ⟨b, rfl⟩ := exists_basic_of_wireType ht
    exact hQ.basic _ _
  | grid g =>
    unfold Value.infer at ht
    split at ht
    · obtain ⟨u, hu, ht⟩ := bind_eq_ok.mp ht
      obtain ⟨b, rfl⟩ := exists_basic_of_wireType hu
      cases ht
      exact hQ.array fun _ _ _ _ => hQ.basic _ _
    · cases ht
  | entry a b =>
    obtain ⟨k, -, ht⟩ := bind_eq_ok.mp ht
    obtain ⟨x, -, ht⟩ := bind_eq_ok.mp ht
    cases ht
    have hdepth : (Value.entry a b).depth - 1 = max a.depth b.depth := rfl
    refine hQ.entry fun a c hac => ?_
    cases hac
    exact ⟨hQ.of_variant hinside k a (by omega), hQ.of_variant hinside x b (by omega)⟩
  | tuple vs =>
    cases vs with
    | nil => cases ht
    | cons v vs =>
      obtain ⟨k, -, ht⟩ := bind_eq_ok.mp ht
      obtain ⟨ks, -, ht⟩ := bind_eq_ok.mp ht
      cases ht
      refine hQ.struct fun us hus => ?_
      cases hus
      exact hQ.of_variantRow hinside (k :: ks) (v :: vs) fun u hu => Value.depth_le_depths hu
  | list m vs =>
    obtain ⟨ks, -, ht⟩ := bind_eq_ok.mp ht
    obtain ⟨e, -, ht⟩ := bind_eq_ok.mp ht
    cases ht
    refine hQ.array fun us hus u hu => ?_
    cases hus
    exact hQ.of_variant hinside e u (Value.depth_le_depths hu)
  | dict es =>
    obtain ⟨ks, -, ht⟩ := bind_eq_ok.mp ht
    obtain ⟨k, -, ht⟩ := bind_eq_ok.mp ht
    obtain ⟨xs, -, ht⟩ := bind_eq_ok.mp ht
    obtain ⟨x, -, ht⟩ := bind_eq_ok.mp ht
    cases ht
    refine hQ.dict fun ps hps p hp => hQ.entry fun a c hac => ?_
    cases hps
    obtain ⟨e, he, rfl⟩ := List.mem_map.mp hp
    obtain ⟨ha, hb⟩ := Value.depth_le_entryDepths he
    cases hac
    exact ⟨hQ.of_variant hinside k e.1 ha, hQ.of_variant hinside x e.2 hb⟩
  | null | bytes | opening | closing | thing => exact absurd ht Value.refuse_ne_ok

/-! ## Copying alike -/

section Alike

variable {box box' : Value → Except Fault Value} {k x : WireType} {v : Value}

/-- A dict is copied entry by entry. -/
theorem copyWith_dict_eq : copyWith box (.dict k x) v = (do
    let ps ← v.pairs
    let es ← ps.foldlM (fun es p => do Value.addEntry es (← copyWith box (.entry k x) p)) []
    .ok (.dict es)) := by
  rw [copyWith]
  refine congrArg _ (funext fun ps => congrArg (fun outcome => outcome >>= _) ?_)
  refine foldlM_congr (fun p _ es => ?_) []
  rw [copyWith]
  rcases p.pair with f | ⟨a, b⟩
  · rfl
  · simp only [bind, Except.bind]
    rcases copyWith box k a with f | a'
    · rfl
    · rcases copyWith box x b with f | b' <;> rfl

theorem copyFields_congr :
    ∀ {fs : List WireType} {vs : List Value},
      (∀ p ∈ fs.zip vs, copyWith box p.1 p.2 = copyWith box' p.1 p.2) →
      copyFields box fs vs = copyFields box' fs vs
  | [], _, _ => by rw [copyFields, copyFields]
  | _ :: _, [], _ => by rw [copyFields, copyFields]
  | f :: fs, v :: vs, h => by
    rw [List.zip_cons_cons] at h
    obtain ⟨hv, hvs⟩ := List.forall_mem_cons.mp h
    rw [copyFields, copyFields, hv, copyFields_congr hvs]

/-- **Two ways to copy variants copy a value alike** where they copy its parts alike. -/
theorem composes_copyWith :
    Composes fun t v => copyWith box t v = copyWith box' t v where
  basic b v := by rw [copyWith, copyWith]
  array {e v} h := by
    rw [copyWith, copyWith]
    refine bind_congr_of_ok fun vs hvs => ?_
    rw [mapM_congr (h vs (Value.elements_eq_ok.mp hvs))]
  dict {k x v} h := by
    rw [copyWith_dict_eq, copyWith_dict_eq]
    refine bind_congr_of_ok fun ps hps => ?_
    rw [foldlM_congr fun p hp es => by rw [h ps (Value.pairs_eq_ok.mp hps) p hp]]
  entry {k x v} h := by
    rw [copyWith, copyWith]
    refine bind_congr_of_ok fun parts hac => ?_
    obtain ⟨a, c⟩ := parts
    obtain ⟨ha, hc⟩ := h a c (Value.pair_eq_ok.mp hac)
    simp only [ha, hc]
  struct {fs v} h := by
    rw [copyWith, copyWith]
    refine bind_congr_of_ok fun vs hvs => ?_
    rw [copyFields_congr (h vs (Value.elements_eq_ok.mp hvs))]
  tuple {fs v} h := by
    rw [copyWith, copyWith]
    refine bind_congr_of_ok fun vs hvs => ?_
    rw [copyFields_congr (h vs (Value.elements_eq_ok.mp hvs))]

end Alike

/-! ## Copying without counting -/

variable {v : Value}

/-- A value that is neither a variant nor null is boxed as its inferred type. -/
theorem boxWith_of_infer {copy : WireType → Value → Except Fault Value}
    (hv : ∀ m p u, v ≠ .variant m p u) (hnull : v ≠ .null) :
    boxWith copy v = (do
      let t ← v.infer
      .ok (.variant none (← copy t v) (some t))) := by
  cases v with
  | variant m p u => exact absurd rfl (hv m p u)
  | null => exact absurd rfl hnull
  | _ => rfl

/-- The depth of a value is enough to box it, and more makes no difference. -/
theorem boxing_eq : ∀ (d : Nat) {u : Value}, u.depth ≤ d → ∀ {n}, u.depth ≤ n →
    boxing n u = boxWith copy u
  | 0, u, hd, _, _ => absurd u.depth_pos (by omega)
  | d + 1, u, hd, n, hn => by
    obtain ⟨n, rfl⟩ : ∃ n', n = n' + 1 := ⟨n - 1, by have := u.depth_pos; omega⟩
    -- whatever lies deeper is boxed alike with what is left of both counts
    have hinside : ∀ {j j'}, ∀ x : Value, x.depth ≤ d → x.depth ≤ j → x.depth ≤ j' →
        copyWith (boxing j) .variant x = copyWith (boxing j') .variant x := by
      intro j j' x hx hj hj'
      rw [copyWith, copyWith]
      exact (boxing_eq d hx hj).trans (boxing_eq d hx hj').symm
    rw [boxing]
    by_cases hv : ∃ m p o, u = .variant m p o
    · obtain ⟨m, p, _ | t, rfl⟩ := hv
      · rfl
      · rw [Value.depth] at hd hn
        have hcopy : copyWithin n t p = t.copy p := by
          rw [copy, copyWithin_eq, copyWithin_eq]
          exact composes_copyWith.of_variant (fun x hx => hinside x (by omega) (by omega) hx) t p
            (Nat.le_refl _)
        rw [boxWith, boxWith, hcopy]
    · have hv : ∀ m p o, u ≠ .variant m p o := fun m p o h => hv ⟨m, p, o, h⟩
      by_cases hnull : u = .null
      · subst hnull
        rfl
      · rw [boxWith_of_infer hv hnull, boxWith_of_infer hv hnull]
        rcases ht : u.infer with f | t
        · rfl
        · have hcopy : copyWithin n t u = t.copy u := by
            rw [copy, copyWithin_eq, copyWithin_eq]
            exact composes_copyWith.of_infer ht hv fun x hx =>
              hinside x (by omega) (by omega) (by omega)
          simp only [bind, Except.bind, hcopy]

/-- **Copying is what it does in the place of a variant.** The count never runs out. -/
theorem copy_eq (t : WireType) (v : Value) : t.copy v = copyWith (boxWith copy) t v := by
  rw [copy, copyWithin_eq]
  refine composes_copyWith.of_variant (fun u hu => ?_) t v (Nat.le_refl _)
  rw [copyWith, copyWith]
  exact boxing_eq _ (Nat.le_refl _) hu

section Parts

variable {e k x : WireType} {fs : List WireType} {v w : Value}

theorem copy_array_eq_ok :
    copy (.array e) v = .ok w ↔
      ∃ vs ws, v.elements? = some vs ∧ List.Forall₂ (fun v w => copy e v = .ok w) vs ws ∧
        w = .list none ws := by
  simp only [copy_eq]
  exact copyWith_array_eq_ok

theorem copy_entry_eq_ok :
    copy (.entry k x) v = .ok w ↔
      ∃ a b a' b', v.elements? = some [a, b] ∧ copy k a = .ok a' ∧ copy x b = .ok b' ∧
        w = .entry a' b' := by
  simp only [copy_eq]
  exact copyWith_entry_eq_ok

theorem copy_dict_eq_ok :
    copy (.dict k x) v = .ok w ↔
      ∃ ps qs es, v.pairs? = some ps ∧
        List.Forall₂ (fun p q => copy (.entry k x) p = .ok q) ps qs ∧
        qs.foldlM Value.addEntry [] = .ok es ∧ w = .dict es := by
  simp only [copy_eq]
  exact copyWith_dict_eq_ok

theorem copy_struct_eq_ok :
    copy (.struct fs) v = .ok w ↔
      ∃ vs ws, v.elements? = some vs ∧
        List.Forall₂ (fun p w => copy p.1 p.2 = .ok w) (fs.zip vs) ws ∧ w = .tuple ws := by
  simp only [copy_eq]
  exact copyWith_struct_eq_ok

theorem copy_tuple_eq_ok :
    copy (.tuple fs) v = .ok w ↔
      ∃ vs ws, v.elements? = some vs ∧
        List.Forall₂ (fun p w => copy p.1 p.2 = .ok w) (fs.zip vs) ws ∧ w = .tuple ws := by
  simp only [copy_eq]
  exact copyWith_tuple_eq_ok

end Parts

end WireType

end TypedBus
