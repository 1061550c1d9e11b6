import TypedBus.Proofs.Value.Convert
import TypedBus.Proofs.Value.Dict
import TypedBus.Value.Copy

/-!
# Copying type by type

What a copy of a value as a type is made of, for each kind of type: the copies of the elements of
an array, of the entries of a dict, set in turn, of the parts of an entry and of the fields of a
struct or a tuple.
-/

namespace TypedBus

namespace Value

variable {v a b : Value} {vs : List Value}

theorem elements_eq_ok : v.elements = .ok vs ↔ v.elements? = some vs := by
  unfold elements
  cases v.elements? <;> simp

theorem pairs_eq_ok : v.pairs = .ok vs ↔ v.pairs? = some vs := by
  unfold pairs
  cases v.pairs? <;> simp

theorem pair_eq_ok : v.pair = .ok (a, b) ↔ v.elements? = some [a, b] := by
  unfold pair
  rcases v.elements? with _ | (_ | ⟨x, _ | ⟨y, _ | ⟨z, us⟩⟩⟩) <;> simp

end Value

namespace WireType

variable {box : Value → Except Fault Value} {e k x : WireType} {fs : List WireType} {v w : Value}
  {vs ws : List Value}

theorem copyWith_array_eq_ok :
    copyWith box (array e) v = .ok w ↔
      ∃ vs ws, v.elements? = some vs ∧
        List.Forall₂ (fun v w => copyWith box e v = .ok w) vs ws ∧ w = .list none ws := by
  rw [copyWith]
  constructor
  · intro h
    obtain ⟨vs, hvs, h⟩ := bind_eq_ok.mp h
    obtain ⟨ws, hws, h⟩ := bind_eq_ok.mp h
    cases h
    exact ⟨vs, ws, Value.elements_eq_ok.mp hvs, mapM_eq_ok_iff.mp hws, rfl⟩
  · rintro ⟨vs, ws, hvs, hws, rfl⟩
    exact bind_eq_ok.mpr ⟨vs, Value.elements_eq_ok.mpr hvs,
      bind_eq_ok.mpr ⟨ws, mapM_eq_ok_iff.mpr hws, rfl⟩⟩

theorem copyWith_entry_eq_ok :
    copyWith box (entry k x) v = .ok w ↔
      ∃ a b a' b', v.elements? = some [a, b] ∧ copyWith box k a = .ok a' ∧
        copyWith box x b = .ok b' ∧ w = .entry a' b' := by
  rw [copyWith]
  constructor
  · intro h
    obtain ⟨⟨a, b⟩, hab, h⟩ := bind_eq_ok.mp h
    obtain ⟨a', ha, h⟩ := bind_eq_ok.mp h
    obtain ⟨b', hb, h⟩ := bind_eq_ok.mp h
    cases h
    exact ⟨a, b, a', b', Value.pair_eq_ok.mp hab, ha, hb, rfl⟩
  · rintro ⟨a, b, a', b', hab, ha, hb, rfl⟩
    exact bind_eq_ok.mpr ⟨(a, b), Value.pair_eq_ok.mpr hab,
      bind_eq_ok.mpr ⟨a', ha, bind_eq_ok.mpr ⟨b', hb, rfl⟩⟩⟩

/-- Copying the entries of a dict one by one, each set at once, is copying them all and then setting
them. -/
theorem copyEntries_eq_ok {ps : List Value} :
    ∀ {es es' : List (Value × Value)},
      ps.foldlM (fun es p => do
        let (a, b) ← p.pair
        Value.insertKey (← copyWith box k a) (← copyWith box x b) es) es = .ok es' ↔
      ∃ qs, List.Forall₂ (fun p q => copyWith box (entry k x) p = .ok q) ps qs ∧
        qs.foldlM Value.addEntry es = .ok es' := by
  induction ps with
  | nil => simp
  | cons p ps ih =>
    intro es es'
    rw [List.foldlM_cons]
    constructor
    · intro h
      obtain ⟨es₁, hp, h⟩ := bind_eq_ok.mp h
      obtain ⟨⟨a, b⟩, hab, hp⟩ := bind_eq_ok.mp hp
      obtain ⟨a', ha, hp⟩ := bind_eq_ok.mp hp
      obtain ⟨b', hb, hp⟩ := bind_eq_ok.mp hp
      obtain ⟨qs, hqs, hfold⟩ := ih.mp h
      have hentry : copyWith box (entry k x) p = .ok (.entry a' b') :=
        copyWith_entry_eq_ok.mpr ⟨a, b, a', b', Value.pair_eq_ok.mp hab, ha, hb, rfl⟩
      exact ⟨.entry a' b' :: qs, .cons hentry hqs, bind_eq_ok.mpr ⟨es₁, hp, hfold⟩⟩
    · rintro ⟨qs, hqs, hfold⟩
      cases hqs with
      | cons hq hqs =>
        obtain ⟨a, b, a', b', hab, ha, hb, rfl⟩ := copyWith_entry_eq_ok.mp hq
        obtain ⟨es₁, hadd, hfold⟩ := bind_eq_ok.mp hfold
        refine bind_eq_ok.mpr ⟨es₁, ?_, ih.mpr ⟨_, hqs, hfold⟩⟩
        exact bind_eq_ok.mpr ⟨(a, b), Value.pair_eq_ok.mpr hab,
          bind_eq_ok.mpr ⟨a', ha, bind_eq_ok.mpr ⟨b', hb, hadd⟩⟩⟩

theorem copyWith_dict_eq_ok :
    copyWith box (dict k x) v = .ok w ↔
      ∃ ps qs es, v.pairs? = some ps ∧
        List.Forall₂ (fun p q => copyWith box (entry k x) p = .ok q) ps qs ∧
        qs.foldlM Value.addEntry [] = .ok es ∧ w = .dict es := by
  rw [copyWith]
  constructor
  · intro h
    obtain ⟨ps, hps, h⟩ := bind_eq_ok.mp h
    obtain ⟨es, hes, h⟩ := bind_eq_ok.mp h
    cases h
    obtain ⟨qs, hqs, hfold⟩ := copyEntries_eq_ok.mp hes
    exact ⟨ps, qs, es, Value.pairs_eq_ok.mp hps, hqs, hfold, rfl⟩
  · rintro ⟨ps, qs, es, hps, hqs, hfold, rfl⟩
    exact bind_eq_ok.mpr ⟨ps, Value.pairs_eq_ok.mpr hps,
      bind_eq_ok.mpr ⟨es, copyEntries_eq_ok.mpr ⟨qs, hqs, hfold⟩, rfl⟩⟩

theorem copyFields_eq_ok :
    ∀ {fs : List WireType} {vs ws : List Value}, copyFields box fs vs = .ok ws ↔
      List.Forall₂ (fun p w => copyWith box p.1 p.2 = .ok w) (fs.zip vs) ws
  | [], vs, ws => by simp [copyFields, eq_comm]
  | f :: fs, [], ws => by simp [copyFields, eq_comm]
  | f :: fs, v :: vs, ws => by
    rw [copyFields, List.zip_cons_cons, List.forall₂_cons_left_iff]
    constructor
    · intro h
      obtain ⟨w, hw, h⟩ := bind_eq_ok.mp h
      obtain ⟨ws', hws, h⟩ := bind_eq_ok.mp h
      cases h
      exact ⟨w, ws', hw, copyFields_eq_ok.mp hws, rfl⟩
    · rintro ⟨w, ws', hw, hws, rfl⟩
      exact bind_eq_ok.mpr ⟨w, hw, bind_eq_ok.mpr ⟨ws', copyFields_eq_ok.mpr hws, rfl⟩⟩

/-- Copying the fields of a value into a row. -/
theorem copyRow_eq_ok :
    (do
      let vs ← v.elements
      .ok (.tuple (← copyFields box fs vs)) : Except Fault Value) = .ok w ↔
      ∃ vs ws, v.elements? = some vs ∧
        List.Forall₂ (fun p w => copyWith box p.1 p.2 = .ok w) (fs.zip vs) ws ∧
        w = .tuple ws := by
  constructor
  · intro h
    obtain ⟨vs, hvs, h⟩ := bind_eq_ok.mp h
    obtain ⟨ws, hws, h⟩ := bind_eq_ok.mp h
    cases h
    exact ⟨vs, ws, Value.elements_eq_ok.mp hvs, copyFields_eq_ok.mp hws, rfl⟩
  · rintro ⟨vs, ws, hvs, hws, rfl⟩
    exact bind_eq_ok.mpr ⟨vs, Value.elements_eq_ok.mpr hvs,
      bind_eq_ok.mpr ⟨ws, copyFields_eq_ok.mpr hws, rfl⟩⟩

theorem copyWith_struct_eq_ok :
    copyWith box (struct fs) v = .ok w ↔
      ∃ vs ws, v.elements? = some vs ∧
        List.Forall₂ (fun p w => copyWith box p.1 p.2 = .ok w) (fs.zip vs) ws ∧
        w = .tuple ws := by
  rw [copyWith]
  exact copyRow_eq_ok

theorem copyWith_tuple_eq_ok :
    copyWith box (tuple fs) v = .ok w ↔
      ∃ vs ws, v.elements? = some vs ∧
        List.Forall₂ (fun p w => copyWith box p.1 p.2 = .ok w) (fs.zip vs) ws ∧
        w = .tuple ws := by
  rw [copyWith]
  exact copyRow_eq_ok

/-! ## Variants inside one another -/

/-- How a variant is copied, in which so many variants lie inside one another. -/
def boxing : Nat → Value → Except Fault Value
  | 0 => fun _ => .error .tooDeep
  | n + 1 => boxWith (copyWithin n)

theorem copyWithin_eq (n : Nat) : copyWithin n = copyWith (boxing n) := by
  cases n <;> rfl

end WireType

end TypedBus
