import TypedBus.Proofs.Outcome
import TypedBus.Value.Elements

/-!
# Dicts entry by entry

A dict that has come about by setting keys one after the other holds no two keys that agree
(`Value.Distinct`), and setting its keys again in their order makes it again
(`Value.foldlM_addEntry`).
-/

namespace TypedBus

namespace Value

/-- Add an entry to a dict; what is no entry changes nothing. -/
def addEntry (es : List (Value × Value)) : Value → Except Fault (List (Value × Value))
  | entry a b => insertKey a b es
  | _ => .ok es

/-- No later key agrees with an earlier one. -/
def Distinct (es : List (Value × Value)) : Prop := es.Pairwise fun e f => agree e.1 f.1 = false

variable {key value : Value} {es fs : List (Value × Value)}

theorem insertKey_eq_ok :
    insertKey key value es = .ok fs ↔ key.unhashable? = none ∧ fs = insert key value es := by
  unfold insertKey
  cases key.unhashable? <;> simp [eq_comm]

/-- What stands in a dict after a key has been set: a key of before or this one, with a value of
before or this one. -/
theorem forall_insert {P Q : Value → Prop} (hes : ∀ e ∈ es, P e.1 ∧ Q e.2) (hkey : P key)
    (hvalue : Q value) : ∀ e ∈ insert key value es, P e.1 ∧ Q e.2 := by
  induction es with
  | nil => simpa [insert] using ⟨hkey, hvalue⟩
  | cons e es ih =>
    obtain ⟨he, hes⟩ := List.forall_mem_cons.mp hes
    rw [insert]
    split
    · exact List.forall_mem_cons.mpr ⟨⟨he.1, hvalue⟩, hes⟩
    · exact List.forall_mem_cons.mpr ⟨he, ih hes⟩

theorem Distinct.insert (h : Distinct es) : Distinct (insert key value es) := by
  induction es with
  | nil => exact List.pairwise_singleton _ _
  | cons e es ih =>
    obtain ⟨he, hes⟩ := List.pairwise_cons.mp h
    rw [Value.insert]
    split
    · exact List.pairwise_cons.mpr ⟨he, hes⟩
    · rename_i hagree
      refine List.pairwise_cons.mpr ⟨fun f hf => ?_, ih hes⟩
      exact (forall_insert (P := fun k => agree e.1 k = false) (Q := fun _ => True)
        (fun f hf => ⟨he f hf, trivial⟩) (by simpa using hagree) trivial f hf).1

/-- A new key goes behind the others. -/
theorem insert_of_new (h : ∀ e ∈ es, agree e.1 key = false) :
    insert key value es = es ++ [(key, value)] := by
  induction es with
  | nil => rfl
  | cons e es ih =>
    obtain ⟨he, hes⟩ := List.forall_mem_cons.mp h
    rw [insert, if_neg (by simp [he]), ih hes, List.cons_append]

theorem addEntry_eq_ok {a b : Value} :
    addEntry es (entry a b) = .ok fs ↔ a.unhashable? = none ∧ fs = insert a b es :=
  insertKey_eq_ok

/-- What can be said of every entry of a row can be said of every entry of the dict made of it, of
its keys and values one by one. -/
theorem forall_foldlM_addEntry {P Q : Value → Prop} :
    ∀ {vs : List Value} {es fs : List (Value × Value)},
      (∀ v ∈ vs, ∃ a b, v = entry a b ∧ P a ∧ Q b) → (∀ e ∈ es, P e.1 ∧ Q e.2) →
      vs.foldlM addEntry es = .ok fs → ∀ e ∈ fs, P e.1 ∧ Q e.2
  | [], _, _, _, hes, h => by
    cases h
    exact hes
  | v :: vs, es, fs, hvs, hes, h => by
    obtain ⟨⟨a, b, rfl, ha, hb⟩, htail⟩ := List.forall_mem_cons.mp hvs
    rw [List.foldlM_cons] at h
    obtain ⟨es', hadd, h⟩ := bind_eq_ok.mp h
    obtain ⟨-, rfl⟩ := addEntry_eq_ok.mp hadd
    exact forall_foldlM_addEntry htail (forall_insert hes ha hb) h

theorem Distinct.foldlM_addEntry :
    ∀ {vs : List Value} {es fs : List (Value × Value)}, Distinct es →
      (∀ v ∈ vs, ∃ a b, v = entry a b) → vs.foldlM addEntry es = .ok fs → Distinct fs
  | [], _, _, hes, _, h => by
    cases h
    exact hes
  | v :: vs, es, fs, hes, hvs, h => by
    obtain ⟨⟨a, b, rfl⟩, htail⟩ := List.forall_mem_cons.mp hvs
    rw [List.foldlM_cons] at h
    obtain ⟨es', hadd, h⟩ := bind_eq_ok.mp h
    obtain ⟨-, rfl⟩ := addEntry_eq_ok.mp hadd
    exact Distinct.foldlM_addEntry hes.insert htail h

/-- Every key that has been set can serve as one. -/
theorem hashable_foldlM_addEntry :
    ∀ {vs : List Value} {es fs : List (Value × Value)},
      (∀ v ∈ vs, ∃ a b, v = entry a b) → (∀ e ∈ es, e.1.unhashable? = none) →
      vs.foldlM addEntry es = .ok fs → ∀ e ∈ fs, e.1.unhashable? = none
  | [], _, _, _, hes, h => by
    cases h
    exact hes
  | v :: vs, es, fs, hvs, hes, h => by
    obtain ⟨⟨a, b, rfl⟩, htail⟩ := List.forall_mem_cons.mp hvs
    rw [List.foldlM_cons] at h
    obtain ⟨es', hadd, h⟩ := bind_eq_ok.mp h
    obtain ⟨ha, rfl⟩ := addEntry_eq_ok.mp hadd
    refine hashable_foldlM_addEntry htail (fun e he => ?_) h
    exact (forall_insert (P := fun k => k.unhashable? = none) (Q := fun _ => True)
      (fun e he => ⟨hes e he, trivial⟩) ha trivial e he).1

/-- Every key that has been added could serve as one, also one that agrees with another. -/
theorem hashable_of_foldlM_addEntry {a b : Value} :
    ∀ {vs : List Value} {es fs : List (Value × Value)}, vs.foldlM addEntry es = .ok fs →
      entry a b ∈ vs → a.unhashable? = none
  | v :: vs, es, fs, h, hmem => by
    rw [List.foldlM_cons] at h
    obtain ⟨es', hadd, h⟩ := bind_eq_ok.mp h
    rcases List.mem_cons.mp hmem with rfl | hmem
    · exact (addEntry_eq_ok.mp hadd).1
    · exact hashable_of_foldlM_addEntry h hmem

/-- Entries with keys that can serve as keys can all be added to a dict. -/
theorem exists_addEntries {vs : List Value}
    (h : ∀ v ∈ vs, ∃ a y, v = entry a y ∧ a.unhashable? = none) :
    ∀ es, ∃ es', vs.foldlM addEntry es = .ok es' := by
  induction vs with
  | nil => exact fun es => ⟨es, rfl⟩
  | cons v vs ih =>
    intro es
    obtain ⟨⟨a, y, rfl, ha⟩, hvs⟩ := List.forall_mem_cons.mp h
    obtain ⟨es', hes'⟩ := ih hvs (insert a y es)
    refine ⟨es', ?_⟩
    rw [List.foldlM_cons]
    exact bind_eq_ok.mpr ⟨_, addEntry_eq_ok.mpr ⟨ha, rfl⟩, hes'⟩

/-- **Setting the keys of a dict in their order makes it again.** -/
theorem foldlM_addEntry :
    ∀ {fs} es, Distinct (es ++ fs) → (∀ e ∈ fs, e.1.unhashable? = none) →
      (fs.map fun e => entry e.1 e.2).foldlM addEntry es = .ok (es ++ fs)
  | [], es, _, _ => by simp [pure, Except.pure]
  | f :: fs, es, hd, hf => by
    have hnew : ∀ e ∈ es, agree e.1 f.1 = false := fun e he =>
      (List.pairwise_append.mp hd).2.2 e he f List.mem_cons_self
    rw [List.append_cons] at hd ⊢
    rw [List.map_cons, List.foldlM_cons]
    refine bind_eq_ok.mpr ⟨es ++ [f], addEntry_eq_ok.mpr ⟨hf f (by simp), ?_⟩, ?_⟩
    · exact (insert_of_new hnew).symm
    · exact foldlM_addEntry _ hd fun e he => hf e (List.mem_cons_of_mem f he)

end Value

end TypedBus
