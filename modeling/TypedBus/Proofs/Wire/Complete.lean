import TypedBus.Proofs.Outcome
import TypedBus.Wire.Container
import TypedBus.Wire.Reduced

/-!
# Complete types and their signatures

`Signature.Fits` says which types the grammar allows inside so many arrays and so many structs. The
readers of `Signature.types` are exact for it: they read a type that fits back from its signature
(`readType_signature`), and what they read fits and was spelt by its signature (`readers_sound`).

* `types_eq_ok_iff`, `single?_eq_some_iff`: a signature spells a row of types, or one type, exactly
  when these fit, have it for their signature, and it is not too long.
* `isReduced_iff`: a type is in reduced form exactly when it fits and its signature is not too long.
* `WireType.IsElement`: the types of the elements of arrays, which are those in reduced form and the
  dict entries; the parts of such a type are in reduced form again.
-/

namespace TypedBus

namespace WireType

theorem reduceAll_eq_map (ts : List WireType) : reduceAll ts = ts.map reduce := by
  induction ts with
  | nil => rfl
  | cons t ts ih => rw [reduceAll, ih, List.map_cons]

end WireType

namespace Signature

open WireType

/-- The type may stand inside so many arrays and so many structs and dict entries. -/
inductive Fits : Nat → Nat → WireType → Prop
  | basic {arrays structs : Nat} {b : BasicType} : Fits arrays structs (.basic b)
  | variant {arrays structs : Nat} : Fits arrays structs .variant
  | array {arrays structs : Nat} {e : WireType} (ha : arrays < maximumDepth)
      (he : Fits (arrays + 1) structs e) : Fits arrays structs (.array e)
  | entries {arrays structs : Nat} {k : BasicType} {v : WireType} (ha : arrays < maximumDepth)
      (hs : structs < maximumDepth) (hv : Fits (arrays + 1) (structs + 1) v) :
      Fits arrays structs (.array (.entry (.basic k) v))
  | dict {arrays structs : Nat} {k : BasicType} {v : WireType} (ha : arrays < maximumDepth)
      (hs : structs < maximumDepth) (hv : Fits (arrays + 1) (structs + 1) v) :
      Fits arrays structs (.dict (.basic k) v)
  | struct {arrays structs : Nat} {fs : List WireType} (hs : structs < maximumDepth)
      (hne : fs ≠ []) (hfs : ∀ f ∈ fs, Fits arrays (structs + 1) f) :
      Fits arrays structs (.struct fs)

variable {n arrays structs : Nat}

/-- What may stand deep inside may stand less deep. -/
theorem Fits.mono {t : WireType} (h : Fits arrays structs t) :
    ∀ {arrays' structs'}, arrays' ≤ arrays → structs' ≤ structs → Fits arrays' structs' t := by
  induction h with
  | basic => intros; exact .basic
  | variant => intros; exact .variant
  | array ha _ ih =>
    intro arrays' structs' h₁ h₂
    exact .array (by omega) (ih (by omega) h₂)
  | entries ha hs _ ih =>
    intro arrays' structs' h₁ h₂
    exact .entries (by omega) (by omega) (ih (by omega) (by omega))
  | dict ha hs _ ih =>
    intro arrays' structs' h₁ h₂
    exact .dict (by omega) (by omega) (ih (by omega) (by omega))
  | struct hs hne _ ih =>
    intro arrays' structs' h₁ h₂
    exact .struct (by omega) hne fun f hf => ih f hf h₁ (by omega)

/-- The signature of a complete type begins with neither a brace nor a closing bracket. -/
theorem Fits.signature_head {t : WireType} (h : Fits arrays structs t) :
    ∃ p rest, t.signature = p :: rest ∧ p ≠ .scalar '{' ∧ p ≠ .scalar ')' := by
  cases h with
  | basic =>
    rename_i b
    refine ⟨b.code, [], rfl, ?_, ?_⟩ <;> rcases b with ⟨_ | _⟩ | _ <;> decide
  | variant => exact ⟨_, _, rfl, by decide, by decide⟩
  | array ha he => exact ⟨_, _, rfl, by decide, by decide⟩
  | entries ha hs hv => exact ⟨_, _, rfl, by decide, by decide⟩
  | dict ha hs hv => exact ⟨_, _, rfl, by decide, by decide⟩
  | struct hs hne hfs => exact ⟨_, _, rfl, by decide, by decide⟩

/-! ## Signatures are read back -/

theorem readType_basic (b : BasicType) (rest : Text) :
    readType (n + 1) arrays structs (b.code :: rest) = .ok (.basic b, rest) := by
  rcases b with ⟨_ | _⟩ | _ <;>
    simp [readType, BasicType.code, BasicType.letter, BasicType.ofCode?]

theorem readType_array {p : CodePoint} {rest after : Text} {e : WireType}
    (ha : arrays < maximumDepth) (hp : p ≠ .scalar '{')
    (he : readType n (arrays + 1) structs (p :: rest) = .ok (e, after)) :
    readType (n + 1) arrays structs (.scalar 'a' :: p :: rest) = .ok (.array e, after) := by
  rw [readType.eq_6 _ _ _ _ (by simp) (by simpa using hp), if_pos ha, he]
  rfl

theorem readType_entries {k : BasicType} {v : WireType} {inside after : Text}
    (ha : arrays < maximumDepth) (hs : structs < maximumDepth)
    (hv : readType n (arrays + 1) (structs + 1) inside = .ok (v, .scalar '}' :: after)) :
    readType (n + 2) arrays structs (.scalar 'a' :: .scalar '{' :: k.code :: inside) =
      .ok (.array (.entry (.basic k) v), after) := by
  rw [readType.eq_5, if_pos ha, readEntry.eq_3, if_pos hs, BasicType.ofCode?_code]
  simp only [hv]
  rfl

theorem readType_struct {p : CodePoint} {rest after : Text} {fs : List WireType}
    (hs : structs < maximumDepth) (hp : p ≠ .scalar ')')
    (hfs : readFields n arrays (structs + 1) (p :: rest) = .ok (fs, after)) :
    readType (n + 1) arrays structs (.scalar '(' :: p :: rest) = .ok (.struct fs, after) := by
  rw [readType.eq_8 _ _ _ _ (by simpa using hp), if_pos hs, hfs]
  rfl

theorem readFields_cons {p : CodePoint} {text rest after : Text} {f : WireType}
    {fs : List WireType} (hp : p ≠ .scalar ')')
    (hf : readType n arrays structs (p :: text) = .ok (f, rest))
    (hfs : readFields n arrays structs rest = .ok (fs, after)) :
    readFields (n + 1) arrays structs (p :: text) = .ok (f :: fs, after) := by
  rw [readFields.eq_3 _ _ _ _ (by simpa using hp), hf]
  simp only [bind, Except.bind, hfs]

/-- Where every field is read back from its signature, so is the row of them up to its closing
parenthesis. -/
theorem readFields_signatures {fs : List WireType} (hfit : ∀ f ∈ fs, Fits arrays structs f)
    (hread : ∀ f ∈ fs, ∀ n rest, 2 * f.signature.length ≤ n →
      readType n arrays structs (f.signature ++ rest) = .ok (f.reduce, rest)) :
    ∀ n rest, 2 * (signatures fs).length + 1 ≤ n →
      readFields n arrays structs (signatures fs ++ .scalar ')' :: rest) =
        .ok (reduceAll fs, rest) := by
  induction fs with
  | nil =>
    intro n rest hn
    obtain ⟨n, rfl⟩ : ∃ k, n = k + 1 := ⟨n - 1, by omega⟩
    exact readFields.eq_2 _ _ _ _
  | cons f fs ih =>
    intro n rest hn
    obtain ⟨p, text, hsig, -, hp⟩ := (hfit f (by simp)).signature_head
    simp only [signatures, List.length_append] at hn ⊢
    have hlen : 0 < f.signature.length := by simp [hsig]
    obtain ⟨n, rfl⟩ : ∃ k, n = k + 1 := ⟨n - 1, by omega⟩
    have hf := hread f (by simp) n (signatures fs ++ .scalar ')' :: rest) (by omega)
    have hfs := ih (fun g hg => hfit g (List.mem_cons_of_mem f hg))
      (fun g hg => hread g (List.mem_cons_of_mem f hg)) n rest (by omega)
    rw [hsig] at hf ⊢
    simp only [List.cons_append, List.append_assoc] at hf ⊢
    exact readFields_cons hp hf hfs

/-- **A type that fits is read back from its signature**, with its dicts spelt as arrays of
entries. -/
theorem readType_signature {t : WireType} (h : Fits arrays structs t) :
    ∀ n rest, 2 * t.signature.length ≤ n →
      readType n arrays structs (t.signature ++ rest) = .ok (t.reduce, rest) := by
  induction h with
  | basic =>
    intro n rest hn
    obtain ⟨n, rfl⟩ : ∃ k, n = k + 1 := ⟨n - 1, by simp [signature] at hn; omega⟩
    exact readType_basic _ rest
  | variant =>
    intro n rest hn
    obtain ⟨n, rfl⟩ : ∃ k, n = k + 1 := ⟨n - 1, by simp [signature] at hn; omega⟩
    exact readType.eq_3 _ _ _ _
  | array ha he ih =>
    intro n rest hn
    obtain ⟨p, text, hsig, hp, -⟩ := he.signature_head
    simp only [signature, List.length_cons] at hn
    obtain ⟨n, rfl⟩ : ∃ k, n = k + 1 := ⟨n - 1, by omega⟩
    have hr := ih n rest (by omega)
    simp only [signature, reduce]
    rw [hsig] at hr ⊢
    exact readType_array ha hp hr
  | entries ha hs hv ih | dict ha hs hv ih =>
    intro n rest hn
    simp only [signature, List.length_cons, List.length_append] at hn
    obtain ⟨n, rfl⟩ : ∃ k, n = k + 2 := ⟨n - 2, by omega⟩
    have hr := ih n (.scalar '}' :: rest) (by omega)
    simp only [signature, reduce, List.cons_append, List.append_assoc, List.nil_append]
    exact readType_entries ha hs hr
  | @struct arrays structs fs hs hne hfs ih =>
    intro n rest hn
    obtain ⟨f, fs', rfl⟩ := List.exists_cons_of_ne_nil hne
    obtain ⟨p, text, hsig, -, hp⟩ := (hfs f (by simp)).signature_head
    simp only [signature, List.length_cons, List.length_append] at hn
    obtain ⟨n, rfl⟩ : ∃ k, n = k + 1 := ⟨n - 1, by omega⟩
    have hr := readFields_signatures hfs ih n rest (by simp at hn ⊢; omega)
    simp only [signature, reduce, signatures] at hr ⊢
    rw [hsig] at hr ⊢
    simp only [List.cons_append, List.append_assoc, List.nil_append] at hr ⊢
    exact readType_struct hs hp hr

/-! ## What is read fits -/

/-- What the three readers say, within so many steps, of a text from which they have read
something. -/
structure ReadersSound (n : Nat) : Prop where
  type : ∀ {arrays structs text t rest}, readType n arrays structs text = .ok (t, rest) →
    text = t.signature ++ rest ∧ Fits arrays structs t ∧ t.reduce = t
  entry : ∀ {arrays structs text t rest}, readEntry n arrays structs text = .ok (t, rest) →
    ∃ k v, t = .entry (.basic k) v ∧ text = k.code :: (v.signature ++ .scalar '}' :: rest) ∧
      structs < maximumDepth ∧ Fits arrays (structs + 1) v ∧ v.reduce = v
  fields : ∀ {arrays structs text fs rest}, readFields n arrays structs text = .ok (fs, rest) →
    text = signatures fs ++ .scalar ')' :: rest ∧
      ∀ f ∈ fs, Fits arrays structs f ∧ f.reduce = f

theorem ReadersSound.type_succ (ih : ReadersSound n) {text rest : Text} {t : WireType}
    (h : readType (n + 1) arrays structs text = .ok (t, rest)) :
    text = t.signature ++ rest ∧ Fits arrays structs t ∧ t.reduce = t := by
  cases text with
  | nil => simp [readType] at h
  | cons p text =>
    rw [readType.eq_def] at h
    simp only at h
    split at h
    · cases h
      exact ⟨rfl, .variant, rfl⟩
    · split at h
      · rename_i ha
        split at h
        · cases h
        · obtain ⟨⟨e, after⟩, he, h⟩ := bind_eq_ok.mp h
          cases h
          obtain ⟨k, v, rfl, rfl, hs, hv, hr⟩ := ih.entry he
          exact ⟨by simp [signature], .entries ha hs hv, by simp [reduce, hr]⟩
        · obtain ⟨⟨e, after⟩, he, h⟩ := bind_eq_ok.mp h
          cases h
          obtain ⟨rfl, hfit, hr⟩ := ih.type he
          exact ⟨by simp [signature], .array ha hfit, by simp [reduce, hr]⟩
      · cases h
    · split at h
      · rename_i hs
        split at h
        · cases h
        · rename_i hp
          obtain ⟨⟨fs, after⟩, hfs, h⟩ := bind_eq_ok.mp h
          cases h
          obtain ⟨rfl, hall⟩ := ih.fields hfs
          have hne : fs ≠ [] := by
            rintro rfl
            exact hp after rfl
          refine ⟨by simp [signature], .struct hs hne fun f hf => (hall f hf).1, ?_⟩
          rw [reduce, reduceAll_eq_map, List.map_congr_left fun f hf => (hall f hf).2, List.map_id']
      · cases h
    · cases h
    · split at h
      · rename_i hb
        cases h
        rw [BasicType.ofCode?_eq_some_iff] at hb
        exact ⟨by simp [signature, hb], .basic, rfl⟩
      · cases h

theorem ReadersSound.entry_succ (ih : ReadersSound n) {text rest : Text} {t : WireType}
    (h : readEntry (n + 1) arrays structs text = .ok (t, rest)) :
    ∃ k v, t = .entry (.basic k) v ∧ text = k.code :: (v.signature ++ .scalar '}' :: rest) ∧
      structs < maximumDepth ∧ Fits arrays (structs + 1) v ∧ v.reduce = v := by
  cases text with
  | nil =>
    rw [readEntry.eq_2] at h
    split at h <;> cases h
  | cons p text =>
    rw [readEntry.eq_3] at h
    split at h
    · rename_i hs
      split at h
      · cases h
      · rename_i k hk
        rw [BasicType.ofCode?_eq_some_iff] at hk
        obtain ⟨⟨v, after⟩, hv, h⟩ := bind_eq_ok.mp h
        simp only at h
        split at h
        · cases h
          obtain ⟨rfl, hfit, hr⟩ := ih.type hv
          exact ⟨k, v, rfl, by rw [hk], hs, hfit, hr⟩
        · cases h
    · cases h

theorem ReadersSound.fields_succ (ih : ReadersSound n) {text rest : Text} {fs : List WireType}
    (h : readFields (n + 1) arrays structs text = .ok (fs, rest)) :
    text = signatures fs ++ .scalar ')' :: rest ∧
      ∀ f ∈ fs, Fits arrays structs f ∧ f.reduce = f := by
  rw [readFields.eq_def] at h
  simp only at h
  split at h
  · cases h
    simp [signatures]
  · obtain ⟨⟨f, between⟩, hf, h⟩ := bind_eq_ok.mp h
    obtain ⟨⟨fs', after⟩, hfs, h⟩ := bind_eq_ok.mp h
    cases h
    obtain ⟨rfl, hfit, hr⟩ := ih.type hf
    obtain ⟨rfl, hall⟩ := ih.fields hfs
    refine ⟨by simp [signatures], ?_⟩
    rintro g (_ | ⟨_, hg⟩)
    · exact ⟨hfit, hr⟩
    · exact hall g hg

/-- **What is read fits, and its signature was read.** -/
theorem readers_sound (n : Nat) : ReadersSound n := by
  induction n with
  | zero => constructor <;> simp [readType, readEntry, readFields]
  | succ n ih => exact ⟨ih.type_succ, ih.entry_succ, ih.fields_succ⟩

/-! ## Whole signatures -/

theorem readTypes_signatures : ∀ {ts : List WireType} {n : Nat}, (∀ t ∈ ts, Fits 0 0 t) →
    (signatures ts).length ≤ n → readTypes n (signatures ts) = .ok (ts.map reduce)
  | [], n, _, _ => by simp [signatures, readTypes]
  | t :: ts, n, hfit, hn => by
    obtain ⟨p, text, hsig, -, -⟩ := (hfit t (by simp)).signature_head
    have ht := readType_signature (hfit t (by simp)) (stepsFor (t.signature ++ signatures ts))
      (signatures ts) (by simp only [stepsFor, List.length_append]; omega)
    simp only [signatures, hsig, List.length_append, List.cons_append, List.length_cons] at ht hn ⊢
    obtain ⟨n, rfl⟩ : ∃ k, n = k + 1 := ⟨n - 1, by omega⟩
    have hts := readTypes_signatures (fun u hu => hfit u (List.mem_cons_of_mem t hu))
      (show (signatures ts).length ≤ n by omega)
    simp only [readTypes, ht, hts, bind, Except.bind, List.map_cons]

theorem of_readTypes : ∀ {n : Nat} {text : Text} {ts : List WireType},
    readTypes n text = .ok ts → text = signatures ts ∧ ∀ t ∈ ts, Fits 0 0 t ∧ t.reduce = t
  | _, [], ts, h => by
    simp only [readTypes, Except.ok.injEq] at h
    subst h
    simp [signatures]
  | 0, p :: text, ts, h => by simp [readTypes] at h
  | n + 1, p :: text, ts, h => by
    simp only [readTypes] at h
    obtain ⟨⟨t, rest⟩, ht, h⟩ := bind_eq_ok.mp h
    obtain ⟨ts', hts, h⟩ := bind_eq_ok.mp h
    cases h
    obtain ⟨htext, hfit, hr⟩ := (readers_sound _).type ht
    obtain ⟨rfl, hall⟩ := of_readTypes hts
    refine ⟨by rw [htext, signatures], ?_⟩
    rintro u (_ | ⟨_, hu⟩)
    · exact ⟨hfit, hr⟩
    · exact hall u hu

/-- **A signature spells just the types that it is put together of**, as long as they fit. -/
theorem types_eq_ok_iff {text : Text} {ts : List WireType} :
    types text = .ok ts ↔
      text.length ≤ maximumLength ∧ text = signatures ts ∧
        ∀ t ∈ ts, Fits 0 0 t ∧ t.reduce = t := by
  unfold types
  constructor
  · intro h
    split at h
    · cases h
    · exact ⟨by omega, of_readTypes h⟩
  · rintro ⟨hlen, rfl, hall⟩
    rw [if_neg (by omega), readTypes_signatures (fun t ht => (hall t ht).1) (Nat.le_refl _),
      List.map_congr_left fun t ht => (hall t ht).2, List.map_id']

theorem single?_eq_some_iff {text : Text} {t : WireType} :
    single? text = some t ↔
      text.length ≤ maximumLength ∧ text = t.signature ∧ Fits 0 0 t ∧ t.reduce = t := by
  have h : single? text = some t ↔ types text = .ok [t] := by
    unfold single?
    split
    · rename_i u hu
      simp [hu]
    · rename_i hne
      simpa using hne t
  rw [h, types_eq_ok_iff]
  simp [signatures]

end Signature

/-! ## Reduced types -/

namespace WireType

open Signature

mutual

/-- Both spellings of a dict have one signature. -/
theorem signature_reduce : ∀ t : WireType, t.reduce.signature = t.signature
  | basic _ | variant => rfl
  | array e => by rw [reduce, signature, signature, signature_reduce e]
  | dict k v => by
    rw [reduce, signature, signature, signature, signature_reduce k, signature_reduce v]
  | entry k v => by rw [reduce, signature, signature, signature_reduce k, signature_reduce v]
  | struct fs => by rw [reduce, signature, signature, signatures_reduceAll fs]
  | tuple fs => by rw [reduce, signature, signature, signatures_reduceAll fs]

theorem signatures_reduceAll : ∀ ts : List WireType, signatures (reduceAll ts) = signatures ts
  | [] => rfl
  | t :: ts => by
    rw [reduceAll, signatures, signatures, signature_reduce t, signatures_reduceAll ts]

end

mutual

theorem reduce_reduce : ∀ t : WireType, t.reduce.reduce = t.reduce
  | basic _ | variant => rfl
  | array e => by rw [reduce, reduce, reduce_reduce e]
  | dict k v => by rw [reduce, reduce, reduce, reduce_reduce k, reduce_reduce v]
  | entry k v => by rw [reduce, reduce, reduce_reduce k, reduce_reduce v]
  | struct fs => by rw [reduce, reduce, reduceAll_reduceAll fs]
  | tuple fs => by rw [reduce, reduce, reduceAll_reduceAll fs]

theorem reduceAll_reduceAll : ∀ ts : List WireType, reduceAll (reduceAll ts) = reduceAll ts
  | [] => rfl
  | t :: ts => by rw [reduceAll, reduceAll, reduce_reduce t, reduceAll_reduceAll ts]

end

theorem eq_basic_of_reduce {t : WireType} {b : BasicType} (h : t.reduce = basic b) :
    t = basic b := by
  cases t <;> simp_all [reduce]

theorem eq_entry_of_reduce {t k v : WireType} (h : t.reduce = entry k v) :
    ∃ k' v', t = entry k' v' ∧ k'.reduce = k ∧ v'.reduce = v := by
  cases t <;> simp_all [reduce]

/-- What fits in reduced form fits as it is. -/
theorem fits_of_reduce {t : WireType} {arrays structs : Nat} (h : Fits arrays structs t.reduce) :
    Fits arrays structs t := by
  -- The two spellings of a dict differ in depth, so the induction is on the derivation.
  generalize hu : t.reduce = u at h
  induction h generalizing t with
  | basic =>
    rw [eq_basic_of_reduce hu]
    exact .basic
  | variant => cases t <;> simp_all [reduce, Fits.variant]
  | array ha he ih =>
    cases t <;> simp only [reduce, WireType.array.injEq, reduceCtorEq] at hu
    · exact .array ha (ih hu)
    · subst hu
      cases he
  | entries ha hs hv ih =>
    cases t <;> simp only [reduce, WireType.array.injEq, WireType.entry.injEq, reduceCtorEq] at hu
    · obtain ⟨k, v, rfl, hk, hv'⟩ := eq_entry_of_reduce hu
      rw [eq_basic_of_reduce hk]
      exact .entries ha hs (ih hv')
    · rw [eq_basic_of_reduce hu.1]
      exact .dict ha hs (ih hu.2)
  | dict ha hs hv ih => cases t <;> simp [reduce] at hu
  | struct hs hne hfs ih =>
    cases t <;> simp only [reduce, WireType.struct.injEq, reduceCtorEq] at hu
    rename_i fs
    rw [reduceAll_eq_map] at hu
    subst hu
    refine .struct hs (by simpa using hne) fun f hf => ?_
    exact ih f.reduce (List.mem_map_of_mem hf) rfl

theorem fits_reduce {t : WireType} {arrays structs : Nat} (h : Fits arrays structs t) :
    Fits arrays structs t.reduce := by
  induction h with
  | basic => exact .basic
  | variant => exact .variant
  | array ha he ih => exact .array ha ih
  | entries ha hs hv ih => exact .entries ha hs ih
  | dict ha hs hv ih => exact .entries ha hs ih
  | struct hs hne hfs ih =>
    rw [reduce, reduceAll_eq_map]
    refine .struct hs (by simpa using hne) fun f hf => ?_
    obtain ⟨g, hg, rfl⟩ := List.mem_map.mp hf
    exact ih g hg

/-- **A type is in reduced form exactly when it fits and its signature is not too long.** -/
theorem isReduced_iff {t : WireType} :
    t.isReduced = true ↔ t.signature.length ≤ maximumLength ∧ Fits 0 0 t := by
  rw [isReduced, decide_eq_true_eq, single?_eq_some_iff]
  constructor
  · rintro ⟨hlen, -, hfit, -⟩
    exact ⟨hlen, fits_of_reduce hfit⟩
  · rintro ⟨hlen, hfit⟩
    exact ⟨hlen, (signature_reduce t).symm, fits_reduce hfit, reduce_reduce t⟩

theorem isReduced_basic (b : BasicType) : (basic b).isReduced = true :=
  isReduced_iff.mpr ⟨by simp [signature, maximumLength], .basic⟩

theorem signature_length_le {ts : List WireType} {t : WireType} (h : t ∈ ts) :
    t.signature.length ≤ (signatures ts).length := by
  rw [signatures_eq_flatMap]
  exact List.Sublist.length_le (List.sublist_flatten_of_mem (List.mem_map_of_mem h))

theorem isReduced_struct {fs : List WireType} (h : (struct fs).isReduced = true) :
    fs ≠ [] ∧ ∀ f ∈ fs, f.isReduced = true := by
  obtain ⟨hlen, hfit⟩ := isReduced_iff.mp h
  simp only [signature, List.length_cons, List.length_append] at hlen
  cases hfit with
  | struct hs hne hfs =>
    refine ⟨hne, fun f hf => isReduced_iff.mpr ⟨?_, (hfs f hf).mono (by omega) (by omega)⟩⟩
    have := signature_length_le hf
    omega

/-- The fields of a reduced struct are found again in its content. -/
theorem split_signatures {ts : List WireType} (hlen : (signatures ts).length ≤ maximumLength)
    (hfit : ∀ t ∈ ts, Fits 0 0 t) : split (signatures ts) = .ok (ts.map signature) := by
  have h : types (signatures ts) = .ok (ts.map reduce) := by
    rw [types_eq_ok_iff, ← reduceAll_eq_map, signatures_reduceAll]
    refine ⟨hlen, rfl, fun t ht => ?_⟩
    rw [reduceAll_eq_map] at ht
    obtain ⟨u, hu, rfl⟩ := List.mem_map.mp ht
    exact ⟨fits_reduce (hfit u hu), reduce_reduce u⟩
  rw [split, h]
  simp [Except.map, signature_reduce]

theorem fields_structOf {fs : List WireType} (h : (struct fs).isReduced = true) :
    Container.fields ⟨.struct, signatures fs⟩ = .ok (fs.map signature) := by
  obtain ⟨hlen, -⟩ := isReduced_iff.mp h
  simp only [signature, List.length_cons, List.length_append] at hlen
  exact split_signatures (by omega) fun f hf =>
    (isReduced_iff.mp ((isReduced_struct h).2 f hf)).2

/-! ## Elements of arrays -/

/-- The type may be that of the elements of an array: a reduced one, or a dict entry that leaves
room for its braces and the letter of the array. -/
inductive IsElement : WireType → Prop
  | reduced {t : WireType} (h : t.isReduced = true) : IsElement t
  | entry {k : BasicType} {v : WireType} (hv : v.isReduced = true)
      (hlen : v.signature.length < maximumLength) : IsElement (entry (basic k) v)

namespace IsElement

theorem ofArray {e : WireType} (h : (WireType.array e).IsElement) : e.IsElement := by
  obtain ⟨h⟩ := h
  obtain ⟨hlen, hfit⟩ := isReduced_iff.mp h
  simp only [signature, List.length_cons] at hlen
  cases hfit with
  | array ha he =>
    exact .reduced (isReduced_iff.mpr ⟨by omega, he.mono (by omega) (by omega)⟩)
  | entries ha hs hv =>
    simp only [signature, List.length_cons, List.length_append] at hlen
    exact .entry (isReduced_iff.mpr ⟨by omega, hv.mono (by omega) (by omega)⟩) (by omega)

theorem ofDict {k v : WireType} (h : (WireType.dict k v).IsElement) :
    (WireType.entry k v).IsElement := by
  obtain ⟨h⟩ := h
  obtain ⟨hlen, hfit⟩ := isReduced_iff.mp h
  simp only [signature, List.length_cons, List.length_append] at hlen
  cases hfit with
  | dict ha hs hv =>
    exact .entry (isReduced_iff.mpr ⟨by omega, hv.mono (by omega) (by omega)⟩) (by omega)

/-- The key of an entry is basic, its value reduced, and both are found again in its content. -/
theorem ofEntry {k v : WireType} (h : (WireType.entry k v).IsElement) :
    (∃ b, k = .basic b) ∧ v.isReduced = true ∧
      Container.fields ⟨.dictEntry, k.signature ++ v.signature⟩ =
        .ok [k.signature, v.signature] := by
  cases h with
  | reduced h => cases (isReduced_iff.mp h).2
  | @entry b _ hv hlen =>
    refine ⟨⟨b, rfl⟩, hv, ?_⟩
    have hfits : ∀ t ∈ [.basic b, v], Fits 0 0 t := by
      simpa using ⟨Fits.basic, (isReduced_iff.mp hv).2⟩
    have hshort : (signatures [.basic b, v]).length ≤ maximumLength := by
      simp only [signatures, signature, List.length_append, List.length_cons, List.length_nil]
      omega
    have hfields := split_signatures hshort hfits
    simpa [signatures, Container.fields] using hfields

theorem ofStruct {fs : List WireType} (h : (WireType.struct fs).IsElement) :
    (∀ f ∈ fs, f.isReduced = true) ∧
      Container.fields ⟨.struct, signatures fs⟩ = .ok (fs.map signature) := by
  obtain ⟨h⟩ := h
  exact ⟨(isReduced_struct h).2, fields_structOf h⟩

theorem not_tuple {fs : List WireType} (h : (WireType.tuple fs).IsElement) : False := by
  obtain ⟨h⟩ := h
  cases (isReduced_iff.mp h).2

end IsElement

end WireType

end TypedBus
