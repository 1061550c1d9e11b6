import TypedBus.Wire.TypeExpr
import TypedBus.Proofs.Wire.Container
import TypedBus.Proofs.Wire.Plain

/-!
# Parsing signatures

`TypeExpr.parse` asks whether a text is one complete type and then reads it a second time, letter by
letter, splitting anew what stands between brackets. The second reading finds nothing wrong any
more, and finds the type that the first one did (`ofSignature_signature`).

* `isReduced_iff_hasTuple`: a type is in reduced form exactly when its signature is one complete
  type and no tuple occurs in it.
* `isReduced_iff_parse`: that is, when its signature is parsed into the type itself, but for the
  spelling of dicts.
* `parse_inverse`: parsing and `WireType.signature` are inverse to each other on types in reduced
  form, but for the spelling of dicts.

The types are those of `WireType`. A class derived from `Variant` would be one more type with the
signature of the variant, and is none of them.
-/

namespace TypedBus

open Signature WireType

namespace TypeExpr

variable {n arrays structs : Nat} {s : Text} {t u : WireType} {ts : List WireType}

/-! ## The second reading -/

theorem ofSignature_basic (b : BasicType) :
    ofSignature (n + 1) (basic b).signature = .ok (basic b).reduce := by
  simp [signature, ofSignature, BasicType.ofCode?_code, WireType.reduce]

theorem ofSignature_array (h : ofSignature n t.signature = .ok t.reduce) :
    ofSignature (n + 1) (WireType.array t).signature = .ok (WireType.array t).reduce := by
  have hcode : BasicType.ofCode? (.scalar 'a') = none := by decide
  simp only [signature, ofSignature, hcode]
  simp [bind, Except.bind, h, WireType.reduce]

/-- Types that are read one by one are read as a row. -/
theorem mapM_ofSignature (h : ∀ t ∈ ts, ofSignature n t.signature = .ok t.reduce) :
    (ts.map signature).mapM (ofSignature n) = .ok (reduceAll ts) := by
  rw [mapM_eq_ok_iff, reduceAll_eq_map, List.forall₂_map_left_iff, List.forall₂_map_right_iff,
    List.forall₂_same]
  exact h

section Brackets

variable (hlen : (signatures ts).length ≤ maximumLength)
  (hts : ∀ t ∈ ts, Fits 0 0 t ∧ ofSignature n t.signature = .ok t.reduce)

include hlen hts

/-- What stands between brackets is split anew, and its parts are read as a row. -/
theorem read_parts (q : CodePoint) :
    ((split (signatures ts ++ [q]).dropLast).mapError Fault.malformed).bind
      (fun parts => parts.mapM (ofSignature n)) = .ok (reduceAll ts) := by
  rw [List.dropLast_concat, split_signatures hlen fun t ht => (hts t ht).1]
  exact mapM_ofSignature fun t ht => (hts t ht).2

theorem ofSignature_struct :
    ofSignature (n + 1) (WireType.struct ts).signature = .ok (WireType.struct ts).reduce := by
  obtain ⟨parts, hparts, hread⟩ := bind_eq_ok.mp (read_parts hlen hts (.scalar ')'))
  have hcode : BasicType.ofCode? (.scalar '(') = none := by decide
  simp only [signature, ofSignature, hcode, hparts]
  simp [bind, Except.bind, hread, WireType.reduce]

end Brackets

theorem ofSignature_entry {k v : WireType}
    (hlen : (signatures [k, v]).length ≤ maximumLength)
    (hk : Fits 0 0 k ∧ ofSignature n k.signature = .ok k.reduce)
    (hv : Fits 0 0 v ∧ ofSignature n v.signature = .ok v.reduce) :
    ofSignature (n + 1) (WireType.entry k v).signature = .ok (WireType.entry k v).reduce := by
  obtain ⟨parts, hparts, hread⟩ := bind_eq_ok.mp
    (read_parts hlen (by simpa using ⟨hk, hv⟩) (.scalar '}'))
  have hcode : BasicType.ofCode? (.scalar '{') = none := by decide
  have hsig : k.signature ++ v.signature = signatures [k, v] := by simp [signatures]
  simp only [signature, hsig, ofSignature, hcode, hparts]
  simp [bind, Except.bind, hread, WireType.reduce, reduceAll, twoOf]

/-- **A complete type is read into the type that it spells**, with as many steps as it has
letters. -/
theorem ofSignature_signature (h : Fits arrays structs t) :
    ∀ {n}, t.signature.length ≤ n → t.signature.length ≤ maximumLength →
      ofSignature n t.signature = .ok t.reduce := by
  induction h with
  | @basic _ _ b =>
    intro n hn _
    obtain ⟨n, rfl⟩ := Nat.exists_eq_add_of_le' hn
    exact ofSignature_basic b
  | variant =>
    intro n hn _
    obtain ⟨n, rfl⟩ := Nat.exists_eq_add_of_le' hn
    rfl
  | array _ _ ih =>
    intro n hn hlen
    rw [signature, List.length_cons] at hn hlen
    obtain ⟨n, rfl⟩ := Nat.exists_eq_add_of_le' (Nat.le_of_add_left_le hn)
    exact ofSignature_array (ih (by omega) (by omega))
  | @entries _ _ k v _ _ hv ih | @dict _ _ k v _ _ hv ih =>
    intro n hn hlen
    have hsig : (signatures [.basic k, v]).length = v.signature.length + 1 := by
      simp [signatures, signature]
    simp only [signature, List.length_cons, List.length_append, List.length_nil] at hn hlen
    -- One step for the letter of the array, one for the brace.
    obtain ⟨n, rfl⟩ := Nat.exists_eq_add_of_le' (show 2 ≤ n by omega)
    have hkey : ofSignature n (basic k).signature = .ok (basic k).reduce := by
      obtain ⟨n, rfl⟩ := Nat.exists_eq_add_of_le' (show 1 ≤ n by omega)
      exact ofSignature_basic k
    have hvalue := ih (show v.signature.length ≤ n by omega) (by omega)
    exact ofSignature_array (t := .entry (.basic k) v) (ofSignature_entry (by omega)
      ⟨.basic, hkey⟩ ⟨hv.mono (Nat.zero_le _) (Nat.zero_le _), hvalue⟩)
  | @struct _ _ fs _ _ hfs ih =>
    intro n hn hlen
    simp only [signature, List.length_cons, List.length_append, List.length_nil] at hn hlen
    obtain ⟨n, rfl⟩ := Nat.exists_eq_add_of_le' (show 1 ≤ n by omega)
    refine ofSignature_struct (by omega) fun f hf => ?_
    have hshort := signature_length_le hf
    exact ⟨(hfs f hf).mono (Nat.zero_le _) (Nat.zero_le _), ih f hf (by omega) (by omega)⟩

/-! ## Parsing -/

/-- **Parsing finds a type in reduced form**, the one whose signature was given. -/
theorem parse_eq_ok (h : isSingle s = true) :
    ∃ t, parse s = .ok (.wire t) ∧ t.signature = s ∧ t.isReduced = true ∧ t.reduce = t := by
  obtain ⟨hlen, t, rfl, hfit, hred⟩ := isSingle_iff.mp h
  refine ⟨t, ?_, rfl, isReduced_iff.mpr ⟨hlen, hfit⟩, hred⟩
  rw [parse, if_pos h, ofSignature_signature hfit (Nat.le_refl _) hlen, hred]
  rfl

/-- **A type is in reduced form exactly when its signature is one complete type and no tuple occurs
in it.** -/
theorem isReduced_iff_hasTuple :
    t.isReduced = true ↔ isSingle t.signature = true ∧ t.hasTuple = false := by
  constructor
  · intro h
    exact ⟨isSingle_signature h, hasTuple_of_fits (isReduced_iff.mp h).2⟩
  · rintro ⟨hsingle, htuple⟩
    obtain ⟨hlen, u, hsig, hfit, hred⟩ := isSingle_iff.mp hsingle
    have hreduce : t.reduce = u := by
      rw [reduce_eq_of_signature htuple (hasTuple_of_fits hfit) hsig, hred]
    exact isReduced_iff.mpr ⟨hlen, fits_of_reduce (hreduce ▸ hfit)⟩

/-- **A type is in reduced form exactly when its signature is one complete type and is parsed into
the type itself**, but for the spelling of dicts. -/
theorem isReduced_iff_parse :
    t.isReduced = true ↔
      isSingle t.signature = true ∧ parse t.signature = .ok (.wire t.reduce) := by
  constructor
  · intro h
    have hsingle := isSingle_signature h
    obtain ⟨u, hparse, hsig, hu, hred⟩ := parse_eq_ok hsingle
    refine ⟨hsingle, ?_⟩
    rw [hparse, reduce_eq_of_signature (isReduced_iff_hasTuple.mp h).2
      (isReduced_iff_hasTuple.mp hu).2 hsig.symm, hred]
  · rintro ⟨hsingle, hparse⟩
    obtain ⟨u, hparse', hsig, hu, hred⟩ := parse_eq_ok hsingle
    obtain rfl : u = t.reduce := by
      rw [hparse', Except.ok.injEq, TypeExpr.wire.injEq] at hparse
      exact hparse
    obtain ⟨hlen, hfit⟩ := isReduced_iff.mp hu
    exact isReduced_iff.mpr ⟨hsig ▸ hlen, fits_of_reduce hfit⟩

/-- **Parsing and taking the signature are inverse to each other** on types in reduced form, but for
the spelling of dicts; these are the types without tuples whose signature is one complete type. -/
theorem parse_inverse :
    (∀ s, isSingle s = true →
      ∃ t, parse s = .ok (.wire t) ∧ t.signature = s ∧ t.isReduced = true) ∧
    (∀ t : WireType,
      (t.isReduced = true ↔ isSingle t.signature = true ∧ t.hasTuple = false) ∧
      (t.isReduced = true → parse t.signature = .ok (.wire t.reduce))) ∧
    ∀ t u : WireType, t.isReduced = true → u.isReduced = true → t.signature = u.signature →
      t.reduce = u.reduce := by
  refine ⟨fun s hs => ?_, fun t => ⟨isReduced_iff_hasTuple, fun h => (isReduced_iff_parse.mp h).2⟩,
    fun t u ht hu hsig => ?_⟩
  · obtain ⟨t, hparse, hsig, hred, -⟩ := parse_eq_ok hs
    exact ⟨t, hparse, hsig, hred⟩
  · exact reduce_eq_of_signature (isReduced_iff_hasTuple.mp ht).2 (isReduced_iff_hasTuple.mp hu).2
      hsig

/-- A dict of structs, spelt in both ways. -/
theorem parse_dictOfStructs :
    let pair : WireType := .struct [.basic (.integer .int32), .variant]
    let dict : WireType := .dict .string pair
    let entries : WireType := .array (.entry .string pair)
    isSingle "a{s(iv)}" = true ∧ dict.isReduced = true ∧ entries.isReduced = true ∧
      (∃ t, parse "a{s(iv)}" = .ok (.wire t) ∧ t.signature = "a{s(iv)}" ∧ t.isReduced = true) ∧
      parse dict.signature = .ok (.wire dict.reduce) ∧ dict.reduce = entries.reduce := by
  intro pair dict entries
  have hsingle : isSingle "a{s(iv)}" = true := by decide +kernel
  have hdict : dict.isReduced = true := by decide +kernel
  have hentries : entries.isReduced = true := by decide +kernel
  exact ⟨hsingle, hdict, hentries, parse_inverse.1 _ hsingle, (parse_inverse.2.1 dict).2 hdict,
    parse_inverse.2.2 dict entries hdict hentries rfl⟩

end TypeExpr

end TypedBus
