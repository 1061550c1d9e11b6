import TypedBus.Fault.Basic
import TypedBus.Proofs.Wire.Plain

/-!
# What is a signature

The grammar of signatures as one would write it down, over texts alone: `Signature.Complete` says
which texts are complete types, no path into which crosses more than so many arrays and more than so
many structs and dict entries. `Signature.Fits` says the same of the types that these texts spell
(`Fits.complete`, `Complete.exists_plain`).

* `split_eq_ok_iff`: splitting gives just the complete types that a text is put together of.
* `readers_steady`: the bound on the steps of the readers never decides what is read.
* `split_exact`: a text is valid exactly when it is a short enough row of complete types; it is then
  split into these, and otherwise refused.
-/

namespace TypedBus

namespace Signature

open WireType

/-- The text is a complete type, and on no path into it lie more than so many arrays, or more than
so many structs and dict entries together. -/
inductive Complete : Nat → Nat → Text → Prop
  | basic {arrays structs : Nat} (b : BasicType) : Complete arrays structs [b.code]
  | variant {arrays structs : Nat} : Complete arrays structs [.scalar 'v']
  | array {arrays structs : Nat} {e : Text} (he : Complete arrays structs e) :
      Complete (arrays + 1) structs (.scalar 'a' :: e)
  | entries {arrays structs : Nat} {v : Text} (k : BasicType) (hv : Complete arrays structs v) :
      Complete (arrays + 1) (structs + 1)
        (.scalar 'a' :: .scalar '{' :: k.code :: (v ++ [.scalar '}']))
  | struct {arrays structs : Nat} {fs : List Text} (hne : fs ≠ [])
      (hfs : ∀ f ∈ fs, Complete arrays structs f) :
      Complete arrays (structs + 1) (.scalar '(' :: (fs.flatten ++ [.scalar ')']))

/-- The text is these complete types one after the other, none too deep. -/
def Row (ts : List Text) (text : Text) : Prop :=
  text = ts.flatten ∧ ∀ t ∈ ts, Complete maximumDepth maximumDepth t

variable {n arrays structs : Nat} {text : Text} {ts : List Text}

/-! ## Texts and types -/

/-- A type that fits spells a complete type, with as much room as its depth leaves it. -/
theorem Fits.complete {t : WireType} (h : Fits arrays structs t) :
    Complete (maximumDepth - arrays) (maximumDepth - structs) t.signature := by
  have room : ∀ {n}, n < maximumDepth → maximumDepth - n = maximumDepth - (n + 1) + 1 := by
    intros
    omega
  induction h with
  | basic => exact .basic _
  | variant => exact .variant
  | array ha _ ih =>
    rw [room ha]
    exact .array ih
  | entries ha hs _ ih | dict ha hs _ ih =>
    rw [room ha, room hs]
    exact .entries _ ih
  | @struct _ _ fs hs hne _ ih =>
    rw [room hs, signature, signatures_eq_flatMap]
    refine .struct (by simpa using hne) fun f hf => ?_
    obtain ⟨t, ht, rfl⟩ := List.mem_map.mp hf
    exact ih t ht

/-- A complete type is spelt by a plain one, which fits wherever there is room for it. -/
theorem Complete.exists_plain {k : Nat} (h : Complete n k text) :
    ∃ t : WireType, t.signature = text ∧ Plain t ∧
      ∀ {arrays structs}, n + arrays ≤ maximumDepth → k + structs ≤ maximumDepth →
        Fits arrays structs t := by
  induction h with
  | basic b => exact ⟨.basic b, rfl, .basic b, fun _ _ => .basic⟩
  | variant => exact ⟨.variant, rfl, .variant, fun _ _ => .variant⟩
  | array _ ih =>
    obtain ⟨t, rfl, hplain, hfit⟩ := ih
    exact ⟨.array t, rfl, .array hplain, fun ha hs => .array (by omega) (hfit (by omega) hs)⟩
  | entries b _ ih =>
    obtain ⟨t, rfl, hplain, hfit⟩ := ih
    exact ⟨.array (.entry (.basic b) t), rfl, .array (.entry (.basic b) hplain), fun ha hs =>
      .entries (by omega) (by omega) (hfit (by omega) (by omega))⟩
  | @struct _ _ fs hne _ ih =>
    choose! type hsig hplain hfit using ih
    refine ⟨.struct (fs.map type), ?_, .struct ?_, fun ha hs => .struct (by omega)
      (by simpa using hne) ?_⟩
    · rw [signature, signatures_eq_flatMap, List.flatMap_map, List.flatMap_congr hsig,
        List.flatMap_id']
    · exact List.forall_mem_map.mpr hplain
    · exact List.forall_mem_map.mpr fun f hf => hfit f hf ha (by omega)

/-- There is one way to put a text together of complete types, however deep they are. -/
theorem row_unique {us : List Text} (hts : ∀ t ∈ ts, ∃ n k, Complete n k t)
    (hus : ∀ u ∈ us, ∃ n k, Complete n k u) (h : ts.flatten = us.flatten) : ts = us := by
  have hspelt : ∀ {text}, (∃ n k, Complete n k text) → Spelt text := by
    rintro text ⟨n, k, hcomplete⟩
    obtain ⟨t, hsig, hplain, -⟩ := hcomplete.exists_plain
    exact ⟨t, hsig, hplain⟩
  exact eq_of_flatten (fun t ht => hspelt (hts t ht)) (fun u hu => hspelt (hus u hu)) h

/-- **Splitting gives just the complete types that a short enough text is put together of.** -/
theorem split_eq_ok_iff : split text = .ok ts ↔ text.length ≤ maximumLength ∧ Row ts text := by
  have hsplit : split text = .ok ts ↔ ∃ us, types text = .ok us ∧ us.map signature = ts := by
    unfold split
    cases types text <;> simp [Except.map]
  rw [hsplit]
  constructor
  · rintro ⟨us, hus, rfl⟩
    obtain ⟨hlen, rfl, hall⟩ := types_eq_ok_iff.mp hus
    exact ⟨hlen, signatures_eq_flatMap us, List.forall_mem_map.mpr fun u hu =>
      (hall u hu).1.complete⟩
  · rintro ⟨hlen, rfl, hall⟩
    choose! type hsig hplain hfit using fun t ht => (hall t ht).exists_plain
    have hmap : (ts.map type).map signature = ts := by
      rw [List.map_map]
      exact (List.map_congr_left hsig).trans (List.map_id ts)
    refine ⟨ts.map type, types_eq_ok_iff.mpr ⟨hlen, ?_, List.forall_mem_map.mpr fun t ht => ?_⟩,
      hmap⟩
    · rw [signatures_eq_flatMap, List.flatMap_def, hmap]
    · exact ⟨hfit t ht (Nat.le_refl _) (Nat.le_refl _), (hplain t ht).reduce⟩

theorem isValid_iff_exists_split : isValid text = true ↔ ∃ ts, split text = .ok ts := by
  unfold isValid split
  cases types text <;> simp [Except.toBool, Except.map]

/-! ## Enough steps -/

/-- What is left behind a type is shorter than the text that it was read from. -/
theorem length_rest_lt {t : WireType} {rest : Text}
    (h : readType n arrays structs text = .ok (t, rest)) : rest.length < text.length := by
  obtain ⟨rfl, hfit, -⟩ := (readers_sound n).type h
  obtain ⟨p, more, hsig, -, -⟩ := hfit.signature_head
  rw [hsig, List.length_append, List.length_cons]
  omega

/-- One step more changes nothing that the three readers say of texts of these lengths. -/
structure ReadersSteady (n : Nat) : Prop where
  type : ∀ {arrays structs text}, 2 * text.length + 1 ≤ n →
    readType (n + 1) arrays structs text = readType n arrays structs text
  entry : ∀ {arrays structs text}, 2 * text.length + 1 ≤ n →
    readEntry (n + 1) arrays structs text = readEntry n arrays structs text
  fields : ∀ {arrays structs text}, 2 * text.length + 2 ≤ n →
    readFields (n + 1) arrays structs text = readFields n arrays structs text

/-- **The bound on the steps never decides**: each reader goes on with a text that is shorter, or
with one field of the same text. -/
theorem readers_steady (n : Nat) : ReadersSteady n := by
  induction n with
  | zero => constructor <;> intros <;> omega
  | succ n ih =>
    constructor
    · intro arrays structs text h
      cases text with
      | nil => rw [readType.eq_2, readType.eq_2]
      | cons p text =>
        rw [List.length_cons] at h
        rw [readType.eq_def, readType.eq_def (n + 1)]
        simp only
        split
        · rfl
        · split
          · split
            · rfl
            · rw [List.length_cons] at h
              rw [ih.entry (by omega)]
            · rw [ih.type (by omega)]
          · rfl
        · split
          · split
            · rfl
            · rw [ih.fields (by omega)]
          · rfl
        · rfl
        · rfl
    · intro arrays structs inside h
      cases inside with
      | nil => rw [readEntry.eq_2, readEntry.eq_2]
      | cons p rest =>
        rw [List.length_cons] at h
        rw [readEntry.eq_3, readEntry.eq_3]
        simp only [ih.type (show 2 * rest.length + 1 ≤ n by omega)]
    · intro arrays structs text h
      rw [readFields.eq_def, readFields.eq_def (n + 1)]
      simp only
      split
      · rfl
      · rw [ih.type (by omega)]
        refine bind_congr_of_ok fun p hp => ?_
        have hshorter := length_rest_lt hp
        rw [ih.fields (by omega)]

theorem readType_steps (h : stepsFor text ≤ n) :
    readType n arrays structs text = readType (stepsFor text) arrays structs text := by
  induction h with
  | refl => rfl
  | @step n h ih =>
    rw [stepsFor] at h
    rw [(readers_steady n).type (Nat.le_of_succ_le h), ih]

/-- A row of complete types is read in as many steps as the text has code points: each type takes
some of them. -/
theorem readTypes_steps (h : text.length ≤ n) :
    readTypes n text = readTypes text.length text := by
  suffices hboth : ∀ {n k : Nat} {text : Text}, text.length ≤ n → text.length ≤ k →
      readTypes n text = readTypes k text from hboth h (Nat.le_refl _)
  intro n
  induction n with
  | zero =>
    intro k text hn _
    obtain rfl := List.length_eq_zero_iff.mp (Nat.le_zero.mp hn)
    rw [readTypes, readTypes]
  | succ n ih =>
    intro k text hn hk
    cases text with
    | nil => rw [readTypes, readTypes]
    | cons p text =>
      rw [List.length_cons] at hn hk
      obtain ⟨k, rfl⟩ : ∃ k', k = k' + 1 := ⟨k - 1, by omega⟩
      have hne : p :: text ≠ [] := List.cons_ne_nil p text
      rw [readTypes.eq_3 _ n hne, readTypes.eq_3 _ k hne]
      refine bind_congr_of_ok ?_
      rintro ⟨t, rest⟩ hr
      have hshorter := length_rest_lt hr
      rw [List.length_cons] at hshorter
      simp only
      rw [ih (k := k) (by omega) (by omega)]

/-! ## Valid texts -/

/-- **A text is valid exactly when it is short enough and a row of complete types, none too deep.**
It is then split into these, and it is no other row of complete types of any depth; a text that is
not valid is refused as a value that is not allowed, and as nothing else. The readers come to their
end by themselves: with more steps they say the same. -/
theorem split_exact (text : Text) :
    (isValid text = true ↔ text.length ≤ maximumLength ∧ ∃ ts, Row ts text) ∧
    (isValid text = true → ∃ ts, split text = .ok ts ∧ Row ts text ∧
      ∀ us, us.flatten = text → (∀ u ∈ us, ∃ arrays structs, Complete arrays structs u) →
        us = ts) ∧
    (isValid text = false → ∃ m, split text = .error m ∧ (Fault.malformed m).kind = .value) ∧
    (∀ n arrays structs, stepsFor text ≤ n →
      readType n arrays structs text = readType (stepsFor text) arrays structs text) ∧
    ∀ n, text.length ≤ n → readTypes n text = readTypes text.length text := by
  refine ⟨?_, fun hv => ?_, fun hv => ?_, fun n arrays structs h => readType_steps h,
    fun n h => readTypes_steps h⟩
  · rw [isValid_iff_exists_split]
    simp only [split_eq_ok_iff, exists_and_left]
  · obtain ⟨ts, hts⟩ := isValid_iff_exists_split.mp hv
    obtain ⟨-, hflat, hall⟩ := split_eq_ok_iff.mp hts
    exact ⟨ts, hts, ⟨hflat, hall⟩, fun us hus hus' =>
      row_unique hus' (fun t ht => ⟨_, _, hall t ht⟩) (hus.trans hflat)⟩
  · rcases hsplit : split text with m | ts
    · exact ⟨m, rfl, rfl⟩
    · rw [isValid_iff_exists_split.mpr ⟨ts, hsplit⟩] at hv
      cases hv

/-- A dict of variants and a pair, and an array that lacks its element. -/
theorem split_dictAndPair :
    isValid "a{sv}(ii)" = true ∧ (∃ ts, split "a{sv}(ii)" = .ok ts ∧ Row ts "a{sv}(ii)" ∧
      ∀ us : List Text, us.flatten = "a{sv}(ii)" →
        (∀ u ∈ us, ∃ arrays structs, Complete arrays structs u) → us = ts) ∧
    isValid "ia" = false ∧
      ∃ m, split "ia" = .error m ∧ (Fault.malformed m).kind = .value :=
  have hvalid : isValid "a{sv}(ii)" = true := by decide +kernel
  have hinvalid : isValid "ia" = false := by decide +kernel
  ⟨hvalid, (split_exact _).2.1 hvalid, hinvalid, (split_exact _).2.2.1 hinvalid⟩

/-- As many arrays inside one another as there may be, and one too many. -/
example : isValid (List.replicate 32 (.scalar 'a') ++ [.scalar 'i']) = true ∧
    isValid (List.replicate 33 (.scalar 'a') ++ [.scalar 'i']) = false := by decide +kernel

end Signature

end TypedBus
