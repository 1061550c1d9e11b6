import TypedBus.Proofs.Wire.Signature

/-!
# Containers that can be opened

The containers that can be opened are those that bracket complete types (`Container.IsComplete`,
`Container.isValid_iff`). The content of such a container is a row of complete types, and
`Container.fields` finds them (`Container.fields_of_isValid`). The containers that bracket the
values of a reduced type can all be opened.
-/

namespace TypedBus

open Signature WireType

/-- The text of exactly one complete type. -/
theorem Signature.isSingle_iff {text : Text} :
    isSingle text = true ↔
      text.length ≤ maximumLength ∧ ∃ t, text = t.signature ∧ Fits 0 0 t ∧ t.reduce = t := by
  rw [isSingle, Option.isSome_iff_exists]
  constructor
  · rintro ⟨t, ht⟩
    obtain ⟨hlen, h⟩ := single?_eq_some_iff.mp ht
    exact ⟨hlen, t, h⟩
  · rintro ⟨hlen, t, h⟩
    exact ⟨t, single?_eq_some_iff.mpr ⟨hlen, h⟩⟩

/-- A text is that of exactly one type if it is complete by the grammar, and short enough. -/
theorem Signature.isSingle_iff_complete {text : Text} :
    isSingle text = true ↔
      text.length ≤ maximumLength ∧ Complete maximumDepth maximumDepth text := by
  rw [isSingle_iff]
  refine and_congr_right fun _ => ⟨?_, fun h => ?_⟩
  · rintro ⟨t, rfl, hfit, -⟩
    exact hfit.complete
  · obtain ⟨t, rfl, hplain, hfit⟩ := h.exists_plain
    exact ⟨t, rfl, hfit (Nat.le_refl _) (Nat.le_refl _), hplain.reduce⟩

/-- The signature of a reduced type spells exactly one complete type. -/
theorem WireType.isSingle_signature {t : WireType} (h : t.isReduced = true) :
    isSingle t.signature = true := by
  obtain ⟨hlen, hfit⟩ := isReduced_iff.mp h
  exact isSingle_iff.mpr
    ⟨hlen, t.reduce, (signature_reduce t).symm, fits_reduce hfit, reduce_reduce t⟩

namespace Signature

/-- A signature in parentheses is that of a struct. -/
theorem content_of_parentheses {content : Text} {t : WireType}
    (hsig : .scalar '(' :: (content ++ [.scalar ')']) = t.signature) (ht : Fits 0 0 t) :
    ∃ fs, t = .struct fs ∧ content = signatures fs ∧ ∀ f ∈ fs, Fits 0 0 f := by
  cases ht with
  | @basic _ _ b =>
    rcases b with ⟨_ | _⟩ | _ <;> simp [signature, BasicType.code, BasicType.letter] at hsig
  | variant => simp [signature] at hsig
  | array ha he => simp [signature] at hsig
  | entries ha hs hv => simp [signature] at hsig
  | dict ha hs hv => simp [signature] at hsig
  | struct hs hne hfs =>
    simp only [signature, List.cons.injEq, true_and, List.append_cancel_right_eq] at hsig
    exact ⟨_, rfl, hsig, fun f hf => (hfs f hf).mono (Nat.le_refl 0) (Nat.zero_le 1)⟩

/-- A signature in braces behind the letter of an array is that of an array of dict entries. -/
theorem content_of_braces {content : Text} {t : WireType}
    (hsig : .scalar 'a' :: .scalar '{' :: (content ++ [.scalar '}']) = t.signature)
    (ht : Fits 0 0 t) :
    ∃ k v, content = signatures [.basic k, v] ∧ Fits 0 0 v := by
  cases ht with
  | @basic _ _ b =>
    rcases b with ⟨_ | _⟩ | _ <;> simp [signature, BasicType.code, BasicType.letter] at hsig
  | variant => simp [signature] at hsig
  | array ha he =>
    obtain ⟨p, rest, hhead, hp, -⟩ := he.signature_head
    simp only [signature, hhead, List.cons.injEq, true_and] at hsig
    exact absurd hsig.1.symm hp
  | @entries _ _ k v ha hs hv | @dict _ _ k v ha hs hv =>
    simp only [signature, List.cons.injEq, true_and, List.append_cancel_right_eq] at hsig
    refine ⟨k, v, ?_, hv.mono (Nat.zero_le 1) (Nat.zero_le 1)⟩
    rw [hsig]
    simp [signatures, signature]
  | struct hs hne hfs => simp [signature] at hsig

end Signature

namespace Container

variable {c : Container}

/-- What must be complete for the container to be opened: what it brackets, or what a variant holds.
A dict entry is complete as the element of an array. -/
def bracketed (c : Container) : Text :=
  match c.kind with
  | .variant => c.content
  | .dictEntry => .scalar 'a' :: c.signature
  | .array | .struct => c.signature

/-- The container brackets a complete type, which is short enough and none too deep. -/
def IsComplete (c : Container) : Prop :=
  c.bracketed.length ≤ maximumLength ∧ Complete maximumDepth maximumDepth c.bracketed

/-- **The containers that can be opened are those that bracket complete types.** -/
theorem isValid_iff : c.isValid = true ↔ c.IsComplete := by
  obtain ⟨kind, content⟩ := c
  cases kind <;> exact isSingle_iff_complete

/-- **The content of a container that can be opened is a row of complete types**, and its fields
are their signatures. -/
theorem fields_of_isValid (h : c.isValid = true) (hk : c.kind ≠ .array) :
    ∃ ts : List WireType, c.fields = .ok (ts.map WireType.signature) ∧
      ∀ t ∈ ts, t.isReduced = true := by
  obtain ⟨kind, content⟩ := c
  -- In each case the fields are complete types, and not longer than the content together.
  have close : ∀ ts : List WireType, content = signatures ts → content.length ≤ maximumLength →
      (∀ t ∈ ts, Fits 0 0 t) → split content = .ok (ts.map WireType.signature) ∧
        ∀ t ∈ ts, t.isReduced = true := by
    rintro ts rfl hlen hfit
    refine ⟨split_signatures hlen hfit, fun t ht => isReduced_iff.mpr ⟨?_, hfit t ht⟩⟩
    exact Nat.le_trans (signature_length_le ht) hlen
  cases kind with
  | array => exact absurd rfl hk
  | struct =>
    obtain ⟨hlen, t, hsig, hfit, -⟩ := isSingle_iff.mp h
    obtain ⟨fs, -, hcontent, hfs⟩ := content_of_parentheses hsig hfit
    simp only [Container.signature, List.length_cons, List.length_append] at hlen
    exact ⟨fs, close fs hcontent (by omega) hfs⟩
  | dictEntry =>
    obtain ⟨hlen, t, hsig, hfit, -⟩ := isSingle_iff.mp h
    obtain ⟨k, v, hcontent, hv⟩ := content_of_braces hsig hfit
    simp only [Container.signature, List.length_cons, List.length_append] at hlen
    exact ⟨[.basic k, v], close _ hcontent (by omega) (by simpa using ⟨Fits.basic, hv⟩)⟩
  | variant =>
    obtain ⟨hlen, t, hsig, hfit, -⟩ := isSingle_iff.mp h
    refine ⟨[t], ?_, by simpa using isReduced_iff.mpr ⟨hsig ▸ hlen, hfit⟩⟩
    simp only [Container.fields, List.map_cons, List.map_nil, ← hsig]

/-- A container that can be opened has fields. -/
theorem exists_fields (h : c.isValid = true) : ∃ fields, c.fields = .ok fields := by
  by_cases hk : c.kind = .array
  · exact ⟨[c.content], by simp [Container.fields, hk]⟩
  · obtain ⟨ts, hts, -⟩ := fields_of_isValid h hk
    exact ⟨_, hts⟩

/-- A container that brackets a reduced type, or a variant that holds one, is complete. -/
theorem isComplete_of_isReduced {t : WireType} (h : t.isReduced = true)
    (hc : c.bracketed = t.signature) : c.IsComplete := by
  rw [IsComplete, hc]
  exact isSingle_iff_complete.mp (isSingle_signature h)

end Container

end TypedBus
