import TypedBus.Proofs.Wire.Complete

/-!
# Types told by their signatures

A signature does not tell a tuple from its fields, nor a dict from an array of dict entries. It
tells everything else: of two types without tuples and dicts (`WireType.Plain`), if the signature of
one begins a text and so does that of the other, the two are one type (`Plain.eq_of_append`). So a
type in which no tuple occurs is told by its signature but for the spelling of dicts
(`reduce_eq_of_signature`), and there is one way to put a text together of complete types
(`Plain.eq_of_signatures`).
-/

namespace TypedBus

namespace WireType

mutual

/-- A tuple occurs in the type. -/
def hasTuple : WireType → Bool
  | basic _ | variant => false
  | array e => hasTuple e
  | dict k v | entry k v => hasTuple k || hasTuple v
  | struct fs => anyHasTuple fs
  | tuple _ => true

/-- A tuple occurs in one of a row of types. -/
def anyHasTuple : List WireType → Bool
  | [] => false
  | t :: ts => hasTuple t || anyHasTuple ts

end

/-- Neither a tuple nor a dict occurs in the type. -/
inductive Plain : WireType → Prop
  | basic (b : BasicType) : Plain (.basic b)
  | variant : Plain .variant
  | array {e : WireType} (he : Plain e) : Plain (.array e)
  | entry {k v : WireType} (hk : Plain k) (hv : Plain v) : Plain (.entry k v)
  | struct {fs : List WireType} (hfs : ∀ f ∈ fs, Plain f) : Plain (.struct fs)

mutual

/-- What is left of a type without tuples when its dicts are spelt as arrays is plain. -/
theorem plain_reduce : ∀ {t : WireType}, t.hasTuple = false → Plain t.reduce
  | .basic b, _ => .basic b
  | .variant, _ => .variant
  | .array _, h => .array (plain_reduce h)
  | .dict _ _, h => by
    obtain ⟨hk, hv⟩ := Bool.or_eq_false_iff.mp h
    exact .array (.entry (plain_reduce hk) (plain_reduce hv))
  | .entry _ _, h => by
    obtain ⟨hk, hv⟩ := Bool.or_eq_false_iff.mp h
    exact .entry (plain_reduce hk) (plain_reduce hv)
  | .struct _, h => .struct (plain_reduceAll h)
  | .tuple _, h => nomatch h

theorem plain_reduceAll : ∀ {ts : List WireType}, anyHasTuple ts = false →
    ∀ t ∈ reduceAll ts, Plain t
  | [], _ => nofun
  | _ :: _, h => by
    obtain ⟨ht, hts⟩ := Bool.or_eq_false_iff.mp h
    exact List.forall_mem_cons.mpr ⟨plain_reduce ht, plain_reduceAll hts⟩

end

/-- A plain type is spelt as it is. -/
theorem Plain.reduce {t : WireType} (h : Plain t) : t.reduce = t := by
  induction h with
  | basic | variant => rfl
  | array _ ih => rw [WireType.reduce, ih]
  | entry _ _ ihk ihv => rw [WireType.reduce, ihk, ihv]
  | struct _ ih =>
    rw [WireType.reduce, reduceAll_eq_map, List.map_congr_left ih, List.map_id']

/-- No tuple fits anywhere. -/
theorem hasTuple_of_fits {t : WireType} {arrays structs : Nat}
    (h : Signature.Fits arrays structs t) : t.hasTuple = false := by
  have hrow : ∀ {fs : List WireType}, (∀ f ∈ fs, f.hasTuple = false) → anyHasTuple fs = false := by
    intro fs hfs
    induction fs with
    | nil => rfl
    | cons f fs ih =>
      obtain ⟨hf, hfs⟩ := List.forall_mem_cons.mp hfs
      rw [anyHasTuple, hf, ih hfs, Bool.or_false]
  induction h with
  | basic | variant => rfl
  | array _ _ ih => exact ih
  | entries _ _ _ ih | dict _ _ _ ih => exact ih
  | struct _ _ _ ih => exact hrow ih

/-- The first letter of a plain type is not a closing bracket. -/
theorem Plain.signature_head {t : WireType} (h : Plain t) :
    ∃ p rest, t.signature = p :: rest ∧ p ≠ .scalar ')' := by
  cases h with
  | basic b =>
    refine ⟨b.code, [], rfl, ?_⟩
    rcases b with ⟨_ | _⟩ | _ <;> decide
  | variant | array | entry | struct => exact ⟨_, _, rfl, by decide⟩

variable {t u : WireType} {ts us : List WireType} {rest rest' : Text}

/-- The letter of a basic type is that of nothing else. -/
theorem eq_basic_of_append {b : BasicType} (hu : Plain u)
    (h : b.code :: rest = u.signature ++ rest') : u = .basic b ∧ rest = rest' := by
  cases hu with
  | basic b' =>
    obtain ⟨hcode, rfl⟩ := List.cons.inj h
    have hb : some b = some b' := by rw [← BasicType.ofCode?_code b, hcode, BasicType.ofCode?_code]
    exact ⟨by rw [Option.some.inj hb], rfl⟩
  | variant | array | entry | struct =>
    refine absurd (List.cons.inj h).1 ?_
    rcases b with ⟨_ | _⟩ | _ <;> decide

/-- Two rows of fields, each up to its closing parenthesis, are one if their fields are told by
their signatures. -/
theorem signatures_inj
    (hts : ∀ t ∈ ts, Plain t ∧ ∀ u rest rest', Plain u →
      t.signature ++ rest = u.signature ++ rest' → t = u ∧ rest = rest') :
    ∀ {us rest rest'}, (∀ u ∈ us, Plain u) →
      signatures ts ++ .scalar ')' :: rest = signatures us ++ .scalar ')' :: rest' →
        ts = us ∧ rest = rest' := by
  induction ts with
  | nil =>
    intro us rest rest' hus h
    cases us with
    | nil => exact ⟨rfl, (List.cons.inj h).2⟩
    | cons u us =>
      obtain ⟨p, more, hsig, hp⟩ := (hus u (by simp)).signature_head
      rw [signatures, signatures, hsig] at h
      exact absurd (List.cons.inj h).1.symm hp
  | cons t ts ih =>
    intro us rest rest' hus h
    obtain ⟨⟨ht, htell⟩, hts⟩ := List.forall_mem_cons.mp hts
    cases us with
    | nil =>
      obtain ⟨p, more, hsig, hp⟩ := ht.signature_head
      rw [signatures, signatures, hsig] at h
      exact absurd (List.cons.inj h).1 hp
    | cons u us =>
      obtain ⟨hu, htail⟩ := List.forall_mem_cons.mp hus
      rw [signatures, signatures, List.append_assoc, List.append_assoc] at h
      obtain ⟨rfl, hmore⟩ := htell u _ _ hu h
      obtain ⟨rfl, rfl⟩ := ih hts htail hmore
      exact ⟨rfl, rfl⟩

/-- **A plain type is told by its signature**, whatever stands behind it. -/
theorem Plain.eq_of_append (ht : Plain t) :
    ∀ u rest rest', Plain u → t.signature ++ rest = u.signature ++ rest' →
      t = u ∧ rest = rest' := by
  induction ht with
  | basic b =>
    intro u rest rest' hu h
    obtain ⟨rfl, rfl⟩ := eq_basic_of_append hu h
    exact ⟨rfl, rfl⟩
  | variant =>
    intro u rest rest' hu h
    cases hu with
    | basic b => exact absurd (eq_basic_of_append .variant h.symm).1 nofun
    | variant => exact ⟨rfl, (List.cons.inj h).2⟩
    | array | entry | struct => simp [signature] at h
  | array _ ih =>
    intro u rest rest' hu h
    cases hu with
    | basic b => exact absurd (eq_basic_of_append (.array ‹_›) h.symm).1 nofun
    | array he =>
      obtain ⟨rfl, rfl⟩ := ih _ _ _ he (List.cons.inj h).2
      exact ⟨rfl, rfl⟩
    | variant | entry | struct => simp [signature] at h
  | entry hk hv ihk ihv =>
    intro u rest rest' hu h
    cases hu with
    | basic b => exact absurd (eq_basic_of_append (.entry hk hv) h.symm).1 nofun
    | entry hk' hv' =>
      simp only [signature, List.cons_append, List.append_assoc, List.cons.injEq, true_and] at h
      obtain ⟨rfl, hvalue⟩ := ihk _ _ _ hk' h
      obtain ⟨rfl, hbrace⟩ := ihv _ _ _ hv' hvalue
      exact ⟨rfl, (List.cons.inj hbrace).2⟩
    | variant | array | struct => simp [signature] at h
  | struct hfs ih =>
    intro u rest rest' hu h
    cases hu with
    | basic b => exact absurd (eq_basic_of_append (.struct hfs) h.symm).1 nofun
    | struct hgs =>
      simp only [signature, List.cons_append, List.append_assoc, List.cons.injEq, true_and] at h
      obtain ⟨rfl, rfl⟩ := signatures_inj (fun f hf => ⟨hfs f hf, ih f hf⟩) hgs h
      exact ⟨rfl, rfl⟩
    | variant | array | entry => simp [signature] at h

/-- A text is put together of plain types in one way. -/
theorem Plain.eq_of_signatures (hts : ∀ t ∈ ts, Plain t) (hus : ∀ u ∈ us, Plain u)
    (h : signatures ts = signatures us) : ts = us := by
  have htell := fun t ht => And.intro (hts t ht) (hts t ht).eq_of_append
  have hclosed : signatures ts ++ [.scalar ')'] = signatures us ++ [.scalar ')'] := by rw [h]
  exact (signatures_inj htell hus hclosed).1

/-- The text spells a plain type. -/
def Spelt (text : Text) : Prop := ∃ t : WireType, t.signature = text ∧ Plain t

theorem exists_plain_row {texts : List Text} (h : ∀ text ∈ texts, Spelt text) :
    ∃ us : List WireType, us.map signature = texts ∧ ∀ u ∈ us, Plain u := by
  induction texts with
  | nil => exact ⟨[], rfl, nofun⟩
  | cons text texts ih =>
    obtain ⟨⟨u, rfl, hu⟩, htexts⟩ := List.forall_mem_cons.mp h
    obtain ⟨us, rfl, hus⟩ := ih htexts
    exact ⟨u :: us, rfl, List.forall_mem_cons.mpr ⟨hu, hus⟩⟩

/-- There is one way to put a text together of spellings of plain types. -/
theorem eq_of_flatten {texts texts' : List Text} (h : ∀ text ∈ texts, Spelt text)
    (h' : ∀ text ∈ texts', Spelt text) (heq : texts.flatten = texts'.flatten) :
    texts = texts' := by
  obtain ⟨ts, rfl, hts⟩ := exists_plain_row h
  obtain ⟨us, rfl, hus⟩ := exists_plain_row h'
  rw [← List.flatMap_def, ← List.flatMap_def, ← signatures_eq_flatMap,
    ← signatures_eq_flatMap] at heq
  rw [Plain.eq_of_signatures hts hus heq]

/-- Behind the letter of an array stands what spells its elements. -/
theorem Spelt.ofArray (h : Spelt (.scalar 'a' :: rest)) : Spelt rest := by
  obtain ⟨t, hsig, ht⟩ := h
  cases ht with
  | @array e he => exact ⟨e, (List.cons.inj hsig).2, he⟩
  | basic b =>
    refine absurd (List.cons.inj hsig).1 ?_
    rcases b with ⟨_ | _⟩ | _ <;> decide
  | variant | entry | struct => simp [signature] at hsig

/-- **Of two types in which no tuple occurs, one signature makes one type**, but for the spelling
of dicts. -/
theorem reduce_eq_of_signature (ht : t.hasTuple = false) (hu : u.hasTuple = false)
    (h : t.signature = u.signature) : t.reduce = u.reduce := by
  rw [← signature_reduce t, ← signature_reduce u] at h
  exact ((plain_reduce ht).eq_of_append _ [] [] (plain_reduce hu) (by rw [h])).1

end WireType

end TypedBus
