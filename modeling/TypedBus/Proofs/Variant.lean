import TypedBus.Proofs.Message.Received
import TypedBus.Proofs.Value.Spelling
import TypedBus.Proofs.Wire.Plain
import TypedBus.Variant

/-!
# What a variant holds

A variant comes from a caller, who makes, sets or copies one, or lies in what is read from a message
(`Variant.Obtained`). Whatever its type, its payload is in the form of that type
(`Obtained.canonical`).

`Variant.payloadAs` gives the payload to everyone who asks for a type of the same signature. This
need not be the type that the variant holds: a signature does not tell a dict from an array of
entries, nor a tuple from what it holds. So the payload need not be a value of the type that was
asked for; `Obtained.trueTo_unless_spelt_otherwise` says when it is.
-/

namespace TypedBus

open Message WireType

/-! ## What is read -/

namespace Message

variable {m m' : Message} {c : Container} {unbox : Action Value}

theorem readable_of_run {u : Unit} (h : readable.run m = (.ok u, m')) : m.Readable := by
  unfold readable at h
  rw [Action.run_get_bind] at h
  split at h
  · simp at h
  · rename_i hv
    split at h
    · simp [Action.run_bind] at h
    · rename_i hs
      exact ⟨by simpa using hv, by simpa using hs⟩

theorem readable_of_enterContainer {u : Unit} (h : (enterContainer c).run m = (.ok u, m')) :
    m.Readable := by
  obtain ⟨_, _, hr, -⟩ := Action.run_bind_eq_ok.mp h
  exact readable_of_run hr

theorem readable_of_readBasic {code : Text} {v : Value}
    (h : (readBasic code).run m = (.ok v, m')) : m.Readable := by
  obtain ⟨_, _, hr, -⟩ := Action.run_bind_eq_ok.mp h
  exact readable_of_run hr

end Message

namespace WireType

variable {ρ : Registry} {unbox : Action Value} {m m' : Message} {t : WireType} {w : Value}

theorem readable_of_unboxing : ∀ {n : Nat}, (unboxing ρ n).run m = (.ok w, m') → m.Readable
  | 0, h => by simp [unboxing] at h
  | n + 1, h => by
    rw [unboxing, decodeBoxed, Action.run_get_bind] at h
    simp only at h
    split at h
    · split at h
      · simp at h
      · obtain ⟨_, _, henter, -⟩ := Action.run_bind_eq_ok.mp h
        exact readable_of_enterContainer henter
    · obtain ⟨_, _, henter, -⟩ := Action.run_bind_eq_ok.mp h
      exact readable_of_enterContainer henter

mutual

/-- From a message that cannot be read, a tuple of nothing can be, and what is put together of such
tuples; nothing changes then. -/
theorem canonical_of_unreadable (hm : ¬ m.Readable)
    (hunbox : ∀ {w m'}, unbox.run m = (.ok w, m') → m.Readable) :
    ∀ {t w m'}, (decodeWith unbox t).run m = (.ok w, m') → Canonical t w ∧ m = m'
  | .basic b, _, _, h => by
    rw [decodeWith, BasicType.decode] at h
    obtain ⟨_, _, hread, -⟩ := Action.run_bind_eq_ok.mp h
    exact absurd (readable_of_readBasic hread) hm
  | .variant, _, _, h => absurd (hunbox (by rwa [decodeWith] at h)) hm
  | .array _, _, _, h | .dict _ _, _, _, h | .entry _ _, _, _, h | .struct _, _, _, h => by
    rw [decodeWith] at h
    obtain ⟨_, _, henter, -⟩ := Action.run_bind_eq_ok.mp h
    exact absurd (readable_of_enterContainer henter) hm
  | .tuple fs, _, _, h => by
    rw [decodeWith] at h
    obtain ⟨vs, m₁, hvs, h⟩ := Action.run_bind_eq_ok.mp h
    rw [Action.run_pure, Prod.mk.injEq, Except.ok.injEq] at h
    obtain ⟨rfl, rfl⟩ := h
    obtain ⟨hrow, rfl⟩ := canonicalRow_of_unreadable hm hunbox hvs
    obtain ⟨hlen, hall⟩ := List.forall₂_iff_zip.mp hrow
    exact ⟨.tuple (Nat.le_of_eq hlen.symm) fun p hp => hall hp, rfl⟩

theorem canonicalRow_of_unreadable (hm : ¬ m.Readable)
    (hunbox : ∀ {w m'}, unbox.run m = (.ok w, m') → m.Readable) :
    ∀ {ts ws m'}, (decodeFields unbox ts).run m = (.ok ws, m') →
      List.Forall₂ Canonical ts ws ∧ m = m'
  | [], _, _, h => by
    obtain ⟨rfl, rfl⟩ := run_decodeFields_nil_eq_ok.mp h
    exact ⟨.nil, rfl⟩
  | t :: ts, _, _, h => by
    obtain ⟨w, ws, m₁, hw, hws, rfl⟩ := run_decodeFields_cons_eq_ok.mp h
    obtain ⟨hcanonical, rfl⟩ := canonical_of_unreadable hm hunbox hw
    obtain ⟨hrow, rfl⟩ := canonicalRow_of_unreadable hm hunbox hws
    exact ⟨.cons hcanonical hrow, rfl⟩

end

/-- **What is read is in the form of its type**, from whatever message. -/
theorem canonical_of_read {e : TypeExpr} (h : (Message.read ρ e).run m = (.ok w, m')) :
    ∃ t, e.canonical = .ok t ∧ Canonical t w := by
  rcases hv : m.isValid with _ | _
  · rw [Message.read, Action.run_ifValid_of_invalid hv] at h
    cases h
  · rw [Message.read, Action.run_ifValid hv] at h
    obtain ⟨t, m₁, hlift, h⟩ := Action.run_bind_eq_ok.mp h
    obtain ⟨ht, hsame⟩ := Action.run_lift_eq_ok.mp hlift
    rw [hsame] at h
    refine ⟨t, ht, ?_⟩
    by_cases hm : m.Readable
    · obtain ⟨_, _, _, _, hread⟩ := decode_sound hm h
      exact (List.forall₂_cons.mp hread.canonical).1
    · rw [run_decode hv] at h
      exact (canonical_of_unreadable hm readable_of_unboxing h).1

end WireType

/-- The variant is a part of a value, at whatever depth. -/
inductive Variant.In (x : Variant) : Value → Prop
  | self : In x x.toValue
  | element {m : Mark} {vs : List Value} {u : Value} (hu : u ∈ vs) (h : In x u) :
      In x (.list m vs)
  | field {vs : List Value} {u : Value} (hu : u ∈ vs) (h : In x u) : In x (.tuple vs)
  | dictKey {es : List (Value × Value)} {e : Value × Value} (he : e ∈ es) (h : In x e.1) :
      In x (.dict es)
  | dictValue {es : List (Value × Value)} {e : Value × Value} (he : e ∈ es) (h : In x e.2) :
      In x (.dict es)
  | entryKey {a b : Value} (h : In x a) : In x (.entry a b)
  | entryValue {a b : Value} (h : In x b) : In x (.entry a b)
  | payload {m : Mark} {p : Value} {t : Option WireType} (h : In x p) : In x (.variant m p t)

namespace Variant

variable {x y : Variant} {v w p : Value} {t u : WireType} {e : TypeExpr}

/-- The variant is empty, or its payload is in the form of its type. -/
def Formed (x : Variant) : Prop := Canonical .variant x.toValue

theorem exists_canonical_of_mem {fs : List WireType} {vs : List Value}
    (hlen : vs.length ≤ fs.length) (h : ∀ p ∈ fs.zip vs, Canonical p.1 p.2) (hv : v ∈ vs) :
    ∃ f, Canonical f v := by
  obtain ⟨i, hi, rfl⟩ := List.mem_iff_getElem.mp hv
  have hmem : (fs[i], vs[i]) ∈ fs.zip vs :=
    List.mem_iff_getElem.mpr ⟨i, by rw [List.length_zip]; omega, List.getElem_zip⟩
  exact ⟨_, h _ hmem⟩

/-- The variants in a value in the form of its type hold values in the form of theirs. -/
theorem In.formed (h : x.In w) : ∀ {t : WireType}, Canonical t w → x.Formed := by
  induction h with
  | self =>
    intro t hw
    obtain ⟨p, type, mark⟩ := x
    cases hw with
    | basic h => cases h
    | emptyVariant => exact .emptyVariant
    | variant hp => exact .variant hp
  | element hu _ ih =>
    intro t hw
    cases hw with
    | basic h => cases h
    | array hvs => exact ih (hvs _ hu)
  | field hu _ ih =>
    intro t hw
    cases hw with
    | basic h => cases h
    | struct hlen hvs | tuple hlen hvs =>
      obtain ⟨f, hf⟩ := exists_canonical_of_mem hlen hvs hu
      exact ih hf
  | dictKey he _ ih =>
    intro t hw
    cases hw with
    | basic h => cases h
    | dict _ _ hk _ => exact ih (hk _ he)
  | dictValue he _ ih =>
    intro t hw
    cases hw with
    | basic h => cases h
    | dict _ _ _ hx => exact ih (hx _ he)
  | entryKey _ ih =>
    intro t hw
    cases hw with
    | basic h => cases h
    | entry ha _ => exact ih ha
  | entryValue _ ih =>
    intro t hw
    cases hw with
    | basic h => cases h
    | entry _ hb => exact ih hb
  | payload hin ih =>
    intro t hw
    cases hw with
    | basic h => cases h
    | emptyVariant => nomatch hin
    | variant hp => exact ih hp

/-! ## Where variants come from -/

/-- The variant has been made or set by a caller, is a copy of one that has been, or lies in what
was read from a message. -/
inductive Obtained : Variant → Prop
  | make {v : Value} {e : Option TypeExpr} {x : Variant} (h : Variant.make v e = .ok x) : Obtained x
  | hold {v : Value} {e : Option TypeExpr} {x : Variant} (h : Variant.hold v e = .ok x) : Obtained x
  | copy {x y : Variant} (h : y.copy = .ok x) : Obtained x
  | read {ρ : Registry} {e : TypeExpr} {m m' : Message} {w : Value} {x : Variant}
      (h : (Message.read ρ e).run m = (.ok w, m')) (hx : x.In w) : Obtained x

theorem formed_empty : empty.Formed := .emptyVariant

theorem formed_of_copy (h : y.copy = .ok x) : x.Formed := by
  unfold copy at h
  split at h
  · cases h
    exact formed_empty
  · obtain ⟨p, hp, h⟩ := bind_eq_ok.mp h
    cases h
    exact .variant (canonical_of_copy hp)

theorem formed_of_hold {e : Option TypeExpr} (h : Variant.hold v e = .ok x) : x.Formed := by
  unfold Variant.hold at h
  split at h
  · exact formed_of_copy h
  · dsimp only at h
    split at h
    all_goals
      obtain ⟨t, -, h⟩ := bind_eq_ok.mp h
      obtain ⟨p, hp, h⟩ := bind_eq_ok.mp h
      cases h
      exact .variant (canonical_of_copy hp)

theorem formed_of_make {e : Option TypeExpr} (h : Variant.make v e = .ok x) : x.Formed := by
  unfold Variant.make at h
  split at h
  · cases h
    exact formed_empty
  · exact formed_of_hold h

theorem Obtained.formed (h : Obtained x) : x.Formed := by
  cases h with
  | make h => exact formed_of_make h
  | hold h => exact formed_of_hold h
  | copy h => exact formed_of_copy h
  | read h hx =>
    obtain ⟨t, -, hw⟩ := canonical_of_read h
    exact hx.formed hw

/-- **The payload of a variant is in the form of its type**; a variant without a type holds
nothing. -/
theorem Obtained.canonical (h : Obtained x) :
    (x.type = none → x.payload = .null) ∧ ∀ t, x.type = some t → Canonical t x.payload := by
  obtain ⟨p, type, mark⟩ := x
  have hformed : Canonical .variant (.variant mark p type) := h.formed
  cases hformed with
  | emptyVariant => exact ⟨fun _ => rfl, nofun⟩
  | variant hp => exact ⟨nofun, fun _ ht => Option.some.inj ht ▸ hp⟩

/-! ## Asking for the payload -/

theorem payloadAs_eq_ok :
    x.payloadAs e = .ok p ↔
      ∃ t, e.canonical = .ok t ∧ x.signature = t.signature ∧ p = x.payload := by
  unfold payloadAs
  constructor
  · intro h
    obtain ⟨t, ht, h⟩ := bind_eq_ok.mp h
    split at h
    · cases h
      exact ⟨t, ht, ‹_›, rfl⟩
    · cases h
  · rintro ⟨t, ht, hsig, rfl⟩
    exact bind_eq_ok.mpr ⟨t, ht, if_pos hsig⟩

/-- What the caller counts on who asks for the payload as one of a type: if he gets it, it is a
value of the type, which copying makes again out of it. -/
def TrueTo (x : Variant) (e : TypeExpr) : Prop :=
  ∀ p, x.payloadAs e = .ok p → ∃ t w, e.canonical = .ok t ∧ t.copy p = .ok w ∧ w.alike p = true

theorem trueTo_iff (he : e.canonical = .ok u) :
    x.TrueTo e ↔ (x.signature = u.signature →
      ∃ w, u.copy x.payload = .ok w ∧ w.alike x.payload = true) := by
  constructor
  · intro h hsig
    obtain ⟨t, w, ht, hw⟩ := h _ (payloadAs_eq_ok.mpr ⟨u, he, hsig, rfl⟩)
    obtain rfl : u = t := Except.ok.inj (he.symm.trans ht)
    exact ⟨w, hw⟩
  · intro h p hp
    obtain ⟨t, ht, hsig, rfl⟩ := payloadAs_eq_ok.mp hp
    obtain rfl : u = t := Except.ok.inj (he.symm.trans ht)
    obtain ⟨w, hw⟩ := h hsig
    exact ⟨u, w, he, hw⟩

/-- A copy as a tuple is a row, and like nothing but a row. -/
theorem not_copies_alike_of_row {fs : List WireType} (hp : p.row? = none)
    (hw : (tuple fs).copy p = .ok w) : w.alike p = false := by
  rw [copy_eq] at hw
  obtain ⟨_, _, _, _, rfl⟩ := copyWith_tuple_eq_ok.mp hw
  rw [Value.alike, Value.eqWith, hp]

theorem hold_some :
    Variant.hold v (some e) = (do
      let t ← e.canonical
      .ok { payload := ← t.copy v, type := some t }) := by
  cases v <;> rfl

/-- Every value in the form of its type is the payload of some variant. -/
theorem obtained_of_canonical (h : Canonical t p) : Obtained ⟨p, some t, none⟩ := by
  refine .hold (v := p) (e := some (.wire t)) ?_
  rw [hold_some]
  exact bind_eq_ok.mpr ⟨t, rfl, bind_eq_ok.mpr ⟨p, h.copy, rfl⟩⟩

theorem reduce_eq_of_isReduced (ht : t.isReduced = true) (hu : u.isReduced = true)
    (h : u.signature = t.signature) : u.reduce = t.reduce :=
  reduce_eq_of_signature (hasTuple_of_fits (isReduced_iff.mp hu).2)
    (hasTuple_of_fits (isReduced_iff.mp ht).2) h

/-- **What a variant gives is a value of the type that was asked for, unless the variant holds one
that is spelt otherwise.** Its payload is in the form of its own type, and is a value of every type
whose form it has, its own first of all. Where the two types differ in the spelling of dicts alone,
it is a value of no other; nor is what is no row a value of a tuple. Of reduced types, one is safe
to ask for on every variant of the other only if the two are one. -/
theorem Obtained.trueTo_unless_spelt_otherwise (hx : Obtained x) (he : e.canonical = .ok u) :
    (∀ t, x.type = some t → Canonical t x.payload) ∧
    (x.type = some u → x.payloadAs e = .ok x.payload ∧ x.TrueTo e) ∧
    (Canonical u x.payload → x.TrueTo e) ∧
    (∀ t, x.type = some t → u.reduce = t.reduce → (x.TrueTo e ↔ Canonical u x.payload)) ∧
    (∀ us, u = .tuple us → x.payload.row? = none → (x.TrueTo e ↔ x.signature ≠ u.signature)) ∧
    ∀ t, t.isReduced = true → u.isReduced = true → u.signature = t.signature →
      ((∀ y, Obtained y → y.type = some t → y.TrueTo e) ↔ u = t) := by
  have htrue : ∀ {y : Variant}, Canonical u y.payload → y.TrueTo e := fun hp =>
    (trueTo_iff he).mpr fun _ => ⟨_, hp.copy, Value.alike_self _⟩
  have halike : ∀ {y : Variant} {t : WireType}, Obtained y → y.type = some t →
      u.reduce = t.reduce → (y.TrueTo e ↔ Canonical u y.payload) := by
    intro y t hy ht hu
    have hsig : y.signature = u.signature := by
      rw [Variant.signature, ht]
      exact (signature_reduce t).symm.trans (hu ▸ signature_reduce u)
    rw [trueTo_iff he, ← copies_alike_iff (hy.canonical.2 t ht) hu]
    exact ⟨fun h => h hsig, fun h _ => h⟩
  refine ⟨hx.canonical.2, fun ht => ⟨?_, htrue (hx.canonical.2 u ht)⟩, htrue,
    fun t => halike hx, ?_, fun t ht hu hsig => ⟨fun h => ?_, ?_⟩⟩
  · refine payloadAs_eq_ok.mpr ⟨u, he, ?_, rfl⟩
    rw [Variant.signature, ht]
  · rintro us rfl hrow
    rw [trueTo_iff he]
    constructor
    · intro h hsig
      obtain ⟨w, hw, hlike⟩ := h hsig
      rw [not_copies_alike_of_row hrow hw] at hlike
      cases hlike
    · exact fun hsig h => absurd h hsig
  · -- a variant of every value in the form of the one type makes it one in the form of the other
    have hreduce := reduce_eq_of_isReduced ht hu hsig
    refine eq_of_covers (isReduced_iff.mp ht).2 hreduce fun p hp => ?_
    have hy : Obtained ⟨p, some t, none⟩ := obtained_of_canonical hp
    exact (halike hy rfl hreduce).mp (h _ hy rfl)
  · rintro rfl y hy hty
    exact htrue (hy.canonical.2 u hty)

/-- The type of dicts of integers by strings. -/
def ages : WireType := .dict .string .int32

/-- The type of arrays of entries that has the same signature. -/
def agePairs : WireType := .array (.entry .string .int32)

/-- A variant that holds a dict of one entry. -/
def oneAge : Variant := ⟨.dict [(.text "a", .fixed .int32 1)], some ages, none⟩

theorem obtained_oneAge : Obtained oneAge := by
  have hmake : Variant.make (.dict [(.text "a", .integer 1)]) (some (.wire ages)) = .ok oneAge :=
    rfl
  exact .make hmake

/-- The dict is given as what it is, and also as an array of entries, which it is not. -/
theorem trueTo_oneAge :
    oneAge.TrueTo (.wire ages) ∧ oneAge.payloadAs (.wire agePairs) = .ok oneAge.payload ∧
      ¬ oneAge.TrueTo (.wire agePairs) := by
  have hx := obtained_oneAge
  obtain ⟨-, hown, -⟩ := hx.trueTo_unless_spelt_otherwise (e := .wire ages) rfl
  obtain ⟨-, -, -, hspelt, -⟩ := hx.trueTo_unless_spelt_otherwise (e := .wire agePairs) rfl
  refine ⟨(hown rfl).2, rfl, fun h => ?_⟩
  cases (hspelt ages rfl rfl).mp h

/-- Not every variant that is obtained gives a value of the type that it was asked for. -/
theorem not_trueTo_always :
    ¬ ∀ (x : Variant) (e : TypeExpr), Obtained x → x.TrueTo e := fun h => by
  obtain ⟨t, w, ht, hw, hlike⟩ := h oneAge (.wire agePairs) obtained_oneAge _ rfl
  cases ht
  rw [copy_eq] at hw
  obtain ⟨_, _, _, _, rfl⟩ := copyWith_array_eq_ok.mp hw
  simp [Value.alike, Value.eqWith, oneAge] at hlike

end Variant

end TypedBus
