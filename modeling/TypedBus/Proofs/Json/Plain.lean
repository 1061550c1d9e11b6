import TypedBus.Json.Basic
import TypedBus.Proofs.Outcome

/-!
# Values that a document can hold

A document holds null, truth values, integers of 64 bits, finite doubles and texts without
surrogates, and lists and dicts of these (`Json.Carries`). Of a value that bears its type it holds
the plain value only (`Value.bare`, `Value.IsPlain.carries`).
-/

namespace TypedBus

/-- No surrogate stands in the text. -/
def Text.IsWhole (t : Text) : Prop := t.any CodePoint.isSurrogate = false

theorem Text.isWhole_ofString (s : String) : (Text.ofString s).IsWhole := by
  simp [Text.IsWhole, Text.ofString, CodePoint.isSurrogate]

@[simp] theorem Text.isWhole_nil : Text.IsWhole [] := rfl

@[simp] theorem Text.isWhole_cons {c : Char} {t : Text} :
    Text.IsWhole (.scalar c :: t) ↔ t.IsWhole := by
  simp [Text.IsWhole, CodePoint.isSurrogate]

@[simp] theorem Text.isWhole_append {s t : Text} :
    Text.IsWhole (s ++ t) ↔ s.IsWhole ∧ t.IsWhole := by
  simp only [Text.IsWhole, List.any_append, Bool.or_eq_false_iff]

namespace Json

/-- The document of the first value, a part of a document at a level, has the second one for its
value. -/
def Carries (level : Nat) (v w : Value) : Prop := ∃ x, ofValueAt level v = .ok x ∧ x.toValue = w

variable {level : Nat} {v w : Value} {vs ws : List Value} {es fs : List (Value × Value)}

theorem carries_double {d : Double} (h : d.isFinite = true) :
    Carries level (.double d) (.double d) :=
  ⟨.double d, by rw [ofValueAt, if_pos h], rfl⟩

theorem carries_text {t : Text} (h : t.IsWhole) : Carries level (.text t) (.text t) := by
  refine ⟨.text t, ?_, rfl⟩
  rw [ofValueAt, ofText, show t.any CodePoint.isSurrogate = false from h]
  rfl

/-- A document of a row of values, one by one. -/
theorem ofValuesAt_of_carries (h : List.Forall₂ (Carries level) vs ws) :
    ∃ xs, ofValuesAt level vs = .ok xs ∧ toValues xs = ws := by
  induction h with
  | nil => exact ⟨[], by rw [ofValuesAt], rfl⟩
  | cons hv _ ih =>
    obtain ⟨x, hx, rfl⟩ := hv
    obtain ⟨xs, hxs, rfl⟩ := ih
    exact ⟨x :: xs, by rw [ofValuesAt, hx, hxs]; rfl, rfl⟩

theorem carries_list {mark : Mark} (hlevel : level % 256 ≠ 255)
    (h : List.Forall₂ (Carries (level + 1)) vs ws) :
    Carries level (.list mark vs) (.list none ws) := by
  obtain ⟨xs, hxs, rfl⟩ := ofValuesAt_of_carries h
  refine ⟨.array xs, ?_, rfl⟩
  rw [ofValueAt, checkLevel, if_neg hlevel, hxs]
  rfl

/-- The document of an entry has the other one for its entry; its key is a text. -/
def CarriesEntry (level : Nat) (e f : Value × Value) : Prop :=
  ∃ t : Text, t.IsWhole ∧ e.1 = .text t ∧ f.1 = .text t ∧ Carries level e.2 f.2

theorem ofEntriesAt_of_carries (h : List.Forall₂ (CarriesEntry level) es fs) :
    ∃ ms, ofEntriesAt level es = .ok ms ∧ toEntries ms = fs := by
  induction h with
  | nil => exact ⟨[], by rw [ofEntriesAt], rfl⟩
  | @cons e f es fs he _ ih =>
    obtain ⟨k, v⟩ := e
    obtain ⟨k', w⟩ := f
    obtain ⟨t, ht, rfl, rfl, x, hx, rfl⟩ := he
    obtain ⟨ms, hms, rfl⟩ := ih
    have hname : nameOf (.text t) = .ok t := by
      rw [nameOf, show t.any CodePoint.isSurrogate = false from ht]
      rfl
    refine ⟨(t, x) :: ms, ?_, by rw [toEntries]⟩
    rw [ofEntriesAt, hname]
    simp only [bind, Except.bind, hx, hms]

/-- An entry without a document leaves the dict without one. -/
theorem ofEntriesAt_ne_ok {k : Value} {ms : List (Text × Json)}
    (hv : ∀ x, ofValueAt level v ≠ .ok x) (h : (k, v) ∈ es) : ofEntriesAt level es ≠ .ok ms := by
  induction es generalizing ms with
  | nil => exact absurd h List.not_mem_nil
  | cons e es ih =>
    obtain ⟨k', v'⟩ := e
    intro hms
    rw [ofEntriesAt] at hms
    obtain ⟨name, -, hms⟩ := bind_eq_ok.mp hms
    obtain ⟨x, hx, hms⟩ := bind_eq_ok.mp hms
    obtain ⟨ms', hms', -⟩ := bind_eq_ok.mp hms
    rcases List.mem_cons.mp h with heq | h
    · cases heq
      exact hv x hx
    · exact ih h hms'

theorem carries_dict (hlevel : level % 256 ≠ 255)
    (h : List.Forall₂ (CarriesEntry (level + 1)) es fs) : Carries level (.dict es) (.dict fs) := by
  obtain ⟨ms, hms, rfl⟩ := ofEntriesAt_of_carries h
  refine ⟨.object ms, ?_, rfl⟩
  rw [ofValueAt, checkLevel, if_neg hlevel, hms]
  rfl

end Json

namespace Value

/-- A value without parts that a document can hold: null, a truth value, an integer of 64 bits or a
text without surrogates, though it may bear its type. -/
inductive IsPlain : Value → Prop
  | null : IsPlain .null
  | boolean (b : Bool) : IsPlain (.boolean b)
  | integer {n : Int} (h : Json.Holds n) : IsPlain (.integer n)
  | fixed (w : IntWidth) {n : Int} (h : Json.Holds n) : IsPlain (.fixed w n)
  | handle {n : Int} (h : Json.Holds n) : IsPlain (.handle n)
  | text {t : Text} (h : t.IsWhole) : IsPlain (.text t)
  | path {t : Text} (h : t.IsWhole) : IsPlain (.path t)
  | signature {t : Text} (h : t.IsWhole) : IsPlain (.signature t)

/-- The value without the type that it bears. -/
def bare : Value → Value
  | fixed _ n | handle n => integer n
  | path t | signature t => text t
  | v => v

variable {v : Value} {level : Nat}

/-- A document holds the value without its type. -/
theorem IsPlain.carries (h : v.IsPlain) : Json.Carries level v v.bare := by
  cases h with
  | null => exact ⟨.null, rfl, rfl⟩
  | boolean b => exact ⟨.boolean b, rfl, rfl⟩
  | integer h | fixed _ h | handle h => exact ⟨.integer _, if_pos h, rfl⟩
  | text h => exact Json.carries_text h
  | @path t h | @signature t h =>
    obtain ⟨x, hx, hvalue⟩ : Json.Carries level (.text t) (.text t) := Json.carries_text h
    exact ⟨x, hx, hvalue⟩

/-- A value equals what is left of it without its type. -/
theorem IsPlain.eq_bare (h : v.IsPlain) : v.eq v.bare = true := by
  cases h <;> simp [bare, eq, eqWith, plainEq, number?, text?, Number.eqWith]

end Value

end TypedBus
