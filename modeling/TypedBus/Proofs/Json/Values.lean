import TypedBus.Json.Basic
import TypedBus.Proofs.Value.Convert

/-!
# The values of JSON documents

The value of a document is null, a truth value, an integer, a double, a text, a list or a dict with
texts for its keys, and so is everything in it (`Value.IsJson`). Such a value can be shown unless an
integer in it has too many digits (`Value.IsJson.ends_display`). The only such values whose
conversion to an integer overflows are the two infinities (`Value.IsJson.isInfinity_of_overflow`),
for which a document has no number but some readers accept a name or a numeral.
-/

namespace TypedBus

namespace Value

/-- The value of a document, the doubles in which are all of some sort. -/
inductive IsJson (D : Double → Prop) : Value → Prop
  | null : IsJson D .null
  | boolean (b : Bool) : IsJson D (.boolean b)
  | integer (n : Int) : IsJson D (.integer n)
  | double {d : Double} (h : D d) : IsJson D (.double d)
  | text (t : Text) : IsJson D (.text t)
  | list {vs : List Value} (h : ∀ v ∈ vs, IsJson D v) : IsJson D (.list none vs)
  | dict {es : List (Value × Value)} (hkeys : ∀ e ∈ es, ∃ t, e.1 = .text t)
      (hvalues : ∀ e ∈ es, IsJson D e.2) : IsJson D (.dict es)

/-- The value of a document, all doubles in which are finite. -/
abbrev IsFinite (v : Value) : Prop := v.IsJson fun d => d.isFinite = true

end Value

namespace Json

variable {D : Double → Prop}

theorem isJson_array {xs : List Json} (h : ∀ x ∈ xs, x.toValue.IsJson D) :
    (array xs).toValue.IsJson D := by
  have hvalues : ∀ v ∈ toValues xs, v.IsJson D := by
    induction xs with
    | nil => exact List.forall_mem_nil _
    | cons x xs ih =>
      obtain ⟨hx, hxs⟩ := List.forall_mem_cons.mp h
      exact List.forall_mem_cons.mpr ⟨hx, ih hxs⟩
  exact .list hvalues

theorem isJson_object {ms : List (Text × Json)} (h : ∀ m ∈ ms, m.2.toValue.IsJson D) :
    (object ms).toValue.IsJson D := by
  have hentries : ∀ e ∈ toEntries ms, (∃ t, e.1 = .text t) ∧ e.2.IsJson D := by
    induction ms with
    | nil => exact List.forall_mem_nil _
    | cons m ms ih =>
      obtain ⟨hm, hms⟩ := List.forall_mem_cons.mp h
      exact List.forall_mem_cons.mpr ⟨⟨⟨m.1, rfl⟩, hm⟩, ih hms⟩
  exact .dict (fun e he => (hentries e he).1) fun e he => (hentries e he).2

mutual

/-- The value of any document is one of a document. -/
theorem isJson_toValue : ∀ x : Json, x.toValue.IsJson fun _ => True
  | .null => .null
  | .boolean b => .boolean b
  | .integer n => .integer n
  | .double _ => .double trivial
  | .text t => .text t
  | .array xs => isJson_array (isJson_elements xs)
  | .object ms => isJson_object (isJson_members ms)

theorem isJson_elements : ∀ xs : List Json, ∀ x ∈ xs, x.toValue.IsJson fun _ => True
  | [] => List.forall_mem_nil _
  | x :: xs => List.forall_mem_cons.mpr ⟨isJson_toValue x, isJson_elements xs⟩

theorem isJson_members : ∀ ms : List (Text × Json), ∀ m ∈ ms, m.2.toValue.IsJson fun _ => True
  | [] => List.forall_mem_nil _
  | (_, x) :: ms => List.forall_mem_cons.mpr ⟨isJson_toValue x, isJson_members ms⟩

end

end Json

/-! ## Showing -/

namespace Value

/-- Somewhere in the value of a document there is an integer with too many digits to be shown. -/
inductive HasLongInteger : Value → Prop
  | integer {n : Int} (h : Numeral.maximumDigits < Numeral.digitCount n) :
      HasLongInteger (.integer n)
  | element {vs : List Value} {v : Value} (hv : v ∈ vs) (h : HasLongInteger v) :
      HasLongInteger (.list none vs)
  | entry {es : List (Value × Value)} {e : Value × Value} (he : e ∈ es) (h : HasLongInteger e.2) :
      HasLongInteger (.dict es)

/-- The fault is that there is too long an integer in the value. -/
abbrev TooLong (v : Value) (f : Fault) : Prop := f = .tooLongToShow ∧ v.HasLongInteger

/-- What shows the value comes to a text, or to a fault if there is too long an integer in it. -/
abbrev ShownBy (v : Value) (x : Except Fault Text) : Prop :=
  Ends v.TooLong (fun _ => ¬ v.HasLongInteger) x

theorem shownBy_displayInteger (n : Int) : (Value.integer n).ShownBy (displayInteger n) := by
  unfold displayInteger
  refine .ite (fun h => ?_) fun h => ⟨rfl, .integer (Nat.lt_of_not_le h)⟩
  rintro ⟨hlong⟩
  exact absurd h (Nat.not_le_of_lt hlong)

theorem weight_le_weights {v : Value} : ∀ {vs : List Value}, v ∈ vs → v.weight ≤ weights vs
  | _ :: _, h => by
    rw [weights]
    rcases List.mem_cons.mp h with rfl | h
    · exact Nat.le_max_left _ _
    · exact Nat.le_trans (weight_le_weights h) (Nat.le_max_right _ _)

theorem weight_le_entryWeights {e : Value × Value} :
    ∀ {es : List (Value × Value)}, e ∈ es → e.1.weight ≤ entryWeights es ∧
      e.2.weight ≤ entryWeights es
  | (k, v) :: _, h => by
    rw [entryWeights]
    rcases List.mem_cons.mp h with rfl | h
    · dsimp only
      omega
    · have := weight_le_entryWeights h
      omega

end Value

namespace Value.IsJson

variable {D : Double → Prop} {v : Value}

/-- The value of a document is shown in as many steps as it weighs. -/
theorem ends_displayIn (h : v.IsJson D) :
    ∀ {n : Nat}, v.weight ≤ n → v.ShownBy (displayIn n v) := by
  induction h with
  | null | boolean | double | text =>
    rintro (_ | n) hn
    · cases hn
    · rw [displayIn]
      exact nofun
  | integer i =>
    rintro (_ | n) hn
    · cases hn
    · rw [displayIn]
      exact shownBy_displayInteger i
  | @list vs _ ih =>
    intro n hn
    rw [weight] at hn
    obtain ⟨n, rfl⟩ : ∃ n', n = n' + 1 := ⟨n - 1, by omega⟩
    rw [displayIn]
    have hparts : Ends (Value.list none vs).TooLong
        (List.Forall₂ (fun v _ => ¬ v.HasLongInteger) vs) (vs.mapM (displayIn n)) := by
      refine .mapM fun v hv => ?_
      have hweight := weight_le_weights hv
      exact (ih v hv (by omega)).mono_fault fun f ⟨hf, hlong⟩ => ⟨hf, .element hv hlong⟩
    refine hparts.bind fun parts _ hshort => ?_
    rintro (_ | ⟨hv, hlong⟩)
    obtain ⟨_, -, hshort⟩ := exists_of_forall₂ hshort _ hv
    exact hshort hlong
  | @dict es hkeys _ ih =>
    intro n hn
    rw [weight] at hn
    obtain ⟨n, rfl⟩ : ∃ n', n = n' + 1 := ⟨n - 1, by omega⟩
    rw [displayIn]
    have hparts : Ends (Value.dict es).TooLong
        (List.Forall₂ (fun e _ => ¬ e.2.HasLongInteger) es)
        (es.mapM fun e => do
          .ok (Text.concat [← displayIn n e.1, ": ", ← displayIn n e.2])) := by
      refine .mapM fun e he => ?_
      obtain ⟨t, ht⟩ := hkeys e he
      obtain ⟨hkey, hweight⟩ := weight_le_entryWeights he
      have hvalue : Ends (Value.dict es).TooLong (fun _ => ¬ e.2.HasLongInteger)
          (displayIn n e.2) :=
        (ih e he (by omega)).mono_fault fun _ ⟨hf, hlong⟩ => ⟨hf, .entry he hlong⟩
      simp only [ht, weight] at hkey
      obtain ⟨n, rfl⟩ : ∃ n', n = n' + 1 := ⟨n - 1, by omega⟩
      rw [ht, displayIn, ok_bind]
      exact hvalue.bind fun _ _ hshort => hshort
    refine hparts.bind fun parts _ hshort => ?_
    rintro (_ | _ | ⟨he, hlong⟩)
    obtain ⟨_, -, hshort⟩ := exists_of_forall₂ hshort _ he
    exact hshort hlong

/-- **The value of a document can be shown unless there is too long an integer in it.** -/
theorem ends_display (h : v.IsJson D) : v.ShownBy v.display := h.ends_displayIn (by omega)

/-- The same without quotes at the outermost level. -/
theorem ends_plain (h : v.IsJson D) : Ends (· = Fault.tooLongToShow) (fun _ => True) v.plain := by
  have hdisplay : Ends (· = Fault.tooLongToShow) (fun _ => True) v.display :=
    (h.ends_display.mono_fault fun _ hf => hf.1).mono fun _ _ _ => trivial
  cases h with
  | text t =>
    rw [Value.plain, plainIn]
    trivial
  | null | boolean | integer | double | list | dict => exact hdisplay

theorem soleScalar (h : v.IsJson D) : v.soleScalar = .ok v := by
  cases h <;> rfl

/-- Only a text has one. -/
theorem eq_text {t : Text} (h : v.IsJson D) (ht : v.text? = some t) : v = .text t := by
  cases h <;> cases ht
  rfl

/-- **Only an infinity overflows when the value of a document is converted to an integer.** -/
theorem isInfinity_of_overflow {f : Fault} (h : v.IsJson D) (hint : v.toInteger = .error f)
    (hf : f.kind = .range) : v.isInfinity = true := by
  cases h with
  | null | list | dict =>
    cases hint
    cases hf
  | boolean | integer => cases hint
  | double =>
    simp only [toInteger, withoutAxes, integerOfDouble] at hint
    split at hint
    · cases hint
      cases hf
    · split at hint
      · assumption
      · cases hint
  | text t =>
    simp only [toInteger, withoutAxes, integerFrom] at hint
    split at hint
    · cases hint
      cases hf
    · split at hint
      · cases hint
      · have hshown : (Value.text t).display = .ok t.quoted := rfl
        simp only [excerpt, hshown, ok_bind] at hint
        cases hint
        cases hf

end Value.IsJson

end TypedBus
