import TypedBus.Json.Reader
import TypedBus.Proofs.Json.Values
import TypedBus.Proofs.Outcome

/-!
# Documents that are written and read

A document that is written of the value of one has it for its value again
(`Json.toValue_of_ofValueAt`), if all doubles in it are finite. In documents that have been read
they are (`Json.isFinite_of_readBytes`).
-/

namespace TypedBus

/-! ## Writing -/

namespace Json

variable {level : Nat}

/-- Values that documents written of them have again, and so for a row of them. -/
theorem toValues_of_ofValuesAt {vs : List Value} {xs : List Json}
    (h : ∀ v ∈ vs, ∀ {level x}, ofValueAt level v = .ok x → x.toValue = v)
    (hxs : ofValuesAt level vs = .ok xs) : toValues xs = vs := by
  induction vs generalizing xs with
  | nil =>
    rw [ofValuesAt] at hxs
    cases hxs
    rfl
  | cons v vs ih =>
    obtain ⟨hv, hvs⟩ := List.forall_mem_cons.mp h
    rw [ofValuesAt] at hxs
    obtain ⟨x, hx, hxs⟩ := bind_eq_ok.mp hxs
    obtain ⟨ys, hys, hxs⟩ := bind_eq_ok.mp hxs
    cases hxs
    rw [toValues, hv hx, ih hvs hys]

theorem toEntries_of_ofEntriesAt {es : List (Value × Value)} {ms : List (Text × Json)}
    (hkeys : ∀ e ∈ es, ∃ t, e.1 = .text t)
    (h : ∀ e ∈ es, ∀ {level x}, ofValueAt level e.2 = .ok x → x.toValue = e.2)
    (hms : ofEntriesAt level es = .ok ms) : toEntries ms = es := by
  induction es generalizing ms with
  | nil =>
    rw [ofEntriesAt] at hms
    cases hms
    rfl
  | cons e es ih =>
    obtain ⟨k, v⟩ := e
    obtain ⟨⟨t, rfl⟩, hkeys'⟩ := List.forall_mem_cons.mp hkeys
    obtain ⟨hv, hes⟩ := List.forall_mem_cons.mp h
    rw [ofEntriesAt] at hms
    obtain ⟨name, hname, hms⟩ := bind_eq_ok.mp hms
    obtain ⟨x, hx, hms⟩ := bind_eq_ok.mp hms
    obtain ⟨ys, hys, hms⟩ := bind_eq_ok.mp hms
    cases hms
    obtain rfl : t = name := by
      rw [nameOf] at hname
      split at hname <;> cases hname
      rfl
    rw [toEntries, hv hx, ih hkeys' hes hys]

/-- **A document that is written of the value of one has that value again**, if its numbers are all
finite. -/
theorem toValue_of_ofValueAt {x : Json} {v : Value} (h : v.IsFinite)
    (hx : ofValueAt level v = .ok x) : x.toValue = v := by
  induction h generalizing level x with
  | null | boolean =>
    cases hx
    rfl
  | integer n =>
    unfold ofValueAt ofInteger at hx
    split at hx <;> cases hx
    rfl
  | double hd =>
    rw [ofValueAt, if_pos hd] at hx
    cases hx
    rfl
  | text t =>
    unfold ofValueAt ofText at hx
    split at hx <;> cases hx
    rfl
  | list _ ih =>
    rw [ofValueAt] at hx
    obtain ⟨_, -, hx⟩ := bind_eq_ok.mp hx
    obtain ⟨xs, hxs, hx⟩ := bind_eq_ok.mp hx
    cases hx
    rw [toValue, toValues_of_ofValuesAt (fun v hv => ih v hv) hxs]
  | dict hkeys _ ih =>
    rw [ofValueAt] at hx
    obtain ⟨_, -, hx⟩ := bind_eq_ok.mp hx
    obtain ⟨ms, hms, hx⟩ := bind_eq_ok.mp hx
    cases hx
    rw [toValue, toEntries_of_ofEntriesAt hkeys (fun e he => ih e he) hms]

end Json

/-! ## Reading -/

namespace Json

variable {x : Json} {cs rest : List Char}

/-- All numbers in the document are finite. -/
abbrev IsFinite (x : Json) : Prop := x.toValue.IsFinite

theorem isFinite_of_numberOf? {negative : Bool} {whole fraction : List Char}
    {exponent : Option Int} (h : numberOf? .strict negative whole fraction exponent = some x) :
    x.IsFinite := by
  unfold numberOf? at h
  dsimp only at h
  split at h
  · cases h
    exact .integer _
  split at h
  · cases h
    rename_i hfinite
    exact .double (hfinite.resolve_left (by decide))
  · cases h

theorem isFinite_of_readNumber (h : readNumber .strict cs = some (x, rest)) : x.IsFinite := by
  obtain ⟨whole, -, h⟩ := Option.bind_eq_some_iff.mp h
  obtain ⟨fraction, -, h⟩ := Option.bind_eq_some_iff.mp h
  obtain ⟨exponent, -, h⟩ := Option.bind_eq_some_iff.mp h
  obtain ⟨y, hy, h⟩ := Option.bind_eq_some_iff.mp h
  cases h
  exact isFinite_of_numberOf? hy

theorem isFinite_of_setMember (name : Text) {ms : List (Text × Json)} (hx : x.IsFinite)
    (h : ∀ m ∈ ms, m.2.IsFinite) : ∀ m ∈ setMember name x ms, m.2.IsFinite := by
  induction ms with
  | nil => exact List.forall_mem_singleton.mpr hx
  | cons m ms ih =>
    obtain ⟨hm, hms⟩ := List.forall_mem_cons.mp h
    rw [setMember]
    split
    · exact List.forall_mem_cons.mpr ⟨hx, hms⟩
    · exact List.forall_mem_cons.mpr ⟨hm, ih hms⟩

mutual

/-- The numbers of a document that has been read are finite. -/
theorem isFinite_of_readAt : ∀ {n depth : Nat} {cs rest : List Char} {x : Json},
    readAt .strict n depth cs = some (x, rest) → x.IsFinite
  | 0, _, _, _, _, h => by cases h
  | n + 1, depth, cs, rest, x, h => by
    unfold readAt at h
    split at h
    · cases h
      exact .null
    · cases h
      exact .boolean true
    · cases h
      exact .boolean false
    · obtain ⟨⟨t, cs⟩, -, h⟩ := Option.map_eq_some_iff.mp h
      cases h
      exact .text t
    · split at h
      · split at h
        · cases h
          exact isJson_array (List.forall_mem_nil _)
        · obtain ⟨⟨xs, cs⟩, hxs, h⟩ := Option.map_eq_some_iff.mp h
          cases h
          exact isJson_array (isFinite_of_readElements hxs)
      · cases h
    · split at h
      · split at h
        · cases h
          exact isJson_object (List.forall_mem_nil _)
        · obtain ⟨⟨ms, cs⟩, hms, h⟩ := Option.map_eq_some_iff.mp h
          cases h
          exact isJson_object (isFinite_of_readMembers (List.forall_mem_nil _) hms)
      · cases h
    · exact isFinite_of_readNumber h

theorem isFinite_of_readElements : ∀ {n depth : Nat} {cs rest : List Char} {xs : List Json},
    readElements .strict n depth cs = some (xs, rest) → ∀ x ∈ xs, x.IsFinite
  | 0, _, _, _, _, h => by cases h
  | n + 1, depth, cs, rest, xs, h => by
    unfold readElements at h
    obtain ⟨⟨x, cs⟩, hx, h⟩ := Option.bind_eq_some_iff.mp h
    dsimp only at h
    split at h
    · obtain ⟨⟨ys, cs⟩, hys, h⟩ := Option.bind_eq_some_iff.mp h
      cases h
      exact List.forall_mem_cons.mpr ⟨isFinite_of_readAt hx, isFinite_of_readElements hys⟩
    · cases h
      exact List.forall_mem_singleton.mpr (isFinite_of_readAt hx)
    · cases h

theorem isFinite_of_readMembers : ∀ {n depth : Nat} {cs rest : List Char}
    {ms ms' : List (Text × Json)}, (∀ m ∈ ms, m.2.IsFinite) →
      readMembers .strict n depth ms cs = some (ms', rest) → ∀ m ∈ ms', m.2.IsFinite
  | 0, _, _, _, _, _, _, h => by cases h
  | n + 1, depth, cs, rest, ms, ms', hms, h => by
    unfold readMembers at h
    split at h
    · obtain ⟨⟨name, cs⟩, -, h⟩ := Option.bind_eq_some_iff.mp h
      dsimp only at h
      split at h
      · obtain ⟨⟨x, cs⟩, hx, h⟩ := Option.bind_eq_some_iff.mp h
        have hset := isFinite_of_setMember name (isFinite_of_readAt hx) hms
        dsimp only at h
        split at h
        · exact isFinite_of_readMembers hset h
        · cases h
          exact hset
        · cases h
      · cases h
    · cases h

end

theorem isFinite_of_readChars (h : readChars cs = .ok x) : x.IsFinite := by
  unfold readChars readIn at h
  split at h
  · rename_i y rest hy
    split at h
    · cases h
      exact isFinite_of_readAt hy
    · cases h
  · cases h

/-- **The numbers of a document that has been read are all finite.** -/
theorem isFinite_of_readBytes {bs : List UInt8} (h : readBytes bs = .ok x) : x.IsFinite := by
  unfold readBytes at h
  split at h
  · exact isFinite_of_readChars h
  · cases h

/-- Bytes that are read as no document are told to be none. -/
theorem kind_of_readBytes {bs : List UInt8} {f : Fault} (h : readBytes bs = .error f) :
    f.kind = .jsonReading := by
  unfold readBytes readChars readIn at h
  split at h
  · split at h
    · split at h <;> cases h
      rfl
    · cases h
      rfl
  · cases h
    rfl

/-- The bytes of a text in UTF-8. -/
def bytesOf (s : String) : List UInt8 := s.toByteArray.data.toList

theorem readBytes_bytesOf (s : String) : readBytes (bytesOf s) = readChars s.toList := by
  unfold readBytes String.fromUTF8? bytesOf
  rw [Array.toArray_toList, dif_pos s.isValidUTF8]
  rfl

end Json

end TypedBus
