import TypedBus.Proofs.Json.Documents
import TypedBus.Proofs.Stream.Packed
import TypedBus.Proofs.Value.Dict

/-!
# What is unpacked

Any value of a document may stand anywhere in one. Taking it for a row, for an item, for an envelope
or for a stream ends in one or in a fault that tells a malformed document (`Fault.IsMalformation`);
which items and streams are unpacked of which documents is said by `Item.Unpacks` and
`Stream.Unpacks`. So whatever bytes are unpacked, they are a packed stream or they are told to be
malformed (`Stream.unpack_exact`).
-/

namespace TypedBus

/-- The fault tells that a document is malformed. -/
def Fault.IsMalformation (f : Fault) : Prop := f.kind.isMalformation = true

/-- What a key has been set to stands among the entries. -/
theorem Value.mem_of_lookup? {key w : Value} : ∀ {es : List (Value × Value)},
    lookup? key es = some w → ∃ e ∈ es, e.2 = w
  | (k, v) :: es, h => by
    rw [lookup?] at h
    split at h
    · cases h
      exact ⟨_, List.mem_cons_self, rfl⟩
    · obtain ⟨e, he, hw⟩ := mem_of_lookup? h
      exact ⟨e, List.mem_cons_of_mem _ he, hw⟩

variable {D : Double → Prop} {v : Value}

/-! ## Parts -/

namespace Value.IsJson

variable {vs : List Value}

/-- A fault that shows the value is the one that is meant, or that the value is too long for it. -/
theorem ends_refuse {α : Type} {F : Fault → Prop} {A : α → Prop} {fault : Text → Fault}
    (h : v.IsJson D) (hlong : F .tooLongToShow) (hfault : ∀ t, F (fault t)) :
    Ends F A (v.refuse fault) := by
  have hdisplay : Ends F (fun _ => True) v.display :=
    (h.ends_display.mono_fault fun _ hf => hf.1 ▸ hlong).mono fun _ _ _ => trivial
  exact hdisplay.bind fun shown _ _ => hfault shown

/-- The elements of the value are values of documents. -/
theorem elements? (h : v.IsJson D) (hvs : v.elements? = some vs) : ∀ w ∈ vs, w.IsJson D := by
  cases h with
  | null | boolean | integer | double => cases hvs
  | text t =>
    cases hvs
    exact List.forall_mem_map.mpr fun p _ => .text [p]
  | list h =>
    cases hvs
    exact h
  | dict hkeys _ =>
    cases hvs
    refine List.forall_mem_map.mpr fun e he => ?_
    obtain ⟨t, ht⟩ := hkeys e he
    rw [ht]
    exact .text t

theorem ends_elements (h : v.IsJson D) :
    Ends Fault.IsMalformation (fun vs => ∀ w ∈ vs, w.IsJson D) v.elements := by
  rcases hvs : v.elements? with _ | vs
  · rw [elements, hvs]
    cases h with
    | null | boolean | integer | double => rfl
    | text | list | dict => cases hvs
  · rw [elements, hvs]
    exact h.elements? hvs

theorem ends_atPlace (row : RowKind) (h : ∀ v ∈ vs, v.IsJson D) (i : Nat) :
    Ends Fault.IsMalformation (IsJson D) (atPlace row vs i) := by
  unfold atPlace
  split
  · exact h _ (List.mem_of_getElem? ‹_›)
  · exact rfl

/-- The part of the value at a place is a value of a document. -/
theorem ends_part (h : v.IsJson D) (i : Nat) :
    Ends Fault.IsMalformation (IsJson D) (v.part i) := by
  cases h with
  | null | boolean | integer | double => exact rfl
  | text t => exact ends_atPlace .text (List.forall_mem_map.mpr fun p _ => .text [p]) i
  | list h => exact ends_atPlace .list h i
  | dict _ hvalues =>
    unfold part
    dsimp only
    split
    · obtain ⟨e, he, rfl⟩ := mem_of_lookup? ‹_›
      exact hvalues e he
    · exact rfl

end Value.IsJson

/-! ## Kinds -/

/-- A kind is made of nothing but its name. -/
theorem Kind.ends_ofValue (h : v.IsJson D) :
    Ends Fault.IsMalformation (fun k => v = .text (Text.ofString k.name)) (Kind.ofValue v) := by
  rw [Kind.ofValue, h.soleScalar, ok_bind]
  split
  · rename_i k hk
    obtain ⟨t, ht, hname⟩ := Option.bind_eq_some_iff.mp hk
    have hfound := List.find?_some (p := fun k : Kind => Text.ofString k.name = t) hname
    rw [← of_decide_eq_true hfound] at ht
    exact h.eq_text ht
  · exact h.ends_refuse rfl fun _ => rfl

/-- A kind of message is made of what equals its number. -/
theorem MessageType.ends_ofValue (h : v.IsJson D) :
    Ends Fault.IsMalformation (fun t => v.eq (.integer t.number) = true)
      (MessageType.ofValue v) := by
  rw [MessageType.ofValue, h.soleScalar, ok_bind]
  split
  · rename_i t ht
    exact List.find?_some (p := fun t : MessageType => v.eq (.integer t.number)) ht
  · exact h.ends_refuse rfl fun _ => rfl

/-! ## Items -/

namespace Item

/-- The value is an item packed: it bears the item's tag and, at the places after it, what the item
holds. -/
inductive Unpacks (v : Value) : Item → Prop
  | opening {k : Kind} {content : Value} {t : Text} (htag : v.part 0 = .ok (.text openTag))
      (hkind : v.part 1 = .ok (.text k.name)) (hcontent : v.part 2 = .ok content)
      (ht : content.plain = .ok t) : Unpacks v (.opening ⟨k, t⟩)
  | closing (htag : v.part 0 = .ok (.text closeTag)) : Unpacks v .closing
  | double {w : Value} (htag : v.part 0 = .ok (.text doubleCode)) (hw : v.part 1 = .ok w) :
      Unpacks v (.basic doubleCode (Double.unpacked w))
  | basic {p : CodePoint} {w : Value} (htag : v.part 0 = .ok (.text [p])) (hp : [p] ≠ doubleCode)
      (hw : v.part 1 = .ok w) : Unpacks v (.basic [p] w)

variable {item : Item}

/-- An item is unpacked, or the value is told to be malformed. -/
theorem ends_unpacked (h : v.IsJson D) :
    Ends Fault.IsMalformation (Unpacks v) (unpacked v) := by
  unfold unpacked
  refine (h.ends_part 0).bind fun tag htag hjson => ?_
  rw [hjson.soleScalar, ok_bind]
  rcases ht : tag.text? with _ | t
  · exact hjson.ends_refuse rfl fun _ => rfl
  obtain rfl := hjson.eq_text ht
  dsimp only
  -- the tag of an opening marker, of a closing one, the code of doubles, any other code
  split
  · subst t
    refine (h.ends_part 1).bind fun kind hkind hjson => ?_
    refine (Kind.ends_ofValue hjson).bind fun k _ hk => ?_
    subst hk
    refine (h.ends_part 2).bind fun content hcontent hjson => ?_
    refine (hjson.ends_plain.mono_fault fun _ hf => ?_).bind fun t ht _ =>
      .opening htag hkind hcontent ht
    rw [hf]
    rfl
  split
  · subst t
    exact .closing htag
  split
  · subst t
    exact (h.ends_part 1).bind fun w hw _ => .double htag hw
  split
  · obtain ⟨p, rfl⟩ := List.length_eq_one_iff.mp ‹t.length = 1›
    exact (h.ends_part 1).bind fun w hw _ => .basic htag ‹_› hw
  · exact hjson.ends_refuse rfl fun _ => rfl

/-- An item packed is unpacked. -/
theorem Unpacks.unpacked (h : Unpacks v item) : unpacked v = .ok item := by
  cases h with
  | @opening k content t htag hkind hcontent ht =>
    refine bind_eq_ok.mpr ⟨_, htag, bind_eq_ok.mpr ⟨_, rfl, ?_⟩⟩
    refine bind_eq_ok.mpr ⟨_, hkind, bind_eq_ok.mpr ⟨k, Kind.ofValue_name k, ?_⟩⟩
    exact bind_eq_ok.mpr ⟨content, hcontent, bind_eq_ok.mpr ⟨t, ht, rfl⟩⟩
  | closing htag => exact bind_eq_ok.mpr ⟨_, htag, bind_eq_ok.mpr ⟨_, rfl, rfl⟩⟩
  | double htag hw =>
    exact bind_eq_ok.mpr ⟨_, htag, bind_eq_ok.mpr ⟨_, rfl, bind_eq_ok.mpr ⟨_, hw, rfl⟩⟩⟩
  | @basic p w htag hp hw =>
    refine bind_eq_ok.mpr ⟨_, htag, bind_eq_ok.mpr ⟨_, rfl, ?_⟩⟩
    change (if [p] = openTag then _ else if [p] = closeTag then _
      else if [p] = doubleCode then _ else if [p].length = 1 then _ else _) = _
    have hopen : [p] ≠ openTag := ne_of_apply_ne List.length (by decide : 1 ≠ openTag.length)
    have hclose : [p] ≠ closeTag := ne_of_apply_ne List.length (by decide : 1 ≠ closeTag.length)
    rw [if_neg hopen, if_neg hclose, if_neg hp, if_pos (show [p].length = 1 from rfl)]
    exact bind_eq_ok.mpr ⟨w, hw, rfl⟩

end Item

/-! ## Envelopes -/

namespace Envelope

variable {e : Envelope} {es : List (Value × Value)}

/-- All fields of the envelope are values of documents. -/
def IsJson (D : Double → Prop) (e : Envelope) : Prop := ∀ f ∈ e.toFields, f.2.IsJson D

/-- The entries that a value gives an envelope: those of a dict, or pairs. -/
def entries (v : Value) : Except Fault (List (Value × Value)) :=
  match v with
  | .dict es => .ok es
  | v => do entriesFrom 0 [] (← v.elements)

/-- The value that entries give for the kind of a message. -/
def typeValue (es : List (Value × Value)) : Value :=
  (Value.lookup? (.text "type") es).getD (.integer 0)

theorem ofValue_eq (v : Value) : ofValue v = entries v >>= ofEntries := by
  cases v with
  | dict es => rfl
  | _ => exact (bind_assoc _ (entriesFrom 0 []) ofEntries).symm

/-- A field is set, or told to be none; the kind of message stays. -/
theorem ends_setField (he : e.IsJson D) (hv : v.IsJson D) (name : Text) :
    Ends Fault.IsMalformation (fun e' => e'.IsJson D ∧ e'.type = e.type) (e.setField name v) := by
  unfold setField
  refine .ite (fun _ => ⟨he, rfl⟩) fun _ => ?_
  simp only [IsJson, toFields, List.forall_mem_cons] at he
  -- one branch for every field but the kind
  iterate 9
    refine .ite (fun _ => ⟨?_, rfl⟩) fun _ => ?_
    · simp [IsJson, toFields, he, hv]
  exact .ite (fun _ => rfl) fun _ => rfl

theorem ends_fieldNames (hes : ∀ e ∈ es, e.1.IsJson D ∧ e.2.IsJson D) :
    Ends Fault.IsMalformation (fun fs => ∀ f ∈ fs, f.2.IsJson D) (fieldNames es) := by
  induction es with
  | nil => exact List.forall_mem_nil _
  | cons e es ih =>
    obtain ⟨⟨-, hv⟩, hes⟩ := List.forall_mem_cons.mp hes
    rw [fieldNames]
    split
    · exact (ih hes).bind fun fs _ hfs => List.forall_mem_cons.mpr ⟨hv, hfs⟩
    · exact rfl

theorem ends_ofEntries (hes : ∀ e ∈ es, e.1.IsJson D ∧ e.2.IsJson D) :
    Ends Fault.IsMalformation
      (fun e => e.IsJson D ∧ (typeValue es).eq (.integer e.type.number) = true)
      (ofEntries es) := by
  have htype : (typeValue es).IsJson D := by
    unfold typeValue
    rcases h : Value.lookup? (.text "type") es with _ | w
    · exact .integer 0
    · obtain ⟨e, he, rfl⟩ := Value.mem_of_lookup? h
      exact (hes e he).2
  refine (MessageType.ends_ofValue htype).bind fun type _ hnumber => ?_
  refine (ends_fieldNames hes).bind fun fs _ hfs => ?_
  refine (Ends.foldlM (B := fun e => e.IsJson D ∧ e.type = type) (fun f hf e he => ?_) ?_).mono ?_
  · refine (ends_setField he.1 (hfs f hf) f.1).mono fun e' _ he' => ⟨he'.1, he'.2.trans he.2⟩
  · refine ⟨?_, rfl⟩
    simp [IsJson, toFields, Value.IsJson.integer, Value.IsJson.null]
  · rintro e - ⟨he, rfl⟩
    exact ⟨he, hnumber⟩

theorem ends_entriesFrom {vs : List Value} (hvs : ∀ v ∈ vs, v.IsJson D) :
    ∀ {i : Nat} {es : List (Value × Value)}, (∀ e ∈ es, e.1.IsJson D ∧ e.2.IsJson D) →
      Ends Fault.IsMalformation (fun es => ∀ e ∈ es, e.1.IsJson D ∧ e.2.IsJson D)
        (entriesFrom i es vs) := by
  induction vs with
  | nil => exact fun hes => hes
  | cons v vs ih =>
    intro i es hes
    obtain ⟨hv, hvs⟩ := List.forall_mem_cons.mp hvs
    unfold entriesFrom
    split
    · exact rfl
    · rename_i a b hparts
      obtain ⟨ha, hb, -⟩ : a.IsJson D ∧ b.IsJson D ∧ _ := by
        simpa only [List.forall_mem_cons] using hv.elements? hparts
      unfold Value.insertKey
      split
      · exact rfl
      · exact ih hvs (Value.forall_insert hes ha hb)
    · exact rfl

theorem ends_entries (h : v.IsJson D) :
    Ends Fault.IsMalformation (fun es => ∀ e ∈ es, e.1.IsJson D ∧ e.2.IsJson D) (entries v) := by
  unfold entries
  split
  · cases h with
    | dict hkeys hvalues =>
      intro e he
      obtain ⟨t, ht⟩ := hkeys e he
      exact ⟨ht ▸ .text t, hvalues e he⟩
  · exact h.ends_elements.bind fun vs _ hvs => ends_entriesFrom hvs (List.forall_mem_nil _)

/-- An envelope is made of what a document gives for it, or that is told to be malformed. -/
theorem ends_ofValue (h : v.IsJson D) :
    Ends Fault.IsMalformation
      (fun e => e.IsJson D ∧ ∃ es, entries v = .ok es ∧
        (typeValue es).eq (.integer e.type.number) = true)
      (ofValue v) := by
  rw [ofValue_eq]
  refine (ends_entries h).bind fun es hes hjson => ?_
  exact (ends_ofEntries hjson).mono fun e _ he => ⟨he.1, es, hes, he.2⟩

end Envelope

/-! ## Streams -/

namespace Stream

variable {es : List (Value × Value)} {s : Stream}

/-- The entry of a document under a name, which may be missing. -/
def memberOr (name : String) (missing : Value) (es : List (Value × Value)) : Value :=
  (Value.lookup? (.text name) es).getD missing

/-- The stream is what the entries of a document say: sealed and at its start, with an envelope
whose kind is the one that the document numbers, and an item for every packed one, in order. -/
structure Unpacks (es : List (Value × Value)) (s : Stream) : Prop where
  isSealed : s.isSealed = true
  cursor : s.cursor = 0
  envelope : Envelope.ofValue (memberOr "envelope" (.dict []) es) = .ok s.envelope
  type : ∃ fields, Envelope.entries (memberOr "envelope" (.dict []) es) = .ok fields ∧
    (Envelope.typeValue fields).eq (.integer s.envelope.type.number) = true
  descriptors : (memberOr "fds" (.tuple []) es).elements = .ok s.descriptors
  items : ∃ vs, (memberOr "items" (.tuple []) es).elements = .ok vs ∧
    List.Forall₂ Item.Unpacks vs s.items

theorem isJson_memberOr {name : String} {missing : Value} (hes : ∀ e ∈ es, e.2.IsJson D)
    (hmissing : missing.IsJson D) : (memberOr name missing es).IsJson D := by
  unfold memberOr
  rcases h : Value.lookup? (.text name) es with _ | w
  · exact hmissing
  · obtain ⟨e, he, rfl⟩ := Value.mem_of_lookup? h
    exact hes e he

/-- A row that a document gives, empty if it is missing. -/
theorem ends_elements_memberOr (name : String) (hes : ∀ e ∈ es, e.2.IsJson D) :
    Ends Fault.IsMalformation (fun vs => ∀ w ∈ vs, w.IsJson D)
      (memberOr name (.tuple []) es).elements := by
  unfold memberOr
  rcases h : Value.lookup? (.text name) es with _ | w
  · exact List.forall_mem_nil _
  · obtain ⟨e, he, rfl⟩ := Value.mem_of_lookup? h
    exact (hes e he).ends_elements

theorem ofDocument_dict (es : List (Value × Value)) :
    ofDocument (.dict es) = (do
      let envelope ← Envelope.ofValue (memberOr "envelope" (.dict []) es)
      let descriptors ← (memberOr "fds" (.tuple []) es).elements
      let items ← Item.unpackAll (memberOr "items" (.tuple []) es)
      .ok { envelope, items, descriptors, isSealed := true }) :=
  rfl

/-- A stream is unpacked of a document, or that is told to be malformed. -/
theorem ends_ofDocument (h : v.IsJson D) :
    Ends Fault.IsMalformation (fun s => ∃ es, v = .dict es ∧ Unpacks es s) (ofDocument v) := by
  cases h with
  | null | boolean | integer | double | text | list => exact rfl
  | @dict es hkeys hvalues =>
    rw [ofDocument_dict]
    have henvelope : (memberOr "envelope" (.dict []) es).IsJson D :=
      isJson_memberOr hvalues (.dict (List.forall_mem_nil _) (List.forall_mem_nil _))
    refine (Envelope.ends_ofValue henvelope).bind fun envelope henvelope htype => ?_
    refine (ends_elements_memberOr "fds" hvalues).bind fun descriptors hdescriptors _ => ?_
    refine Ends.bind (A := fun items => ∃ vs,
      (memberOr "items" (.tuple []) es).elements = .ok vs ∧ List.Forall₂ Item.Unpacks vs items) ?_
      fun items _ hitems => ⟨es, rfl, rfl, rfl, henvelope, htype.2, hdescriptors, hitems⟩
    refine (ends_elements_memberOr "items" hvalues).bind fun vs hvs hjson => ?_
    exact (Ends.mapM fun w hw => Item.ends_unpacked (hjson w hw)).mono fun items _ hitems =>
      ⟨vs, hvs, hitems⟩

/-- A sealed stream at its start is told by its envelope, its items and its descriptors. -/
theorem eq_of_isSealed (hsealed : s.isSealed = true) (hcursor : s.cursor = 0)
    (items : List Item) :
    { envelope := s.envelope, items, descriptors := s.descriptors, isSealed := true } =
      { s with items } := by
  cases s
  cases hsealed
  cases hcursor
  rfl

/-- What the entries of a document say is unpacked of it. -/
theorem Unpacks.ofDocument (h : Unpacks es s) : ofDocument (.dict es) = .ok s := by
  obtain ⟨hsealed, hcursor, henvelope, -, hdescriptors, vs, hvs, hitems⟩ := h
  have hmap : vs.mapM Item.unpacked = .ok s.items :=
    mapM_eq_ok_iff.mpr (hitems.imp fun _ _ hitem => hitem.unpacked)
  rw [ofDocument_dict, henvelope, hdescriptors, Item.unpackAll, hvs]
  refine bind_eq_ok.mpr ⟨_, rfl, bind_eq_ok.mpr ⟨_, rfl, bind_eq_ok.mpr ⟨_, hmap, ?_⟩⟩⟩
  exact congrArg Except.ok (eq_of_isSealed hsealed hcursor s.items)

/-! ## Packed streams -/

theorem unpack_eq_ok_iff {x : Except Fault Json} :
    unpack x = .ok s ↔ ∃ y, x = .ok y ∧ ofDocument y.toValue = .ok s := by
  rw [← bind_eq_ok]
  unfold unpack
  split
  · rename_i s' hs'
    exact (Iff.of_eq (congrArg (· = .ok s) hs')).symm
  · rename_i f hf
    exact iff_of_false nofun fun h => nomatch hf.symm.trans h

/-- **Whatever bytes are unpacked, they are a packed stream or they are told to be malformed.** They
are read by any reader that answers with a document or tells that there is none. A stream is
unpacked where they hold a document whose entries say what it is. -/
theorem unpack_exact {loads : List UInt8 → Except Fault Json}
    (hloads : ∀ bs f, loads bs = .error f → f.kind = .jsonReading) (bs : List UInt8) :
    (∀ f, unpack (loads bs) = .error f →
      f.kind = .transport ∧ ∃ cause, f = .malformedPacked cause ∧ cause.IsMalformation) ∧
    ∀ s, unpack (loads bs) = .ok s ↔
      ∃ x es, loads bs = .ok x ∧ x.toValue = .dict es ∧ Unpacks es s := by
  have hends : Ends Fault.IsMalformation
      (fun s => ∃ x es, loads bs = .ok x ∧ x.toValue = .dict es ∧ Unpacks es s)
      (loads bs >>= fun x => ofDocument x.toValue) := by
    rcases hx : loads bs with f | x
    · have hkind : f.kind.isMalformation = true := by rw [hloads bs f hx]; rfl
      exact hkind
    · exact (ends_ofDocument x.isJson_toValue).mono fun s _ ⟨es, hes, hs⟩ => ⟨x, es, rfl, hes, hs⟩
  constructor
  · intro f hf
    unfold unpack at hf
    split at hf
    · cases hf
    · rename_i cause hcause
      have hmalformed : cause.kind.isMalformation = true := hends.of_error hcause
      rw [if_pos hmalformed] at hf
      cases hf
      exact ⟨rfl, cause, rfl, hmalformed⟩
  · intro s
    rw [unpack_eq_ok_iff]
    constructor
    · exact fun hs => hends.of_ok (bind_eq_ok.mpr hs)
    · rintro ⟨x, es, hx, hes, hs⟩
      exact ⟨x, hx, hes ▸ hs.ofDocument⟩

/-- A document with two items is unpacked as the stream of them, and an empty list is told to be
malformed. -/
theorem unpack_twoItems :
    (∀ bs f, Json.readBytes bs = .error f → f.kind = .jsonReading) ∧
    unpack (Json.readBytes (Json.bytesOf
        "\x7b\"items\":[[\"open\",\"array\",\"i\"],[\"close\"]]\x7d")) =
      .ok { items := [.opening ⟨.array, "i"⟩, .closing], isSealed := true } ∧
    ∃ f, unpack (Json.readBytes (Json.bytesOf "[]")) = .error f ∧ f.kind = .transport := by
  have hreads (bs : List UInt8) (f : Fault) (h : Json.readBytes bs = .error f) :
      f.kind = .jsonReading := Json.kind_of_readBytes h
  refine ⟨hreads, ((unpack_exact hreads _).2 _).mpr ?_, ?_⟩
  · have hread : Json.readBytes (Json.bytesOf
        "\x7b\"items\":[[\"open\",\"array\",\"i\"],[\"close\"]]\x7d") =
        .ok (.object [("items", .array [.array [.text "open", .text "array", .text "i"],
          .array [.text "close"]])]) := by
      rw [Json.readBytes_bytesOf]
      cbv
    refine ⟨_, _, hread, rfl, rfl, rfl, rfl, ⟨_, rfl, rfl⟩, rfl, _, rfl, ?_⟩
    exact .cons (.opening (k := .array) rfl rfl rfl rfl) (.cons (.closing rfl) .nil)
  · have hf : unpack (Json.readBytes (Json.bytesOf "[]")) =
        .error (.malformedPacked (.noMethod "list" "get")) := by
      rw [Json.readBytes_bytesOf]
      rfl
    exact ⟨_, hf, ((unpack_exact hreads _).1 _ hf).1⟩

end Stream

end TypedBus
