import TypedBus.Proofs.Json.Plain
import TypedBus.Stream.Packed

/-!
# Streams that arrive as they were sent

What is packed of a stream and unpacked again is the stream itself, sealed and at its start
(`Stream.unpack_pack`), as far as a document can tell: fields of the envelope that bear a type have
lost it, and all NaNs have become one. That holds of streams whose values a document can hold
(`Stream.Packable`).
-/

namespace TypedBus

/-! ## Doubles -/

namespace Double

variable {d : Double}

/-- A double that is neither finite nor a NaN is the infinity of its sign. -/
theorem eq_infinity (hf : d.isFinite = false) (hn : d.isNaN = false) :
    d = infinity d.isNegative := by
  obtain ⟨bits⟩ := d
  have hlt : bits.toNat < 2 ^ 64 := bits.toNat_lt
  have hexp : exponent ⟨bits⟩ = 2047 := by simpa [isFinite] using hf
  have hfrac : fraction ⟨bits⟩ = 0 := by simpa [isNaN, hexp] using hn
  simp only [exponent, fraction, fractions, exponents] at hexp hfrac
  rw [infinity, Double.mk.injEq, ← UInt64.toNat_inj, UInt64.toNat_ofNat']
  by_cases hs : sign ≤ bits.toNat
  · simp only [isNegative, signBit, hs, decide_true, if_true]
    simp only [sign, fractions, exponents] at hs ⊢
    omega
  · simp only [isNegative, signBit, hs, decide_false, Bool.false_eq_true, if_false]
    simp only [sign, fractions, exponents] at hs
    omega

/-- A document holds a packed double, which is unpacked as the same one; all NaNs become one. -/
theorem unpacked_packed (d : Double) (level : Nat) :
    Json.Carries level d.packed d.packed ∧
      ∃ e : Double, unpacked d.packed = .double e ∧ (e = d ∨ d.isNaN = true ∧ e.isNaN = true) := by
  have hword (s : String) :
      Json.Carries level (.text (Text.ofString s)) (.text (Text.ofString s)) :=
    Json.carries_text (Text.isWhole_ofString s)
  rcases hf : d.isFinite with _ | _
  · rcases hn : d.isNaN with _ | _
    · have hd := eq_infinity hf hn
      rcases hs : d.isNegative with _ | _ <;> rw [hs] at hd
      · have hpacked : d.packed = .text "Infinity" := by simp [packed, hf, hn, hs]
        rw [hpacked]
        exact ⟨hword _, .infinity false, rfl, .inl hd.symm⟩
      · have hpacked : d.packed = .text "-Infinity" := by simp [packed, hf, hn, hs]
        rw [hpacked]
        exact ⟨hword _, .infinity true, rfl, .inl hd.symm⟩
    · have hpacked : d.packed = .text "NaN" := by simp [packed, hf, hn]
      rw [hpacked]
      exact ⟨hword _, .markedNaN 1, rfl, .inr ⟨rfl, by decide⟩⟩
  · rw [packed, if_pos hf]
    exact ⟨Json.carries_double hf, d, rfl, .inl rfl⟩

end Double

/-! ## Envelopes -/

theorem Text.ofString_inj {s t : String} : Text.ofString s = Text.ofString t ↔ s = t := by
  unfold Text.ofString
  rw [List.map_inj_right fun _ _ => CodePoint.scalar.inj, String.toList_inj]

namespace Value

theorem agree_text (s t : Text) : agree (.text s) (.text t) = (s == t) := by
  simp [agree, isSame, eq, eqWith, plainEq, number?, text?]

theorem IsPlain.copied {v : Value} (h : v.IsPlain) : v.copied = .ok v := by
  cases h <;> rw [Value.copied] <;> nofun

/-- Values that are their own copies are copied as they are. -/
theorem copiedAll_of_copied : ∀ {vs : List Value}, (∀ v ∈ vs, v.copied = .ok v) →
    copiedAll vs = .ok vs
  | [], _ => by rw [copiedAll]
  | v :: vs, h => by
    obtain ⟨hv, hvs⟩ := List.forall_mem_cons.mp h
    rw [copiedAll, hv, copiedAll_of_copied hvs]
    rfl

/-- Entries whose keys and values are their own copies are copied as they are. -/
theorem copiedEntries_of_copied : ∀ {es : List (Value × Value)},
    (∀ e ∈ es, e.1.copied = .ok e.1 ∧ e.2.copied = .ok e.2) → copiedEntries es = .ok es
  | [], _ => by rw [copiedEntries]
  | (k, v) :: es, h => by
    obtain ⟨⟨hk, hv⟩, hes⟩ := List.forall_mem_cons.mp h
    rw [copiedEntries, hk, hv, copiedEntries_of_copied hes]
    rfl

theorem copied_text (t : Text) : (text t).copied = .ok (.text t) := by
  simp [copied]

end Value

namespace Envelope

variable {e : Envelope}

/-- An envelope whose fields a document can hold. -/
def IsPlain (e : Envelope) : Prop := ∀ f ∈ e.toFields, f.2.IsPlain

/-- The envelope with its fields without the types that they bear. -/
def bare (e : Envelope) : Envelope := Id.run (e.mapFields fun v => pure v.bare)

/-- **The dict of an envelope's fields makes the envelope.** -/
theorem ofValue_toValue (e : Envelope) : ofValue e.toValue = .ok e := by
  have htype : Value.lookup? (.text "type") (e.toFields.map fun f => (.text f.1, f.2)) =
      some (.integer e.type.number) := by
    rw [toFields, List.map_cons, Value.lookup?, Value.agree_text, if_pos (beq_self_eq_true _)]
  have hkind : MessageType.ofValue (.integer e.type.number) = .ok e.type := by
    cases e.type <;> rfl
  unfold toValue ofValue ofEntries
  simp only [htype, Option.getD_some, hkind]
  simp only [toFields, List.map_cons, List.map_nil, fieldNames, Value.text?, bind, Except.bind,
    List.foldlM_cons, List.foldlM_nil, setField, Text.ofString_inj, if_true, String.reduceEq,
    if_false]
  rfl

theorem toFields_bare (e : Envelope) : e.bare.toFields = e.toFields.map fun f => (f.1, f.2.bare) :=
  rfl

theorem copied_of_copied (h : ∀ f ∈ e.toFields, f.2.copied = .ok f.2) :
    e.copied = .ok e.toValue := by
  rw [Envelope.copied, toValue, Value.copied, Value.copiedEntries_of_copied]
  · rfl
  · exact List.forall_mem_map.mpr fun f hf => ⟨Value.copied_text _, h f hf⟩

/-- A document holds the envelope without the types of its fields. -/
theorem IsPlain.carries (h : e.IsPlain) {level : Nat} (hlevel : level % 256 ≠ 255) :
    Json.Carries level e.toValue e.bare.toValue := by
  refine Json.carries_dict hlevel ?_
  rw [toFields_bare, List.map_map, List.forall₂_map_left_iff, List.forall₂_map_right_iff,
    List.forall₂_same]
  exact fun f hf => ⟨_, Text.isWhole_ofString f.1, rfl, rfl, (h f hf).carries⟩

/-- The envelope equals what is left of it without the types of its fields. -/
theorem IsPlain.eq_bare (h : e.IsPlain) : e.eq e.bare = true := by
  have among : ∀ fs gs : List (String × Value), (∀ f ∈ fs, f ∈ gs ∧ f.2.IsPlain) →
      Value.eqEntriesWith false (fs.map fun f => (.text f.1, f.2))
        (gs.map fun f => (.text f.1, f.2.bare)) = true := by
    intro fs gs hfs
    induction fs with
    | nil => rw [List.map_nil, Value.eqEntriesWith]
    | cons f fs ih =>
      obtain ⟨⟨hmem, hf⟩, hrest⟩ := List.forall_mem_cons.mp hfs
      rw [List.map_cons, Value.eqEntriesWith, ih hrest, Bool.and_true, List.any_eq_true]
      refine ⟨_, List.mem_map_of_mem hmem, ?_⟩
      have hkey := Value.agree_text f.1 f.1
      have hval := hf.eq_bare
      simp only [Value.agree, Value.eq, beq_self_eq_true] at hkey hval
      simp only [hkey, hval, Bool.or_true, Bool.and_true]
  have hall := among e.toFields e.toFields fun f hf => ⟨hf, h f hf⟩
  unfold Envelope.eq Value.eq toValue
  rw [toFields_bare, List.map_map, Value.eqWith, List.length_map, List.length_map,
    beq_self_eq_true, Bool.true_and]
  exact hall

end Envelope

/-! ## Items -/

theorem Value.plain_text (t : Text) : (Value.text t).plain = .ok t := by
  rw [plain, plainIn]

theorem Kind.ofValue_name (k : Kind) : ofValue (.text (Text.ofString k.name)) = .ok k := by
  cases k <;> rfl

namespace Item

/-- A document can hold the item. A basic value is a double, or one of another type that does not
bear it. -/
inductive Packable : Item → Prop
  | basic {b : BasicType} {v : Value} (hb : b ≠ .double) (hv : v.IsPlain) (hbare : v.bare = v) :
      Packable (.basic [b.code] v)
  | double (d : Double) : Packable (.basic doubleCode (.double d))
  | opening {c : Container} (h : c.content.IsWhole) : Packable (.opening c)
  | closing : Packable .closing

/-- The items are one and the same, but that all NaNs are taken for one. -/
inductive Alike : Item → Item → Prop
  | same (item : Item) : Alike item item
  | nan (code : Text) {d e : Double} (hd : d.isNaN = true) (he : e.isNaN = true) :
      Alike (.basic code (.double d)) (.basic code (.double e))

variable {item : Item} {level : Nat}

/-- The code of a basic type is not the tag of a marker, nor is that of a type other than double the
code of doubles. -/
theorem code_ne (b : BasicType) :
    [b.code] ≠ openTag ∧ [b.code] ≠ closeTag ∧ (b ≠ .double → [b.code] ≠ doubleCode) := by
  rcases b with ⟨_ | _⟩ | _ <;> decide

theorem unpacked_basic {b : BasicType} {v : Value} (hb : b ≠ .double) :
    unpacked (.list none [.text [b.code], v]) = .ok (.basic [b.code] v) := by
  obtain ⟨hopen, hclose, hdouble⟩ := code_ne b
  change (if [b.code] = openTag then _ else if [b.code] = closeTag then _
    else if [b.code] = doubleCode then _ else _) = _
  rw [if_neg hopen, if_neg hclose, if_neg (hdouble hb)]
  rfl

theorem unpacked_double {v : Value} :
    unpacked (.list none [.text doubleCode, v]) = .ok (.basic doubleCode (Double.unpacked v)) :=
  rfl

theorem unpacked_opening (c : Container) :
    unpacked (.list none [.text openTag, .text c.kind.name, .text c.content]) =
      .ok (.opening c) := by
  change (do
    let kind ← Kind.ofValue (.text (Text.ofString c.kind.name))
    .ok (opening ⟨kind, ← (Value.text c.content).plain⟩)) = _
  rw [Kind.ofValue_name, Value.plain_text]
  rfl

/-- **An item that a document can hold is unpacked as one that is like it.** -/
theorem Packable.unpacked_packed (h : item.Packable) (hlevel : level % 256 ≠ 255) :
    ∃ v w item', item.packed = .ok v ∧ Json.Carries level v w ∧ unpacked w = .ok item' ∧
      item.Alike item' := by
  have hcode (b : BasicType) : Text.IsWhole [b.code] := rfl
  cases h with
  | @basic b v hb hv hbare =>
    refine ⟨.list none [.text [b.code], v], .list none [.text [b.code], v], _, ?_, ?_,
      unpacked_basic hb, .same _⟩
    · rw [packed, if_neg ((code_ne b).2.2 hb)]
    · have hcarries : Json.Carries (level + 1) v v.bare := hv.carries
      rw [hbare] at hcarries
      exact Json.carries_list hlevel (.cons (Json.carries_text (hcode b)) (.cons hcarries .nil))
  | double d =>
    obtain ⟨hcarries, e, he, hde⟩ := Double.unpacked_packed d (level + 1)
    refine ⟨.list none [.text doubleCode, d.packed], .list none [.text doubleCode, d.packed], _,
      ?_, ?_, unpacked_double, ?_⟩
    · rw [packed, if_pos rfl]
      rfl
    · exact Json.carries_list hlevel
        (.cons (Json.carries_text (hcode .double)) (.cons hcarries .nil))
    · rw [he]
      rcases hde with rfl | ⟨hd, he⟩
      · exact .same _
      · exact .nan _ hd he
  | @opening c hc =>
    refine ⟨_, _, _, rfl, ?_, unpacked_opening c, .same _⟩
    have hname : Json.Carries (level + 1) (.text c.kind.name) (.text c.kind.name) :=
      Json.carries_text (Text.isWhole_ofString c.kind.name)
    have htag : Json.Carries (level + 1) (.text openTag) (.text openTag) :=
      Json.carries_text (Text.isWhole_ofString "open")
    exact Json.carries_list hlevel (.cons htag (.cons hname (.cons (Json.carries_text hc) .nil)))
  | closing =>
    have htag : Json.Carries (level + 1) (.text closeTag) (.text closeTag) :=
      Json.carries_text (Text.isWhole_ofString "close")
    exact ⟨_, _, _, rfl, Json.carries_list hlevel (.cons htag .nil), rfl, .same _⟩

/-- A row of such items is unpacked as a row of ones that are like them. -/
theorem unpackAll_packAll (hlevel : level % 256 ≠ 255) :
    ∀ {items : List Item}, (∀ item ∈ items, item.Packable) →
      ∃ vs ws items', packAll items = .ok vs ∧ List.Forall₂ (Json.Carries level) vs ws ∧
        ws.mapM unpacked = .ok items' ∧ List.Forall₂ Alike items items'
  | [], _ => ⟨[], [], [], rfl, .nil, rfl, .nil⟩
  | item :: items, h => by
    obtain ⟨hitem, hitems⟩ := List.forall_mem_cons.mp h
    obtain ⟨v, w, item', hv, hw, hitem', halike⟩ := hitem.unpacked_packed hlevel
    obtain ⟨vs, ws, items', hvs, hws, hitems', halikes⟩ := unpackAll_packAll hlevel hitems
    refine ⟨v :: vs, w :: ws, item' :: items', ?_, .cons hw hws, ?_, .cons halike halikes⟩
    · rw [packAll] at hvs ⊢
      rw [List.mapM_cons, hv, hvs]
      rfl
    · rw [List.mapM_cons, hitem', hitems']
      rfl

end Item

/-! ## Streams -/

namespace Stream

/-- A document can hold the stream. -/
structure Packable (s : Stream) : Prop where
  envelope : s.envelope.IsPlain
  items : ∀ item ∈ s.items, item.Packable
  descriptors : ∀ v ∈ s.descriptors, v.IsPlain ∧ v.bare = v

/-- The second stream is the first one as it arrives: sealed and at its start, with items that are
like those of the first and with the same descriptors, in an equal envelope. -/
structure ArrivesAs (s s' : Stream) : Prop where
  isSealed : s'.isSealed = true
  cursor : s'.cursor = 0
  items : List.Forall₂ Item.Alike s.items s'.items
  descriptors : s'.descriptors = s.descriptors
  envelope : s.envelope.eq s'.envelope = true

variable {s : Stream}

/-- The document of an envelope, of packed items and of descriptors. -/
def documentOf (e : Envelope) (us ds : List Value) : Value :=
  .dict
    [(.text "envelope", e.toValue), (.text "items", .list none us), (.text "fds", .list none ds)]

/-- A stream whose envelope can be copied is packed once its items are. -/
theorem pack_of_copied (h : ∀ f ∈ s.envelope.toFields, f.2.copied = .ok f.2) :
    s.pack = (do
      let us ← Item.packAll s.items
      match Json.ofValue (documentOf s.envelope us s.descriptors) with
      | .ok x => .ok x
      | .error f => .error (.cannotPack f)) := by
  unfold pack
  rw [Envelope.copied_of_copied h]
  rfl

/-- The document of packed items is unpacked as the stream of the items. -/
theorem ofDocument_documentOf {e : Envelope} {us ds : List Value} {items : List Item}
    (h : us.mapM Item.unpacked = .ok items) :
    ofDocument (documentOf e us ds) =
      .ok { envelope := e, items, descriptors := ds, isSealed := true } := by
  simp only [documentOf, ofDocument, member, Value.lookup?, Value.agree_text, beq_iff_eq,
    Text.ofString_inj, String.reduceEq, if_true, if_false, Option.getD_some, bind, Except.bind,
    Envelope.ofValue_toValue, Value.elements, Value.elements?, Item.unpackAll, h]

/-- **A stream that a document can hold is packed, and is unpacked as it was.** -/
theorem unpack_pack (h : s.Packable) :
    ∃ x s', s.pack = .ok x ∧ unpack (.ok x) = .ok s' ∧ s.ArrivesAs s' := by
  have hlevel : 3 % 256 ≠ 255 := by decide
  obtain ⟨vs, ws, items, hvs, hws, hitems, halike⟩ := Item.unpackAll_packAll hlevel h.items
  -- The document of the three parts, and its value.
  have hdescriptors : List.Forall₂ (Json.Carries 3) s.descriptors s.descriptors := by
    rw [List.forall₂_same]
    intro v hv
    obtain ⟨hplain, hbare⟩ := h.descriptors v hv
    have hcarries : Json.Carries 3 v v.bare := hplain.carries
    rwa [hbare] at hcarries
  have hname (name : String) : (Text.ofString name).IsWhole := Text.isWhole_ofString name
  obtain ⟨x, hx, hvalue⟩ : Json.Carries 1 (documentOf s.envelope vs s.descriptors)
      (documentOf s.envelope.bare ws s.descriptors) :=
    Json.carries_dict (by decide) <|
      .cons ⟨_, hname _, rfl, rfl, h.envelope.carries (by decide)⟩ <|
      .cons ⟨_, hname _, rfl, rfl, Json.carries_list (by decide) hws⟩ <|
      .cons ⟨_, hname _, rfl, rfl, Json.carries_list (by decide) hdescriptors⟩ .nil
  refine ⟨x, { envelope := s.envelope.bare, items, descriptors := s.descriptors, isSealed := true },
    ?_, ?_, rfl, rfl, halike, rfl, h.envelope.eq_bare⟩
  · rw [pack_of_copied fun f hf => (h.envelope f hf).copied, hvs]
    simp only [Json.ofValue, hx, bind, Except.bind]
  · simp only [unpack, Except.bind, hvalue, ofDocument_documentOf hitems]

/-- A stream whose serial number is not one of 64 bits cannot be packed. -/
theorem pack_ne_ok {n : Int} {x : Json}
    (hcopied : ∀ f ∈ s.envelope.toFields, f.2.copied = .ok f.2)
    (hserial : s.envelope.serial = .integer n) (hn : ¬ Json.Holds n) : s.pack ≠ .ok x := by
  have hnone (level : Nat) : ∀ x, Json.ofValueAt level (.integer n) ≠ .ok x := by
    intro x hx
    rw [Json.ofValueAt, Json.ofInteger, if_neg hn] at hx
    cases hx
  have hmem : (.text "serial", .integer n) ∈ s.envelope.toFields.map fun f =>
      (Value.text (Text.ofString f.1), f.2) :=
    List.mem_map.mpr ⟨("serial", .integer n), by simp [Envelope.toFields, hserial], rfl⟩
  intro h
  rw [pack_of_copied hcopied] at h
  obtain ⟨vs, -, h⟩ := bind_eq_ok.mp h
  split at h
  · rename_i hx
    rw [documentOf, Json.ofValue, Json.ofValueAt] at hx
    obtain ⟨_, -, hx⟩ := bind_eq_ok.mp hx
    obtain ⟨ms, hms, -⟩ := bind_eq_ok.mp hx
    refine Json.ofEntriesAt_ne_ok (fun y hy => ?_) List.mem_cons_self hms
    rw [Envelope.toValue, Json.ofValueAt] at hy
    obtain ⟨_, -, hy⟩ := bind_eq_ok.mp hy
    obtain ⟨fields, hfields, -⟩ := bind_eq_ok.mp hy
    exact Json.ofEntriesAt_ne_ok (hnone 3) hmem hfields
  · cases h

end Stream

end TypedBus
