import TypedBus.Proofs.Stream.Unpacked

/-!
# Streams that are passed on

A received stream is passed on by packing what has been unpacked. Under the code of doubles any
value may have arrived, and packing makes a double of it. Where that can be done nothing but the
limits of documents keeps the stream from being packed, and it arrives again with its envelope, its
descriptors and its items, except that doubles stand in the place of such values (`Item.Relayed`);
where it cannot, packing fails with a fault that is none of a transport
(`Stream.relayed_unless_noDouble`).
-/

namespace TypedBus

variable {v : Value}

/-! ## Doubles -/

namespace Value.IsJson

variable {D : Double → Prop}

/-- A value of a document that makes no double is refused for what it is. -/
theorem ends_toDouble (h : v.IsJson D) :
    Ends (fun f => f.kind ≠ .transport) (fun _ => True) v.toDouble := by
  have hinteger (n : Int) :
      Ends (fun f => f.kind ≠ .transport) (fun _ => True) (doubleOfInteger n) := by
    unfold doubleOfInteger
    split
    · trivial
    · exact nofun
  cases h with
  | null | list | dict => exact nofun
  | boolean b => exact hinteger _
  | integer n => exact hinteger n
  | double => trivial
  | text t =>
    change Ends _ _ (doubleFrom (.text t) (Numeral.ofText t))
    unfold doubleFrom
    split
    · trivial
    · exact (IsJson.text (D := D) t).ends_refuse nofun fun _ => nofun

theorem copied (h : v.IsJson D) : v.copied = .ok v := by
  induction h with
  | null | boolean | integer | double | text => simp [Value.copied]
  | list _ ih =>
    rw [Value.copied, copiedAll_of_copied ih]
    rfl
  | dict hkeys _ ih =>
    rw [Value.copied, copiedEntries_of_copied]
    · rfl
    · intro e he
      obtain ⟨t, ht⟩ := hkeys e he
      exact ⟨by rw [ht, copied_text], ih e he⟩

end Value.IsJson

namespace Double

variable {d : Double}

theorem isFinite_packed (d : Double) : d.packed.IsFinite := by
  unfold packed
  split_ifs with hd
  · exact .double hd
  all_goals exact .text _

/-- Unpacking leaves a value alone, or makes a double of the word for it. -/
theorem unpacked_cases (v : Value) :
    unpacked v = v ∨ ∃ d, unpacked v = .double d ∧ unpacked d.packed = .double d := by
  have hwords : ∀ w ∈ words, unpacked w.2.packed = .double w.2 :=
    List.forall_mem_cons.mpr ⟨rfl, List.forall_mem_cons.mpr
      ⟨rfl, List.forall_mem_singleton.mpr rfl⟩⟩
  rcases ht : v.text? with _ | t
  · exact .inl (by rw [unpacked, ht])
  rcases hw : words.find? fun w => Text.ofString w.1 = t with _ | w
  · exact .inl (by simp only [unpacked, ht, hw])
  · exact .inr ⟨w.2, by simp only [unpacked, ht, hw], hwords w (List.mem_of_find?_eq_some hw)⟩

/-- Where a document has given a double, packing and unpacking it gives it again. -/
theorem unpacked_packed_of_unpacked (h : v.IsFinite) (hd : unpacked v = .double d) :
    unpacked d.packed = .double d := by
  rcases unpacked_cases v with hv | ⟨d', hd', hpacked⟩
  · rw [hv] at hd
    subst hd
    cases h with
    | double hfinite =>
      rw [packed, if_pos hfinite]
      rfl
  · cases hd.symm.trans hd'
    exact hpacked

end Double

/-- What is made of an unpacked value where a double is due is a double, or is refused. -/
theorem Value.IsFinite.ends_toDouble (h : v.IsFinite) :
    Ends (fun f => f.kind ≠ .transport) (fun _ => True) (Double.unpacked v).toDouble := by
  rcases Double.unpacked_cases v with hv | ⟨d, hd, -⟩
  · rw [hv]
    exact IsJson.ends_toDouble h
  · rw [hd]
    trivial

/-! ## Items -/

namespace Item

variable {item : Item} {items : List Item}

/-- The second item is the first one passed on: the same, unless under the code of doubles there is
a value of another kind, which is given as the double that it makes. -/
inductive Relayed : Item → Item → Prop
  | same {item : Item} (h : ∀ v, item = .basic doubleCode v → ∃ d, v = .double d) :
      Relayed item item
  | made {v : Value} {d e : Double} (hv : ∀ d, v ≠ .double d) (hd : v.toDouble = .ok d)
      (he : e = d ∨ d.isNaN = true ∧ e.isNaN = true) :
      Relayed (.basic doubleCode v) (.basic doubleCode (.double e))

/-- The fault says why a value under the code of doubles makes none. -/
def NoDouble (items : List Item) (f : Fault) : Prop :=
  f.kind ≠ .transport ∧ ∃ v, .basic doubleCode v ∈ items ∧ v.toDouble = .error f

/-- An item that has been unpacked is packed, and is unpacked as it is passed on. -/
theorem Unpacks.ends_packed (h : Unpacks v item) (hv : v.IsFinite) (hmem : item ∈ items) :
    Ends (NoDouble items)
      (fun u => u.IsFinite ∧ ∃ item', Item.unpacked u = .ok item' ∧ Relayed item item')
      item.packed := by
  have hlist {vs : List Value} (h : ∀ v ∈ vs, v.IsFinite) : (Value.list none vs).IsFinite := .list h
  cases h with
  | @opening k content t htag hkind hcontent ht =>
    refine ⟨hlist ?_, _, unpacked_opening ⟨k, t⟩, .same nofun⟩
    simp [Value.IsJson.text]
  | closing htag =>
    exact ⟨hlist (List.forall_mem_singleton.mpr (.text _)), _, rfl, .same nofun⟩
  | @double w htag hw =>
    have hfinite : w.IsFinite := (hv.ends_part 1).of_ok hw
    rw [packed, if_pos rfl]
    rcases hd : (Double.unpacked w).toDouble with f | d
    · exact ⟨hfinite.ends_toDouble.of_error hd, _, hmem, hd⟩
    refine ⟨hlist ?_, _, unpacked_double, ?_⟩
    · exact List.forall_mem_cons.mpr ⟨.text _, List.forall_mem_singleton.mpr d.isFinite_packed⟩
    -- a double is given again, anything else as the double that has been made of it
    by_cases hdouble : ∃ e, Double.unpacked w = .double e
    · obtain ⟨e, he⟩ := hdouble
      rw [he] at hd
      cases hd
      rw [Double.unpacked_packed_of_unpacked hfinite he, he]
      exact .same fun v hv => ⟨d, by cases hv; rfl⟩
    · obtain ⟨-, e, he, hde⟩ := Double.unpacked_packed d 0
      rw [he]
      exact .made (fun e he => hdouble ⟨e, he⟩) hd hde
  | @basic p w htag hp hw =>
    have hfinite : w.IsFinite := (hv.ends_part 1).of_ok hw
    rw [packed, if_neg hp]
    refine ⟨hlist ?_, _, (Unpacks.basic rfl hp rfl).unpacked, .same ?_⟩
    · exact List.forall_mem_cons.mpr ⟨.text _, List.forall_mem_singleton.mpr hfinite⟩
    · intro v hv
      cases hv
      exact absurd rfl hp

/-- Every value under the code of doubles makes one. -/
def MakeDoubles (items : List Item) : Prop :=
  ∀ v, .basic doubleCode v ∈ items → ∃ d, v.toDouble = .ok d

theorem makeDoubles_of_packAll {us : List Value} (h : packAll items = .ok us) :
    MakeDoubles items := by
  intro v hv
  obtain ⟨u, -, hu⟩ := exists_of_forall₂ (mapM_eq_ok_iff.mp h) _ hv
  rw [packed, if_pos rfl] at hu
  obtain ⟨d, hd, -⟩ := bind_eq_ok.mp hu
  exact ⟨d, hd⟩

/-- Items that have been unpacked are packed, and are unpacked as they are passed on. -/
theorem ends_packAll {vs : List Value} (hvs : ∀ v ∈ vs, v.IsFinite)
    (h : List.Forall₂ Unpacks vs items) :
    Ends (NoDouble items)
      (fun us => (∀ u ∈ us, u.IsFinite) ∧
        ∃ items', us.mapM unpacked = .ok items' ∧ List.Forall₂ Relayed items items')
      (packAll items) := by
  have hends : ∀ item ∈ items, Ends (NoDouble items)
      (fun u => u.IsFinite ∧ ∃ item', unpacked u = .ok item' ∧ Relayed item item') item.packed := by
    intro item hitem
    obtain ⟨v, hv, hunpacks⟩ := exists_of_forall₂ h.flip item hitem
    exact hunpacks.ends_packed (hvs v hv) hitem
  refine (Ends.mapM hends).mono fun us _ hus => ⟨forall_of_forall₂ (fun _ _ h => h.1) hus, ?_⟩
  obtain ⟨items', hitems', hrelayed⟩ := exists_of_forall₂_exists (hus.imp fun _ _ h => h.2)
  exact ⟨items', mapM_eq_ok_iff.mpr hitems', hrelayed⟩

theorem Relayed.eq_iff {item' : Item} (h : Relayed item item') :
    item' = item ↔ ∀ v, .basic doubleCode v = item → ∃ d, v = .double d := by
  cases h with
  | same h => exact iff_of_true rfl fun v hv => h v hv.symm
  | @made v d e hv _ _ =>
    refine iff_of_false (fun h => ?_) fun h => ?_
    · cases h
      exact hv e rfl
    · obtain ⟨d, hd⟩ := h v rfl
      exact hv d hd

/-- Items are passed on as they are if all values under the code of doubles are doubles. -/
theorem eq_iff_of_relayed {items' : List Item} (h : List.Forall₂ Relayed items items') :
    items' = items ↔ ∀ v, .basic doubleCode v ∈ items → ∃ d, v = .double d := by
  induction h with
  | nil => exact iff_of_true rfl nofun
  | cons hitem _ ih =>
    simp only [List.cons_eq_cons, ih, hitem.eq_iff, List.mem_cons, or_imp, forall_and]

end Item

/-! ## Streams -/

namespace Stream

variable {es : List (Value × Value)} {s : Stream}

theorem isFinite_documentOf {e : Envelope} {us ds : List Value}
    (he : e.IsJson fun d => d.isFinite = true) (hus : ∀ u ∈ us, u.IsFinite)
    (hds : ∀ v ∈ ds, v.IsFinite) : (documentOf e us ds).IsFinite := by
  have henvelope : e.toValue.IsFinite :=
    .dict (List.forall_mem_map.mpr fun f _ => ⟨_, rfl⟩) (List.forall_mem_map.mpr he)
  refine .dict ?_ ?_
  · simp
  · simp only [List.forall_mem_cons]
    exact ⟨henvelope, .list hus, .list hds, List.forall_mem_nil _⟩

/-- A stream that has been unpacked is packed, and is unpacked as it is passed on. -/
theorem Unpacks.ends_pack (hes : (Value.dict es).IsFinite) (h : Unpacks es s) :
    Ends (fun f => f.kind = .transport ∧ Item.MakeDoubles s.items ∨ Item.NoDouble s.items f)
      (fun x => Item.MakeDoubles s.items ∧
        ∃ items, Stream.ofDocument x.toValue = .ok { s with items } ∧
          List.Forall₂ Item.Relayed s.items items)
      s.pack := by
  obtain ⟨hsealed, hcursor, henvelope, -, hdescriptors, vs, hvs, hitems⟩ := h
  cases hes with | dict hkeys hvalues => ?_
  have hmissing : (Value.dict []).IsFinite := .dict (List.forall_mem_nil _) (List.forall_mem_nil _)
  have he := ((Envelope.ends_ofValue (isJson_memberOr hvalues hmissing)).of_ok henvelope).1
  have hds := (ends_elements_memberOr "fds" hvalues).of_ok hdescriptors
  have hvs := (ends_elements_memberOr "items" hvalues).of_ok hvs
  rw [pack_of_copied fun f hf => (he f hf).copied]
  refine ((Item.ends_packAll hvs hitems).mono_fault fun _ => .inr).bind
    fun us hpacked hus => ?_
  obtain ⟨hus, items, hitems, hrelayed⟩ := hus
  have hdoubles := Item.makeDoubles_of_packAll hpacked
  split
  · rename_i x hx
    refine ⟨hdoubles, items, ?_, hrelayed⟩
    rw [Json.toValue_of_ofValueAt (isFinite_documentOf he hus hds) hx,
      ofDocument_documentOf hitems, eq_of_isSealed hsealed hcursor]
  · exact .inl ⟨rfl, hdoubles⟩

/-- **A received stream is passed on, unless what stands under the code of doubles makes no
double.** Packing fails for nothing but the limits of documents exactly if every value under that
code makes a double, and otherwise as making one of them does. What has been packed and is read
again is unpacked as the same stream, but that such values are given as the doubles that they make;
so nothing in the stream changes exactly if all of them are doubles. Bytes are read by any reader
whose documents hold finite numbers only. -/
theorem relayed_unless_noDouble {loads : List UInt8 → Except Fault Json}
    (hloads : ∀ bs x, loads bs = .ok x → x.IsFinite) {bs : List UInt8}
    (h : unpack (loads bs) = .ok s) :
    ((∀ f, s.pack = .error f → f.kind = .transport) ↔
      ∀ v, .basic Item.doubleCode v ∈ s.items → ∃ d, v.toDouble = .ok d) ∧
    (∀ f, s.pack = .error f → f.kind ≠ .transport →
      ∃ v, .basic Item.doubleCode v ∈ s.items ∧ v.toDouble = .error f) ∧
    ∀ x bs', s.pack = .ok x → loads bs' = .ok x →
      ∃ items, unpack (loads bs') = .ok { s with items } ∧
        List.Forall₂ Item.Relayed s.items items ∧
        (items = s.items ↔ ∀ v, .basic Item.doubleCode v ∈ s.items → ∃ d, v = .double d) := by
  obtain ⟨y, hy, hs⟩ := unpack_eq_ok_iff.mp h
  have hfinite := hloads bs y hy
  obtain ⟨es, hes, hunpacks⟩ := (ends_ofDocument hfinite).of_ok hs
  have hends := hunpacks.ends_pack (hes ▸ hfinite)
  refine ⟨⟨fun htransport => ?_, fun hdoubles f hf => ?_⟩, fun f hf hkind => ?_,
    fun x bs' hx hbs' => ?_⟩
  · rcases hpack : s.pack with f | x
    · rcases hends.of_error hpack with ⟨-, hdoubles⟩ | ⟨hkind, -⟩
      · exact hdoubles
      · exact absurd (htransport f hpack) hkind
    · exact (hends.of_ok hpack).1
  · rcases hends.of_error hf with ⟨hkind, -⟩ | ⟨-, v, hv, hnone⟩
    · exact hkind
    · obtain ⟨d, hd⟩ := hdoubles v hv
      cases hd.symm.trans hnone
  · exact ((hends.of_error hf).resolve_left fun h => hkind h.1).2
  · obtain ⟨-, items, hitems, hrelayed⟩ := hends.of_ok hx
    exact ⟨items, unpack_eq_ok_iff.mpr ⟨x, hbs', hitems⟩, hrelayed, Item.eq_iff_of_relayed hrelayed⟩

/-- The document of a stream with one item, a text under the code of doubles. -/
def textForDouble (t : Text) : Json :=
  .object [("items", .array [.array [.text Item.doubleCode, .text t]])]

/-- The word for an infinity is passed on. -/
theorem relayed_infinity :
    (∀ bs x, Json.readBytes bs = .ok x → x.IsFinite) ∧
      ∃ bs s, Json.readBytes bs = .ok (textForDouble "Infinity") ∧
        unpack (Json.readBytes bs) = .ok s ∧ (∀ f, s.pack = .error f → f.kind = .transport) ∧
        ∀ x bs', s.pack = .ok x → Json.readBytes bs' = .ok x →
          unpack (Json.readBytes bs') = .ok s := by
  have hreads (bs : List UInt8) (x : Json) (h : Json.readBytes bs = .ok x) : x.IsFinite :=
    Json.isFinite_of_readBytes h
  have hread : Json.readBytes (Json.bytesOf "\x7b\"items\":[[\"d\",\"Infinity\"]]\x7d") =
      .ok (textForDouble "Infinity") := by
    rw [Json.readBytes_bytesOf]
    cbv
  have hunpack : unpack (.ok (textForDouble "Infinity")) =
      .ok { items := [.basic Item.doubleCode (.double (.infinity false))], isSealed := true } :=
    rfl
  rw [← hread] at hunpack
  have hdouble (v : Value) (hv : Item.basic Item.doubleCode v ∈
      [Item.basic Item.doubleCode (.double (.infinity false))]) : ∃ d, v = .double d := by
    cases List.mem_singleton.mp hv
    exact ⟨_, rfl⟩
  obtain ⟨htransport, -, hrelayed⟩ := relayed_unless_noDouble hreads hunpack
  refine ⟨hreads, _, _, hread, hunpack, htransport.mpr fun v hv => ?_, fun x bs' hx hbs' => ?_⟩
  · obtain ⟨d, rfl⟩ := hdouble v hv
    exact ⟨d, rfl⟩
  · obtain ⟨items, hitems, -, hsame⟩ := hrelayed x bs' hx hbs'
    rwa [hsame.mpr hdouble] at hitems

/-- What has been unpacked is not always packed, or refused as a transport refuses it. -/
theorem not_relayed_always :
    ¬ ∀ bs s, unpack (Json.readBytes bs) = .ok s →
      ∀ f, s.pack = .error f → f.kind = .transport := by
  intro h
  have hread : Json.readBytes (Json.bytesOf "\x7b\"items\":[[\"d\",\"abc\"]]\x7d") =
      .ok (textForDouble "abc") := by
    rw [Json.readBytes_bytesOf]
    cbv
  have hunpack : unpack (.ok (textForDouble "abc")) =
      .ok { items := [.basic Item.doubleCode (.text "abc")], isSealed := true } :=
    rfl
  have hpack : pack { items := [.basic Item.doubleCode (.text "abc")], isSealed := true } =
      .error (.badDouble "'abc'") :=
    rfl
  rw [← hread] at hunpack
  cases h _ _ hunpack _ hpack

end Stream

end TypedBus
