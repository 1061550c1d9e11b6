import TypedBus.Proofs.Value.Alike
import TypedBus.Proofs.Value.Spelling
import TypedBus.Proofs.Wire.Plain

/-!
# Values that are spelt anew

To copy a value as the type inferred from it is to spell it anew (`Value.Respelt`): plain integers
are given their width, and lists and variants are made again. A value that is spelt anew is equal to
what it was (`Respelt.eq`), has the same type (`Respelt.infer`), and, if it can serve as a key,
agrees with the same keys (`Respelt.sameKey`). So a dict loses no entries when its keys are spelt
anew (`distinct_of_sameKey`).

What is inferred is inferred part by part: no tuple occurs in it (`hasTuple_of_infer`), and the
elements of a list all have the type of its elements (`infer_of_common`).
-/

namespace TypedBus

namespace WireType

variable {t e : WireType} {ts : List WireType}

/-! ## The one type of a row -/

theorem mem_distinct : t ∈ distinct ts ↔ t ∈ ts := by
  have hfold : ∀ (ts seen : List WireType),
      t ∈ ts.foldl (fun seen t => if seen.contains t then seen else t :: seen) seen ↔
        t ∈ seen ∨ t ∈ ts := by
    intro ts
    induction ts with
    | nil => simp
    | cons u ts ih =>
      intro seen
      rw [List.foldl_cons, ih, List.mem_cons]
      split
      · rename_i hu
        have hu : u ∈ seen := List.contains_iff_mem.mp hu
        constructor
        · exact Or.imp_right .inr
        · rintro (h | rfl | h)
          · exact .inl h
          · exact .inl hu
          · exact .inr h
      · rw [List.mem_cons, or_assoc, or_left_comm]
  rw [distinct, List.mem_reverse, hfold]
  simp

/-- The one type of a row is in it, and is every type in it. -/
theorem of_common (h : common ts = .ok e) : e ∈ ts ∧ ∀ t ∈ ts, t = e := by
  unfold common at h
  split at h
  · cases h
  · rename_i u hu
    cases h
    refine ⟨mem_distinct.mp (by rw [hu]; exact List.mem_singleton_self e), fun t ht => ?_⟩
    have hmem : t ∈ distinct ts := mem_distinct.mpr ht
    rw [hu] at hmem
    exact List.mem_singleton.mp hmem
  · cases h

theorem anyHasTuple_eq_false : anyHasTuple ts = false ↔ ∀ t ∈ ts, t.hasTuple = false := by
  induction ts with
  | nil => simp [anyHasTuple]
  | cons t ts ih => rw [anyHasTuple, Bool.or_eq_false_iff, ih, List.forall_mem_cons]

end WireType

namespace Value

variable {v w a b : Value} {vs ws : List Value} {es fs : List (Value × Value)} {t e : WireType}
  {ts : List WireType}

/-! ## What is inferred -/

/-- Each type of a row is inferred from its value. -/
theorem forall₂_of_inferAll :
    ∀ {vs : List Value} {ts : List WireType}, inferAll vs = .ok ts →
      List.Forall₂ (fun v t => v.infer = .ok t) vs ts
  | [], _, h => by
    cases h
    exact .nil
  | v :: vs, _, h => by
    obtain ⟨t, ht, h⟩ := bind_eq_ok.mp h
    obtain ⟨ts, hts, h⟩ := bind_eq_ok.mp h
    cases h
    exact .cons ht (forall₂_of_inferAll hts)

theorem inferKeys_eq (es : List (Value × Value)) : inferKeys es = inferAll (es.map Prod.fst) := by
  induction es with
  | nil => rfl
  | cons e es ih => rw [inferKeys, List.map_cons, inferAll, ih]

theorem inferValues_eq (es : List (Value × Value)) :
    inferValues es = inferAll (es.map Prod.snd) := by
  induction es with
  | nil => rfl
  | cons e es ih => rw [inferValues, List.map_cons, inferAll, ih]

/-- Every value of a row that has one type has that type. -/
theorem infer_of_common (hts : inferAll vs = .ok ts) (he : WireType.common ts = .ok e) :
    ∀ v ∈ vs, v.infer = .ok e := by
  intro v hv
  obtain ⟨t, ht, hinfer⟩ := exists_of_forall₂ (forall₂_of_inferAll hts) v hv
  obtain rfl := (WireType.of_common he).2 t ht
  exact hinfer

theorem of_infer_list {m : Mark} (h : (list m vs).infer = .ok t) :
    ∃ ts e, inferAll vs = .ok ts ∧ WireType.common ts = .ok e ∧ t = .array e := by
  rw [infer] at h
  obtain ⟨ts, hts, h⟩ := bind_eq_ok.mp h
  obtain ⟨e, he, h⟩ := bind_eq_ok.mp h
  cases h
  exact ⟨ts, e, hts, he, rfl⟩

theorem of_infer_entry (h : (entry a b).infer = .ok t) :
    ∃ k x, a.infer = .ok k ∧ b.infer = .ok x ∧ t = .entry k x := by
  rw [infer] at h
  obtain ⟨k, hk, h⟩ := bind_eq_ok.mp h
  obtain ⟨x, hx, h⟩ := bind_eq_ok.mp h
  cases h
  exact ⟨k, x, hk, hx, rfl⟩

theorem of_infer_tuple (h : (tuple vs).infer = .ok t) :
    ∃ ts, inferAll vs = .ok ts ∧ t = .struct ts := by
  cases vs with
  | nil => cases h
  | cons v vs =>
    rw [infer] at h
    obtain ⟨t, ht, h⟩ := bind_eq_ok.mp h
    obtain ⟨ts, hts, h⟩ := bind_eq_ok.mp h
    cases h
    exact ⟨t :: ts, bind_eq_ok.mpr ⟨t, ht, bind_eq_ok.mpr ⟨ts, hts, rfl⟩⟩, rfl⟩

theorem of_infer_dict (h : (dict es).infer = .ok t) :
    ∃ ks xs k x, inferKeys es = .ok ks ∧ WireType.common ks = .ok k ∧
      inferValues es = .ok xs ∧ WireType.common xs = .ok x ∧ t = .dict k x := by
  rw [infer] at h
  obtain ⟨ks, hks, h⟩ := bind_eq_ok.mp h
  obtain ⟨k, hk, h⟩ := bind_eq_ok.mp h
  obtain ⟨xs, hxs, h⟩ := bind_eq_ok.mp h
  obtain ⟨x, hx, h⟩ := bind_eq_ok.mp h
  cases h
  exact ⟨ks, xs, k, x, hks, hk, hxs, hx, rfl⟩

/-- No tuple occurs in the types of a row if none occurs in what is inferred from its values. -/
theorem hasTuple_of_inferAll (hts : inferAll vs = .ok ts)
    (h : ∀ v ∈ vs, ∀ t, v.infer = .ok t → t.hasTuple = false) : ∀ t ∈ ts, t.hasTuple = false := by
  intro t ht
  obtain ⟨v, hv, hinfer⟩ := exists_of_forall₂ (forall₂_of_inferAll hts).flip t ht
  exact h v hv t hinfer

mutual

/-- **No tuple occurs in what is inferred.** -/
theorem hasTuple_of_infer : ∀ {v : Value} {t : WireType}, v.infer = .ok t → t.hasTuple = false
  | boolean _, _, h | fixed _ _, _, h | handle _, _, h | path _, _, h | signature _, _, h
  | variant _ _ _, _, h | integer _, _, h | double _, _, h | text _, _, h => by
    cases h
    rfl
  | null, _, h | bytes _, _, h | opening _, _, h | closing, _, h | thing _, _, h =>
    absurd h refuse_ne_ok
  | scalar s, _, h => by
    obtain ⟨b, rfl⟩ := WireType.exists_basic_of_wireType h
    rfl
  | grid g, _, h => by
    unfold infer at h
    split at h
    · obtain ⟨u, hu, h⟩ := bind_eq_ok.mp h
      obtain ⟨b, rfl⟩ := WireType.exists_basic_of_wireType hu
      cases h
      rfl
    · cases h
  | entry a b, _, h => by
    obtain ⟨k, x, hk, hx, rfl⟩ := of_infer_entry h
    exact Bool.or_eq_false_iff.mpr ⟨hasTuple_of_infer hk, hasTuple_of_infer hx⟩
  | tuple vs, _, h => by
    obtain ⟨ts, hts, rfl⟩ := of_infer_tuple h
    exact WireType.anyHasTuple_eq_false.mpr (hasTuple_of_inferAll hts (hasTuple_of_mem vs))
  | list _ vs, _, h => by
    obtain ⟨ts, e, hts, he, rfl⟩ := of_infer_list h
    exact hasTuple_of_inferAll hts (hasTuple_of_mem vs) e (WireType.of_common he).1
  | dict es, _, h => by
    obtain ⟨ks, xs, k, x, hks, hk, hxs, hx, rfl⟩ := of_infer_dict h
    rw [inferKeys_eq] at hks
    rw [inferValues_eq] at hxs
    have hkeys := hasTuple_of_inferAll hks
      (List.forall_mem_map.mpr fun e he => (hasTuple_of_mem_entries es e he).1)
    have hvalues := hasTuple_of_inferAll hxs
      (List.forall_mem_map.mpr fun e he => (hasTuple_of_mem_entries es e he).2)
    exact Bool.or_eq_false_iff.mpr
      ⟨hkeys k (WireType.of_common hk).1, hvalues x (WireType.of_common hx).1⟩

theorem hasTuple_of_mem :
    ∀ vs : List Value, ∀ v ∈ vs, ∀ t, v.infer = .ok t → t.hasTuple = false
  | [] => nofun
  | _ :: vs => List.forall_mem_cons.mpr ⟨fun _ => hasTuple_of_infer, hasTuple_of_mem vs⟩

theorem hasTuple_of_mem_entries : ∀ es : List (Value × Value), ∀ e ∈ es,
    (∀ t, e.1.infer = .ok t → t.hasTuple = false) ∧ ∀ t, e.2.infer = .ok t → t.hasTuple = false
  | [] => nofun
  | (_, _) :: es => List.forall_mem_cons.mpr
      ⟨⟨fun _ => hasTuple_of_infer, fun _ => hasTuple_of_infer⟩, hasTuple_of_mem_entries es⟩

end

/-! ## Spelling anew -/

/-- The second value is the first one spelt anew, as when it is copied as its inferred type. -/
inductive Respelt : Value → Value → Prop
  | same {v : Value} (h : v.eq v = true) : Respelt v v
  | integer {n : Int} : Respelt (.integer n) (.fixed .int32 n)
  | list {m : Mark} {vs ws : List Value} (hlen : vs.length = ws.length)
      (h : ∀ p ∈ vs.zip ws, Respelt p.1 p.2) : Respelt (.list m vs) (.list none ws)
  | tuple {vs ws : List Value} (hlen : vs.length = ws.length)
      (h : ∀ p ∈ vs.zip ws, Respelt p.1 p.2) : Respelt (.tuple vs) (.tuple ws)
  | entry {a b a' b' : Value} (ha : Respelt a a') (hb : Respelt b b') :
      Respelt (.entry a b) (.entry a' b')
  | dict {es fs : List (Value × Value)} (hlen : es.length = fs.length)
      (hk : ∀ p ∈ es.zip fs, Respelt p.1.1 p.2.1) (hx : ∀ p ∈ es.zip fs, Respelt p.1.2 p.2.2) :
      Respelt (.dict es) (.dict fs)
  | variant {m : Mark} {p q : Value} {o : Option WireType} (h : q.eq p = true) :
      Respelt (.variant m p o) (.variant none q o)

theorem respelt_list {m : Mark} (h : List.Forall₂ Respelt vs ws) :
    Respelt (.list m vs) (.list none ws) :=
  .list h.length_eq fun _ hp => (List.forall₂_iff_zip.mp h).2 hp

theorem respelt_tuple (h : List.Forall₂ Respelt vs ws) : Respelt (.tuple vs) (.tuple ws) :=
  .tuple h.length_eq fun _ hp => (List.forall₂_iff_zip.mp h).2 hp

theorem respelt_dict (h : List.Forall₂ (fun e f => Respelt e.1 f.1 ∧ Respelt e.2 f.2) es fs) :
    Respelt (.dict es) (.dict fs) :=
  .dict h.length_eq (fun _ hp => ((List.forall₂_iff_zip.mp h).2 hp).1)
    fun _ hp => ((List.forall₂_iff_zip.mp h).2 hp).2

/-! ### It is equal to what it was -/

theorem agree_of_eq (h : a.eq b = true) : agree a b = true := by rw [agree, h, Bool.or_true]

theorem eqAllWith_of_forall₂ (h : List.Forall₂ (fun v w => w.eq v = true) vs ws) :
    eqAllWith false ws vs = true := by
  induction h with
  | nil => rfl
  | cons hv _ ih =>
    rw [eqAllWith]
    exact Bool.and_eq_true_iff.mpr ⟨agree_of_eq hv, ih⟩

theorem eqEntriesWith_of_forall {gs : List (Value × Value)} :
    (∀ f ∈ fs, ∃ e ∈ gs, f.1.eq e.1 = true ∧ f.2.eq e.2 = true) →
      eqEntriesWith false fs gs = true := by
  induction fs with
  | nil => exact fun _ => by rw [eqEntriesWith]
  | cons f fs ih =>
    intro h
    obtain ⟨⟨e, he, hk, hx⟩, hfs⟩ := List.forall_mem_cons.mp h
    have hentry : (agree f.1 e.1 && agree f.2 e.2) = true :=
      Bool.and_eq_true_iff.mpr ⟨agree_of_eq hk, agree_of_eq hx⟩
    rw [eqEntriesWith]
    exact Bool.and_eq_true_iff.mpr ⟨List.any_eq_true.mpr ⟨e, he, hentry⟩, ih hfs⟩

/-- **What is spelt anew is equal to what it was.** -/
theorem Respelt.eq (h : Respelt v w) : w.eq v = true := by
  induction h with
  | same h => exact h
  | integer => simp [Value.eq, eqWith, plainEq, number?, Number.eqWith]
  | list hlen _ ih =>
    rw [Value.eq, eqWith]
    exact eqAllWith_of_forall₂ (List.forall₂_iff_zip.mpr ⟨hlen, fun hp => ih _ hp⟩)
  | tuple hlen _ ih =>
    rw [Value.eq, eqWith]
    exact eqAllWith_of_forall₂ (List.forall₂_iff_zip.mpr ⟨hlen, fun hp => ih _ hp⟩)
  | entry _ _ iha ihb =>
    rw [Value.eq, eqWith]
    exact Bool.and_eq_true_iff.mpr ⟨agree_of_eq iha, agree_of_eq ihb⟩
  | @dict es fs hlen _ _ ihk ihx =>
    have hentries : List.Forall₂ (fun e f => f.1.eq e.1 = true ∧ f.2.eq e.2 = true) es fs :=
      List.forall₂_iff_zip.mpr ⟨hlen, fun hp => ⟨ihk _ hp, ihx _ hp⟩⟩
    rw [Value.eq, eqWith]
    exact Bool.and_eq_true_iff.mpr
      ⟨beq_iff_eq.mpr hlen.symm, eqEntriesWith_of_forall (exists_of_forall₂ hentries.flip)⟩
  | variant h =>
    rw [Value.eq, eqWith]
    exact Bool.and_eq_true_iff.mpr ⟨beq_self_eq_true _, h⟩

/-! ### It has the same type -/

theorem inferAll_of_forall₂ (h : List.Forall₂ (fun v w => w.infer = v.infer) vs ws) :
    inferAll ws = inferAll vs := by
  induction h with
  | nil => rfl
  | cons hv _ ih => rw [inferAll, inferAll, hv, ih]

/-- **What is spelt anew has the type that it had.** -/
theorem Respelt.infer (h : Respelt v w) : w.infer = v.infer := by
  induction h with
  | same | integer | variant => rfl
  | list hlen _ ih =>
    rw [Value.infer, Value.infer,
      inferAll_of_forall₂ (List.forall₂_iff_zip.mpr ⟨hlen, fun hp => ih _ hp⟩)]
  | tuple hlen _ ih =>
    have hrow := List.forall₂_iff_zip.mpr ⟨hlen, fun {a b} (hp : (a, b) ∈ _) => ih _ hp⟩
    cases hrow with
    | nil => rfl
    | cons hv hvs => rw [Value.infer, Value.infer, hv, inferAll_of_forall₂ hvs]
  | entry _ _ iha ihb => rw [Value.infer, Value.infer, iha, ihb]
  | @dict es fs hlen _ _ ihk ihx =>
    have hkeys : List.Forall₂ (fun e f => f.1.infer = e.1.infer) es fs :=
      List.forall₂_iff_zip.mpr ⟨hlen, fun hp => ihk _ hp⟩
    have hvalues : List.Forall₂ (fun e f => f.2.infer = e.2.infer) es fs :=
      List.forall₂_iff_zip.mpr ⟨hlen, fun hp => ihx _ hp⟩
    have hks : inferAll (fs.map Prod.fst) = inferAll (es.map Prod.fst) :=
      inferAll_of_forall₂ (by simpa [List.forall₂_map_left_iff, List.forall₂_map_right_iff])
    have hxs : inferAll (fs.map Prod.snd) = inferAll (es.map Prod.snd) :=
      inferAll_of_forall₂ (by simpa [List.forall₂_map_left_iff, List.forall₂_map_right_iff])
    simp only [Value.infer, inferKeys_eq, inferValues_eq, hks, hxs]

/-! ### It agrees with the same keys -/

/-- As keys of a dict the two values stand for one another. -/
def SameKey (v w : Value) : Prop := ∀ u, agree w u = agree v u ∧ agree u w = agree u v

theorem SameKey.eqAllWith {vs ws : List Value} (h : List.Forall₂ SameKey vs ws) :
    ∀ us, eqAllWith false ws us = eqAllWith false vs us ∧
      eqAllWith false us ws = eqAllWith false us vs := by
  induction h with
  | nil => exact fun _ => ⟨rfl, rfl⟩
  | @cons v w vs ws hv _ ih =>
    rintro (_ | ⟨u, us⟩)
    · simp [Value.eqAllWith]
    · have hleft : (isSame w u || eqWith false w u) = (isSame v u || eqWith false v u) := (hv u).1
      have hright : (isSame u w || eqWith false u w) = (isSame u v || eqWith false u v) := (hv u).2
      rw [Value.eqAllWith, Value.eqAllWith, Value.eqAllWith, Value.eqAllWith, hleft, hright,
        (ih us).1, (ih us).2]
      exact ⟨rfl, rfl⟩

/-- A tuple or an entry is equal to what has elements equal to its own. -/
theorem eqWith_of_row {oneNaN : Bool} (h : a.row? = some vs) :
    eqWith oneNaN a b = b.row?.any (eqAllWith oneNaN vs) := by
  cases a with
  | tuple us =>
    cases h
    rw [eqWith]
    cases b.row? <;> rfl
  | entry k x =>
    cases h
    rw [eqWith]
    rcases b.row? with _ | (_ | ⟨k', _ | ⟨x', _ | ⟨y, ys⟩⟩⟩) <;> simp [eqAllWith]
  | _ => cases h

/-- Nothing else is equal to a tuple or an entry. -/
theorem eqWith_of_no_row {oneNaN : Bool} (ha : a.row? = none) (hb : b.row? = some vs) :
    eqWith oneNaN a b = false := by
  cases b with
  | tuple us | entry k x =>
    cases a with
    | tuple | entry => cases ha
    | scalar s => cases s <;> simp [eqWith, plainEq, number?]
    | _ => simp [eqWith, plainEq, number?, text?]
  | _ => cases hb

/-- Where the elements of two rows stand for one another, so do the rows. -/
theorem sameKey_of_rows (hv : v.row? = some vs) (hw : w.row? = some ws)
    (h : List.Forall₂ SameKey vs ws) : SameKey v w := by
  have hsame : ∀ {x y : Value} {us : List Value}, x.row? = some us →
      isSame x y = false ∧ isSame y x = false := by
    intro x y us hx
    cases x with
    | tuple | entry => exact ⟨rfl, by simp [isSame]⟩
    | _ => cases hx
  intro u
  simp only [agree, Value.eq, hsame hv, hsame hw, Bool.false_or]
  refine ⟨?_, ?_⟩
  · rw [eqWith_of_row hv, eqWith_of_row hw]
    exact congrArg (u.row?.any ·) (funext fun us => (SameKey.eqAllWith h us).1)
  · cases hu : u.row? with
    | none => rw [eqWith_of_no_row hu hv, eqWith_of_no_row hu hw]
    | some us =>
      rw [eqWith_of_row hu, eqWith_of_row hu, hv, hw]
      exact (SameKey.eqAllWith h us).2

theorem plainEq_of_number {oneNaN : Bool} {x : Number} (h : b.number? = some x) :
    plainEq oneNaN a b = a.number?.any (·.eqWith oneNaN x) := by
  unfold plainEq
  rw [h]
  cases a.number? <;> rfl

theorem sameKey_integer (n : Int) : SameKey (.integer n) (.fixed .int32 n) := by
  intro u
  have hplain : plainEq false u (.fixed .int32 n) = plainEq false u (.integer n) := by
    rw [plainEq_of_number rfl, plainEq_of_number rfl]
  refine ⟨rfl, ?_⟩
  cases u <;> simp [agree, isSame, Value.eq, eqWith, row?, hplain]

/-- **What is spelt anew is the same key**, if it can serve as one. -/
theorem Respelt.sameKey (h : Respelt v w) : w.unhashable? = none → SameKey v w := by
  induction h with
  | same => exact fun _ _ => ⟨rfl, rfl⟩
  | integer => exact fun _ => sameKey_integer _
  | list | dict | variant => exact nofun
  | @tuple vs ws hlen _ ih =>
    intro hw
    refine sameKey_of_rows rfl rfl (List.forall₂_iff_zip.mpr ⟨hlen, fun hp => ih _ hp ?_⟩)
    exact unhashableAmong?_eq_none.mp hw _ (List.of_mem_zip hp).2
  | entry _ _ iha ihb =>
    intro hw
    obtain ⟨ha, hb⟩ := Option.or_eq_none_iff.mp hw
    exact sameKey_of_rows rfl rfl (.cons (iha ha) (.cons (ihb hb) .nil))

/-- Keys that stand for the keys of a dict do not agree with one another either. -/
theorem distinct_of_sameKey (h : List.Forall₂ (fun e f => SameKey e.1 f.1) es fs) :
    Distinct es → Distinct fs := by
  induction h with
  | nil => exact fun _ => List.Pairwise.nil
  | @cons e f es fs hkey hrest ih =>
    intro hd
    obtain ⟨hnew, hd⟩ := List.pairwise_cons.mp hd
    refine List.pairwise_cons.mpr ⟨fun f' hf' => ?_, ih hd⟩
    obtain ⟨e', he', hkey'⟩ := exists_of_forall₂ hrest.flip f' hf'
    rw [(hkey f'.1).1, (hkey' e.1).2]
    exact hnew e' he'

end Value

end TypedBus
