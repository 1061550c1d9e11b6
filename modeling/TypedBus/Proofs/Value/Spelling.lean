import TypedBus.Proofs.Value.Alike
import TypedBus.Proofs.Value.Canonical
import TypedBus.Proofs.Wire.Complete

/-!
# Values under two spellings of a type

One signature announces a dict and an array of entries, and the values of the two differ: a dict
does not equal the list of its entries. So a value in the form of a type need not be one of another
type of the same signature. Of types that differ in the spelling of dicts alone
(`t.reduce = u.reduce`):

* `copies_alike_iff`: copying a value in the form of one as the other succeeds with a value like it
  exactly when the value is in the form of the other as well.
* `eq_of_covers`: all values of a reduced type are in the form of another spelling of it only if
  the two are one.
-/

namespace TypedBus

namespace Value

/-- The values pass for equal as parts of two rows. -/
def Close (a b : Value) : Prop := (isSame a b || eqWith true a b) = true

variable {a b c d : Value} {vs ws : List Value} {es fs : List (Value × Value)}

theorem close_of_eqAllWith :
    ∀ {vs ws : List Value}, eqAllWith true vs ws = true → List.Forall₂ Close vs ws
  | [], [], _ => .nil
  | [], _ :: _, h => by simp [eqAllWith] at h
  | _ :: _, [], h => by simp [eqAllWith] at h
  | _ :: _, _ :: _, h => by
    rw [eqAllWith, Bool.and_eq_true] at h
    exact .cons h.1 (close_of_eqAllWith h.2)

theorem Close.list (h : Close (.list none vs) (.list none ws)) : List.Forall₂ Close vs ws := by
  have h : eqWith true (.list none vs) (.list none ws) = true := h
  rw [eqWith] at h
  exact close_of_eqAllWith h

theorem Close.tuple (h : Close (.tuple vs) (.tuple ws)) : List.Forall₂ Close vs ws := by
  have h : eqWith true (.tuple vs) (.tuple ws) = true := h
  rw [eqWith] at h
  exact close_of_eqAllWith h

theorem Close.entry (h : Close (.entry a b) (.entry c d)) : Close a c ∧ Close b d := by
  have h : eqWith true (.entry a b) (.entry c d) = true := h
  rw [eqWith] at h
  exact Bool.and_eq_true_iff.mp h

theorem close_of_eqEntriesWith :
    ∀ {es fs : List (Value × Value)}, eqEntriesWith true es fs = true →
      ∀ e ∈ es, ∃ f ∈ fs, Close e.1 f.1 ∧ Close e.2 f.2
  | [], _, _, _, he => nomatch he
  | (k, v) :: es, fs, h, e, he => by
    rw [eqEntriesWith, Bool.and_eq_true] at h
    rcases List.mem_cons.mp he with rfl | he
    · obtain ⟨f, hf, hclose⟩ := List.any_eq_true.mp h.1
      exact ⟨f, hf, Bool.and_eq_true_iff.mp hclose⟩
    · exact close_of_eqEntriesWith h.2 e he

/-- Every entry of a dict has one that is close to it in a dict that is close. -/
theorem Close.dict (h : Close (.dict es) (.dict fs)) :
    ∀ e ∈ es, ∃ f ∈ fs, Close e.1 f.1 ∧ Close e.2 f.2 := by
  have h : eqWith true (.dict es) (.dict fs) = true := h
  rw [eqWith] at h
  exact close_of_eqEntriesWith (Bool.and_eq_true_iff.mp h).2

theorem not_close_dict_list : ¬ Close (.dict es) (.list none ws) := fun h =>
  have h : eqWith true (.dict es) (.list none ws) = true := h
  by simp [eqWith] at h

theorem not_close_list_dict : ¬ Close (.list none vs) (.dict fs) := fun h =>
  have h : eqWith true (.list none vs) (.dict fs) = true := h
  by simp [eqWith] at h

theorem unhashableAmong?_eq_none {vs : List Value} :
    unhashableAmong? vs = none ↔ ∀ v ∈ vs, v.unhashable? = none := by
  induction vs with
  | nil => simp [unhashableAmong?]
  | cons v vs ih => rw [unhashableAmong?, Option.or_eq_none_iff, ih, List.forall_mem_cons]

end Value

namespace WireType

open Signature

variable {t u e k x : WireType} {fs : List WireType} {v p q w a : Value}

/-! ## Spellings -/

/-- A type spelt like an array is an array, of elements spelt alike, or a dict. -/
theorem of_reduce_array (h : u.reduce = (array e).reduce) :
    (∃ e', u = array e' ∧ e'.reduce = e.reduce) ∨ ∃ k x, u = dict k x := by
  cases u <;> simp_all [reduce]

/-- A type spelt like a dict is a dict, of keys and values spelt alike, or an array. -/
theorem of_reduce_dict (h : u.reduce = (dict k x).reduce) :
    (∃ k' x', u = dict k' x' ∧ k'.reduce = k.reduce ∧ x'.reduce = x.reduce) ∨
      ∃ e, u = array e := by
  cases u <;> simp_all [reduce]

theorem of_reduce_variant (h : u.reduce = variant.reduce) : u = variant := by
  cases u <;> simp_all [reduce]

theorem of_reduce_entry (h : u.reduce = (entry k x).reduce) :
    ∃ k' x', u = entry k' x' ∧ k'.reduce = k.reduce ∧ x'.reduce = x.reduce :=
  eq_entry_of_reduce h

/-- Two rows of types are spelt alike, type by type. -/
def SpeltAlike (fs gs : List WireType) : Prop := List.Forall₂ (fun f g => f.reduce = g.reduce) fs gs

theorem speltAlike_of_reduceAll {fs gs : List WireType} (h : reduceAll fs = reduceAll gs) :
    SpeltAlike fs gs := by
  rw [reduceAll_eq_map, reduceAll_eq_map, ← List.forall₂_eq_eq_eq, List.forall₂_map_left_iff,
    List.forall₂_map_right_iff] at h
  exact h

theorem of_reduce_struct (h : u.reduce = (struct fs).reduce) :
    ∃ gs, u = struct gs ∧ SpeltAlike gs fs := by
  cases u <;> simp only [reduce, reduceCtorEq, struct.injEq] at h
  exact ⟨_, rfl, speltAlike_of_reduceAll h⟩

theorem of_reduce_tuple (h : u.reduce = (tuple fs).reduce) :
    ∃ gs, u = tuple gs ∧ SpeltAlike gs fs := by
  cases u <;> simp only [reduce, reduceCtorEq, tuple.injEq] at h
  exact ⟨_, rfl, speltAlike_of_reduceAll h⟩

/-! ## Keys -/

/-- Where no part of a row keeps it from being a key, the row can be taken part by part. -/
theorem forall_zip_of_hashable {P : WireType → Value → Prop} :
    ∀ {fs gs : List WireType} {vs : List Value}, SpeltAlike gs fs →
      Value.unhashableAmong? vs = none →
      (∀ p ∈ fs.zip vs, ∀ {u : WireType}, u.reduce = p.1.reduce → p.2.unhashable? = none →
        P u p.2) → ∀ p ∈ gs.zip vs, P p.1 p.2
  | _, _, [], _, _, _ => by simp
  | _, _, _ :: _, .nil, _, _ => by simp
  | _, _, v :: vs, .cons hfg hrow, ha, hP => by
    rw [List.zip_cons_cons] at hP ⊢
    obtain ⟨hv, hvs⟩ := List.forall_mem_cons.mp hP
    rw [Value.unhashableAmong?, Option.or_eq_none_iff] at ha
    exact List.forall_mem_cons.mpr ⟨hv hfg ha.1, forall_zip_of_hashable hrow ha.2 hvs⟩

/-- A key holds no list and no dict, so that it is in the form of its type under every spelling. -/
theorem Canonical.of_hashable (h : Canonical t a) :
    ∀ {u : WireType}, u.reduce = t.reduce → a.unhashable? = none → Canonical u a := by
  induction h with
  | basic h =>
    intro u hu _
    rw [eq_basic_of_reduce hu]
    exact .basic h
  | emptyVariant | variant | array | dict => exact fun _ ha => nomatch ha
  | entry _ _ iha ihb =>
    intro u hu ha
    obtain ⟨k', x', rfl, hk, hx⟩ := of_reduce_entry hu
    obtain ⟨hkey, hvalue⟩ := Option.or_eq_none_iff.mp ha
    exact .entry (iha hk hkey) (ihb hx hvalue)
  | struct hlen _ ih =>
    intro u hu ha
    obtain ⟨gs, rfl, hgs⟩ := of_reduce_struct hu
    exact .struct (hgs.length_eq ▸ hlen) (forall_zip_of_hashable hgs ha ih)
  | tuple hlen _ ih =>
    intro u hu ha
    obtain ⟨gs, rfl, hgs⟩ := of_reduce_tuple hu
    exact .tuple (hgs.length_eq ▸ hlen) (forall_zip_of_hashable hgs ha ih)

/-! ## Copying as another spelling -/

/-- A copy of the value under another spelling of the type is close to a value in the form of the
type only if the value was in the form of that spelling already. -/
def ClosesOnlyItself (t : WireType) (p : Value) : Prop :=
  ∀ ⦃u w q⦄, u.reduce = t.reduce → u.copy p = .ok w → Canonical t q → w.Close q → Canonical u p

/-- The entry of a dict has been copied key by key and value by value. -/
def EntryCopied (k x : WireType) (e f : Value × Value) : Prop :=
  k.copy e.1 = .ok f.1 ∧ x.copy e.2 = .ok f.2

theorem copy_entries {es : List (Value × Value)} {qs : List Value}
    (h : List.Forall₂ (fun e q => (entry k x).copy (.tuple [e.1, e.2]) = .ok q) es qs) :
    ∃ fs : List (Value × Value), qs = fs.map (fun f => .entry f.1 f.2) ∧
      List.Forall₂ (EntryCopied k x) es fs := by
  induction h with
  | nil => exact ⟨[], rfl, .nil⟩
  | @cons e q es qs hq _ ih =>
    obtain ⟨fs, rfl, hfs⟩ := ih
    obtain ⟨a, b, a', b', hab, ha, hb, rfl⟩ := copy_entry_eq_ok.mp hq
    cases hab
    exact ⟨(a', b') :: fs, rfl, .cons ⟨ha, hb⟩ hfs⟩

/-- Where the copies of its keys do not agree with one another, the copy of a dict has a copy of
each of its entries, in their order. -/
theorem copy_dict_of_distinct {es : List (Value × Value)}
    (hd : ∀ fs, List.Forall₂ (EntryCopied k x) es fs → (∀ f ∈ fs, f.1.unhashable? = none) →
      Value.Distinct fs)
    (h : (dict k x).copy (.dict es) = .ok w) :
    ∃ fs, w = .dict fs ∧ List.Forall₂ (EntryCopied k x) es fs ∧
      ∀ f ∈ fs, f.1.unhashable? = none := by
  obtain ⟨ps, qs, gs, hps, hqs, hfold, rfl⟩ := copy_dict_eq_ok.mp h
  cases hps
  obtain ⟨fs, rfl, hfs⟩ := copy_entries (List.forall₂_map_left_iff.mp hqs)
  have hhash : ∀ f ∈ fs, f.1.unhashable? = none := fun f hf =>
    Value.hashable_of_foldlM_addEntry hfold (List.mem_map.mpr ⟨f, hf, rfl⟩)
  rw [Value.foldlM_addEntry [] (hd fs hfs hhash) hhash, List.nil_append, Except.ok.injEq] at hfold
  subst hfold
  exact ⟨fs, rfl, hfs, hhash⟩

/-- Where keys are copied to themselves, the copy of a dict has its keys, each with a copy of its
value. -/
theorem of_copy_dict {es : List (Value × Value)} (hd : Value.Distinct es)
    (hkeys : ∀ e ∈ es, Canonical k e.1) (h : (dict k x).copy (.dict es) = .ok w) :
    ∃ fs, w = .dict fs ∧ List.Forall₂ (fun e f => e.1 = f.1 ∧ x.copy e.2 = .ok f.2) es fs := by
  have hsame : ∀ {fs}, List.Forall₂ (EntryCopied k x) es fs →
      List.Forall₂ (fun e f => e.1 = f.1 ∧ x.copy e.2 = .ok f.2) es fs := fun hfs =>
    ((List.forall₂_and_left _ _).mpr ⟨hkeys, hfs⟩).imp fun _ _ ⟨he, hk, hx⟩ =>
      ⟨Except.ok.inj (he.copy.symm.trans hk), hx⟩
  have hdistinct : ∀ fs, List.Forall₂ (EntryCopied k x) es fs → Value.Distinct fs := by
    intro fs hfs
    have hkeys : es.map Prod.fst = fs.map Prod.fst := by
      rw [← List.forall₂_eq_eq_eq, List.forall₂_map_left_iff, List.forall₂_map_right_iff]
      exact (hsame hfs).imp fun _ _ h => h.1
    rw [Value.Distinct, ← List.pairwise_map (R := fun a b => Value.agree a b = false), ← hkeys,
      List.pairwise_map]
    exact hd
  obtain ⟨fs, rfl, hfs, -⟩ := copy_dict_of_distinct (fun fs hfs _ => hdistinct fs hfs) h
  exact ⟨fs, rfl, hsame hfs⟩

/-- Elements that each close only themselves do so in a row. -/
theorem forall_of_close {e' : WireType} (he : e'.reduce = e.reduce) :
    ∀ {vs ws qs : List Value}, (∀ v ∈ vs, ClosesOnlyItself e v) →
      List.Forall₂ (fun v w => copyWith (boxWith copy) e' v = .ok w) vs ws →
      List.Forall₂ Value.Close ws qs → (∀ q ∈ qs, Canonical e q) → ∀ v ∈ vs, Canonical e' v
  | [], _, _, _, _, _, _ => nofun
  | _ :: _, _ :: _, _ :: _, hvs, .cons hw hws, .cons hclose hqs, hq => by
    obtain ⟨hv, hvs⟩ := List.forall_mem_cons.mp hvs
    obtain ⟨hcanonical, hq⟩ := List.forall_mem_cons.mp hq
    rw [← copy_eq] at hw
    exact List.forall_mem_cons.mpr ⟨hv he hw hcanonical hclose, forall_of_close he hvs hws hqs hq⟩

/-- So do fields, each under its own spelling. -/
theorem forall_zip_of_close :
    ∀ {fs gs : List WireType} {vs ws qs : List Value}, SpeltAlike gs fs →
      (∀ p ∈ fs.zip vs, ClosesOnlyItself p.1 p.2) →
      List.Forall₂ (fun p w => copyWith (boxWith copy) p.1 p.2 = .ok w) (gs.zip vs) ws →
      List.Forall₂ Value.Close ws qs → (∀ p ∈ fs.zip qs, Canonical p.1 p.2) →
      ∀ p ∈ gs.zip vs, Canonical p.1 p.2
  | _, _, [], _, _, _, _, _, _, _ => by simp
  | _, _, _ :: _, _, _, .nil, _, _, _, _ => by simp
  | _, _, v :: vs, _ :: _, _ :: _, .cons hfg hrow, hvs, .cons hw hws, .cons hclose hqs, hq => by
    rw [List.zip_cons_cons] at hvs hq ⊢
    obtain ⟨hv, hvs⟩ := List.forall_mem_cons.mp hvs
    obtain ⟨hcanonical, hq⟩ := List.forall_mem_cons.mp hq
    rw [← copy_eq] at hw
    exact List.forall_mem_cons.mpr ⟨hv hfg hw hcanonical hclose,
      forall_zip_of_close hrow hvs hws hqs hq⟩

/-- The values of a dict close only themselves under another spelling of its type. -/
theorem forall_values_of_close {x' : WireType} (hx : x'.reduce = x.reduce)
    {es fs gs : List (Value × Value)} (hes : ∀ e ∈ es, ClosesOnlyItself x e.2)
    (hfs : List.Forall₂ (fun e f => e.1 = f.1 ∧ x'.copy e.2 = .ok f.2) es fs)
    (hclose : ∀ f ∈ fs, ∃ g ∈ gs, Value.Close f.1 g.1 ∧ Value.Close f.2 g.2)
    (hgs : ∀ g ∈ gs, Canonical x g.2) : ∀ e ∈ es, Canonical x' e.2 := by
  induction hfs with
  | nil => exact nofun
  | cons hf _ ih =>
    obtain ⟨he, hes⟩ := List.forall_mem_cons.mp hes
    obtain ⟨⟨g, hg, -, hnear⟩, hclose⟩ := List.forall_mem_cons.mp hclose
    exact List.forall_mem_cons.mpr ⟨he hx hf.2 (hgs g hg) hnear, ih hes hclose⟩

/-- **A copy under another spelling is close to a value in the form of the type only where no dict
is spelt otherwise**: a dict is close to no list. -/
theorem Canonical.closesOnlyItself (h : Canonical t p) : ClosesOnlyItself t p := by
  induction h with
  | basic h =>
    intro u w q hu _ _ _
    rw [eq_basic_of_reduce hu]
    exact .basic h
  | emptyVariant =>
    intro u w q hu _ _ _
    rw [of_reduce_variant hu]
    exact .emptyVariant
  | variant h _ =>
    intro u w q hu _ _ _
    rw [of_reduce_variant hu]
    exact .variant h
  | array _ ih =>
    intro u w q hu hw hq hclose
    rw [copy_eq] at hw
    cases hq with
    | array hqs =>
      obtain ⟨e', rfl, he⟩ | ⟨k, x, rfl⟩ := of_reduce_array hu
      · obtain ⟨vs, ws, hvs, hws, rfl⟩ := copyWith_array_eq_ok.mp hw
        cases hvs
        exact .array (forall_of_close he ih hws hclose.list hqs)
      · obtain ⟨_, _, _, _, _, _, rfl⟩ := copyWith_dict_eq_ok.mp hw
        exact absurd hclose Value.not_close_dict_list
  | dict hd hh hk _ _ ihx =>
    intro u w q hu hw hq hclose
    cases hq with
    | dict _ _ _ hgs =>
      obtain ⟨k', x', rfl, hk', hx'⟩ | ⟨e, rfl⟩ := of_reduce_dict hu
      · have hkeys := fun e he => (hk e he).of_hashable hk' (hh e he)
        obtain ⟨fs, rfl, hfs⟩ := of_copy_dict hd hkeys hw
        exact .dict hd hh hkeys (forall_values_of_close hx' ihx hfs hclose.dict hgs)
      · rw [copy_eq] at hw
        obtain ⟨_, _, _, _, rfl⟩ := copyWith_array_eq_ok.mp hw
        exact absurd hclose Value.not_close_list_dict
  | entry _ _ iha ihb =>
    intro u w q hu hw hq hclose
    obtain ⟨k', x', rfl, hk, hx⟩ := of_reduce_entry hu
    rw [copy_eq] at hw
    obtain ⟨a, b, a', b', hab, ha, hb, rfl⟩ := copyWith_entry_eq_ok.mp hw
    cases hab
    rw [← copy_eq] at ha hb
    cases hq with
    | entry hqa hqb =>
      obtain ⟨hca, hcb⟩ := hclose.entry
      exact .entry (iha hk ha hqa hca) (ihb hx hb hqb hcb)
  | struct hlen _ ih =>
    intro u w q hu hw hq hclose
    obtain ⟨gs, rfl, hgs⟩ := of_reduce_struct hu
    rw [copy_eq] at hw
    obtain ⟨vs, ws, hvs, hws, rfl⟩ := copyWith_struct_eq_ok.mp hw
    cases hvs
    cases hq with
    | struct _ hqs =>
      exact .struct (hgs.length_eq ▸ hlen) (forall_zip_of_close hgs ih hws hclose.tuple hqs)
  | tuple hlen _ ih =>
    intro u w q hu hw hq hclose
    obtain ⟨gs, rfl, hgs⟩ := of_reduce_tuple hu
    rw [copy_eq] at hw
    obtain ⟨vs, ws, hvs, hws, rfl⟩ := copyWith_tuple_eq_ok.mp hw
    cases hvs
    cases hq with
    | tuple _ hqs =>
      exact .tuple (hgs.length_eq ▸ hlen) (forall_zip_of_close hgs ih hws hclose.tuple hqs)

/-- **Copying as another spelling of the type gives a value like it exactly when the value is in the
form of that spelling as well**; the copy is the value itself then. -/
theorem copies_alike_iff (h : Canonical t p) (hu : u.reduce = t.reduce) :
    (∃ w, u.copy p = .ok w ∧ w.alike p = true) ↔ Canonical u p := by
  constructor
  · rintro ⟨w, hw, halike⟩
    exact h.closesOnlyItself hu hw h (Bool.or_eq_true_iff.mpr (.inr halike))
  · exact fun hu => ⟨p, hu.copy, p.alike_self⟩

/-! ## Values that tell spellings apart -/

theorem exists_holds (b : BasicType) : ∃ v, b.Holds v := by
  cases b with
  | integer width => exact ⟨_, .integer (n := 0) (by cases width <;> decide)⟩
  | boolean => exact ⟨_, .boolean (b := false)⟩
  | double => exact ⟨_, .double (d := .zero false)⟩
  | string => exact ⟨_, .string (t := []) rfl⟩
  | objectPath => exact ⟨_, .objectPath (t := "/") rfl (by decide)⟩
  | signature => exact ⟨_, .signature (t := []) rfl (by decide)⟩
  | handle => exact ⟨_, .handle (n := 0)⟩

/-- Every type has a value. -/
theorem exists_canonical (t : WireType) : ∃ v, Canonical t v := by
  cases t with
  | basic b => exact (exists_holds b).imp fun _ => .basic
  | variant => exact ⟨_, .emptyVariant⟩
  | array _ => exact ⟨.list none [], .array (List.forall_mem_nil _)⟩
  | dict _ _ =>
    exact ⟨.dict [], .dict .nil (List.forall_mem_nil _) (List.forall_mem_nil _)
      (List.forall_mem_nil _)⟩
  | entry k x =>
    obtain ⟨a, ha⟩ := exists_canonical k
    obtain ⟨b, hb⟩ := exists_canonical x
    exact ⟨.entry a b, .entry ha hb⟩
  | struct _ => exact ⟨.tuple [], .struct (Nat.zero_le _) (by simp)⟩
  | tuple _ => exact ⟨.tuple [], .tuple (Nat.zero_le _) (by simp)⟩

/-- Every value in the form of the one type is in the form of the other. -/
def Covers (u t : WireType) : Prop := ∀ p, Canonical t p → Canonical u p

/-- Two spellings of a row are one if each of its types is told from its other spellings. -/
theorem eq_of_covers_row {fs gs : List WireType} (hgs : SpeltAlike gs fs)
    (hfs : ∀ f ∈ fs, ∀ {g : WireType}, g.reduce = f.reduce → Covers g f → g = f)
    (h : ∀ vs : List Value, vs.length ≤ fs.length → (∀ p ∈ fs.zip vs, Canonical p.1 p.2) →
      ∀ p ∈ gs.zip vs, Canonical p.1 p.2) : gs = fs := by
  induction hgs with
  | nil => rfl
  | @cons g f gs fs hg _ ih =>
    obtain ⟨hf, hfs⟩ := List.forall_mem_cons.mp hfs
    have hhead : g = f := by
      refine hf hg fun v hv => ?_
      have hrow := h [v] (by simp) (by simpa using hv)
      simpa using hrow
    have htail : gs = fs := by
      obtain ⟨v, hv⟩ := exists_canonical f
      refine ih hfs fun vs hlen hvs => ?_
      have hrow := h (v :: vs) (by simpa using hlen)
        (by rw [List.zip_cons_cons]; exact List.forall_mem_cons.mpr ⟨hv, hvs⟩)
      rw [List.zip_cons_cons] at hrow
      exact (List.forall_mem_cons.mp hrow).2
    rw [hhead, htail]

/-- The empty array is no dict, and the empty dict no array. -/
theorem not_covers_dict_array : ¬ Covers (dict k x) (array e) := fun h => by
  cases h (.list none []) (.array nofun)

theorem not_covers_array_dict : ¬ Covers (array e) (dict k x) := fun h => by
  cases h (.dict []) (.dict .nil nofun nofun nofun)

theorem Covers.array (h : Covers (array u) (array t)) : Covers u t := fun p hp => by
  cases h (.list none [p]) (.array (by simpa using hp)) with
  | array hvs => exact hvs p (by simp)

/-- **All values of a reduced type are in the form of another spelling of it only if the two types
are one**: an empty dict tells them apart, or an empty array, wherever it may lie. -/
theorem eq_of_covers {arrays structs : Nat} (ht : Fits arrays structs t) :
    ∀ {u : WireType}, u.reduce = t.reduce → Covers u t → u = t := by
  induction ht with
  | basic => exact fun hu _ => eq_basic_of_reduce hu
  | variant => exact fun hu _ => of_reduce_variant hu
  | array _ _ ih =>
    intro u hu h
    obtain ⟨e', rfl, he⟩ | ⟨k, x, rfl⟩ := of_reduce_array hu
    · rw [ih he h.array]
    · exact absurd h not_covers_dict_array
  | @entries _ _ k v _ _ _ ih =>
    intro u hu h
    obtain ⟨e', rfl, he⟩ | ⟨k, x, rfl⟩ := of_reduce_array hu
    · obtain ⟨k', x', rfl, hk, hx⟩ := of_reduce_entry he
      obtain rfl := eq_basic_of_reduce hk
      obtain ⟨a, ha⟩ := exists_holds k
      rw [ih hx fun p hp => ?_]
      cases h.array (.entry a p) (.entry (.basic ha) hp) with
      | entry _ hp => exact hp
    · exact absurd h not_covers_dict_array
  | @dict _ _ k v _ _ _ ih =>
    intro u hu h
    obtain ⟨k', x', rfl, hk, hx⟩ | ⟨e, rfl⟩ := of_reduce_dict hu
    · obtain rfl := eq_basic_of_reduce hk
      obtain ⟨a, ha⟩ := exists_holds k
      rw [ih hx fun p hp => ?_]
      have hone : Canonical (.dict (.basic k) v) (.dict [(a, p)]) :=
        .dict (List.pairwise_singleton _ _) (by simpa using ha.hashable)
          (by simpa using .basic ha) (by simpa using hp)
      cases h _ hone with
      | dict _ _ _ hvalues => exact hvalues (a, p) (by simp)
    · exact absurd h not_covers_array_dict
  | struct _ _ _ ih =>
    intro u hu h
    obtain ⟨gs, rfl, hgs⟩ := of_reduce_struct hu
    rw [eq_of_covers_row hgs (fun f hf => ih f hf) fun vs hlen hvs => ?_]
    cases h _ (.struct hlen hvs) with
    | struct _ hvs => exact hvs

end WireType

end TypedBus
