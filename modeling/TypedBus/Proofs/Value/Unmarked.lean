import TypedBus.Proofs.Value.Respelt
import TypedBus.Value.Marks

/-!
# Values without marks

What a program keeps under a name bears marks (`Value.marked`), which tell it from others that look
the same. Without them it is what it was when it was made (`Value.unmarked_marked`). It is equal to
that (`Value.respelt_unmarked`), and is copied to that where it is in the form of the type
(`WireType.Canonical.copy_unmarked`).
-/

namespace TypedBus

namespace Value

mutual

/-- The value without the marks of its lists and variants. -/
def unmarked : Value → Value
  | list _ vs => list none (unmarkedAll vs)
  | tuple vs => tuple (unmarkedAll vs)
  | dict es => dict (unmarkedEntries es)
  | entry k v => entry (unmarked k) (unmarked v)
  | variant _ p t => variant none (unmarked p) t
  | v => v

/-- A row of values without marks. -/
def unmarkedAll : List Value → List Value
  | [] => []
  | v :: vs => unmarked v :: unmarkedAll vs

/-- The entries of a dict without marks. -/
def unmarkedEntries : List (Value × Value) → List (Value × Value)
  | [] => []
  | (k, v) :: es => (unmarked k, unmarked v) :: unmarkedEntries es

end

theorem unmarkedAll_eq_map (vs : List Value) : unmarkedAll vs = vs.map unmarked := by
  induction vs with
  | nil => rfl
  | cons v vs ih => rw [unmarkedAll, ih, List.map_cons]

theorem unmarkedEntries_eq_map (es : List (Value × Value)) :
    unmarkedEntries es = es.map fun e => (e.1.unmarked, e.2.unmarked) := by
  induction es with
  | nil => rfl
  | cons e es ih => rw [unmarkedEntries, ih, List.map_cons]

mutual

/-- Marking a value does not change what it is without marks. -/
theorem unmarked_marked : ∀ (v : Value) (n : Nat), v.Ordinary →
    (v.marked.run n).1.unmarked = v.unmarked
  | .list _ vs, _, hv => congrArg (list none) (unmarkedAll_markedAll vs _ hv)
  | .tuple vs, _, hv => congrArg tuple (unmarkedAll_markedAll vs _ hv)
  | .dict es, _, hv => congrArg dict (unmarkedEntries_markedEntries es _ hv.2)
  | .entry k v, _, hv => congrArg₂ entry (unmarked_marked k _ hv.1) (unmarked_marked v _ hv.2)
  | .variant _ p t, _, hv => congrArg (variant none · t) (unmarked_marked p _ hv)
  | .double d, n, hv => by
    have hmade : ¬ d.bits = Double.nan.bits := fun h => by
      obtain rfl : d = Double.nan := congrArg Double.mk h
      have hnan : Double.nan.isNaN = false := hv
      exact absurd hnan (by decide)
    change (double (d.orMarked.run n).1).unmarked = double d
    rw [Double.orMarked, if_neg hmade]
    rfl
  | .scalar _, _, hv | .grid _, _, hv => by cases hv
  | .null, _, _ | .boolean _, _, _ | .integer _, _, _ | .text _, _, _ | .bytes _, _, _
  | .fixed _ _, _, _ | .handle _, _, _ | .path _, _, _ | .signature _, _, _ | .opening _, _, _
  | .closing, _, _ | .thing _, _, _ => rfl

theorem unmarkedAll_markedAll : ∀ (vs : List Value) (n : Nat), OrdinaryAll vs →
    unmarkedAll ((markedAll vs).run n).1 = unmarkedAll vs
  | [], _, _ => rfl
  | v :: vs, _, hv =>
    congrArg₂ List.cons (unmarked_marked v _ hv.1) (unmarkedAll_markedAll vs _ hv.2)

theorem unmarkedEntries_markedEntries : ∀ (es : List (Value × Value)) (n : Nat),
    OrdinaryEntries es →
    unmarkedEntries ((markedEntries es).run n).1 = unmarkedEntries es
  | [], _, _ => rfl
  | (k, v) :: es, _, hv =>
    congrArg₂ List.cons
      (congrArg₂ Prod.mk (unmarked_marked k _ hv.1.1) (unmarked_marked v _ hv.1.2))
      (unmarkedEntries_markedEntries es _ hv.2)

end

mutual

/-- **A value is spelt anew when its marks are taken away.** -/
theorem respelt_unmarked : ∀ v : Value, v.Ordinary → Respelt v v.unmarked
  | .list _ vs, hv => respelt_list (respelt_unmarkedAll vs hv)
  | .tuple vs, hv => respelt_tuple (respelt_unmarkedAll vs hv)
  | .dict es, hv => respelt_dict (respelt_unmarkedEntries es hv.2)
  | .entry k v, hv => .entry (respelt_unmarked k hv.1) (respelt_unmarked v hv.2)
  | .variant _ p _, hv => .variant (respelt_unmarked p hv).eq
  | .scalar _, hv | .grid _, hv => by cases hv
  | .null, hv | .boolean _, hv | .integer _, hv | .double _, hv | .text _, hv | .bytes _, hv
  | .fixed _ _, hv | .handle _, hv | .path _, hv | .signature _, hv | .opening _, hv
  | .closing, hv | .thing _, hv => .same hv.eq_self

theorem respelt_unmarkedAll : ∀ vs : List Value, OrdinaryAll vs →
    List.Forall₂ Respelt vs (unmarkedAll vs)
  | [], _ => .nil
  | v :: vs, hv => .cons (respelt_unmarked v hv.1) (respelt_unmarkedAll vs hv.2)

theorem respelt_unmarkedEntries : ∀ es : List (Value × Value), OrdinaryEntries es →
    List.Forall₂ (fun e f => Respelt e.1 f.1 ∧ Respelt e.2 f.2) es (unmarkedEntries es)
  | [], _ => .nil
  | (k, v) :: es, hv =>
    .cons ⟨respelt_unmarked k hv.1.1, respelt_unmarked v hv.1.2⟩
      (respelt_unmarkedEntries es hv.2)

end

end Value

namespace WireType

variable {b : BasicType} {t : WireType} {v w : Value}

theorem eq_of_holds_unmarked (h : b.Holds w) (hv : v.unmarked = w) : v = w := by
  cases v with
  | list | tuple | dict | entry | variant =>
    subst hv
    rw [Value.unmarked] at h
    cases h
  | _ => exact hv

/-- A row of fields is copied to the row without marks, if every field is. -/
theorem forall₂_zip_unmarked {fs : List WireType} {vs : List Value}
    (hlen : (vs.map Value.unmarked).length ≤ fs.length)
    (h : ∀ p ∈ fs.zip (vs.map Value.unmarked), ∀ {v : Value}, v.unmarked = p.2 →
      p.1.copy v = .ok p.2) :
    List.Forall₂ (fun p w => p.1.copy p.2 = .ok w) (fs.zip vs) (vs.map Value.unmarked) := by
  rw [List.zip_map_right, List.forall_mem_map] at h
  exact forall₂_zip_map (by simpa using hlen) fun p hp => h p hp rfl

/-- **Where a value without its marks is in the form of the type, it is copied to that.** -/
theorem Canonical.copy_unmarked (h : Canonical t w) :
    ∀ {v : Value}, v.unmarked = w → t.copy v = .ok w := by
  induction h with
  | basic h =>
    intro v hv
    obtain rfl := eq_of_holds_unmarked h hv
    exact (Canonical.basic h).copy
  | emptyVariant =>
    intro v hv
    cases v with
    | variant m p o =>
      obtain ⟨-, -, rfl⟩ := Value.variant.inj hv
      rw [copy_eq, copyWith]
      rfl
    | _ => cases hv
  | variant h ih =>
    intro v hv
    cases v with
    | variant m p o =>
      obtain ⟨-, hp, rfl⟩ := Value.variant.inj hv
      rw [copy_eq, copyWith, boxWith, ih hp]
      rfl
    | _ => cases hv
  | array h ih =>
    intro v hv
    cases v with
    | list m vs =>
      obtain ⟨-, rfl⟩ := Value.list.inj hv
      rw [Value.unmarkedAll_eq_map] at ih ⊢
      refine copy_array_eq_ok.mpr ⟨vs, _, rfl, ?_, rfl⟩
      rw [List.forall₂_map_right_iff, List.forall₂_same]
      exact fun v hv => ih _ (List.mem_map_of_mem hv) rfl
    | _ => cases hv
  | dict hd hh hk hx ihk ihx =>
    intro v hv
    cases v with
    | dict es =>
      obtain rfl := Value.dict.inj hv
      rw [Value.unmarkedEntries_eq_map] at hd hh ihk ihx ⊢
      refine copy_dict_eq_ok.mpr ⟨_, _, _, rfl, ?_, Value.foldlM_addEntry [] hd hh, rfl⟩
      rw [List.map_map, List.forall₂_map_left_iff, List.forall₂_map_right_iff, List.forall₂_same]
      intro e he
      have hmem := List.mem_map_of_mem (f := fun e => (e.1.unmarked, e.2.unmarked)) he
      exact copy_entry_eq_ok.mpr ⟨_, _, _, _, rfl, ihk _ hmem rfl, ihx _ hmem rfl, rfl⟩
    | _ => cases hv
  | entry ha hb iha ihb =>
    intro v hv
    cases v with
    | entry k x =>
      obtain ⟨hk, hx⟩ := Value.entry.inj hv
      exact copy_entry_eq_ok.mpr ⟨k, x, _, _, rfl, iha hk, ihb hx, rfl⟩
    | _ => cases hv
  | struct hlen h ih =>
    intro v hv
    cases v with
    | tuple vs =>
      obtain rfl := Value.tuple.inj hv
      rw [Value.unmarkedAll_eq_map] at hlen ih ⊢
      exact copy_struct_eq_ok.mpr ⟨vs, _, rfl, forall₂_zip_unmarked hlen ih, rfl⟩
    | _ => cases hv
  | tuple hlen h ih =>
    intro v hv
    cases v with
    | tuple vs =>
      obtain rfl := Value.tuple.inj hv
      rw [Value.unmarkedAll_eq_map] at hlen ih ⊢
      exact copy_tuple_eq_ok.mpr ⟨vs, _, rfl, forall₂_zip_unmarked hlen ih, rfl⟩
    | _ => cases hv

end WireType

end TypedBus
