import TypedBus.Message.Decode
import TypedBus.Proofs.Message.Reading
import TypedBus.Proofs.Registry
import TypedBus.Proofs.Value.Dict

/-!
# What items are read as

`Reads` says which items are values of a row of types, and which values they are, going by the
items, the descriptors and a registry alone; nothing in it speaks of a message, a cursor or steps.
`BasicType.Accepts` is the part of it that is about a single basic item, and
`run_decode_basic_eq_ok` says that this is how a message reads one.
-/

namespace TypedBus

open Message

/-- The index that an item carries for a descriptor. -/
def Value.index? : Value → Option Int
  | integer n | fixed _ n | handle n => some n
  | _ => none

/-- What a basic item of a type is read as: the place of a descriptor as a handle of it, anything
else as it is converted. -/
inductive BasicType.Accepts (ds : List Value) : BasicType → Value → Value → Prop
  | plain {b : BasicType} {v w : Value} (hb : b ≠ .handle) (h : b.convert v = .ok w) :
      Accepts ds b v w
  | handle {v d : Value} {i n : Int} (hv : v.index? = some i) (hi : 0 ≤ i)
      (hd : ds[i.toNat]? = some d) (hn : d.toInteger = .ok n) : Accepts ds .handle v (.handle n)

theorem BasicType.Accepts.mono {ds ds' : List Value} {b : BasicType} {v w : Value}
    (h : b.Accepts ds v w) (hds : ds <+: ds') : b.Accepts ds' v w := by
  cases h with
  | plain hb h => exact .plain hb h
  | handle hv hi hd hn =>
    obtain ⟨more, rfl⟩ := hds
    have hlt := (List.getElem?_eq_some_iff.mp hd).1
    exact .handle hv hi (by rwa [List.getElem?_append_left hlt]) hn

open WireType in
/-- The items are values of a row of types one after the other, and are read as these. -/
inductive Reads (ρ : Registry) (ds : List Value) :
    List WireType → List Item → List Value → Prop
  | nil : Reads ρ ds [] [] []
  | basic {b : BasicType} {ts : List WireType} {v w : Value} {items : List Item} {ws : List Value}
      (h : b.Accepts ds v w) (hs : Reads ρ ds ts items ws) :
      Reads ρ ds (.basic b :: ts) (.basic [b.code] v :: items) (w :: ws)
  | variant {t : WireType} {ts : List WireType} {w : Value} {inside items : List Item}
      {ws : List Value} (hl : ρ.lookup? t.signature = some t) (hin : Reads ρ ds [t] inside [w])
      (hs : Reads ρ ds ts items ws) :
      Reads ρ ds (.variant :: ts) (.opening (variantOf t) :: (inside ++ .closing :: items))
        (.variant none w (some t) :: ws)
  | array {e : WireType} {ts : List WireType} {n : Nat} {inside items : List Item}
      {vs ws : List Value} (hin : Reads ρ ds (List.replicate n e) inside vs)
      (hs : Reads ρ ds ts items ws) :
      Reads ρ ds (.array e :: ts) (.opening (arrayOf e) :: (inside ++ .closing :: items))
        (.list none vs :: ws)
  | dict {k x : WireType} {ts : List WireType} {n : Nat} {inside items : List Item}
      {vs ws : List Value} {es : List (Value × Value)}
      (hin : Reads ρ ds (List.replicate n (.entry k x)) inside vs)
      (hd : vs.foldlM Value.addEntry [] = .ok es) (hs : Reads ρ ds ts items ws) :
      Reads ρ ds (.dict k x :: ts)
        (.opening (arrayOf (.entry k x)) :: (inside ++ .closing :: items)) (.dict es :: ws)
  | entry {k x : WireType} {ts : List WireType} {inside items : List Item} {a b : Value}
      {ws : List Value} (hin : Reads ρ ds [k, x] inside [a, b]) (hs : Reads ρ ds ts items ws) :
      Reads ρ ds (.entry k x :: ts) (.opening (entryOf k x) :: (inside ++ .closing :: items))
        (.entry a b :: ws)
  | struct {fs ts : List WireType} {inside items : List Item} {vs ws : List Value}
      (hin : Reads ρ ds fs inside vs) (hs : Reads ρ ds ts items ws) :
      Reads ρ ds (.struct fs :: ts) (.opening (structOf fs) :: (inside ++ .closing :: items))
        (.tuple vs :: ws)
  | tuple {fs ts : List WireType} {inside items : List Item} {vs ws : List Value}
      (hin : Reads ρ ds fs inside vs) (hs : Reads ρ ds ts items ws) :
      Reads ρ ds (.tuple fs :: ts) (inside ++ items) (.tuple vs :: ws)

namespace Reads

variable {ρ : Registry} {ds : List Value} {t : WireType} {ts us : List WireType}
  {items more : List Item} {ws vs : List Value} {w : Value}

theorem append (h : Reads ρ ds ts items ws) (hus : Reads ρ ds us more vs) :
    Reads ρ ds (ts ++ us) (items ++ more) (ws ++ vs) := by
  induction h with
  | nil => exact hus
  | basic h _ ih => exact .basic h ih
  | variant hl hin _ _ ih => simpa using Reads.variant hl hin ih
  | array hin _ _ ih => simpa using Reads.array hin ih
  | dict hin hd _ _ ih => simpa using Reads.dict hin hd ih
  | entry hin _ _ ih => simpa using Reads.entry hin ih
  | struct hin _ _ ih => simpa using Reads.struct hin ih
  | tuple hin _ _ ih => simpa using Reads.tuple hin ih

theorem cons (h : Reads ρ ds [t] items [w]) (hs : Reads ρ ds ts more ws) :
    Reads ρ ds (t :: ts) (items ++ more) (w :: ws) :=
  h.append hs

/-- A row of values begins with one of the first type. -/
theorem uncons (h : Reads ρ ds (t :: ts) items ws) :
    ∃ w ws' seg more, items = seg ++ more ∧ ws = w :: ws' ∧ Reads ρ ds [t] seg [w] ∧
      Reads ρ ds ts more ws' := by
  cases h with
  | basic h hs => exact ⟨_, _, [_], _, rfl, rfl, .basic h .nil, hs⟩
  | variant hl hin hs => exact ⟨_, _, _ :: (_ ++ [_]), _, by simp, rfl, .variant hl hin .nil, hs⟩
  | array hin hs => exact ⟨_, _, _ :: (_ ++ [_]), _, by simp, rfl, .array hin .nil, hs⟩
  | dict hin hd hs => exact ⟨_, _, _ :: (_ ++ [_]), _, by simp, rfl, .dict hin hd .nil, hs⟩
  | entry hin hs => exact ⟨_, _, _ :: (_ ++ [_]), _, by simp, rfl, .entry hin .nil, hs⟩
  | struct hin hs => exact ⟨_, _, _ :: (_ ++ [_]), _, by simp, rfl, .struct hin .nil, hs⟩
  | tuple hin hs => exact ⟨_, _, _ ++ [], _, by simp, rfl, .tuple hin .nil, hs⟩

/-- What items are read as does not change when descriptors are added. -/
theorem mono {ds' : List Value} (h : Reads ρ ds ts items ws) (hds : ds <+: ds') :
    Reads ρ ds' ts items ws := by
  induction h with
  | nil => exact .nil
  | basic h _ ih => exact .basic (h.mono hds) ih
  | variant hl _ _ ihin ih => exact .variant hl ihin ih
  | array _ _ ihin ih => exact .array ihin ih
  | dict _ hd _ ihin ih => exact .dict ihin hd ih
  | entry _ _ ihin ih => exact .entry ihin ih
  | struct _ _ ihin ih => exact .struct ihin ih
  | tuple _ _ ihin ih => exact .tuple ihin ih

/-- As many values are read as there are types. -/
theorem length_eq (h : Reads ρ ds ts items ws) : ws.length = ts.length := by
  induction h with
  | nil => rfl
  | basic _ _ ih | variant _ _ _ _ ih | array _ _ _ ih | dict _ _ _ _ ih | entry _ _ _ ih
  | struct _ _ _ ih | tuple _ _ _ ih => simp [ih]

/-- A value of an element takes at least one item, and begins with no closing marker. -/
theorem head (h : Reads ρ ds [t] items [w]) (ht : t.IsElement) :
    ∃ item rest, items = item :: rest ∧ item ≠ .closing := by
  cases h with
  | tuple => exact absurd ht fun h => h.not_tuple
  | _ => exact ⟨_, _, rfl, nofun⟩

end Reads

/-! ## Basic values -/

namespace Message

variable {m m' : Message}

theorem run_resolve_eq_ok {i : Int} {w : Value} :
    (resolve i).run m = (.ok w, m') ↔
      ∃ d n, 0 ≤ i ∧ m.stream.descriptors[i.toNat]? = some d ∧ d.toInteger = .ok n ∧
        w = .handle n ∧ m' = m := by
  unfold resolve
  rw [Action.run_get_bind]
  by_cases hi : 0 ≤ i
  · simp only [hi, if_true, true_and]
    rcases m.stream.descriptors[i.toNat]? with _ | d
    · simp [Action.run_refuse_ne_ok]
    · simp only [Option.some.injEq, exists_and_left, exists_eq_left']
      rcases hn : d.toInteger with f | n
      · simp only [reduceCtorEq, false_and, exists_false, iff_false]
        split
        · simp [Action.raise]
        · exact Action.run_refuse_ne_ok
      · simp [eq_comm]
  · simp [hi, Action.run_refuse_ne_ok]

theorem run_decode_basic_eq_ok {b : BasicType} {w : Value} (hm : m.Readable) :
    b.decode.run m = (.ok w, m') ↔
      ∃ v rest, m.rest = .basic [b.code] v :: rest ∧ b.Accepts m.stream.descriptors v w ∧
        m' = m.skip 1 := by
  unfold BasicType.decode
  rw [Action.run_bind_eq_ok]
  constructor
  · rintro ⟨v, m₁, hread, h⟩
    obtain ⟨rest, hrest, rfl⟩ := (run_readBasic_eq_ok hm).mp hread
    refine ⟨v, rest, hrest, ?_⟩
    split at h
    · have hv : ∀ i, (resolve i).run (m.skip 1) = (.ok w, m') → v.index? = some i →
          BasicType.Accepts m.stream.descriptors .handle v w ∧ m' = m.skip 1 := by
        intro i h hv
        obtain ⟨d, n, hi, hd, hn, rfl, rfl⟩ := run_resolve_eq_ok.mp h
        exact ⟨.handle hv hi hd hn, rfl⟩
      split at h
      · exact hv _ h rfl
      · exact hv _ h rfl
      · exact hv _ h rfl
      · exact absurd h Action.run_refuse_ne_ok
    · rename_i hb
      obtain ⟨hconv, rfl⟩ := Action.run_liftOrFail_eq_ok.mp h
      exact ⟨.plain hb hconv, rfl⟩
  · rintro ⟨v, rest, hrest, hacc, rfl⟩
    refine ⟨v, m.skip 1, (run_readBasic_eq_ok hm).mpr ⟨rest, hrest, rfl⟩, ?_⟩
    cases hacc with
    | plain hb h =>
      split
      · exact absurd rfl hb
      · exact Action.run_liftOrFail_eq_ok.mpr ⟨h, rfl⟩
    | @handle _ d i n hv hi hd hn =>
      have hres : (resolve i).run (m.skip 1) = (.ok (.handle n), m.skip 1) :=
        run_resolve_eq_ok.mpr ⟨d, n, hi, hd, hn, rfl, rfl⟩
      simp only
      cases v <;> simp only [Value.index?, Option.some.injEq, reduceCtorEq] at hv
      all_goals
        subst hv
        exact hres

end Message

end TypedBus
