import TypedBus.Wire.Code

/-!
# Wire types

A wire type is a basic type, the variant, or a container with its parameters filled in. `dict k v`
and `array (entry k v)` have one wire form and differ in the values that they stand for; a `tuple`
is a row of values with nothing around it. `WireType.signature` is the text that announces a type on
the wire, `WireType.name` the way it is shown.

Equality of wire types is decided by `WireType.same` (`same_eq_true_iff`).

Model of the expressions that `canonical` gives, `Parametrized` ones among them, and of
`signature_of`. There is one `Parametrized` for each spelling, so that being one and the same is
equality here. Out of scope: classes derived from `Variant`, which are types of their own with the
same signature.
-/

namespace TypedBus

/-- The types of values on the wire. -/
inductive WireType
  | basic (b : BasicType)
  | variant
  | array (element : WireType)
  | dict (key value : WireType)
  | entry (key value : WireType)
  | struct (fields : List WireType)
  | tuple (fields : List WireType)
  deriving Repr, Inhabited

namespace WireType

/-- The type of 32 bit integers, which a plain integer has unless it is told otherwise. -/
abbrev int32 : WireType := .basic (.integer .int32)

/-- The type of strings. -/
abbrev string : WireType := .basic .string

/-! ## Equality -/

mutual

/-- The two types are one and the same. -/
def same : WireType → WireType → Bool
  | .basic a, .basic b => a = b
  | .variant, .variant => true
  | .array a, .array b => same a b
  | .dict a b, .dict c d => same a c && same b d
  | .entry a b, .entry c d => same a c && same b d
  | .struct a, .struct b => sameAll a b
  | .tuple a, .tuple b => sameAll a b
  | _, _ => false

/-- The two rows of types are one and the same. -/
def sameAll : List WireType → List WireType → Bool
  | [], [] => true
  | a :: as, b :: bs => same a b && sameAll as bs
  | _, _ => false

end

mutual

theorem eq_of_same : ∀ {a b : WireType}, same a b = true → a = b
  | .basic _, b, h => by cases b <;> simp_all [same]
  | .variant, b, h => by cases b <;> simp_all [same]
  | .array a, b, h => by
    cases b <;> simp only [same, Bool.false_eq_true] at h
    rw [eq_of_same h]
  | .dict _ _, b, h => by
    cases b <;> simp only [same, Bool.false_eq_true, Bool.and_eq_true] at h
    rw [eq_of_same h.1, eq_of_same h.2]
  | .entry _ _, b, h => by
    cases b <;> simp only [same, Bool.false_eq_true, Bool.and_eq_true] at h
    rw [eq_of_same h.1, eq_of_same h.2]
  | .struct _, b, h => by
    cases b <;> simp only [same, Bool.false_eq_true] at h
    rw [eq_of_sameAll h]
  | .tuple _, b, h => by
    cases b <;> simp only [same, Bool.false_eq_true] at h
    rw [eq_of_sameAll h]

theorem eq_of_sameAll : ∀ {as bs : List WireType}, sameAll as bs = true → as = bs
  | [], bs, h => by cases bs <;> simp_all [sameAll]
  | a :: as, bs, h => by
    cases bs <;> simp only [sameAll, Bool.false_eq_true, Bool.and_eq_true] at h
    rw [eq_of_same h.1, eq_of_sameAll h.2]

end

mutual

theorem same_self : ∀ a : WireType, same a a = true
  | .basic _ => by simp [same]
  | .variant => by simp [same]
  | .array a => by simp [same, same_self a]
  | .dict a b => by simp [same, same_self a, same_self b]
  | .entry a b => by simp [same, same_self a, same_self b]
  | .struct as => by simp [same, sameAll_self as]
  | .tuple as => by simp [same, sameAll_self as]

theorem sameAll_self : ∀ as : List WireType, sameAll as as = true
  | [] => by simp [sameAll]
  | a :: as => by simp [sameAll, same_self a, sameAll_self as]

end

theorem same_eq_true_iff {a b : WireType} : same a b = true ↔ a = b :=
  ⟨eq_of_same, fun h => h ▸ same_self a⟩

instance : DecidableEq WireType := fun _ _ => decidable_of_iff _ same_eq_true_iff

/-! ## Signatures -/

mutual

/-- The signature of a type. -/
def signature : WireType → Text
  | .basic b => [b.code]
  | .variant => [.scalar 'v']
  | .array e => .scalar 'a' :: signature e
  | .dict k v => .scalar 'a' :: .scalar '{' :: (signature k ++ signature v ++ [.scalar '}'])
  | .entry k v => .scalar '{' :: (signature k ++ signature v ++ [.scalar '}'])
  | .struct fs => .scalar '(' :: (signatures fs ++ [.scalar ')'])
  | .tuple fs => signatures fs

/-- The signatures of a row of types, one after the other. -/
def signatures : List WireType → Text
  | [] => []
  | t :: ts => signature t ++ signatures ts

end

theorem signatures_eq_flatMap : ∀ ts : List WireType, signatures ts = ts.flatMap signature
  | [] => rfl
  | t :: ts => by rw [signatures, signatures_eq_flatMap ts, List.flatMap_cons]

@[simp] theorem signatures_append (ts us : List WireType) :
    signatures (ts ++ us) = signatures ts ++ signatures us := by
  simp [signatures_eq_flatMap]

/-! ## Names -/

mutual

/-- The name of a type. -/
def name : WireType → Text
  | .basic b => b.name
  | .variant => "Variant"
  | .array e => .concat ["Array[", name e, "]"]
  | .dict k v => .concat ["Dict[", name k, ", ", name v, "]"]
  | .entry k v => .concat ["DictEntry[", name k, ", ", name v, "]"]
  | .struct fs => .concat ["Struct[", .join ", " (names fs), "]"]
  | .tuple fs => .concat ["Tuple[", .join ", " (names fs), "]"]

/-- The names of a row of types. -/
def names : List WireType → List Text
  | [] => []
  | t :: ts => name t :: names ts

end

end WireType

end TypedBus
