import TypedBus.Proofs.Message.Nesting
import Mathlib.Data.List.Induction

/-!
# Markers that belong together

Which closing marker belongs to which opening one, said of the places of a row of items: between the
two every container that is opened is closed, and nothing else is (`Item.Closes`). A container is
still open at a place if its opening marker stands before that, and the closing marker that belongs
to it does not (`Item.StillOpen`).

`Item.Leaves` takes a row of items apart at the markers of the containers that it leaves open.

* `Item.Leaves.mem_iff`: these are just the containers that are still open behind the row.
* `Item.toClosing_eq_some_iff`: looking for a closing marker with a count of what is open on the way
  finds the one that belongs to the innermost container.
* `Item.Leaves.exists_closing`: in a balanced row there is one for every open container.
-/

namespace TypedBus

namespace Item

/-- Every container that is opened among the items is closed among them, and nothing else is. -/
inductive Balanced : List Item → Prop
  | nil : Balanced []
  | basic {code : Text} {v : Value} {items : List Item} (h : Balanced items) :
      Balanced (.basic code v :: items)
  | bracket {c : Container} {inside items : List Item} (hin : Balanced inside)
      (h : Balanced items) : Balanced (.opening c :: (inside ++ .closing :: items))

/-- The opening marker at the first place belongs to the closing marker at the second. -/
def Closes (items : List Item) (i j : Nat) : Prop :=
  ∃ before c inside behind, items = before ++ .opening c :: (inside ++ .closing :: behind) ∧
    before.length = i ∧ Balanced inside ∧ j = i + 1 + inside.length

/-- The container that is opened at the second place is not closed before the first. -/
structure StillOpen (items : List Item) (n i : Nat) : Prop where
  before : i < n
  opening : ∃ c, items[i]? = some (.opening c)
  unclosed : ∀ j < n, ¬ Closes items i j

/-- The items leave open the containers that are opened at these places, the innermost first. -/
inductive Leaves : List Nat → List Item → Prop
  | balanced {items : List Item} (h : Balanced items) : Leaves [] items
  | inside {places : List Nat} {before inside : List Item} {c : Container}
      (hp : Leaves places before) (hin : Balanced inside) :
      Leaves (before.length :: places) (before ++ .opening c :: inside)

/-- How many containers an item opens. -/
def weight : Item → Int
  | opening _ => 1
  | closing => -1
  | basic _ _ => 0

/-- How many more containers are opened among the items than closed. -/
def depth : List Item → Int
  | [] => 0
  | item :: items => item.weight + depth items

variable {items more before inside behind : List Item} {places : List Nat} {i j n d : Nat}

@[simp] theorem depth_nil : depth [] = 0 := rfl

@[simp] theorem depth_cons (item : Item) : depth (item :: items) = item.weight + depth items :=
  rfl

@[simp] theorem depth_append : depth (items ++ more) = depth items + depth more := by
  induction items with
  | nil => simp
  | cons item items ih => simp [ih, Int.add_assoc]

/-! ## Balanced rows -/

namespace Balanced

theorem append (h : Balanced items) (hmore : Balanced more) : Balanced (items ++ more) := by
  induction h with
  | nil => exact hmore
  | basic _ ih => exact .basic ih
  | bracket hin _ _ ih =>
    rw [List.cons_append, List.append_assoc, List.cons_append]
    exact .bracket hin ih

theorem depth (h : Balanced items) : depth items = 0 := by
  induction h with
  | nil => rfl
  | basic _ ih => simp [weight, ih]
  | bracket _ _ ihin ih => simp [weight, ihin, ih]

/-- A balanced row is passed over as a whole. -/
theorem toClosing (h : Balanced items) :
    ∀ d, toClosing d (items ++ more) = (toClosing d more).map (· + items.length) := by
  induction h generalizing more with
  | nil => exact fun d => by simp
  | basic _ ih =>
    intro d
    rw [List.cons_append, Item.toClosing, ih, Option.map_map]
    rfl
  | @bracket c inside items _ _ ihin ih =>
    intro d
    rw [List.cons_append, List.append_assoc, List.cons_append, Item.toClosing, ihin,
      Item.toClosing, ih]
    simp only [Option.map_map, Function.comp_def, List.length_cons, List.length_append,
      Nat.add_assoc, Nat.add_left_comm, Nat.add_comm]

end Balanced

/-- Complete values are balanced. -/
theorem Spells.balanced {R : Rules} {parent : Option Kind} {ss : List Text}
    (h : Spells R parent ss items) : Balanced items := by
  induction h with
  | nil => exact .nil
  | basic _ _ ih => exact .basic ih
  | container _ _ _ _ _ ihin ih => exact .bracket ihin ih

theorem WellFormed.balanced (h : WellFormed items) : Balanced items := by
  obtain ⟨_, hss⟩ := h
  exact hss.balanced

/-- **The closing marker that ends the container around a row is found**, and what has been passed
over is balanced. -/
theorem toClosing_eq_some_iff : toClosing 0 items = some n ↔
    ∃ inside behind, items = inside ++ .closing :: behind ∧ Balanced inside ∧
      inside.length = n := by
  -- at any depth the first marker that closes the innermost container ends a balanced row
  have split : ∀ k, ∀ items : List Item, items.length ≤ k → ∀ {d n}, toClosing d items = some n →
      ∃ inside behind, items = inside ++ .closing :: behind ∧ Balanced inside := by
    intro k
    induction k with
    | zero =>
      intro items hlen d n h
      rw [List.eq_nil_of_length_eq_zero (Nat.le_zero.mp hlen)] at h
      cases h
    | succ k ih =>
      intro items hlen d n h
      rcases items with _ | ⟨_ | c | _, items⟩
      · cases h
      · obtain ⟨_, h, -⟩ := Option.map_eq_some_iff.mp (by rwa [toClosing] at h)
        obtain ⟨inside, behind, rfl, hin⟩ := ih items (Nat.le_of_succ_le_succ hlen) h
        exact ⟨_ :: inside, behind, rfl, .basic hin⟩
      · obtain ⟨_, h, -⟩ := Option.map_eq_some_iff.mp (by rwa [toClosing] at h)
        obtain ⟨inner, rest, rfl, hinner⟩ := ih items (Nat.le_of_succ_le_succ hlen) h
        rw [hinner.toClosing, toClosing, Option.map_map] at h
        obtain ⟨_, h, -⟩ := Option.map_eq_some_iff.mp h
        have hrest : rest.length ≤ k := by
          simp only [List.length_cons, List.length_append] at hlen
          omega
        obtain ⟨inside, behind, rfl, hin⟩ := ih rest hrest h
        exact ⟨.opening c :: (inner ++ .closing :: inside), behind, by simp, .bracket hinner hin⟩
      · exact ⟨[], items, rfl, .nil⟩
  constructor
  · intro h
    obtain ⟨inside, behind, rfl, hin⟩ := split _ items (Nat.le_refl _) h
    rw [hin.toClosing, toClosing, Option.map_some, Nat.zero_add, Option.some.injEq] at h
    exact ⟨inside, behind, rfl, hin, h⟩
  · rintro ⟨inside, behind, rfl, hin, rfl⟩
    rw [hin.toClosing, toClosing, Option.map_some, Nat.zero_add]

/-! ## Places of markers -/

namespace Closes

theorem lt (h : Closes items i j) : i < j ∧ j < items.length := by
  obtain ⟨before, c, inside, behind, rfl, rfl, -, rfl⟩ := h
  simp only [List.length_append, List.length_cons]
  omega

theorem append_right (h : Closes items i j) (more : List Item) : Closes (items ++ more) i j := by
  obtain ⟨before, c, inside, behind, rfl, hi, hin, hj⟩ := h
  exact ⟨before, c, inside, behind ++ more, by simp, hi, hin, hj⟩

theorem append_left (h : Closes items i j) (more : List Item) :
    Closes (more ++ items) (more.length + i) (more.length + j) := by
  obtain ⟨before, c, inside, behind, rfl, rfl, hin, rfl⟩ := h
  exact ⟨more ++ before, c, inside, behind, by simp, by simp, hin, by omega⟩

theorem cons (h : Closes items i j) (item : Item) : Closes (item :: items) (i + 1) (j + 1) := by
  simpa [Nat.add_comm] using h.append_left [item]

theorem getElem?_eq (h : Closes items i j) : items[j]? = some .closing := by
  obtain ⟨before, c, inside, behind, rfl, rfl, -, rfl⟩ := h
  rw [List.getElem?_append_right (by omega)]
  simp [Nat.add_assoc, Nat.add_comm 1]

/-- The closing marker that belongs to an opening one is the one that is found from there. -/
theorem toClosing (h : Closes items i j) :
    toClosing 0 (items.drop (i + 1)) = some (j - (i + 1)) := by
  obtain ⟨before, c, inside, behind, rfl, rfl, hin, rfl⟩ := h
  refine toClosing_eq_some_iff.mpr ⟨inside, behind, ?_, hin, by omega⟩
  rw [List.drop_append, List.drop_of_length_le (Nat.le_succ _)]
  simp

end Closes

/-- In a balanced row every container that is opened is closed. -/
theorem Balanced.exists_closes {c : Container} (h : Balanced items)
    (hi : items[i]? = some (.opening c)) : ∃ j, Closes items i j := by
  induction h generalizing i with
  | nil => cases hi
  | basic _ ih =>
    cases i with
    | zero => cases hi
    | succ i =>
      obtain ⟨j, hj⟩ := ih hi
      exact ⟨_, hj.cons _⟩
  | @bracket c' inside items hin _ ihin ih =>
    cases i with
    | zero => exact ⟨_, [], c', inside, items, rfl, rfl, hin, rfl⟩
    | succ i =>
      rw [List.getElem?_cons_succ] at hi
      suffices ∃ j, Closes (inside ++ .closing :: items) i j by
        obtain ⟨j, hj⟩ := this
        exact ⟨_, hj.cons _⟩
      rcases Nat.lt_or_ge i inside.length with hlt | hge
      · rw [List.getElem?_append_left hlt] at hi
        obtain ⟨j, hj⟩ := ihin hi
        exact ⟨j, hj.append_right _⟩
      · rw [List.getElem?_append_right hge] at hi
        obtain ⟨k, hk⟩ : ∃ k, i - inside.length = k := ⟨_, rfl⟩
        rw [hk] at hi
        cases k with
        | zero => cases hi
        | succ k =>
          obtain ⟨j, hj⟩ := ih hi
          obtain rfl : i = inside.length + (k + 1) := by omega
          exact ⟨_, (hj.cons .closing).append_left inside⟩

/-! ## What a row of items leaves open -/

namespace Leaves

theorem append (h : Leaves places items) (hmore : Balanced more) :
    Leaves places (items ++ more) := by
  cases h with
  | balanced h => exact .balanced (h.append hmore)
  | inside hp hin =>
    rw [List.append_assoc, List.cons_append]
    exact .inside hp (hin.append hmore)

/-- An opening marker opens a container more. -/
theorem opening (h : Leaves places items) (c : Container) :
    Leaves (items.length :: places) (items ++ [.opening c]) :=
  .inside h .nil

/-- A closing marker closes the innermost container. -/
theorem closing (h : Leaves (i :: places) items) : Leaves places (items ++ [.closing]) := by
  cases h with
  | inside hp hin =>
    rw [List.append_assoc, List.cons_append]
    exact hp.append (.bracket hin .nil)

theorem depth (h : Leaves places items) : depth items = places.length := by
  induction h with
  | balanced h => exact h.depth
  | inside _ hin ih => simp [weight, hin.depth, ih]

theorem lt (h : Leaves places items) : ∀ i ∈ places, i < items.length := by
  induction h with
  | balanced => exact List.forall_mem_nil _
  | inside _ _ ih =>
    simp only [List.length_append, List.length_cons]
    refine List.forall_mem_cons.mpr ⟨by omega, fun i hi => ?_⟩
    have := ih i hi
    omega

theorem ordered (h : Leaves places items) : places.Pairwise (· > ·) := by
  induction h with
  | balanced => exact .nil
  | inside hp _ ih => exact .cons hp.lt ih

theorem exists_opening (h : Leaves places items) (hi : i ∈ places) :
    ∃ c, items[i]? = some (.opening c) := by
  induction h with
  | balanced => cases hi
  | @inside places before inside c hp _ ih =>
    rcases List.mem_cons.mp hi with rfl | hi
    · exact ⟨c, by simp⟩
    · rw [List.getElem?_append_left (hp.lt i hi)]
      exact ih hi

/-- From inside an open container on, its closing marker is looked for behind the row. -/
theorem exists_toClosing (h : Leaves places items) (hi : i ∈ places) :
    ∃ d, ∀ more, toClosing 0 (items.drop (i + 1) ++ more) =
      (toClosing d more).map (· + (items.drop (i + 1)).length) := by
  induction h with
  | balanced => cases hi
  | @inside places before inside c hp hin ih =>
    rcases List.mem_cons.mp hi with rfl | hi
    · refine ⟨0, fun more => ?_⟩
      have hdrop : (before ++ .opening c :: inside).drop (before.length + 1) = inside := by
        rw [List.drop_length_add_append, List.drop_one, List.tail_cons]
      rw [hdrop]
      exact hin.toClosing 0
    · obtain ⟨d, hd⟩ := ih hi
      refine ⟨d + 1, fun more => ?_⟩
      rw [List.drop_append_of_le_length (Nat.succ_le_of_lt (hp.lt i hi)), List.append_assoc, hd,
        List.cons_append, toClosing, hin.toClosing]
      simp only [Option.map_map, Function.comp_def, List.length_append, List.length_cons,
        Nat.succ_eq_add_one, Nat.add_assoc, Nat.add_comm]

/-- The first marker behind the row that closes more than has been opened there belongs to the
innermost container. -/
theorem closes (h : Leaves (i :: places) items) (hin : Balanced inside) (behind : List Item) :
    Closes (items ++ (inside ++ .closing :: behind)) i (items.length + inside.length) := by
  cases h with
  | @inside _ before inner c _ hinner =>
    refine ⟨before, c, inner ++ inside, behind, by simp, rfl, hinner.append hin, ?_⟩
    simp only [List.length_append, List.length_cons]
    omega

/-- The closing marker of an open container stands behind the row. -/
theorem le_of_closes (h : Leaves places items) (hi : i ∈ places)
    (hc : Closes (items ++ more) i j) : items.length ≤ j := by
  have hlt := h.lt i hi
  have hij := hc.lt.1
  obtain ⟨d, hd⟩ := h.exists_toClosing hi
  have hfound := hc.toClosing
  rw [List.drop_append_of_le_length hlt, hd, Option.map_eq_some_iff] at hfound
  obtain ⟨k, -, hk⟩ := hfound
  rw [List.length_drop] at hk
  omega

/-- What is opened in a row of items is closed in it or left open. -/
theorem mem_or_closes {c : Container} (h : Leaves places items)
    (hi : items[i]? = some (.opening c)) : i ∈ places ∨ ∃ j, Closes items i j := by
  induction h with
  | balanced h => exact .inr (h.exists_closes hi)
  | @inside places before inside c' _ hin ih =>
    rcases Nat.lt_trichotomy i before.length with hlt | rfl | hgt
    · rw [List.getElem?_append_left hlt] at hi
      refine (ih hi).imp (List.mem_cons_of_mem _) fun ⟨j, hj⟩ => ⟨j, hj.append_right _⟩
    · exact .inl List.mem_cons_self
    · right
      rw [List.getElem?_append_right (Nat.le_of_lt hgt)] at hi
      obtain ⟨k, hk⟩ : ∃ k, i = before.length + (k + 1) := ⟨i - before.length - 1, by omega⟩
      rw [hk, Nat.add_sub_cancel_left, List.getElem?_cons_succ] at hi
      obtain ⟨j, hj⟩ := hin.exists_closes hi
      exact ⟨_, hk ▸ (hj.cons _).append_left before⟩

/-- **The first items leave open just the containers that are still open behind them.** -/
theorem mem_iff (h : Leaves places (items.take n)) (hn : n ≤ items.length) :
    i ∈ places ↔ StillOpen items n i := by
  have hlen : (items.take n).length = n := List.length_take_of_le hn
  constructor
  · intro hi
    have hlt : i < n := hlen ▸ h.lt i hi
    obtain ⟨c, hc⟩ := h.exists_opening hi
    refine ⟨hlt, ⟨c, by rwa [List.getElem?_take_of_lt hlt] at hc⟩, fun j hj hcloses => ?_⟩
    rw [← List.take_append_drop n items] at hcloses
    have hle := h.le_of_closes hi hcloses
    omega
  · rintro ⟨hlt, ⟨c, hc⟩, hunclosed⟩
    rw [← List.getElem?_take_of_lt hlt] at hc
    refine (h.mem_or_closes hc).resolve_right fun ⟨j, hj⟩ => ?_
    have hcloses := hj.append_right (items.drop n)
    rw [List.take_append_drop] at hcloses
    exact hunclosed j (hlen ▸ hj.lt.2) hcloses

/-- **In a balanced row every open container has a closing marker.** -/
theorem exists_closing (h : Leaves (i :: places) items) (hb : Balanced (items ++ more)) :
    ∃ inside behind, more = inside ++ .closing :: behind ∧ Balanced inside := by
  -- otherwise what follows only leaves further containers open
  have follow : ∀ more : List Item, (∃ places, Leaves places more) ∨
      ∃ inside behind, more = inside ++ .closing :: behind ∧ Balanced inside := by
    intro more
    induction more using List.reverseRecOn with
    | nil => exact .inl ⟨[], .balanced .nil⟩
    | append_singleton more item ih =>
      rcases ih with ⟨places, hp⟩ | ⟨inside, behind, rfl, hin⟩
      · cases item with
        | basic code v => exact .inl ⟨places, hp.append (.basic .nil)⟩
        | opening c => exact .inl ⟨_, hp.opening c⟩
        | closing =>
          cases hp with
          | balanced hin => exact .inr ⟨more, [], rfl, hin⟩
          | inside hp hin => exact .inl ⟨_, (Leaves.inside hp hin).closing⟩
      · exact .inr ⟨inside, behind ++ [item], by simp, hin⟩
  refine (follow more).resolve_left fun ⟨places', hp⟩ => ?_
  have hdepth := hb.depth
  rw [depth_append, h.depth, hp.depth, List.length_cons] at hdepth
  omega

end Leaves

end Item

end TypedBus
