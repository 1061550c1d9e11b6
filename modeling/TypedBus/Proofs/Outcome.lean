import Mathlib.Data.List.Forall2

/-!
# Outcomes that are answers

Most functions of this library give an answer or a fault. These lemmas take apart an answer that
was put together of several, and an answer for every element of a row. `Ends` says at once what
answers and what faults there can be.
-/

namespace TypedBus

variable {ε α β : Type}

theorem bind_eq_ok {x : Except ε α} {f : α → Except ε β} {b : β} :
    (x >>= f) = .ok b ↔ ∃ a, x = .ok a ∧ f a = .ok b := by
  cases x <;> simp [bind, Except.bind]

theorem ok_bind (a : α) (f : α → Except ε β) : (.ok a >>= f) = f a := rfl

/-- What is done with an answer matters only where there is one. -/
theorem bind_congr_of_ok {x : Except ε α} {f g : α → Except ε β} (h : ∀ a, x = .ok a → f a = g a) :
    (x >>= f) = (x >>= g) := by
  cases x with
  | error e => rfl
  | ok a => exact h a rfl

/-- An answer for a row is a row of answers. -/
theorem mapM_eq_ok_iff {f : α → Except ε β} {as : List α} {bs : List β} :
    as.mapM f = .ok bs ↔ List.Forall₂ (fun a b => f a = .ok b) as bs := by
  induction as generalizing bs with
  | nil => simp [pure, Except.pure, eq_comm]
  | cons a as ih =>
    rw [List.mapM_cons, List.forall₂_cons_left_iff, bind_eq_ok]
    constructor
    · rintro ⟨b, hb, h⟩
      obtain ⟨bs', hbs, h⟩ := bind_eq_ok.mp h
      cases h
      exact ⟨b, bs', hb, ih.mp hbs, rfl⟩
    · rintro ⟨b, bs', hb, hbs, rfl⟩
      exact ⟨b, hb, bind_eq_ok.mpr ⟨bs', ih.mpr hbs, rfl⟩⟩

/-- What holds of everything related to something holds of every element of a related row. -/
theorem forall_of_forall₂ {R : α → β → Prop} {P : β → Prop} (hR : ∀ a b, R a b → P b)
    {as : List α} {bs : List β} (h : List.Forall₂ R as bs) : ∀ b ∈ bs, P b := by
  induction h with
  | nil => exact nofun
  | cons hab _ ih => exact List.forall_mem_cons.mpr ⟨hR _ _ hab, ih⟩

/-- Every element of a row is related to one of a related row. -/
theorem exists_of_forall₂ {R : α → β → Prop} {as : List α} {bs : List β}
    (h : List.Forall₂ R as bs) : ∀ a ∈ as, ∃ b ∈ bs, R a b := by
  induction h with
  | nil => exact nofun
  | cons hab _ ih =>
    refine List.forall_mem_cons.mpr ⟨⟨_, List.mem_cons_self, hab⟩, fun a ha => ?_⟩
    obtain ⟨b, hb, hab⟩ := ih a ha
    exact ⟨b, List.mem_cons_of_mem _ hb, hab⟩

/-- A row of elements that are all related to something is related to a row. -/
theorem exists_forall₂ {R : α → β → Prop} {as : List α} (h : ∀ a ∈ as, ∃ b, R a b) :
    ∃ bs, List.Forall₂ R as bs := by
  induction as with
  | nil => exact ⟨[], .nil⟩
  | cons a as ih =>
    obtain ⟨⟨b, hb⟩, has⟩ := List.forall_mem_cons.mp h
    obtain ⟨bs, hbs⟩ := ih has
    exact ⟨b :: bs, .cons hb hbs⟩

/-- Rows whose elements are related through something are related through a row. -/
theorem exists_of_forall₂_exists {γ : Type} {S : β → γ → Prop} {T : α → γ → Prop} {as : List α}
    {bs : List β} (h : List.Forall₂ (fun a b => ∃ c, S b c ∧ T a c) as bs) :
    ∃ cs, List.Forall₂ S bs cs ∧ List.Forall₂ T as cs := by
  induction h with
  | nil => exact ⟨[], .nil, .nil⟩
  | cons hab _ ih =>
    obtain ⟨c, hS, hT⟩ := hab
    obtain ⟨cs, hSs, hTs⟩ := ih
    exact ⟨c :: cs, .cons hS hSs, .cons hT hTs⟩

/-- Where the pairs of two rows are related to a third row, that is no longer than the first, and
pairs with it have what follows from being related. -/
theorem forall_zip_of_forall₂ {γ : Type} {R : α × β → γ → Prop} {Q : α → γ → Prop} :
    ∀ {as : List α} {bs : List β} {cs : List γ},
      (∀ p ∈ as.zip bs, ∀ c, R p c → Q p.1 c) → List.Forall₂ R (as.zip bs) cs →
        cs.length ≤ as.length ∧ ∀ p ∈ as.zip cs, Q p.1 p.2
  | [], _, _, _, h => by
    rw [List.zip_nil_left] at h
    cases h
    exact ⟨Nat.le_refl _, nofun⟩
  | _ :: _, [], _, _, h => by
    rw [List.zip_nil_right] at h
    cases h
    exact ⟨Nat.zero_le _, nofun⟩
  | a :: as, b :: bs, cs, hall, h => by
    rw [List.zip_cons_cons] at hall h
    obtain ⟨c, cs', hc, hcs, rfl⟩ := List.forall₂_cons_left_iff.mp h
    obtain ⟨hfirst, hrest⟩ := List.forall_mem_cons.mp hall
    obtain ⟨hlen, hpairs⟩ := forall_zip_of_forall₂ hrest hcs
    refine ⟨Nat.succ_le_succ hlen, ?_⟩
    rw [List.zip_cons_cons]
    exact List.forall_mem_cons.mpr ⟨hfirst c hc, hpairs⟩

/-- The elements at one place of related rows are related. -/
theorem forall₂_getElem? {R : α → β → Prop} {as : List α} {bs : List β}
    (h : List.Forall₂ R as bs) : ∀ {k : Nat} {a : α} {b : β}, as[k]? = some a → bs[k]? = some b →
      R a b := by
  induction h with
  | nil => exact nofun
  | cons hab _ ih =>
    intro k a b ha hb
    cases k with
    | zero =>
      cases ha
      cases hb
      exact hab
    | succ k => exact ih ha hb

/-- Elements put one by one behind a row are the row with them behind it. -/
theorem foldlM_push (as : List α) :
    ∀ bs : List α, bs.foldlM (fun as b => (.ok (as ++ [b]) : Except ε (List α))) as =
      .ok (as ++ bs)
  | [] => by simp [pure, Except.pure]
  | b :: bs => by
    rw [List.foldlM_cons]
    simpa [bind, Except.bind] using foldlM_push (as ++ [b]) bs

/-- What ends in an answer ends in one of some sort, and what ends in a fault likewise. -/
def Ends (F : ε → Prop) (A : α → Prop) : Except ε α → Prop
  | .ok a => A a
  | .error f => F f

namespace Ends

variable {F : ε → Prop} {A : α → Prop} {B : β → Prop} {x : Except ε α} {g : α → Except ε β}

theorem bind (hx : Ends F A x) (hg : ∀ a, x = .ok a → A a → Ends F B (g a)) :
    Ends F B (x >>= g) := by
  cases x with
  | error f => exact hx
  | ok a => exact hg a rfl hx

theorem of_ok {a : α} (h : Ends F A x) (ha : x = .ok a) : A a := by
  cases ha
  exact h

theorem of_error {f : ε} (h : Ends F A x) (hf : x = .error f) : F f := by
  cases hf
  exact h

theorem mono {C : α → Prop} (h : Ends F A x) (hAC : ∀ a, x = .ok a → A a → C a) :
    Ends F C x := by
  cases x with
  | error f => exact h
  | ok a => exact hAC a rfl h

theorem mono_fault {G : ε → Prop} (h : Ends F A x) (hFG : ∀ f, F f → G f) : Ends G A x := by
  cases x with
  | error f => exact hFG f h
  | ok a => exact h

theorem ite {c : Prop} [Decidable c] {y : Except ε α} (hx : c → Ends F A x)
    (hy : ¬ c → Ends F A y) : Ends F A (if c then x else y) := by
  split
  · exact hx ‹c›
  · exact hy ‹¬ c›

/-- What is done with every element of a row ends as it does with each. -/
theorem mapM {R : α → β → Prop} {as : List α} (h : ∀ a ∈ as, Ends F (R a) (g a)) :
    Ends F (List.Forall₂ R as) (as.mapM g) := by
  induction as with
  | nil => exact .nil
  | cons a as ih =>
    obtain ⟨ha, has⟩ := List.forall_mem_cons.mp h
    rw [List.mapM_cons]
    exact ha.bind fun b _ hb => (ih has).bind fun bs _ hbs => .cons hb hbs

/-- What is kept at every step is kept by a run over a row. -/
theorem foldlM {g : β → α → Except ε β} {as : List α}
    (h : ∀ a ∈ as, ∀ b, B b → Ends F B (g b a)) : ∀ {b : β}, B b → Ends F B (as.foldlM g b) := by
  induction as with
  | nil => exact id
  | cons a as ih =>
    intro b hb
    obtain ⟨ha, has⟩ := List.forall_mem_cons.mp h
    rw [List.foldlM_cons]
    exact (ha b hb).bind fun _ _ hb => ih has hb

end Ends

section

variable {m : Type → Type} [Monad m]

theorem mapM_congr [LawfulMonad m] {f g : α → m β} {as : List α} (h : ∀ a ∈ as, f a = g a) :
    as.mapM f = as.mapM g := by
  induction as with
  | nil => rfl
  | cons a as ih =>
    obtain ⟨ha, has⟩ := List.forall_mem_cons.mp h
    rw [List.mapM_cons, List.mapM_cons, ha, ih has]

theorem foldlM_congr {f g : β → α → m β} {as : List α} (h : ∀ a ∈ as, ∀ b, f b a = g b a) :
    ∀ b, as.foldlM f b = as.foldlM g b := by
  induction as with
  | nil => exact fun _ => rfl
  | cons a as ih =>
    intro b
    obtain ⟨ha, has⟩ := List.forall_mem_cons.mp h
    rw [List.foldlM_cons, List.foldlM_cons, ha]
    exact congrArg _ (funext fun b' => ih has b')

end

end TypedBus
