import Mathlib.Data.List.Induction
import Mathlib.Data.List.Nodup
import TypedBus.Proofs.Registry
import TypedBus.Proofs.Wire.Parse

/-!
# Registrations one after the other

What a row of calls makes of a registry that starts out empty or with the common types. A call on a
registry leaves it alone, freezes it, or adds one type in reduced form (`perform_cases`); so a
signature that has a type keeps it (`lookup_after`), every type was there at the start or came by
the first call that registered its signature (`registered_first`), and a frozen registry stays as it
is (`after_of_isFrozen`).

* `registers_first`: all of this, for every row of calls, together with what a call that registers
  a type answers.
-/

namespace TypedBus

namespace Registry

open Signature

/-- A call on a registry. -/
inductive Call
  | register (e : TypeExpr)
  | freeze
  | lookup (signature : Text)

/-- What a call answers, or raises, and the registry after it. -/
def Call.perform (r : Registry) : Call → Except Fault (Option WireType) × Registry
  | register e =>
    match r.register e with
    | .ok (t, r') => (.ok (some t), r')
    | .error f => (.error f, r)
  | freeze => (.ok none, r.freeze)
  | lookup s => (.ok (r.lookup? s), r)

/-- The registry after a row of calls, whatever came of each. -/
def after (calls : List Call) (r : Registry) : Registry :=
  calls.foldl (fun r c => (c.perform r).2) r

/-- A registry at the start: with the common types, or empty. -/
def initial (withCommon : Bool) : Registry := if withCommon then common else {}

variable {r r' : Registry} {c : Call} {e : TypeExpr} {s : Text} {t u : WireType}

/-! ## One call -/

/-- A type is registered unless the registry is frozen or the expression names no type in reduced
form; then nothing else is looked at. -/
theorem register_eq_ok_iff :
    r.register e = .ok (t, r') ↔
      r.isFrozen = false ∧ ∃ u, e.canonical = .ok u ∧ u.isReduced = true ∧ r.add u = (t, r') := by
  unfold register
  cases hf : r.isFrozen with
  | true => simp
  | false =>
    simp only [Bool.false_eq_true, if_false, true_and, bind_eq_ok]
    refine exists_congr fun u => and_congr_right fun _ => ?_
    by_cases hu : u.isReduced = true <;> simp [hu]

/-- A call leaves the registry alone, freezes it, or adds a type in reduced form to it. -/
theorem perform_cases (r : Registry) (c : Call) :
    (c.perform r).2 = r ∨ (c.perform r).2 = r.freeze ∨
      ∃ e u, c = .register e ∧ r.isFrozen = false ∧ e.canonical = .ok u ∧ u.isReduced = true ∧
        (c.perform r).2 = (r.add u).2 := by
  cases c with
  | lookup s => exact .inl rfl
  | freeze => exact .inr (.inl rfl)
  | register e =>
    simp only [Call.perform]
    split
    · rename_i t r' h
      obtain ⟨hf, u, he, hu, hadd⟩ := register_eq_ok_iff.mp h
      exact .inr (.inr ⟨e, u, rfl, hf, he, hu, by rw [hadd]⟩)
    · exact .inl rfl

/-- A call that raises leaves the registry as it is. -/
theorem perform_of_error {f : Fault} (h : (c.perform r).1 = .error f) : (c.perform r).2 = r := by
  cases c with
  | lookup s => rfl
  | freeze => cases h
  | register e =>
    simp only [Call.perform] at h ⊢
    split at h
    · cases h
    · rfl

theorem perform_of_isFrozen (h : r.isFrozen = true) (c : Call) : (c.perform r).2 = r := by
  rcases perform_cases r c with hkeep | hfreeze | ⟨e, u, -, hf, -⟩
  · exact hkeep
  · rw [hfreeze, freeze, ← h]
  · rw [h] at hf
    cases hf

/-! ## The table -/

/-- The signature has the type of its first entry. -/
theorem lookup_add (r : Registry) (t : WireType) :
    (r.add t).2.lookup? t.signature = some (r.add t).1 := by
  unfold add
  split
  · assumption
  · rename_i hnone
    rw [lookup?, Option.map_eq_none_iff] at hnone
    simp [lookup?, List.find?_append, hnone]

/-- What is added later does not come before what is there. -/
theorem lookup_add_of_some (h : r.lookup? s = some t) (u : WireType) :
    (r.add u).2.lookup? s = some t := by
  unfold add
  split
  · exact h
  · obtain ⟨x, hx, rfl⟩ := Option.map_eq_some_iff.mp h
    simp [lookup?, List.find?_append, hx]

/-- What an added type changes is the type of its own signature, if that had none. -/
theorem lookup_of_lookup_add (h : (r.add u).2.lookup? s = some t) :
    r.lookup? s = some t ∨ r.lookup? s = none ∧ t = u ∧ u.signature = s := by
  rcases hs : r.lookup? s with _ | t'
  · refine .inr ⟨rfl, ?_⟩
    unfold add at h
    split at h
    · rw [hs] at h
      cases h
    · rw [lookup?, Option.map_eq_none_iff] at hs
      simp only [lookup?, List.find?_append, hs, Option.none_or] at h
      by_cases hsig : u.signature = s
      · simp only [hsig, List.find?_cons, decide_true, Option.map_some, Option.some.injEq] at h
        exact ⟨h.symm, hsig⟩
      · simp [hsig] at h
  · rw [lookup_add_of_some hs] at h
    exact .inl h

theorem nodup_add (h : r.signatures.Nodup) (t : WireType) : (r.add t).2.signatures.Nodup := by
  unfold add
  split
  · exact h
  · rename_i hnone
    rw [lookup?, Option.map_eq_none_iff, List.find?_eq_none] at hnone
    simp only [signatures, List.map_append, List.map_cons, List.map_nil]
    refine List.nodup_append.mpr ⟨h, List.nodup_singleton _, ?_⟩
    rintro s hs _ htail rfl
    obtain ⟨x, hx, rfl⟩ := List.mem_map.mp hs
    exact hnone x hx (by simpa using htail)

theorem Filled.nodup (h : Filled r) : r.signatures.Nodup := by
  induction h with
  | empty => exact List.nodup_nil
  | register _ h ih =>
    obtain ⟨u, -, -, rfl⟩ := register_eq_ok h
    exact nodup_add ih u
  | freeze _ ih => exact ih

/-- Each entry of the table is the one that is found for its signature. -/
theorem Filled.lookup_eq_some_iff (h : Filled r) : r.lookup? s = some t ↔ (s, t) ∈ r.types := by
  constructor
  · intro hs
    obtain ⟨⟨s', t'⟩, hfound, rfl⟩ := Option.map_eq_some_iff.mp hs
    obtain rfl : s' = s := by simpa using List.find?_some hfound
    exact List.mem_of_find?_eq_some hfound
  · intro hmem
    have hfound : (r.types.find? fun x => x.1 = s).isSome = true :=
      List.find?_isSome.mpr ⟨(s, t), hmem, by simp⟩
    obtain ⟨x, hx⟩ := Option.isSome_iff_exists.mp hfound
    have hkey : x.1 = s := by simpa using List.find?_some hx
    have hsame : x = (s, t) :=
      List.inj_on_of_nodup_map h.nodup (List.mem_of_find?_eq_some hx) hmem hkey
    rw [lookup?, hx, hsame, Option.map_some]

/-! ## Rows of calls -/

theorem Filled.perform (h : Filled r) (c : Call) : Filled (c.perform r).2 := by
  rcases perform_cases r c with hkeep | hfreeze | ⟨e, u, -, hf, -, hu, hadd⟩
  · rwa [hkeep]
  · rw [hfreeze]
    exact h.freeze
  · rw [hadd]
    exact filled_add h hf hu

theorem Filled.after (h : Filled r) (calls : List Call) : Filled (after calls r) := by
  induction calls generalizing r with
  | nil => exact h
  | cons c calls ih => exact ih (h.perform c)

theorem filled_initial (withCommon : Bool) : Filled (initial withCommon) := by
  cases withCommon with
  | true => exact filled_common
  | false => exact .empty

theorem lookup_perform (h : r.lookup? s = some t) (c : Call) :
    (c.perform r).2.lookup? s = some t := by
  rcases perform_cases r c with hkeep | hfreeze | ⟨e, u, -, -, -, -, hadd⟩
  · rwa [hkeep]
  · rw [hfreeze]
    exact h
  · rw [hadd]
    exact lookup_add_of_some h u

/-- **A signature that has a type keeps it**, whatever is called. -/
theorem lookup_after (h : r.lookup? s = some t) (calls : List Call) :
    (after calls r).lookup? s = some t := by
  induction calls generalizing r with
  | nil => exact h
  | cons c calls ih => exact ih (lookup_perform h c)

/-- **Nothing changes a frozen registry.** -/
theorem after_of_isFrozen (h : r.isFrozen = true) (calls : List Call) : after calls r = r := by
  induction calls with
  | nil => rfl
  | cons c calls ih => rwa [after, List.foldl_cons, perform_of_isFrozen h c]

theorem after_append (calls calls' : List Call) (r : Registry) :
    after (calls ++ calls') r = after calls' (after calls r) := List.foldl_append

/-- **A type that has been found was there at the start, or came by the first call that registered
its signature**, while the registry was not frozen. -/
theorem registered_first (r : Registry) (calls : List Call)
    (h : (after calls r).lookup? s = some t) :
    r.lookup? s = some t ∨ ∃ before e later, calls = before ++ .register e :: later ∧
      e.canonical = .ok t ∧ (after before r).isFrozen = false ∧
      (after before r).lookup? s = none := by
  induction calls using List.reverseRecOn with
  | nil => exact .inl h
  | append_singleton calls c ih =>
    rw [after_append] at h
    -- either the signature had the type before the last call, or that call has brought it
    have hlast : (after calls r).lookup? s = some t ∨ ∃ e, c = .register e ∧ e.canonical = .ok t ∧
        (after calls r).isFrozen = false ∧ (after calls r).lookup? s = none := by
      rcases perform_cases (after calls r) c with hkeep | hfreeze | ⟨e, u, rfl, hf, he, -, hadd⟩
      · exact .inl (by rwa [← hkeep])
      · exact .inl (by rwa [after, List.foldl_cons, List.foldl_nil, hfreeze] at h)
      · rw [after, List.foldl_cons, List.foldl_nil, hadd] at h
        rcases lookup_of_lookup_add h with hold | ⟨hnone, rfl, -⟩
        · exact .inl hold
        · exact .inr ⟨e, rfl, he, hf, hnone⟩
    rcases hlast with hold | ⟨e, rfl, he, hf, hnone⟩
    · rcases ih hold with hstart | ⟨before, e, later, rfl, hfirst⟩
      · exact .inl hstart
      · exact .inr ⟨before, e, later ++ [c], by simp, hfirst⟩
    · exact .inr ⟨calls, e, [], rfl, he, hf, hnone⟩

/-! ## What is registered -/

/-- A registration answers with the type that its signature has from then on: the registered type,
or the one that was there, which is spelt differently at most. -/
theorem Filled.register_answers (hr : Filled r) (h : r.register e = .ok (t, r')) :
    ∃ u, e.canonical = .ok u ∧ r'.lookup? u.signature = some t ∧ t.reduce = u.reduce ∧
      (t ≠ u → r.lookup? u.signature = some t) := by
  obtain ⟨-, u, he, hu, hadd⟩ := register_eq_ok_iff.mp h
  have hfound : r'.lookup? u.signature = some t := by simpa [hadd] using lookup_add r u
  obtain ⟨hsig, ht⟩ := (hr.register h).lookup hfound
  refine ⟨u, he, hfound, WireType.reduce_eq_of_signature
    (TypeExpr.isReduced_iff_hasTuple.mp ht).2 (TypeExpr.isReduced_iff_hasTuple.mp hu).2 hsig, ?_⟩
  intro hne
  rw [show r' = (r.add u).2 by rw [hadd]] at hfound
  rcases lookup_of_lookup_add hfound with hold | ⟨-, heq, -⟩
  · exact hold
  · exact absurd heq hne

/-- **The first registration of a signature wins**, in every row of calls on a registry that starts
out empty or with the common types. The table has one type for each signature in it; that is one
complete type, the type has this signature, and no tuple occurs in it. A signature keeps its type,
and has it from the start or by the first call that registered one for it. An expression can be
registered while the registry is not frozen if its type is of that kind, and the answer is the type
that its signature has from then on: its own unless another spelling of it was there already. No
call changes a frozen registry, and none that raises changes any. -/
theorem registers_first (withCommon : Bool) (calls : List Call) :
    let r := after calls (initial withCommon)
    (∀ s t, (s, t) ∈ r.types ↔ r.lookup? s = some t) ∧
    (∀ s t, r.lookup? s = some t →
      isSingle s = true ∧ t.signature = s ∧ t.hasTuple = false ∧
        (∀ later, (after later r).lookup? s = some t) ∧
        ((initial withCommon).lookup? s = some t ∨
          ∃ before e later, calls = before ++ .register e :: later ∧ e.canonical = .ok t ∧
            (after before (initial withCommon)).isFrozen = false ∧
            (after before (initial withCommon)).lookup? s = none)) ∧
    (∀ e, ((∃ t r', r.register e = .ok (t, r')) ↔
      r.isFrozen = false ∧
        ∃ u, e.canonical = .ok u ∧ isSingle u.signature = true ∧ u.hasTuple = false)) ∧
    (∀ e t r', r.register e = .ok (t, r') →
      (Call.register e).perform r = (.ok (some t), r') ∧
      ∃ u, e.canonical = .ok u ∧ (∀ later, (after later r').lookup? u.signature = some t) ∧
        (t = u ∨ t ≠ u ∧ t.reduce = u.reduce ∧ r.lookup? u.signature = some t)) ∧
    (∀ later, (after (.freeze :: later) r).types = r.types) ∧
    ∀ c f, (Call.perform r c).1 = .error f → (Call.perform r c).2 = r := by
  intro r
  have hr : Filled r := (filled_initial withCommon).after calls
  refine ⟨fun s t => hr.lookup_eq_some_iff.symm, fun s t hs => ?_, fun e => ?_, fun e t r' h => ?_,
    fun later => ?_, fun c f => perform_of_error⟩
  · obtain ⟨rfl, hred⟩ := hr.lookup hs
    obtain ⟨hsingle, htuple⟩ := TypeExpr.isReduced_iff_hasTuple.mp hred
    exact ⟨hsingle, rfl, htuple, lookup_after hs, registered_first _ calls hs⟩
  · simp only [register_eq_ok_iff, ← TypeExpr.isReduced_iff_hasTuple]
    constructor
    · rintro ⟨t, r', hf, u, he, hu, -⟩
      exact ⟨hf, u, he, hu⟩
    · rintro ⟨hf, u, he, hu⟩
      exact ⟨_, _, hf, u, he, hu, rfl⟩
  · obtain ⟨u, he, hfound, hred, hfirst⟩ := hr.register_answers h
    refine ⟨by rw [Call.perform, h], u, he, lookup_after hfound, ?_⟩
    by_cases htu : t = u
    · exact .inl htu
    · exact .inr ⟨htu, hred, hfirst htu⟩
  · have hfrozen : after (.freeze :: later) r = r.freeze :=
      after_of_isFrozen (r := r.freeze) rfl later
    rw [hfrozen, freeze]

/-- Arrays of dict entries are registered before dicts. -/
theorem registers_entries_first :
    let entries : WireType := .array (.entry .string .variant)
    let dict : WireType := .dict .string .variant
    let flat : WireType := .tuple [.int32]
    let r := after [.register (.wire entries)] (initial false)
    r.lookup? "a{sv}" = some entries ∧ isSingle "a{sv}" = true ∧
    r.register (.wire dict) = .ok (entries, r) ∧
    (∃ u, (TypeExpr.wire dict).canonical = .ok u ∧
      (∀ later, (after later r).lookup? u.signature = some entries) ∧
      (entries = u ∨ entries ≠ u ∧ entries.reduce = u.reduce ∧
        r.lookup? u.signature = some entries)) ∧
    (Call.perform r (.register (.wire flat))).1 =
      .error (.notReduced (TypeExpr.wire flat).display) ∧
    (Call.perform r (.register (.wire flat))).2 = r := by
  intro entries dict flat r
  have hr : r = { types := [("a{sv}", entries)] } := by
    have h : register (.wire entries) {} = .ok (entries, { types := [("a{sv}", entries)] }) :=
      register_eq_ok_iff.mpr ⟨rfl, entries, rfl, by decide +kernel, rfl⟩
    change (Call.perform {} (.register (.wire entries))).2 = _
    rw [Call.perform, h]
  have hlookup : r.lookup? "a{sv}" = some entries := by
    rw [hr]
    decide +kernel
  have hregister : r.register (.wire dict) = .ok (entries, r) :=
    register_eq_ok_iff.mpr ⟨by rw [hr], dict, rfl, by decide +kernel, by
      unfold add
      rw [show dict.signature = "a{sv}" from rfl, hlookup]⟩
  have hraise : (Call.perform r (.register (.wire flat))).1 =
      .error (.notReduced (TypeExpr.wire flat).display) := by
    have hflat : flat.isReduced = false := by decide +kernel
    rw [hr, Call.perform, register]
    simp [TypeExpr.canonical, bind, Except.bind, hflat]
  obtain ⟨-, htable, -, hanswer, -, herror⟩ := registers_first false [.register (.wire entries)]
  exact ⟨hlookup, (htable _ _ hlookup).1, hregister, (hanswer _ _ _ hregister).2, hraise,
    herror _ _ hraise⟩

end Registry

end TypedBus
