import TypedBus.Wire.ObjectPath

/-!
# What an object path is

`ObjectPath.IsPath` is the grammar of object paths, said without a word on how a text is taken
apart: a slash alone, or words over the letters, digits and underscores of ASCII, each with a slash
before it.

`ObjectPath.isValid` cuts a text at its slashes and looks at every piece, where it passes over one
line feed at the end. So it takes every path, and besides the paths just those texts that are paths
but for a line feed behind some of their words (`isValid_iff`): what it gets wrong are the valid
texts in which a line feed occurs (`valid_unless_lineFeed`).
-/

namespace TypedBus

namespace ObjectPath

/-! ## The grammar -/

/-- What stands before every element. -/
def slash : CodePoint := .scalar '/'

/-- What may stand behind an element. -/
def lineFeed : CodePoint := .scalar '\n'

/-- A letter, a digit or the underscore, all of ASCII. -/
def IsLetter (p : CodePoint) : Prop :=
  ∃ c, p = .scalar c ∧
    ('A' ≤ c ∧ c ≤ 'Z' ∨ 'a' ≤ c ∧ c ≤ 'z' ∨ '0' ≤ c ∧ c ≤ '9' ∨ c = '_')

/-- One or more letters, digits and underscores. -/
structure IsWord (e : Text) : Prop where
  nonempty : e ≠ []
  letters : ∀ p ∈ e, IsLetter p

/-- Elements with a slash before each of them. -/
def spell (es : List Text) : Text := es.flatMap (slash :: ·)

/-- A slash, or one or more words with a slash before each of them. -/
inductive IsPath : Text → Prop
  | root : IsPath [slash]
  | words {es : List Text} (hes : es ≠ []) (h : ∀ e ∈ es, IsWord e) : IsPath (spell es)

/-- A word, or one with a line feed behind it. -/
def IsLooseWord (e : Text) : Prop := ∃ w, IsWord w ∧ (e = w ∨ e = w ++ [lineFeed])

variable {t w e : Text} {es : List Text} {p : CodePoint}

/-! ## Letters and words -/

theorem isWordPoint_iff : isWordPoint p = true ↔ IsLetter p := by
  cases p with
  | surrogate s => simp [isWordPoint, IsLetter]
  | scalar c =>
    have halphanum : c.isAlphanum = (decide ('A' ≤ c ∧ c ≤ 'Z') ||
        decide ('a' ≤ c) && decide (c ≤ 'z') || decide ('0' ≤ c) && decide (c ≤ '9')) := rfl
    simp only [isWordPoint, IsLetter, halphanum, Bool.or_eq_true, Bool.and_eq_true,
      decide_eq_true_eq, CodePoint.scalar.injEq, exists_eq_left', or_assoc]

theorem not_isLetter_slash : ¬ IsLetter slash := by
  rw [← isWordPoint_iff]
  decide

theorem not_isLetter_lineFeed : ¬ IsLetter lineFeed := by
  rw [← isWordPoint_iff]
  decide

theorem IsWord.slash_notMem (h : IsWord w) : slash ∉ w := fun hmem =>
  not_isLetter_slash (h.letters _ hmem)

theorem IsWord.lineFeed_notMem (h : IsWord w) : lineFeed ∉ w := fun hmem =>
  not_isLetter_lineFeed (h.letters _ hmem)

theorem IsLooseWord.slash_notMem (h : IsLooseWord e) : slash ∉ e := by
  obtain ⟨w, hw, rfl | rfl⟩ := h
  · exact hw.slash_notMem
  · rw [List.mem_append, List.mem_singleton, not_or]
    exact ⟨hw.slash_notMem, by decide⟩

theorem IsLooseWord.ne_nil (h : IsLooseWord e) : e ≠ [] := by
  obtain ⟨w, hw, rfl | rfl⟩ := h
  · exact hw.nonempty
  · simp

/-- Without a line feed, a loose word is a word. -/
theorem IsLooseWord.isWord (h : IsLooseWord e) (hlf : lineFeed ∉ e) : IsWord e := by
  obtain ⟨w, hw, rfl | rfl⟩ := h
  · exact hw
  · simp at hlf

/-- **What passes for an element** is a loose word. -/
theorem isElement_iff : isElement e = true ↔ IsLooseWord e := by
  have hword : ∀ w : Text, (!w.isEmpty && w.all isWordPoint) = true ↔ IsWord w := fun w => by
    simp only [Bool.and_eq_true, Bool.not_eq_true', List.isEmpty_eq_false_iff, List.all_eq_true,
      isWordPoint_iff]
    exact ⟨fun h => ⟨h.1, h.2⟩, fun h => ⟨h.1, h.2⟩⟩
  rw [isElement, hword, withoutLineFeed]
  constructor
  · intro h
    split at h
    · rename_i hlast
      obtain ⟨w, rfl⟩ := List.getLast?_eq_some_iff.mp hlast
      rw [List.dropLast_concat] at h
      exact ⟨w, h, .inr rfl⟩
    · exact ⟨e, h, .inl rfl⟩
  · rintro ⟨w, hw, rfl | rfl⟩
    · have hlast : e.getLast? ≠ some (.scalar '\n') := fun hlast =>
        hw.lineFeed_notMem (List.mem_of_getLast? hlast)
      rwa [if_neg hlast]
    · have hlast : (w ++ [lineFeed]).getLast? = some (.scalar '\n') := List.getLast?_concat
      rwa [if_pos hlast, List.dropLast_concat]

/-! ## Cutting at slashes -/

theorem pieces_eq_splitOn (t : Text) : pieces t = t.splitOn slash := by
  induction t with
  | nil => rfl
  | cons p t ih =>
    have hcons : (p :: t).splitOn slash =
        if p == slash then [] :: t.splitOn slash else (t.splitOn slash).modifyHead (p :: ·) :=
      List.splitOnP_cons_eq_if_modifyHead p t
    rw [pieces, ih, hcons]
    rcases h : t.splitOn slash with _ | ⟨e, es⟩
    · exact absurd h (List.splitOn_ne_nil slash t)
    · rfl

theorem spell_eq_intercalate (hes : es ≠ []) :
    spell es = slash :: [slash].intercalate es := by
  induction es with
  | nil => exact absurd rfl hes
  | cons e es ih =>
    cases es with
    | nil => simp [spell]
    | cons e' es =>
      have hrest := ih (List.cons_ne_nil e' es)
      rw [spell, List.flatMap_cons, ← spell, hrest, List.intercalate_cons_cons]
      simp

/-- What is put together of the pieces of a text is the text behind a slash. -/
theorem spell_pieces (t : Text) : spell (pieces t) = slash :: t := by
  rw [pieces_eq_splitOn, spell_eq_intercalate (List.splitOn_ne_nil slash t),
    List.intercalate_splitOn]

/-- The pieces of elements put together are the elements. -/
theorem pieces_of_spell (hes : es ≠ []) (h : ∀ e ∈ es, slash ∉ e) (ht : spell es = slash :: t) :
    pieces t = es := by
  rw [spell_eq_intercalate hes, List.cons.injEq] at ht
  rw [pieces_eq_splitOn, ← ht.2, List.splitOn_intercalate slash h hes]

/-- Words with slashes before them do not end in a slash. -/
theorem getLast?_spell_ne (hes : es ≠ []) (h : ∀ e ∈ es, IsLooseWord e) :
    (spell es).getLast? ≠ some slash := by
  obtain ⟨es', e, rfl⟩ : ∃ es' e, es = es' ++ [e] :=
    ⟨_, _, (List.dropLast_concat_getLast hes).symm⟩
  have he : IsLooseWord e := h e (by simp)
  obtain ⟨e', p, rfl⟩ : ∃ e' p, e = e' ++ [p] :=
    ⟨_, _, (List.dropLast_concat_getLast he.ne_nil).symm⟩
  have hp : p ≠ slash := fun hp => he.slash_notMem (by simp [hp])
  have hspell : spell (es' ++ [e' ++ [p]]) = (spell es' ++ slash :: e') ++ [p] := by simp [spell]
  rwa [hspell, List.getLast?_concat, ne_eq, Option.some.injEq]

/-! ## Valid texts -/

/-- **The valid texts** are a slash alone, and one or more loose words with a slash before each. -/
theorem isValid_iff :
    isValid t = true ↔
      t = [slash] ∨ ∃ es, es ≠ [] ∧ (∀ e ∈ es, IsLooseWord e) ∧ t = spell es := by
  constructor
  · intro h
    unfold isValid at h
    split at h
    · exact .inl rfl
    · rename_i rest _
      split at h
      · cases h
      · refine .inr ⟨pieces rest, ?_, fun e he => ?_, (spell_pieces rest).symm⟩
        · rw [pieces_eq_splitOn]
          exact List.splitOn_ne_nil slash rest
        · exact isElement_iff.mp (List.all_eq_true.mp h e he)
    · cases h
  · rintro (rfl | ⟨es, hes, h, rfl⟩)
    · rfl
    · have hlast := getLast?_spell_ne hes h
      obtain ⟨e, es, rfl⟩ := List.exists_cons_of_ne_nil hes
      obtain ⟨p, e, rfl⟩ := List.exists_cons_of_ne_nil (h e List.mem_cons_self).ne_nil
      have hspell : spell ((p :: e) :: es) = slash :: p :: (e ++ spell es) := rfl
      have hpieces := pieces_of_spell hes (fun e he => (h e he).slash_notMem) hspell
      rw [hspell] at hlast ⊢
      change (if (slash :: p :: (e ++ spell es)).getLast? = some slash then false
        else (pieces (p :: (e ++ spell es))).all isElement) = true
      rw [if_neg hlast, hpieces, List.all_eq_true]
      exact fun e he => isElement_iff.mpr (h e he)

theorem lineFeed_mem_spell : lineFeed ∈ spell es ↔ ∃ e ∈ es, lineFeed ∈ e := by
  simp [spell, slash, lineFeed]

/-- No line feed occurs in an object path. -/
theorem IsPath.lineFeed_notMem (h : IsPath t) : lineFeed ∉ t := by
  cases h with
  | root => decide
  | words _ h =>
    rw [lineFeed_mem_spell]
    rintro ⟨e, he, hmem⟩
    exact (h e he).lineFeed_notMem hmem

/-- **A text is an object path exactly if it is valid and holds no line feed.** The valid texts are
a slash alone, and one or more words with a slash before each and a line feed behind any of them. -/
theorem valid_unless_lineFeed (t : Text) :
    (IsPath t ↔ isValid t = true ∧ lineFeed ∉ t) ∧
    (isValid t = true ↔
      t = [slash] ∨ ∃ es, es ≠ [] ∧
        (∀ e ∈ es, ∃ w, IsWord w ∧ (e = w ∨ e = w ++ [lineFeed])) ∧ t = spell es) := by
  refine ⟨⟨fun h => ⟨?_, h.lineFeed_notMem⟩, fun ⟨h, hlf⟩ => ?_⟩, isValid_iff⟩
  · cases h with
    | root => rfl
    | words hes h =>
      exact isValid_iff.mpr (.inr ⟨_, hes, fun e he => ⟨e, h e he, .inl rfl⟩, rfl⟩)
  · rcases isValid_iff.mp h with rfl | ⟨es, hes, hloose, rfl⟩
    · exact .root
    · refine .words hes fun e he => (hloose e he).isWord fun hmem => hlf ?_
      exact lineFeed_mem_spell.mpr ⟨e, he, hmem⟩

/-- A word with a line feed behind it is valid behind a slash, and is no path. -/
theorem valid_oneLine : isValid "/a\n" = true ∧ ¬ IsPath "/a\n" := by
  obtain ⟨hpath, -⟩ := valid_unless_lineFeed "/a\n"
  exact ⟨by decide, fun h => absurd (hpath.mp h).2 (by decide)⟩

/-- Not only object paths are valid. -/
theorem not_only_paths_valid : ¬ ∀ t : Text, isValid t = true ↔ IsPath t := by
  intro h
  have hpath : IsPath "/a\n" := (h "/a\n").mp (by decide)
  exact absurd hpath.lineFeed_notMem (by decide)

end ObjectPath

end TypedBus
