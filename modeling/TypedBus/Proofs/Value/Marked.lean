import TypedBus.Stream.Basic
import TypedBus.Value.Marks

/-!
# Marks are given once

Whatever a session takes in is marked, also a message that is put back after a call that has not
changed it. That is no change either: what has been marked once has all its marks, and when it is
marked again it stays as it is (`Stream.isMarked_marked`).

`Settles` says this of anything that gives marks. What is done to a row, to an item, to an envelope
and to a stream settles because what is done to each of their values does.
-/

namespace TypedBus

/-- Something that gives marks: done a second time, it gives no more. -/
def Settles {α : Type} (mark : α → StateM Nat α) : Prop :=
  ∀ a n k, (mark ((mark a).run n).1).run k = (((mark a).run n).1, k)

section Runs

variable {α β γ : Type} {x : StateM Nat α} {y : StateM Nat β} {a : α} {b : β} {k : Nat}

/-- What gives no mark hands on what it answers. -/
theorem run_bind_of_kept {f : α → StateM Nat β} (hx : x.run k = (a, k)) :
    (x >>= f).run k = (f a).run k := by
  rw [StateT.run_bind, hx]
  rfl

theorem run_one_of_kept (f : α → γ) (hx : x.run k = (a, k)) :
    (do pure (f (← x)) : StateM Nat γ).run k = (f a, k) :=
  run_bind_of_kept hx

theorem run_two_of_kept (f : α → β → γ) (hx : x.run k = (a, k)) (hy : y.run k = (b, k)) :
    (do pure (f (← x) (← y)) : StateM Nat γ).run k = (f a b, k) :=
  (run_bind_of_kept hx).trans (run_bind_of_kept hy)

theorem Settles.mapM {mark : α → StateM Nat α} (h : Settles mark) :
    Settles (List.mapM mark) := by
  intro as n k
  induction as generalizing n with
  | nil => rfl
  | cons a as ih =>
    have hcons : ∀ (a : α) (as : List α),
        (a :: as).mapM mark = (do pure ((← mark a) :: (← as.mapM mark))) :=
      fun _ _ => List.mapM_cons
    have hfirst : (((a :: as).mapM mark).run n).1 =
        ((mark a).run n).1 :: ((as.mapM mark).run ((mark a).run n).2).1 := by
      rw [hcons]
      rfl
    rw [hfirst, hcons]
    exact run_two_of_kept List.cons (h a n k) (ih ((mark a).run n).2)

end Runs

/-! ## Values -/

theorem Mark.settles_orNext : Settles Mark.orNext := by
  intro m n k
  cases m <;> rfl

namespace Double

/-- A NaN that bears a mark is not one that has just been made. -/
theorem bits_markedNaN_ne (n : Nat) : (markedNaN (n % marks + 1)).bits ≠ nan.bits := by
  have hlt : n % marks < 2251799813685247 := Nat.mod_lt n (by decide)
  intro h
  have hmark : UInt64.ofNat (n % marks + 1) = UInt64.ofNat 0 := UInt64.add_right_inj _ |>.mp h
  have hnat := congrArg UInt64.toNat hmark
  rw [UInt64.toNat_ofNat_of_lt' (Nat.lt_trans (Nat.succ_lt_succ hlt) (by decide))] at hnat
  exact absurd hnat (Nat.succ_ne_zero _)

theorem settles_orMarked : Settles orMarked := by
  intro d n k
  have hkept : ∀ e : Double, e.bits ≠ nan.bits → ∀ k, (orMarked e).run k = (e, k) := by
    intro e he k
    rw [orMarked, if_neg he]
    rfl
  by_cases hd : d.bits = nan.bits
  · have hmarked : ((orMarked d).run n).1 = markedNaN (n % marks + 1) := by
      rw [orMarked, if_pos hd]
      rfl
    rw [hmarked, hkept _ (bits_markedNaN_ne n)]
  · rw [hkept d hd, hkept d hd]

end Double

namespace Value

mutual

theorem settles_marked : Settles marked
  | .list m vs, n, k =>
    run_two_of_kept list (Mark.settles_orNext m n k) (settles_markedAll vs _ k)
  | .tuple vs, n, k => run_one_of_kept tuple (settles_markedAll vs n k)
  | .dict es, n, k => run_one_of_kept dict (settles_markedEntries es n k)
  | .entry a b, n, k => run_two_of_kept entry (settles_marked a n k) (settles_marked b _ k)
  | .variant m p t, n, k =>
    run_two_of_kept (variant · · t) (Mark.settles_orNext m n k) (settles_marked p _ k)
  | .double d, n, k => run_one_of_kept double (Double.settles_orMarked d n k)
  | .scalar (.floating f d), n, k =>
    run_one_of_kept (fun d => scalar (.floating f d)) (Double.settles_orMarked d n k)
  | .scalar (.boolean _), _, _ | .scalar (.integer _ _), _, _ | .grid _, _, _
  | .null, _, _ | .boolean _, _, _ | .integer _, _, _ | .text _, _, _ | .bytes _, _, _
  | .fixed _ _, _, _ | .handle _, _, _ | .path _, _, _ | .signature _, _, _ | .opening _, _, _
  | .closing, _, _ | .thing _, _, _ => rfl

theorem settles_markedAll : Settles markedAll
  | [], _, _ => rfl
  | v :: vs, n, k =>
    run_two_of_kept List.cons (settles_marked v n k) (settles_markedAll vs _ k)

theorem settles_markedEntries : Settles markedEntries
  | [], _, _ => rfl
  | (a, b) :: es, n, k =>
    (run_bind_of_kept (settles_marked a n k)).trans <|
      (run_bind_of_kept (settles_marked b _ k)).trans <|
        run_bind_of_kept (settles_markedEntries es _ k)

end

end Value

/-! ## Streams -/

theorem Item.settles_mapValue {mark : Value → StateM Nat Value} (h : Settles mark) :
    Settles (Item.mapValue mark)
  | .basic code v, n, k => run_one_of_kept (basic code) (h v n k)
  | .opening _, _, _ | .closing, _, _ => rfl

theorem Envelope.settles_mapFields {mark : Value → StateM Nat Value} (h : Settles mark) :
    Settles (Envelope.mapFields mark) := fun e n k =>
  (run_bind_of_kept (h e.destination n k)).trans <|
  (run_bind_of_kept (h e.sender _ k)).trans <|
  (run_bind_of_kept (h e.path _ k)).trans <|
  (run_bind_of_kept (h e.interface _ k)).trans <|
  (run_bind_of_kept (h e.member _ k)).trans <|
  (run_bind_of_kept (h e.errorName _ k)).trans <|
  (run_bind_of_kept (h e.errorMessage _ k)).trans <|
  (run_bind_of_kept (h e.serial _ k)).trans <|
  run_bind_of_kept (h e.replySerial _ k)

namespace Stream

theorem settles_mapValues {mark : Value → StateM Nat Value} (h : Settles mark) :
    Settles (mapValues mark) := fun s n k =>
  (run_bind_of_kept (Envelope.settles_mapFields h s.envelope n k)).trans <|
  (run_bind_of_kept ((Item.settles_mapValue h).mapM s.items _ k)).trans <|
  run_bind_of_kept (h.mapM s.descriptors _ k)

/-- Everything in the stream that can bear a mark has one. -/
def IsMarked (s : Stream) : Prop := ∀ n, (s.mapValues Value.marked).run n = (s, n)

/-- **What has been marked once is marked.** -/
theorem isMarked_marked (s : Stream) (n : Nat) : ((s.mapValues Value.marked).run n).1.IsMarked :=
  settles_mapValues Value.settles_marked s n

/-- Marks do not depend on the cursor, nor on whether the stream is sealed. -/
theorem IsMarked.turned {s : Stream} (h : s.IsMarked) (isSealed : Bool) (cursor : Nat) :
    IsMarked { s with isSealed, cursor } := fun n =>
  congrArg (fun r : Stream × Nat => (({ r.1 with isSealed, cursor } : Stream), r.2)) (h n)

end Stream

end TypedBus
