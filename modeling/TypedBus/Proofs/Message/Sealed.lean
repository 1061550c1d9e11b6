import TypedBus.Proofs.Message.Reading
import TypedBus.Proofs.Message.Unfinished
import TypedBus.Proofs.Message.Uses

/-!
# Sealed messages

Nothing is written to a message that has been sealed, but trying to does leave a trace. What a write
comes to depends on how it begins, and on nothing else (`WireType.beginsOnSealed_encodeWithin`):

* a value that does not fit is refused before the message is looked at, as if it were being read,
  and its failure can be reset;
* an item that would be added finds the message sealed, and that failure is for good; but where it
  is a descriptor, this has gone into the table already.

So neither the items nor the table of a sealed message ever change, but for one descriptor that may
go into the table as the message fails for good (`Use.sealed_unless_attached`); and a message that
fails in a call that writes has failed for good, unless it was sealed and what was written does not
fit (`WriteCall.final_unless_misfit`).
-/

namespace TypedBus

open Message WireType

/-! ## What a write would begin with -/

/-- What is said of the beginning of two writings in a row: what is said of the second, where the
first has nothing to write. -/
def Beginning.select {α : Type} (b : Beginning) (first next : α) : α :=
  match b with
  | nothing => next
  | _ => first

theorem Beginning.select_of_ne {α : Type} {b : Beginning} (h : b ≠ nothing) (first next : α) :
    b.select first next = first := by
  cases b with
  | nothing => exact absurd rfl h
  | _ => rfl

namespace WireType

mutual

/-- The descriptor that the first item of a value refers to, if that is one. -/
def firstDescriptor : WireType → Value → Option Int
  | basic b, v =>
    match b.convert v with
    | .ok (.handle n) => some n
    | _ => none
  | tuple fs, v =>
    match v.fields? with
    | none => none
    | some vs => if vs.length = fs.length then firstDescriptorOfRow fs vs else none
  | variant, _ | array _, _ | dict _ _, _ | entry _ _, _ | struct _, _ => none

/-- The descriptor that the first item of a row of values refers to, if that is one. -/
def firstDescriptorOfRow : List WireType → List Value → Option Int
  | [], _ => none
  | _ :: _, [] => none
  | f :: fs, v :: vs =>
    (beginning f v).select (firstDescriptor f v) (firstDescriptorOfRow fs vs)

end

mutual

/-- A value with a first descriptor has a first item. -/
theorem beginning_of_firstDescriptor {n : Int} :
    ∀ {t : WireType} {v : Value}, firstDescriptor t v = some n → beginning t v = .writes
  | .basic b, v, h => by
    rw [firstDescriptor] at h
    rw [beginning]
    split at h
    · rename_i hx
      rw [hx]
    · cases h
  | .tuple fs, v, h => by
    rw [firstDescriptor] at h
    rw [beginning]
    rcases hvs : v.fields? with _ | vs <;> rw [hvs] at h
    · cases h
    · simp only at h ⊢
      split at h
      · rename_i hlen
        rw [if_pos hlen]
        exact beginningOfRow_of_firstDescriptor h
      · cases h
  | .variant, v, h | .array _, v, h | .dict _ _, v, h | .entry _ _, v, h | .struct _, v, h => by
    rw [firstDescriptor] at h
    cases h

theorem beginningOfRow_of_firstDescriptor {n : Int} :
    ∀ {fs : List WireType} {vs : List Value},
      firstDescriptorOfRow fs vs = some n → beginningOfRow fs vs = .writes
  | [], _, h | _ :: _, [], h => by
    rw [firstDescriptorOfRow] at h
    cases h
  | f :: fs, v :: vs, h => by
    rw [firstDescriptorOfRow] at h
    rw [beginningOfRow]
    by_cases hb : beginning f v = .nothing
    · rw [hb] at h ⊢
      exact beginningOfRow_of_firstDescriptor h
    · rw [Beginning.select_of_ne hb] at h
      rw [beginning_of_firstDescriptor h]
      rfl

end

end WireType

/-! ## What a write comes to on a sealed message -/

namespace Message

variable {m : Message}

/-- The message with a descriptor more in its table, if there is one. -/
def given (d : Option Int) (m : Message) : Message :=
  match d with
  | some n => { m with stream := m.stream.addDescriptor (.integer n) }
  | none => m

/-- The message after something was to be added to it although it is sealed. -/
def barred (m : Message) : Message :=
  { m with failure := some .alreadySealed, writeFailed := true }

theorem given_descriptors (d : Option Int) (m : Message) :
    (m.given d).stream.descriptors = m.stream.descriptors ++ d.toList.map .integer := by
  cases d with
  | none => exact (List.append_nil _).symm
  | some n => rfl

theorem given_items (d : Option Int) (m : Message) :
    (m.given d).stream.items = m.stream.items := by
  cases d <;> rfl

theorem given_isSealed (d : Option Int) (m : Message) :
    (m.given d).stream.isSealed = m.stream.isSealed := by
  cases d <;> rfl

theorem Readable.given (hm : m.Readable) (d : Option Int) : (m.given d).Readable := by
  cases d <;> exact ⟨hm.valid, hm.isSealed⟩

theorem final_barred : m.barred.Final := ⟨rfl, rfl⟩

theorem run_writable_of_readable (hm : m.Readable) :
    writable.run m = (.error .failed, m.barred) := by
  have hfailure := Option.isNone_iff_eq_none.mp hm.valid
  simp [writable, Action.run_bind, hm.isSealed, fail, isValid, barred, hfailure]

theorem fail_of_readable (hm : m.Readable) (f : Failure) :
    m.fail f = { m with failure := some f } := by
  simp [fail, hm.valid, hm.isSealed]

end Message

/-- What the writing of a value that begins like this comes to on a sealed message; a descriptor
that the first item refers to is given to the message. -/
def Beginning.OnSealed (d : Option Int) (m : Message) (outcome : Except Stop Unit × Message) :
    Beginning → Prop
  | raises f => outcome = (.error (.raised f), m)
  | fails => ∃ f, outcome = (.error .failed, { m with failure := some f })
  | writes => outcome = (.error .failed, (m.given d).barred)
  | nothing => outcome = (.ok (), m)

namespace Action

/-- The action comes to what is said of its beginning on every sealed message. -/
def BeginsOnSealed (b : Beginning) (d : Option Int) (x : Action Unit) : Prop :=
  ∀ ⦃m⦄, m.Readable → b.OnSealed d m (x.run m)

variable {m : Message} {x y : Action Unit} {b b' : Beginning} {d d' : Option Int} {v : Value}
  {failure : Text → Failure}

theorem beginsOnSealed_pure : BeginsOnSealed .nothing none (pure ()) := fun _ _ => rfl

theorem beginsOnSealed_raise (f : Fault) : BeginsOnSealed (.raises f) d (raise f) := fun _ _ => rfl

theorem beginsOnSealed_writable (f : Unit → Action Unit) :
    BeginsOnSealed .writes none (writable >>= f) :=
  fun _ hm => run_bind_of_error (run_writable_of_readable hm)

theorem beginsOnSealed_fail (f : Failure) : BeginsOnSealed .fails d (do fail f; x) := fun m hm =>
  ⟨f, by rw [run_bind_of_error (run_fail f m), fail_of_readable hm f]⟩

theorem BeginsOnSealed.bind (hx : BeginsOnSealed b d x)
    (hy : b = .nothing → BeginsOnSealed b' d' y) :
    BeginsOnSealed (b.andThen b') (b.select d d') (do x; y) := by
  intro m hm
  have hbegins := hx hm
  cases b with
  | raises f => exact run_bind_of_error hbegins
  | fails =>
    obtain ⟨f, hrun⟩ := hbegins
    exact ⟨f, run_bind_of_error hrun⟩
  | writes => exact run_bind_of_error hbegins
  | nothing =>
    have hnext := hy rfl hm
    rwa [← run_bind_of_ok (f := fun _ => y) hbegins] at hnext

theorem beginsOnSealed_bracket {c : Container} :
    BeginsOnSealed .writes none (do openContainer c; x) := by
  simpa only [openContainer, bind_assoc] using beginsOnSealed_writable _

theorem beginsOnSealed_encodeBasic (b : BasicType) (v : Value) :
    BeginsOnSealed (beginning (.basic b) v) (firstDescriptor (.basic b) v) (b.encode v) := by
  intro m hm
  rw [beginning, firstDescriptor]
  rcases hx : b.convert v with f | x
  · refine ⟨.conversion f, ?_⟩
    rw [← fail_of_readable hm]
    unfold BasicType.encode
    rw [hx]
    rfl
  · have hrun : (b.encode v).run m = (.error .failed, (m.carry x).2.barred) := by
      rw [run_encode_basic hx]
      have hcarry : (m.carry x).2.Readable := by cases x <;> exact ⟨hm.valid, hm.isSealed⟩
      exact beginsOnSealed_writable _ hcarry
    cases x <;> exact hrun

theorem beginsOnSealed_orRefuse {α : Type} {o : Option α} {g : α → Action Unit}
    (hg : ∀ a, o = some a → BeginsOnSealed b d (g a)) (hnone : o = none → b = refusal v) :
    BeginsOnSealed b d (do g (← orRefuse v failure o)) := by
  cases o with
  | some a => exact hg a rfl
  | none =>
    rw [hnone rfl]
    unfold refusal orRefuse refuse
    cases v.display with
    | ok shown => exact beginsOnSealed_fail (x := pure ()) (failure shown)
    | error f => exact beginsOnSealed_raise f

end Action

namespace WireType

open TypedBus.Action

variable {n : Nat} {t : WireType} {v : Value}

theorem beginsOnSealed_encodeFields :
    ∀ {fs : List WireType} {vs : List Value},
      (∀ p ∈ fs.zip vs, BeginsOnSealed (beginning p.1 p.2) (firstDescriptor p.1 p.2)
        (encodeWith (writingBoxed n) p.1 p.2)) →
      BeginsOnSealed (beginningOfRow fs vs) (firstDescriptorOfRow fs vs)
        (encodeFields (writingBoxed n) fs vs)
  | [], _, _ => by
    rw [encodeFields, beginningOfRow, firstDescriptorOfRow]
    exact beginsOnSealed_pure
  | _ :: _, [], _ => by
    rw [encodeFields, beginningOfRow, firstDescriptorOfRow]
    exact beginsOnSealed_pure
  | f :: fs, v :: vs, h => by
    rw [List.zip_cons_cons] at h
    obtain ⟨hv, hvs⟩ := List.forall_mem_cons.mp h
    rw [encodeFields, beginningOfRow, firstDescriptorOfRow]
    exact hv.bind fun _ => beginsOnSealed_encodeFields hvs

/-- **What a write comes to on a sealed message, the beginning of its value says**, as long as the
count of variants does not run out. -/
theorem beginsOnSealed_encodeWithin (h : Within n t v) :
    BeginsOnSealed (beginning t v) (firstDescriptor t v) (encodeWithin n t v) := by
  induction h with
  | basic =>
    rw [encodeWithin_eq, encodeWith]
    exact beginsOnSealed_encodeBasic _ _
  | @variant n v _ _ =>
    rw [encodeWithin, encodeWith, encodeBoxed, beginning, firstDescriptor]
    rcases boxed v with f | b
    · exact beginsOnSealed_raise f
    · rw [show Action.lift (.ok b) = pure b from rfl, pure_bind]
      cases b with
      | variant m p o =>
        cases o with
        | none => exact beginsOnSealed_pure
        | some t => exact beginsOnSealed_bracket
      | _ => exact beginsOnSealed_pure
  | array _ _ =>
    rw [encodeWithin_eq, encodeWith, collection_eq, beginning, firstDescriptor]
    refine beginsOnSealed_orRefuse (fun vs hvs => ?_) fun hvs => by rw [hvs]; rfl
    rw [hvs]
    exact beginsOnSealed_bracket
  | dict _ _ =>
    rw [encodeWithin_eq, encodeWith_dict, collection_eq, beginning, firstDescriptor]
    refine beginsOnSealed_orRefuse (fun ps hps => ?_) fun hps => by rw [hps]; rfl
    rw [hps]
    exact beginsOnSealed_bracket
  | entry _ _ _ _ =>
    rw [encodeWithin_eq, encodeWith, entryParts_eq, beginning, firstDescriptor]
    refine beginsOnSealed_orRefuse (fun parts hac => ?_) fun hac => by rw [hac]; rfl
    rw [hac]
    exact beginsOnSealed_bracket
  | @struct n fs _ _ _ =>
    rw [encodeWithin_eq, encodeWith, fields_eq, beginning, firstDescriptor]
    refine beginsOnSealed_orRefuse (fun vs hvs => ?_) fun hvs => by rw [hvs]
    rw [hvs]
    by_cases hlen : vs.length = fs.length
    · simp only [hlen, ne_eq, not_true_eq_false, if_false, if_true]
      exact beginsOnSealed_bracket
    · simp only [hlen, ne_eq, not_false_eq_true, if_false, if_true]
      exact beginsOnSealed_fail _
  | @tuple n fs v _ ih =>
    rw [encodeWithin_eq] at ih ⊢
    rw [encodeWith, fields_eq, beginning]
    refine beginsOnSealed_orRefuse (fun vs hvs => ?_) fun hvs => by rw [hvs]
    rw [firstDescriptor, hvs]
    by_cases hlen : vs.length = fs.length
    · simp only [hlen, ne_eq, not_true_eq_false, if_false, if_true]
      exact beginsOnSealed_encodeFields (ih vs (Value.eq_of_fields? hvs))
    · simp only [hlen, ne_eq, not_false_eq_true, if_false, if_true]
      exact beginsOnSealed_fail _

end WireType

/-! ## Calls that write -/

namespace WriteCall

open TypedBus.Action

/-- How a call begins: with an item, or like the writing of its value. -/
def beginning : WriteCall → Beginning
  | opening _ | closing => .writes
  | value v type =>
    if v.isMarker then .writes
    else
      match typeFor v type with
      | .error f => .raises f
      | .ok t => t.beginning v

/-- The descriptor that the first item of a call refers to, if that is one. -/
def firstDescriptor : WriteCall → Option Int
  | opening _ | closing => none
  | value v type =>
    if v.isMarker then none
    else
      match typeFor v type with
      | .error _ => none
      | .ok t => t.firstDescriptor v

theorem beginning_of_firstDescriptor {call : WriteCall} {n : Int}
    (h : call.firstDescriptor = some n) : call.beginning = .writes := by
  cases call with
  | opening | closing => cases h
  | value v type =>
    rw [firstDescriptor] at h
    rw [beginning]
    split at h
    · cases h
    · rename_i hv
      rw [if_neg hv]
      split at h
      · cases h
      · exact WireType.beginning_of_firstDescriptor h

theorem beginsOnSealed_action (call : WriteCall) :
    BeginsOnSealed call.beginning call.firstDescriptor call.action := by
  have hopen (c : Container) : BeginsOnSealed .writes none (openContainer c) :=
    beginsOnSealed_writable _
  have hclose : BeginsOnSealed .writes none closeContainer := beginsOnSealed_writable _
  cases call with
  | opening c => exact hopen c
  | closing => exact hclose
  | value v type =>
    rw [beginning, firstDescriptor]
    rcases hv : v.isMarker with _ | _
    · intro m hm
      rw [action, run_write hm.valid hv]
      rcases typeFor v type with f | t
      · exact beginsOnSealed_raise f hm
      · exact beginsOnSealed_encodeWithin (within_depth t v) hm
    · obtain ⟨c, rfl⟩ | rfl := Value.eq_of_isMarker hv
      · exact hopen c
      · exact hclose

end WriteCall

/-- An empty message that has been sealed. -/
def sealedMessage : Message := { stream := { isSealed := true } }

/-! ## Content that does not change -/

namespace Use

open TypedBus.Action

/-- How the writing of a use begins. -/
def beginning : Use → Beginning
  | call _ (.write v type) => (WriteCall.value v type).beginning
  | call _ (.openContainer _) | call _ .closeContainer => .writes
  | encode t v => t.beginning v
  | _ => .nothing

/-- The descriptor that the first item of a use refers to, if that is one. -/
def firstDescriptor : Use → Option Int
  | call _ (.write v type) => (WriteCall.value v type).firstDescriptor
  | encode t v => t.firstDescriptor v
  | _ => none

/-- The descriptor that a use gives to a sealed message, which is no longer valid then. -/
def lateDescriptor (m : Message) (u : Use) : Option Int :=
  if m.isValid then u.firstDescriptor else none

variable {u : Use} {uses : List Use} {m : Message} {n : Int}

theorem firstDescriptor_of_not_writing (h : u.writing? = none) : u.firstDescriptor = none := by
  cases u with
  | call ρ c => cases c <;> first | rfl | cases h
  | encode t v => cases h
  | _ => rfl

theorem beginning_of_firstDescriptor (h : u.firstDescriptor = some n) : u.beginning = .writes := by
  unfold firstDescriptor at h
  split at h
  · exact WriteCall.beginning_of_firstDescriptor h
  · exact WireType.beginning_of_firstDescriptor h
  · cases h

theorem beginsOnSealed_of_writing? {x : Action Unit} (h : u.writing? = some x) :
    BeginsOnSealed u.beginning u.firstDescriptor x := by
  unfold writing? at h
  split at h <;> cases h
  case h_1 v type => exact WriteCall.beginsOnSealed_action (.value v type)
  case h_2 c => exact WriteCall.beginsOnSealed_action (.opening c)
  case h_3 => exact WriteCall.beginsOnSealed_action .closing
  case h_4 t v =>
    intro m hm
    rw [WireType.encode, run_ifValid hm.valid]
    exact beginsOnSealed_encodeWithin (within_depth t v) hm

/-- **A use of a sealed message** changes none of its items, and adds no descriptor but a late
one. -/
theorem perform_of_sealed (hs : m.stream.isSealed = true) (u : Use) :
    (u.perform m).stream.isSealed = true ∧ (u.perform m).stream.items = m.stream.items ∧
      (u.perform m).stream.descriptors =
        m.stream.descriptors ++ (u.lateDescriptor m).toList.map .integer ∧
      ∀ n, u.lateDescriptor m = some n → (u.perform m).Final := by
  -- what does not give a descriptor leaves the content as it is
  have hsame {m' : Message} (h : m.SameContent m') (hlate : u.lateDescriptor m = none) :
      m'.stream.isSealed = true ∧ m'.stream.items = m.stream.items ∧
        m'.stream.descriptors =
          m.stream.descriptors ++ (u.lateDescriptor m).toList.map .integer ∧
        ∀ n, u.lateDescriptor m = some n → m'.Final := by
    rw [hlate]
    exact ⟨h.isSealed hs, h.items, by simp [h.descriptors], nofun⟩
  rcases hx : u.writing? with _ | x
  · refine hsame (keeps (enduring_sameContent m) u (fun x h => ?_) (.refl m)) ?_
    · rw [hx] at h
      cases h
    · simp [lateDescriptor, firstDescriptor_of_not_writing hx]
  · rw [perform_of_writing? hx]
    rcases hv : m.isValid with _ | _
    · rw [run_writing?_of_invalid hv hx]
      exact hsame (.refl m) (by simp [lateDescriptor, hv])
    · have hlate : u.lateDescriptor m = u.firstDescriptor := if_pos hv
      have hrun := beginsOnSealed_of_writing? hx ⟨hv, hs⟩
      by_cases hb : u.beginning = .writes
      · rw [hb] at hrun
        rw [show x.run m = _ from hrun, hlate]
        exact ⟨by rw [barred, given_isSealed, hs], given_items _ m, given_descriptors _ m,
          fun _ _ => final_barred⟩
      · have hnone : u.lateDescriptor m = none := by
          rw [hlate]
          exact Option.eq_none_iff_forall_ne_some.mpr fun n hn =>
            hb (beginning_of_firstDescriptor hn)
        generalize u.beginning = b at hb hrun
        cases b with
        | raises | nothing =>
          rw [show x.run m = _ from hrun]
          exact hsame (.refl m) hnone
        | fails =>
          obtain ⟨f, hrun⟩ := hrun
          rw [hrun]
          exact hsame ⟨rfl, rfl, id⟩ hnone
        | writes => exact absurd rfl hb

/-- A message that has failed for good keeps its content. -/
theorem sameContent_after (h : m.Final) (uses : List Use) : m.SameContent (after uses m) := by
  have hP : Enduring fun m' => m'.Final ∧ m.SameContent m' :=
    enduring_final.and (enduring_sameContent m)
  refine (keeps_after hP (fun u x hx m' h' => ?_) uses ⟨h, .refl m⟩).2
  rwa [run_writing?_of_invalid h'.1.invalid hx]

/-- **The items and the descriptors of a sealed message never change, but for one descriptor**: if
what is written to it begins with a descriptor, that has gone into its table, and the message has
failed for good, so that nothing comes behind it. -/
theorem sealed_unless_attached (hs : m.stream.isSealed = true) (uses : List Use) :
    (after uses m).stream.isSealed = true ∧ (after uses m).stream.items = m.stream.items ∧
      ((after uses m).stream.descriptors = m.stream.descriptors ∨
        ∃ u ∈ uses, ∃ n, u.firstDescriptor = some n ∧ (after uses m).Final ∧
          (after uses m).stream.descriptors = m.stream.descriptors ++ [.integer n]) ∧
      ∀ u : Use, (u.perform (after uses m)).stream.descriptors =
        (after uses m).stream.descriptors ++
          (u.lateDescriptor (after uses m)).toList.map .integer := by
  induction uses generalizing m with
  | nil => exact ⟨hs, rfl, .inl rfl, fun u => (perform_of_sealed hs u).2.2.1⟩
  | cons u uses ih =>
    obtain ⟨hs', hitems, hdescriptors, hfinal⟩ := perform_of_sealed hs u
    obtain ⟨hsealed, hitems', hall, hnext⟩ := ih hs'
    refine ⟨hsealed, hitems'.trans hitems, ?_, hnext⟩
    rcases hlate : u.lateDescriptor m with _ | n
    · rw [hlate, Option.toList_none, List.map_nil, List.append_nil] at hdescriptors
      rw [hdescriptors] at hall
      refine hall.imp_right fun ⟨u', hu', h⟩ => ⟨u', List.mem_cons_of_mem u hu', h⟩
    · right
      have hfirst : u.firstDescriptor = some n := by
        unfold lateDescriptor at hlate
        split at hlate
        · exact hlate
        · cases hlate
      refine ⟨u, List.mem_cons_self, n, hfirst, final_after uses (hfinal n hlate), ?_⟩
      rw [hlate] at hdescriptors
      exact (sameContent_after (hfinal n hlate) uses).descriptors.trans hdescriptors

/-- A descriptor is written. -/
def writeDescriptor : Use := .call {} (.write (.integer 5) (some (.wire (.basic .handle))))

/-- A descriptor that is written to a sealed message goes into its table, as the message fails. -/
theorem attached_writeDescriptor :
    sealedMessage.stream.isSealed = true ∧
      (writeDescriptor.perform sealedMessage).stream.descriptors = [.integer 5] := by
  have hlate : writeDescriptor.lateDescriptor sealedMessage = some 5 := by cbv
  have hnext := (sealed_unless_attached (m := sealedMessage) rfl []).2.2.2 writeDescriptor
  rw [show after [] sealedMessage = sealedMessage from rfl, hlate] at hnext
  exact ⟨rfl, hnext⟩

/-- Not every use leaves the descriptors of a sealed message alone. -/
theorem not_sealed_always :
    ¬ ∀ (m : Message) (u : Use), m.stream.isSealed = true →
      (u.perform m).stream.items = m.stream.items ∧
        (u.perform m).stream.descriptors = m.stream.descriptors := by
  intro h
  have hsame := (h sealedMessage writeDescriptor rfl).2
  have hgiven : (writeDescriptor.perform sealedMessage).stream.descriptors = [.integer 5] := by cbv
  rw [hgiven] at hsame
  cases hsame

end Use

/-! ## Failures that are final -/

namespace Message

/-- The message is being written; if it has failed, it has failed for good. -/
structure BeingWritten (m : Message) : Prop where
  unsealed : m.stream.isSealed = false
  failed : m.isValid = false → m.writeFailed = true

theorem Writable.beingWritten {m : Message} (hm : m.Writable) : m.BeingWritten where
  unsealed := hm.unsealed
  failed hv := by
    rw [hm.valid] at hv
    cases hv

/-- Whatever makes a message fail that is being written, it fails for good. -/
theorem standing_beingWritten : Standing BeingWritten where
  frames _ h := ⟨h.unsealed, h.failed⟩
  fail {m} f h := by
    refine ⟨by rw [stream_fail, h.unsealed], fun _ => ?_⟩
    rcases hv : m.isValid with _ | _
    · rw [fail_of_invalid hv]
      exact h.failed hv
    · simp [fail, hv, h.unsealed]
  barred h := ⟨h.unsealed, fun _ => rfl⟩
  push _ h := ⟨h.unsealed, h.failed⟩
  attach _ h := ⟨h.unsealed, h.failed⟩

end Message

namespace WriteCall

open TypedBus.Action

variable {m : Message}

/-- **A message that fails in a call that writes has failed for good, unless it was sealed and what
was to be written does not fit.** What failed for good stays failed whatever is done with it, and
resetting its failure breaches the contract; what has not is by a reset as it was before the
call. -/
theorem final_unless_misfit (hv : m.isValid = true) (call : WriteCall)
    (hfailed : (call.action.run m).2.isValid = false) :
    Fault.incompleteMessage.kind = .contract ∧
    ((call.action.run m).2.Final ↔
      m.stream.isSealed = false ∨ m.writeFailed = true ∨ call.beginning = .writes) ∧
    ((call.action.run m).2.Final → ∀ uses,
      (Use.after uses (call.action.run m).2).isValid = false ∧
        (Use.after uses (call.action.run m).2).resetFailure = .error .incompleteMessage) ∧
    (¬ (call.action.run m).2.Final → (call.action.run m).2.resetFailure = .ok m) := by
  refine ⟨rfl, ?_⟩
  have hforever : (call.action.run m).2.Final → ∀ uses,
      (Use.after uses (call.action.run m).2).isValid = false ∧
        (Use.after uses (call.action.run m).2).resetFailure = .error .incompleteMessage :=
    fun h uses => ⟨(Use.final_after uses h).invalid, (Use.final_after uses h).resetFailure⟩
  rcases hs : m.stream.isSealed with _ | _
  · have hwritten := admits_action standing_beingWritten.admits call m
      (Writable.beingWritten ⟨hv, hs⟩)
    have hfinal : (call.action.run m).2.Final := ⟨hfailed, hwritten.failed hfailed⟩
    exact ⟨iff_of_true hfinal (.inl rfl), hforever, fun h => absurd hfinal h⟩
  · have hrun := beginsOnSealed_action call ⟨hv, hs⟩
    rcases hb : call.beginning with f | _ | _ | _ <;> rw [hb] at hrun
    · -- what raises at once leaves the message valid
      rw [show call.action.run m = _ from hrun] at hfailed
      rw [hv] at hfailed
      cases hfailed
    · obtain ⟨f, hrun⟩ := hrun
      rw [hrun] at hforever ⊢
      have hfinal : ({ m with failure := some f } : Message).Final ↔ m.writeFailed = true :=
        ⟨fun h => h.writeFailed, fun h => ⟨rfl, h⟩⟩
      refine ⟨hfinal.trans (by simp), hforever, fun h => ?_⟩
      have hreset : m.writeFailed ≠ true := fun hw => h (hfinal.mpr hw)
      rw [resetFailure, if_neg hreset, ← Option.isNone_iff_eq_none.mp hv]
    · rw [show call.action.run m = _ from hrun] at hforever ⊢
      exact ⟨iff_of_true final_barred (.inr (.inr rfl)), hforever, fun h => absurd final_barred h⟩
    · rw [show call.action.run m = _ from hrun] at hfailed
      rw [hv] at hfailed
      cases hfailed

/-- A text is written as an integer. -/
def textAsInteger : WriteCall := value (.text "abc") (some (.wire (.basic (.integer .int32))))

/-- A text that is written as an integer to a sealed message leaves it invalid; a reset makes it
what it was. -/
theorem reset_textAsInteger :
    sealedMessage.isValid = true ∧ (textAsInteger.action.run sealedMessage).2.isValid = false ∧
      (textAsInteger.action.run sealedMessage).2.resetFailure = .ok sealedMessage := by
  have hfailed : (textAsInteger.action.run sealedMessage).2.isValid = false := by cbv
  obtain ⟨-, hfinal, -, hreset⟩ :=
    final_unless_misfit (m := sealedMessage) rfl textAsInteger hfailed
  refine ⟨rfl, hfailed, hreset fun h => ?_⟩
  have hbegins : textAsInteger.beginning = .fails := by cbv
  rcases hfinal.mp h with hs | hw | hb
  · cases hs
  · cases hw
  · rw [hbegins] at hb
    cases hb

/-- Not every failure in a call that writes is final. -/
theorem not_final_always :
    ¬ ∀ (m : Message) (call : WriteCall), m.isValid = true →
      (call.action.run m).2.isValid = false →
        ∃ f : Fault, f.kind = .contract ∧ (call.action.run m).2.resetFailure = .error f := by
  intro h
  have hfailed : (textAsInteger.action.run sealedMessage).2.isValid = false := by cbv
  have hreset : (textAsInteger.action.run sealedMessage).2.resetFailure = .ok sealedMessage := by
    cbv
  obtain ⟨f, -, hf⟩ := h sealedMessage textAsInteger rfl hfailed
  rw [hreset] at hf
  cases hf

end WriteCall

end TypedBus
