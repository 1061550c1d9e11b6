import TypedBus.Proofs.Message.Nesting
import TypedBus.Proofs.Message.ReadExact
import TypedBus.Proofs.Message.Rereading

/-!
# Going through a received message by hand

A reader who enters and leaves the containers of a received message and reads the basic values in
them (`Visit`) is told what is there, not what the containers announce: each call compares the item
under the cursor with what is asked for, and none looks at the fields of the container around it. So
what is found inside a container is what it announces just as far as the peer has kept to that.

`Item.Lawful` says of a row of items that each container in it holds what its marker announces, as
far as the row goes.

* `Item.WellFormed.lawful`: rows of complete values are lawful.
* `Takes.leads` and `Raises.leads`: what one visit takes is lawful where the items of the message
  are, also when elements of an array have been passed over or the visit raises, and so is what it
  leaves.
* `lawful_taken`, `lawful_of_taken`: so what visits take from a message that they leave valid is
  lawful where its items are; and if every item can be read, only then. `Visit.lawful_iff` puts both
  together.
* `Visit.not_lawful_textForInteger` is a struct of an integer in which a text is found.
-/

namespace TypedBus

open Message

/-! ## What containers announce -/

/-- Values of these signatures may be the first inside a container. -/
def Container.Admits (c : Container) (ss : List Text) : Prop := ∃ more, c.Children (ss ++ more)

namespace Container

variable {c : Container} {ss ss' : List Text}

theorem Children.admits (h : c.Children ss) : c.Admits ss := ⟨[], by rwa [List.append_nil]⟩

theorem Children.exists_fields (h : c.Children ss) : ∃ fields, c.fields = .ok fields := by
  unfold Children at h
  split at h
  · rename_i hk
    exact ⟨[c.content], by rw [fields, hk]⟩
  · exact ⟨_, h⟩

theorem Admits.of_append (h : c.Admits (ss ++ ss')) : c.Admits ss := by
  obtain ⟨more, h⟩ := h
  exact ⟨ss' ++ more, by rwa [← List.append_assoc]⟩

/-- Where an array ends is not announced. -/
theorem Admits.children (hk : c.kind = .array) (h : c.Admits ss) : c.Children ss := by
  obtain ⟨more, h⟩ := h
  simp only [Children, hk] at h ⊢
  obtain ⟨n, hn⟩ := h
  refine ⟨ss.length, List.eq_replicate_iff.mpr ⟨rfl, fun s hs => ?_⟩⟩
  exact (List.eq_replicate_iff.mp hn).2 s (List.mem_append_left more hs)

end Container

namespace Item

/-- An open container, and the signatures of the values that have begun directly inside it. -/
structure Level where
  container : Container
  values : List Text := []

/-- A value begins in the innermost open container. -/
def note : List Level → Text → List Level
  | [], _ => []
  | l :: ls, s => { l with values := l.values ++ [s] } :: ls

/-- Each container holds what its marker announces, and one that stays open the beginning of that.
Nothing is asked of what comes behind a closing marker that closes nothing. -/
def Lawful : List Level → List Item → Prop
  | ls, [] => ∀ l ∈ ls, l.container.Admits l.values
  | ls, basic code _ :: items => Lawful (note ls code) items
  | ls, opening c :: items => Lawful ({ container := c } :: note ls c.signature) items
  | [], closing :: _ => True
  | l :: ls, closing :: items => l.container.Children l.values ∧ Lawful ls items

variable {ls : List Level} {l : Level} {items more : List Item} {s : Text}

theorem admits_of_note (h : ∀ l ∈ note ls s, l.container.Admits l.values) :
    ∀ l ∈ ls, l.container.Admits l.values := by
  cases ls with
  | nil => exact h
  | cons l ls =>
    obtain ⟨hl, hls⟩ := List.forall_mem_cons.mp h
    exact List.forall_mem_cons.mpr ⟨hl.of_append, hls⟩

/-- What is open has begun as it was announced. -/
theorem Lawful.admits (h : Lawful ls items) : ∀ l ∈ ls, l.container.Admits l.values := by
  induction items generalizing ls with
  | nil => exact h
  | cons item items ih =>
    cases item with
    | basic code v => exact admits_of_note (ih h)
    | opening c => exact admits_of_note (List.forall_mem_cons.mp (ih h)).2
    | closing =>
      cases ls with
      | nil => nofun
      | cons l ls => exact List.forall_mem_cons.mpr ⟨h.1.admits, ih h.2⟩

/-- A value is noted inside, or in the container around what is inside. -/
theorem exists_note (inner : List Level) (l : Level) (ls : List Level) (s : Text) :
    ∃ inner' l', note (inner ++ l :: ls) s = inner' ++ l' :: ls ∧ inner'.length = inner.length := by
  cases inner with
  | nil => exact ⟨[], _, rfl, rfl⟩
  | cons i inner => exact ⟨_ :: inner, l, rfl, rfl⟩

/-- What comes behind the closing marker of a container is lawful, whatever of the container has
been passed over. -/
theorem Lawful.toClosing {inner : List Level} {n : Nat} (h : Lawful (inner ++ l :: ls) items)
    (hn : toClosing inner.length items = some n) : Lawful ls (items.drop (n + 1)) := by
  induction items generalizing inner l n with
  | nil => cases hn
  | cons item items ih =>
    cases item with
    | basic code v =>
      obtain ⟨k, hk, rfl⟩ := Option.map_eq_some_iff.mp (by simpa only [Item.toClosing] using hn)
      obtain ⟨inner', l', hnote, hlen⟩ := exists_note inner l ls code
      rw [Lawful, hnote] at h
      exact ih h (hlen ▸ hk)
    | opening c =>
      obtain ⟨k, hk, rfl⟩ := Option.map_eq_some_iff.mp (by simpa only [Item.toClosing] using hn)
      obtain ⟨inner', l', hnote, hlen⟩ := exists_note inner l ls c.signature
      rw [Lawful, hnote, ← List.cons_append] at h
      exact ih h (by rwa [List.length_cons, hlen])
    | closing =>
      cases inner with
      | nil =>
        cases hn
        exact h.2
      | cons i inner =>
        obtain ⟨k, hk, rfl⟩ := Option.map_eq_some_iff.mp
          (by simpa only [List.length_cons, Item.toClosing] using hn)
        exact ih h.2 hk

theorem foldl_note (ss : List Text) (l : Level) (ls : List Level) :
    ss.foldl note (l :: ls) = { l with values := l.values ++ ss } :: ls := by
  induction ss generalizing l with
  | nil => rw [List.foldl_nil, List.append_nil]
  | cons s ss ih => rw [List.foldl_cons, note, ih, List.append_assoc, List.singleton_append]

theorem foldl_note_nil (ss : List Text) : ss.foldl note [] = [] := by
  induction ss with
  | nil => rfl
  | cons s ss ih => exact ih

/-- Complete values are lawful where they are announced. -/
theorem Spells.lawful {R : Rules} {parent : Option Kind} {ss : List Text}
    (h : Spells R parent ss items) :
    ∀ {ls more}, Lawful (ss.foldl note ls) more → Lawful ls (items ++ more) := by
  induction h with
  | nil => exact id
  | basic _ _ ih => exact fun h => ih h
  | container _ _ hch _ _ ihin ih =>
    intro ls more h
    rw [List.cons_append, List.append_assoc, List.cons_append, Lawful]
    refine ihin ?_
    rw [foldl_note]
    exact ⟨by simpa using hch, ih h⟩

/-- **A row of complete values is lawful.** -/
theorem WellFormed.lawful (h : WellFormed items) : Lawful [] items := by
  obtain ⟨ss, hss⟩ := h
  have hnone : Lawful (ss.foldl note []) [] := by
    rw [foldl_note_nil]
    exact List.forall_mem_nil _
  simpa using hss.lawful hnone

/-- A reader who asks for what is there is given it: the code is that of a basic type, which accepts
the value, and the content of a container can be split into fields. -/
def Legible (ds : List Value) : Item → Prop
  | basic code v => ∃ b : BasicType, code = [b.code] ∧ ∃ x, b.Accepts ds v x
  | opening c => ∃ fields, c.fields = .ok fields
  | closing => True

end Item

/-! ## Visits -/

/-- A call that goes through a message: a container is entered or left, or a basic value is
read. -/
inductive Visit
  | enter (c : Container)
  | basic (b : BasicType)
  | leave

namespace Visit

/-- The visit as a call. -/
def call : Visit → Call
  | enter c => .enterContainer c
  | basic b => .read (.type (.wire (.basic b)))
  | leave => .exitContainer

/-- The item that a visit asks for, but for its value. -/
def item : Visit → Item
  | enter c => .opening c
  | basic b => .basic [b.code] .null
  | leave => .closing

/-- The visits, each with the registry, as calls. -/
def calls (ρ : Registry) (visits : List Visit) : List (Registry × Call) :=
  visits.map fun v => (ρ, v.call)

/-- What the visits take from a message, but for values. A visit that does not move the cursor takes
nothing. -/
def taken (ρ : Registry) : List Visit → Message → List Item
  | [], _ => []
  | v :: visits, m =>
    let m' := (v.call.perform ρ m).2
    if m.stream.cursor < m'.stream.cursor then v.item :: taken ρ visits m' else taken ρ visits m'

/-- The visits pass: made one after the other, whether they raise or not, they leave the message
valid. -/
def Passes (ρ : Registry) (visits : List Visit) (m : Message) : Prop :=
  (Call.performEach (calls ρ visits) m).isValid = true

/-- What a visit that answers takes from a message, and what it leaves of it. -/
inductive Takes (m : Message) : Visit → Message → Prop
  | enter {c : Container} {fields : List Text} {rest : List Item}
      (hrest : m.rest = .opening c :: rest) (hf : c.fields = .ok fields) :
      Takes m (.enter c) (m.enter c fields)
  | basic {b : BasicType} {v x : Value} {rest : List Item}
      (hrest : m.rest = .basic [b.code] v :: rest) (hx : b.Accepts m.stream.descriptors v x) :
      Takes m (.basic b) (m.skip 1)
  | leave {f : Frame} {fs : List Frame} {rest : List Item} (hf : m.frames = f :: fs)
      (hk : f.container.kind ≠ .array) (hrest : m.rest = .closing :: rest) :
      Takes m .leave { m.skip 1 with frames := fs }
  | leaveArray {f : Frame} {fs : List Frame} {n : Nat} (hf : m.frames = f :: fs)
      (hk : f.container.kind = .array) (hn : Item.toClosing 0 m.rest = some n) :
      Takes m .leave { m.skip (n + 1) with frames := fs }

/-- A visit that raises, and what it leaves of a message. A container whose content cannot be split
is not entered, though its marker has been taken. -/
inductive Raises (m : Message) : Visit → Stop → Message → Prop
  | enter {c : Container} {e : Malformed} {rest : List Item} (hrest : m.rest = .opening c :: rest)
      (hf : c.fields = .error e) : Raises m (.enter c) (.raised (.malformed e)) (m.skip 1)
  | basic {b : BasicType} {v : Value} {f : Fault} {rest : List Item}
      (hrest : m.rest = .basic [b.code] v :: rest) : Raises m (.basic b) (.raised f) (m.skip 1)
  | leave {f : Fault} (hf : m.frames = []) : Raises m .leave (.raised f) m

variable {ρ : Registry} {m m' : Message} {v : Visit} {visits : List Visit} {ls : List Item.Level}

/-! ### One visit -/

theorem run_read_basic (hm : m.Readable) (b : BasicType) :
    (Message.read ρ (.wire (.basic b))).run m = b.decode.run m := by
  rw [run_read (e := .wire (.basic b)) rfl hm.valid, WireType.run_decode hm.valid,
    WireType.decodeWith]

/-- Leaving a container takes its closing marker: that must be next, unless the container is an
array, what is left of which is passed over. -/
theorem run_exitContainer_iff (hm : m.Readable) :
    Message.exitContainer.run m = (.ok (), m') ↔ Takes m .leave m' := by
  unfold Message.exitContainer
  rw [Action.run_bind_of_ok (run_readable hm), Action.run_get_bind]
  constructor
  · intro h
    rcases hf : m.frames with _ | ⟨f, fs⟩ <;> rw [hf] at h
    · cases h
    · by_cases hk : f.container.kind = .array
      · simp only [hk, if_true] at h
        rcases hn : Item.toClosing 0 m.rest with _ | n <;> rw [hn] at h <;> cases h
        exact .leaveArray hf hk hn
      · simp only [hk, if_false, peek_eq_head] at h
        rcases hrest : m.rest with _ | ⟨_ | _ | _, rest⟩ <;> rw [hrest] at h <;> cases h
        exact .leave hf hk hrest
  · intro h
    cases h with
    | leave hf hk hrest =>
      simp only [hf, hk, if_false, peek_eq_head, hrest]
      rfl
    | leaveArray hf hk hn =>
      simp only [hf, hk, if_true, hn]
      rfl

/-- Where a visit takes something, the call answers and leaves the message that is left; a basic
value that has been read is one of the type that was asked for. -/
theorem perform_of_takes (hm : m.Readable) (h : Takes m v m') :
    ∃ a, v.call.perform ρ m = (.ok a, m') ∧ ∀ b, v = .basic b → ∃ x, a = .value x ∧ b.Holds x := by
  cases v with
  | enter c =>
    cases h with
    | enter hrest hf =>
      have hrun := (run_enterContainer_eq_ok hm).mpr ⟨_, _, hrest, hf, rfl⟩
      refine ⟨.message, ?_, fun _ hb => by cases hb⟩
      rw [call, Call.perform, hrun]
      rfl
  | basic b =>
    cases h with
    | @basic _ _ x _ hrest hx =>
      have hrun := (run_decode_basic_eq_ok hm).mpr ⟨_, _, hrest, hx, rfl⟩
      refine ⟨.value x, ?_, ?_⟩
      · rw [call, Call.perform, run_read_basic hm, hrun]
        rfl
      · rintro _ ⟨⟩
        exact ⟨x, rfl, hx.holds⟩
  | leave =>
    have hrun := (run_exitContainer_iff hm).mpr h
    refine ⟨.message, ?_, fun _ hb => by cases hb⟩
    rw [call, Call.perform, hrun]
    rfl

/-- The stop is a fault that has been raised where the message was this one. -/
def RaisedAt (m : Message) (stop : Stop) (m' : Message) : Prop :=
  (∃ f, stop = .raised f) ∧ m' = m

theorem settlesBut_raise {α : Type} (f : Fault) :
    Action.SettlesBut (RaisedAt m) (Action.raise f : Action α) m := by
  rintro _ _ ⟨⟩
  exact .inr ⟨⟨f, rfl⟩, rfl⟩

theorem settlesBut_refuse {α : Type} (v : Value) (failure : Text → Failure) :
    Action.SettlesBut (RaisedAt m) (Action.refuse v failure : Action α) m := by
  unfold Action.refuse
  split
  · exact (Action.settles_fail _).but
  · exact settlesBut_raise _

theorem settlesBut_resolve (index : Int) :
    Action.SettlesBut (RaisedAt m) (resolve index) m := by
  refine Action.settlesBut_get_bind.mpr ?_
  split
  · exact settlesBut_refuse _ _
  · split
    · exact (Action.settles_pure _).but
    · split
      · exact settlesBut_raise _
      · exact settlesBut_refuse _ _

theorem settlesBut_basic (hm : m.Readable) (b : BasicType) :
    Action.SettlesBut (Raises m (.basic b)) b.decode m := by
  refine (settles_readBasic hm).but.bind fun v m₁ hread => ?_
  obtain ⟨rest, hrest, rfl⟩ := (run_readBasic_eq_ok hm).mp hread
  have hraises : ∀ stop m', RaisedAt (m.skip 1) stop m' → Raises m (.basic b) stop m' := by
    rintro _ _ ⟨⟨f, rfl⟩, rfl⟩
    exact .basic hrest
  split
  · split
    · exact (settlesBut_resolve _).mono hraises
    · exact (settlesBut_resolve _).mono hraises
    · exact (settlesBut_resolve _).mono hraises
    · exact (settlesBut_refuse _ _).mono hraises
  · exact Action.settles_liftOrFail.but

theorem settlesBut_enter (hm : m.Readable) (c : Container) :
    Action.SettlesBut (Raises m (.enter c)) (Message.enterContainer c) m := by
  unfold Message.enterContainer Action.SettlesBut
  rw [Action.run_bind_of_ok (run_readable hm), Action.run_get_bind, peek_eq_head]
  rcases hrest : m.rest with _ | ⟨_ | d | _, rest⟩
  · exact (Action.settles_fail _).but
  · exact (Action.settles_fail _).but
  · simp only [List.head?_cons]
    split
    · rename_i hcd
      subst hcd
      rw [Action.run_bind_of_ok (Action.run_modify _ _), pushFrame]
      rcases hf : c.fields with e | fields
      · rintro _ _ ⟨⟩
        exact .inr (.enter hrest hf)
      · rintro _ _ ⟨⟩
    · exact (Action.settles_fail _).but
  · exact (Action.settles_fail _).but

theorem settlesBut_leave (hm : m.Readable) :
    Action.SettlesBut (Raises m .leave) Message.exitContainer m := by
  unfold Message.exitContainer Action.SettlesBut
  rw [Action.run_bind_of_ok (run_readable hm), Action.run_get_bind]
  rcases hf : m.frames with _ | ⟨f, fs⟩
  · rintro _ _ ⟨⟩
    exact .inr (.leave hf)
  · by_cases hk : f.container.kind = .array
    · simp only [hk, if_true]
      rcases Item.toClosing 0 m.rest with _ | n
      · rintro _ _ ⟨⟩
        exact .inl ⟨rfl, isValid_fail _⟩
      · rintro _ _ ⟨⟩
    · simp only [hk, if_false, peek_eq_head]
      intro stop m' h
      rcases hrest : m.rest with _ | ⟨_ | _ | _, rest⟩ <;> rw [hrest] at h <;> cases h
      all_goals exact .inl ⟨rfl, isValid_fail _⟩

/-- An action that leaves the message valid has answered, or has raised. -/
theorem run_of_tell {α : Type} {x : Action α} {shown : Option α → Answer}
    (hx : Action.SettlesBut (Raises m v) x m)
    (hv : (Call.tell shown (x.run m)).2.isValid = true) :
    (∃ b, x.run m = (.ok b, (Call.tell shown (x.run m)).2)) ∨
      ∃ f, (Call.tell shown (x.run m)).1 = .error (.raised f) ∧
        Raises m v (.raised f) (Call.tell shown (x.run m)).2 := by
  rcases hrun : x.run m with ⟨stop | b, m'⟩
  · rw [hrun] at hv
    rcases hx stop m' hrun with ⟨-, hinvalid⟩ | hraises
    · cases hinvalid.symm.trans hv
    · right
      cases hraises with
      | enter hrest hf => exact ⟨_, rfl, .enter hrest hf⟩
      | basic hrest => exact ⟨_, rfl, .basic hrest⟩
      | leave hf => exact ⟨_, rfl, .leave hf⟩
  · exact .inl ⟨b, rfl⟩

/-- A visit that leaves the message valid has taken something, or has raised. -/
theorem perform_cases (hm : m.Readable) (hv : (v.call.perform ρ m).2.isValid = true) :
    Takes m v (v.call.perform ρ m).2 ∨
      ∃ f, (v.call.perform ρ m).1 = .error (.raised f) ∧
        Raises m v (.raised f) (v.call.perform ρ m).2 := by
  cases v with
  | enter c =>
    refine (run_of_tell (settlesBut_enter hm c) hv).imp_left fun hrun => ?_
    obtain ⟨_, hrun⟩ := hrun
    obtain ⟨rest, fields, hrest, hf, hm'⟩ := (run_enterContainer_eq_ok hm).mp hrun
    exact hm' ▸ .enter hrest hf
  | basic b =>
    simp only [call, Call.perform, run_read_basic hm] at hv ⊢
    refine (run_of_tell (settlesBut_basic hm b) hv).imp_left fun hrun => ?_
    obtain ⟨_, hrun⟩ := hrun
    obtain ⟨_, rest, hrest, hx, hm'⟩ := (run_decode_basic_eq_ok hm).mp hrun
    exact hm' ▸ .basic hrest hx
  | leave =>
    refine (run_of_tell (settlesBut_leave hm) hv).imp_left fun hrun => ?_
    obtain ⟨_, hrun⟩ := hrun
    exact (run_exitContainer_iff hm).mp hrun

theorem Takes.readable (hm : m.Readable) (h : Takes m v m') : m'.Readable := by
  cases h <;> exact ⟨hm.valid, hm.isSealed⟩

theorem Raises.readable {stop : Stop} (hm : m.Readable) (h : Raises m v stop m') : m'.Readable := by
  cases h <;> exact ⟨hm.valid, hm.isSealed⟩

/-- A visit does nothing to an invalid message. -/
theorem perform_of_invalid (hm : m.isValid = false) : (v.call.perform ρ m).2 = m := by
  have hreadable : Message.readable.run m = (.error .failed, m) := by
    rw [Message.readable, Action.run_get_bind]
    simp [hm]
  cases v with
  | enter c =>
    have hrun : (Message.enterContainer c).run m = (.error .failed, m) :=
      Action.run_bind_of_error hreadable
    rw [call, Call.perform, hrun]
    rfl
  | basic b =>
    have hrun : (Message.read ρ (.wire (.basic b))).run m = (.error .failed, m) :=
      Action.run_ifValid_of_invalid hm
    rw [call, Call.perform, hrun]
    rfl
  | leave =>
    have hrun : Message.exitContainer.run m = (.error .failed, m) :=
      Action.run_bind_of_error hreadable
    rw [call, Call.perform, hrun]
    rfl

/-! ### Rows of visits -/

theorem performEach_of_invalid (hm : m.isValid = false) (visits : List Visit) :
    Call.performEach (calls ρ visits) m = m := by
  induction visits with
  | nil => rfl
  | cons v visits ih =>
    rw [calls, List.map_cons, Call.performEach, List.foldl_cons, perform_of_invalid hm]
    exact ih

theorem passes_nil (hm : m.Readable) : Passes ρ [] m := hm.valid

/-- Visits pass on what the first leaves. -/
theorem Passes.tail (h : Passes ρ (v :: visits) m) : Passes ρ visits (v.call.perform ρ m).2 := h

theorem Passes.head (h : Passes ρ (v :: visits) m) : (v.call.perform ρ m).2.isValid = true := by
  by_contra hinvalid
  have hlast : (Call.performEach (calls ρ visits) (v.call.perform ρ m).2).isValid = true := h
  rw [performEach_of_invalid (Bool.eq_false_iff.mpr hinvalid)] at hlast
  exact hinvalid hlast

theorem Takes.cursor_lt (h : Takes m v m') : m.stream.cursor < m'.stream.cursor := by
  cases h with
  | leaveArray => exact Nat.lt_add_of_pos_right (Nat.succ_pos _)
  | _ => exact Nat.lt_succ_self _

/-- Visits pass on what the first takes, and take that and what they take from what it leaves. -/
theorem Takes.passes (hm : m.Readable) (h : Takes m v m') (hpasses : Passes ρ visits m') :
    Passes ρ (v :: visits) m ∧ taken ρ (v :: visits) m = v.item :: taken ρ visits m' := by
  obtain ⟨a, hperform, -⟩ := perform_of_takes (ρ := ρ) hm h
  refine ⟨?_, ?_⟩
  · change (Call.performEach (calls ρ visits) (v.call.perform ρ m).2).isValid = true
    rwa [hperform]
  · simp only [taken, hperform, if_pos h.cursor_lt]

theorem rest_skip_one {i : Item} {rest : List Item} (hrest : m.rest = i :: rest) :
    (m.skip 1).rest = rest := by
  rw [rest_skip, hrest, List.drop_one, List.tail_cons]

/-- The frames are those of these containers. -/
def Fits (fs : List Frame) (ls : List Item.Level) : Prop :=
  List.Forall₂ (fun f l => f.container = l.container) fs ls

theorem Fits.note {fs : List Frame} (h : Fits fs ls) (s : Text) : Fits fs (Item.note ls s) := by
  cases h with
  | nil => exact .nil
  | cons hl hls => exact .cons hl hls

/-- What is inside a container can be lawful only if its content can be split. -/
theorem fields_of_lawful {c : Container} {items : List Item}
    (h : Item.Lawful ({ container := c } :: ls) items) : ∃ fields, c.fields = .ok fields := by
  obtain ⟨_, hchildren⟩ := h.admits _ List.mem_cons_self
  exact hchildren.exists_fields

/-- What a visit leaves is lawful in levels in which what it has taken comes first. -/
def Leads (ls : List Item.Level) (v : Visit) (m' : Message) : Prop :=
  ∃ ls', Fits m'.frames ls' ∧ Item.Lawful ls' m'.rest ∧
    ∀ items, Item.Lawful ls' items → Item.Lawful ls (v.item :: items)

/-- A basic value is taken alike, be it given back or not. -/
theorem leads_basic {b : BasicType} {w : Value} {rest : List Item} (hfits : Fits m.frames ls)
    (hlawful : Item.Lawful ls m.rest) (hrest : m.rest = .basic [b.code] w :: rest) :
    Leads ls (.basic b) (m.skip 1) := by
  rw [hrest] at hlawful
  exact ⟨Item.note ls [b.code], hfits.note _, (rest_skip_one hrest).symm ▸ hlawful, fun _ h => h⟩

theorem Takes.leads (h : Takes m v m') (hfits : Fits m.frames ls)
    (hlawful : Item.Lawful ls m.rest) : Leads ls v m' := by
  cases h with
  | @enter c fields rest hrest _ =>
    have hfits' : Fits (m.enter c fields).frames
        ({ container := c } :: Item.note ls c.signature) := .cons rfl (hfits.note _)
    rw [hrest] at hlawful
    exact ⟨_, hfits', (rest_enter_cons hrest).symm ▸ hlawful, fun _ h => h⟩
  | basic hrest => exact leads_basic hfits hlawful hrest
  | @leave _ fs rest hf _ hrest =>
    have hrest' : Message.rest { m.skip 1 with frames := fs } = rest := rest_skip_one hrest
    rw [hf] at hfits
    cases hfits with
    | cons _ hfits =>
      rw [hrest] at hlawful
      exact ⟨_, hfits, hrest'.symm ▸ hlawful.2, fun _ h => ⟨hlawful.1, h⟩⟩
  | @leaveArray _ fs n hf hk hn =>
    have hrest' : Message.rest { m.skip (n + 1) with frames := fs } = m.rest.drop (n + 1) :=
      rest_skip
    rw [hf] at hfits
    cases hfits with
    | @cons _ l _ ls hl hfits =>
      have hchildren : l.container.Children l.values :=
        (hlawful.admits l List.mem_cons_self).children (hl ▸ hk)
      have hbehind : Item.Lawful ls (m.rest.drop (n + 1)) := by
        rw [← List.nil_append (l :: ls)] at hlawful
        exact hlawful.toClosing hn
      exact ⟨_, hfits, hrest'.symm ▸ hbehind, fun _ h => ⟨hchildren, h⟩⟩

theorem Raises.leads {stop : Stop} (h : Raises m v stop m') (hfits : Fits m.frames ls)
    (hlawful : Item.Lawful ls m.rest) :
    m' = m ∨ m.stream.cursor < m'.stream.cursor ∧ Leads ls v m' := by
  cases h with
  | enter hrest hf =>
    rw [hrest] at hlawful
    obtain ⟨fields, hfields⟩ := fields_of_lawful hlawful
    cases hf.symm.trans hfields
  | basic hrest => exact .inr ⟨Nat.lt_succ_self _, leads_basic hfits hlawful hrest⟩
  | leave => exact .inl rfl

/-- **What visits that pass take is lawful where the items of the message are.** -/
theorem lawful_taken (hm : m.Readable) (hfits : Fits m.frames ls) (hlawful : Item.Lawful ls m.rest)
    (hpasses : Passes ρ visits m) : Item.Lawful ls (taken ρ visits m) := by
  induction visits generalizing m ls with
  | nil => exact hlawful.admits
  | cons v visits ih =>
    have hadd : Leads ls v (v.call.perform ρ m).2 → (v.call.perform ρ m).2.Readable →
        Item.Lawful ls (v.item :: taken ρ visits (v.call.perform ρ m).2) := by
      rintro ⟨ls', hfits', hlawful', hcons⟩ hm'
      exact hcons _ (ih hm' hfits' hlawful' hpasses.tail)
    rcases perform_cases hm hpasses.head with htakes | ⟨f, -, hraises⟩
    · rw [taken, if_pos htakes.cursor_lt]
      exact hadd (htakes.leads hfits hlawful) (htakes.readable hm)
    · rcases hraises.leads hfits hlawful with hsame | ⟨hlt, hleads⟩
      · have hpasses := hpasses.tail
        rw [hsame] at hpasses
        rw [taken, hsame, if_neg (lt_irrefl _)]
        exact ih hm hfits hlawful hpasses
      · rw [taken, if_pos hlt]
        exact hadd hleads (hraises.readable hm)

/-- **The items of a message are lawful if what visits that pass take is**, where a reader who asks
for what is there is given it. -/
theorem lawful_of_taken (hm : m.Readable) (hfits : Fits m.frames ls)
    (hlegible : ∀ item ∈ m.rest, item.Legible m.stream.descriptors)
    (hall : ∀ visits, Passes ρ visits m → Item.Lawful ls (taken ρ visits m)) :
    Item.Lawful ls m.rest := by
  generalize hrest : m.rest = items at hlegible
  induction items generalizing m ls with
  | nil => exact hall [] (passes_nil hm)
  | cons i items ih =>
    obtain ⟨hi, hitems⟩ := List.forall_mem_cons.mp hlegible
    -- what a visit leaves is the message of the induction hypothesis, if the visit takes this item
    have hnext : ∀ {v m'}, Takes m v m' → ∀ visits, Passes ρ visits m' →
        Item.Lawful ls (v.item :: taken ρ visits m') := by
      intro v m' htakes visits hpasses
      obtain ⟨hpasses, htaken⟩ := htakes.passes hm hpasses
      exact htaken ▸ hall _ hpasses
    cases i with
    | opening c =>
      obtain ⟨fields, hf⟩ := hi
      have htakes : Takes m (.enter c) (m.enter c fields) := .enter hrest hf
      exact ih (htakes.readable hm) (.cons rfl (hfits.note _)) (hnext htakes)
        (rest_enter_cons hrest) hitems
    | basic code v =>
      obtain ⟨b, rfl, x, hx⟩ := hi
      have htakes : Takes m (.basic b) (m.skip 1) := .basic hrest hx
      exact ih (htakes.readable hm) (hfits.note _) (hnext htakes) (rest_skip_one hrest) hitems
    | closing =>
      cases hframes : m.frames with
      | nil =>
        rw [hframes] at hfits
        cases hfits
        trivial
      | cons f fs =>
        rw [hframes] at hfits
        cases hfits with
        | @cons _ l _ ls hl hfits =>
          have htakes : Takes m .leave { m.skip 1 with frames := fs } := by
            by_cases hk : f.container.kind = .array
            · exact .leaveArray hframes hk (by rw [hrest]; rfl)
            · exact .leave hframes hk hrest
          have hm' := htakes.readable hm
          have hrest' : Message.rest { m.skip 1 with frames := fs } = items := rest_skip_one hrest
          have hchildren : l.container.Children l.values := (hnext htakes [] (passes_nil hm')).1
          exact ⟨hchildren,
            ih hm' hfits (fun visits hp => (hnext htakes visits hp).2) hrest' hitems⟩

/-- A basic value that has been read is one of the type that was asked for. -/
def Answered (v : Visit) (outcome : Except Halt Answer × Message) : Prop :=
  ∀ b a, v = .basic b → outcome.1 = .ok a → ∃ x, a = .value x ∧ b.Holds x

theorem answered_of_passes (hm : m.Readable) (hpasses : Passes ρ visits m) :
    List.Forall₂ Answered visits (Call.outcomes (calls ρ visits) m) := by
  induction visits generalizing m with
  | nil => exact .nil
  | cons v visits ih =>
    have hcases := perform_cases hm hpasses.head
    replace hpasses := hpasses.tail
    rw [calls, List.map_cons, Call.outcomes]
    rcases hcases with htakes | ⟨f, hf, hraises⟩
    · refine .cons (fun b a hb ha => ?_) (ih (htakes.readable hm) hpasses)
      obtain ⟨a', hperform, hread⟩ := perform_of_takes (ρ := ρ) hm htakes
      rw [hperform] at ha
      cases ha
      exact hread b hb
    · refine .cons (fun b a hb ha => ?_) (ih (hraises.readable hm) hpasses)
      cases hf.symm.trans ha

/-- Where no visit raises, each takes what it asks for. -/
theorem taken_of_ok (hm : m.Readable) (hpasses : Passes ρ visits m)
    (hok : ∀ outcome ∈ Call.outcomes (calls ρ visits) m, ∃ a, outcome.1 = .ok a) :
    taken ρ visits m = visits.map item := by
  induction visits generalizing m with
  | nil => rfl
  | cons v visits ih =>
    have hcases := perform_cases hm hpasses.head
    replace hpasses := hpasses.tail
    rw [calls, List.map_cons, Call.outcomes] at hok
    obtain ⟨⟨a, ha⟩, hok⟩ := List.forall_mem_cons.mp hok
    rcases hcases with htakes | ⟨f, hf, -⟩
    · rw [taken, if_pos htakes.cursor_lt, ih (htakes.readable hm) hpasses hok, List.map_cons]
    · cases hf.symm.trans ha

/-- **What is read inside a container is what it announces, if the message keeps to that.** Visits
that leave a message valid are given values of the types they ask for. What they take is lawful if
the items of the message are; if every item can be read, only then. The items are lawful if they are
a row of complete values. -/
theorem lawful_iff (ρ : Registry) (hm : m.Readable) (hframes : m.frames = []) :
    (∀ visits, Passes ρ visits m →
      List.Forall₂ Answered visits (Call.outcomes (calls ρ visits) m) ∧
      ((∀ outcome ∈ Call.outcomes (calls ρ visits) m, ∃ a, outcome.1 = .ok a) →
        taken ρ visits m = visits.map item)) ∧
    (Item.Lawful [] m.rest → ∀ visits, Passes ρ visits m → Item.Lawful [] (taken ρ visits m)) ∧
    ((∀ item ∈ m.rest, item.Legible m.stream.descriptors) →
      ((∀ visits, Passes ρ visits m → Item.Lawful [] (taken ρ visits m)) ↔
        Item.Lawful [] m.rest)) ∧
    (Item.WellFormed m.rest → Item.Lawful [] m.rest) := by
  have hfits : Fits m.frames [] := hframes ▸ .nil
  have htaken : Item.Lawful [] m.rest →
      ∀ visits, Passes ρ visits m → Item.Lawful [] (taken ρ visits m) :=
    fun h _ hpasses => lawful_taken hm hfits h hpasses
  exact ⟨fun _ hpasses => ⟨answered_of_passes hm hpasses, taken_of_ok hm hpasses⟩, htaken,
    fun hlegible => ⟨lawful_of_taken hm hfits hlegible, htaken⟩, Item.WellFormed.lawful⟩

section Examples

open WireType

/-- A received array of one struct of an integer and a text. -/
def arrayOfPair : Message :=
  ofStream
    { items :=
        [.opening (arrayOf (.struct [.int32, .string])), .opening (structOf [.int32, .string]),
          .basic "i" (.integer 1), .basic "s" (.text "x"), .closing, .closing]
      isSealed := true }

/-- The struct in the array is read and left, and then the array. The last visit raises. -/
def pairVisits : List Visit :=
  [.enter (arrayOf (.struct [.int32, .string])), .enter (structOf [.int32, .string]),
    .basic (.integer .int32), .basic .string, .leave, .leave, .leave]

theorem lawful_arrayOfPair :
    arrayOfPair.Readable ∧ arrayOfPair.frames = [] ∧ Passes .common pairVisits arrayOfPair ∧
    List.Forall₂ Answered pairVisits (Call.outcomes (calls .common pairVisits) arrayOfPair) ∧
    (∀ item ∈ arrayOfPair.rest, item.Legible []) ∧ Item.WellFormed arrayOfPair.rest ∧
    ∀ visits, Passes .common visits arrayOfPair →
      Item.Lawful [] (taken .common visits arrayOfPair) := by
  have hm : arrayOfPair.Readable := ⟨rfl, rfl⟩
  obtain ⟨hpassed, -, hiff, hwhole⟩ := lawful_iff .common hm rfl
  have hstruct : (structOf [.int32, .string]).fields = .ok ["i", "s"] := by decide +kernel
  have harray : (arrayOf (.struct [.int32, .string])).fields = .ok ["(is)"] := by decide +kernel
  have hinteger : ∃ x, (BasicType.integer .int32).Accepts [] (.integer 1) x :=
    ⟨_, .plain (by decide) rfl⟩
  have htext : ∃ x, BasicType.string.Accepts [] (.text "x") x :=
    ⟨_, .plain (by decide) rfl⟩
  have hlegible : ∀ item ∈ arrayOfPair.rest, item.Legible [] := by
    change ∀ item ∈ arrayOfPair.stream.items, item.Legible []
    simp only [arrayOfPair, ofStream, List.forall_mem_cons]
    exact ⟨⟨_, harray⟩, ⟨_, hstruct⟩, ⟨_, rfl, hinteger⟩, ⟨_, rfl, htext⟩, trivial, trivial,
      List.forall_mem_nil _⟩
  have hinside : Item.Spells .written (some .struct) ["i", "s"]
      [.basic "i" (.integer 1), .basic "s" (.text "x")] :=
    .basic ⟨.integer .int32, rfl⟩ (.one ⟨.string, rfl⟩)
  have hpair : (structOf [.int32, .string]).IsComplete :=
    Container.isValid_iff.mp (by decide +kernel)
  have hpairs : (arrayOf (.struct [.int32, .string])).IsComplete :=
    Container.isValid_iff.mp (by decide +kernel)
  have hspelt : Item.WellFormed arrayOfPair.rest :=
    ⟨_, .bracket (c := arrayOf (.struct [.int32, .string])) hpairs (by decide)
      ⟨1, rfl⟩ (.bracket (c := structOf [.int32, .string]) hpair (by decide) hstruct hinside)⟩
  have hpasses : Passes .common pairVisits arrayOfPair := by
    unfold Passes
    cbv
  exact ⟨hm, rfl, hpasses, (hpassed _ hpasses).1, hlegible, hspelt,
    (hiff hlegible).mpr (hwhole hspelt)⟩

/-- A received struct of an integer in which there is a text. -/
def textForInteger : Message :=
  ofStream
    { items := [.opening (structOf [.int32]), .basic "s" (.text "abc"), .closing]
      isSealed := true }

/-- The struct is entered, and the text read in it. -/
def textVisits : List Visit := [.enter (structOf [.int32]), .basic .string]

/-- What is read inside a container is not always what that announces. -/
theorem not_lawful_textForInteger :
    ¬ ∀ (ρ : Registry) (m : Message) (visits : List Visit), m.Readable → m.frames = [] →
      Passes ρ visits m → Item.Lawful [] (taken ρ visits m) := by
  intro h
  have hm : textForInteger.Readable := ⟨rfl, rfl⟩
  have hpasses : Passes .common textVisits textForInteger := by
    unfold Passes
    cbv
  have hlawful := h .common textForInteger textVisits hm rfl hpasses
  have htaken : taken .common textVisits textForInteger =
      [.opening (structOf [.int32]), .basic "s" .null] := by cbv
  have hfields : (structOf [.int32]).fields = .ok ["i"] := by decide +kernel
  rw [htaken] at hlawful
  obtain ⟨more, hmore⟩ := hlawful _ List.mem_cons_self
  cases hfields.symm.trans hmore

end Examples

end Visit

end TypedBus
