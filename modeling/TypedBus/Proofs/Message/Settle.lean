import TypedBus.Proofs.Json.Values
import TypedBus.Proofs.Message.ReadExact

/-!
# Reading settles

Whatever a stream holds, reading a value of a reduced type from it gives an answer or records a
failure, and comes to an end, unless it comes to a handle that stops it (`settles_decode`). A handle
does so by a fault that is neither converted nor worded (`Stream.StopsAt`): its descriptor is an
infinity, which overflows, or its failure would show a value with too long an integer in it. The
faults of all other conversions, those of showing a value among them, are recorded.

All that is asked of the stream is that its values are shown as those of documents are, and that
nothing but an infinity overflows (`Stream.Docile`). An array is read to its end because each of its
elements takes an item, and variants inside one another are read because each takes one.
-/

namespace TypedBus

open Message WireType

namespace Stream

/-- The values of the stream can be shown unless too long an integer is in them, and only infinities
among its descriptors overflow. -/
structure Docile (s : Stream) : Prop where
  items : ∀ code v, .basic code v ∈ s.items → v.ShownBy v.display
  descriptors : ∀ d ∈ s.descriptors, d.ShownBy d.display
  overflow : ∀ d ∈ s.descriptors, ∀ f, d.toInteger = .error f → f.kind = .range →
    d.isInfinity = true

/-- The descriptor of a handle. -/
def descriptor? (s : Stream) (index : Int) : Option Value :=
  if 0 ≤ index then s.descriptors[index.toNat]? else none

/-- The item stands for a handle by this value. -/
abbrev HandleAt (s : Stream) (n : Nat) (v : Value) : Prop :=
  s.items[n]? = some (.basic [BasicType.handle.code] v)

/-- The item at this place is one of a handle that is neither read nor refused: its descriptor is an
infinity, or there is too long an integer to be shown in what it is refused for, which is a value
that is no index, an index without a descriptor, or a descriptor that is no number. -/
inductive StopsAt (s : Stream) (n : Nat) : Fault → Prop
  | noIndex {v : Value} (hitem : s.HandleAt n v) (hv : v.index? = none)
      (hlong : v.HasLongInteger) : StopsAt s n .tooLongToShow
  | noDescriptor {v : Value} {i : Int} (hitem : s.HandleAt n v) (hv : v.index? = some i)
      (hd : s.descriptor? i = none) (hlong : (Value.integer i).HasLongInteger) :
      StopsAt s n .tooLongToShow
  | infinity {v d : Value} {i : Int} (hitem : s.HandleAt n v) (hv : v.index? = some i)
      (hd : s.descriptor? i = some d) (hinf : d.isInfinity = true) :
      StopsAt s n .infinityToInteger
  | noNumber {v d : Value} {i : Int} {f : Fault} (hitem : s.HandleAt n v) (hv : v.index? = some i)
      (hd : s.descriptor? i = some d) (hint : d.toInteger = .error f) (hlong : d.HasLongInteger) :
      StopsAt s n .tooLongToShow

theorem mem_of_descriptor? {s : Stream} {i : Int} {d : Value} (h : s.descriptor? i = some d) :
    d ∈ s.descriptors := by
  unfold descriptor? at h
  split at h
  · exact List.mem_of_getElem? h
  · cases h

end Stream

namespace Message

variable {s : Stream} {m m' : Message} {c : Container} {fields : List Text} {n : Nat}

/-- The message holds the items and the descriptors of the stream. -/
structure Over (s : Stream) (m : Message) : Prop where
  items : m.stream.items = s.items
  descriptors : m.stream.descriptors = s.descriptors

theorem Over.skip (h : m.Over s) (n : Nat) : (m.skip n).Over s := ⟨h.items, h.descriptors⟩

theorem Over.enter (h : m.Over s) (c : Container) (fields : List Text) :
    (m.enter c fields).Over s :=
  ⟨h.items, h.descriptors⟩

/-- The item that was the last one taken is one of a handle that stops the reader, its fault was
raised, and no failure was recorded. -/
structure Stopped (s : Stream) (stop : Stop) (m : Message) : Prop where
  valid : m.isValid = true
  fault : ∃ f n, stop = .raised f ∧ m.stream.cursor = n + 1 ∧ s.StopsAt n f

theorem getElem?_of_rest {item : Item} {rest : List Item} (h : m.rest = item :: rest) :
    m.stream.items[m.stream.cursor]? = some item := by
  have hhead := congrArg List.head? h
  rwa [← peek_eq_head] at hhead

/-- A value is refused, or it cannot be shown. -/
theorem settles_refuse_shownBy {α : Type} {v : Value} {failure : Text → Failure}
    (hm : m.isValid = true) (hn : m.stream.cursor = n + 1) (hv : v.ShownBy v.display)
    (hstops : v.HasLongInteger → s.StopsAt n .tooLongToShow) :
    Action.SettlesBut (Stopped s) (Action.refuse v failure : Action α) m := by
  rcases hshow : v.display with f | shown
  · obtain ⟨rfl, hlong⟩ := hv.of_error hshow
    rw [Action.refuse, hshow]
    rintro stop m' ⟨⟩
    exact .inr ⟨hm, _, n, rfl, hn, hstops hlong⟩
  · exact (Action.settles_refuse hshow _).but

theorem run_resolve_eq (hd : m.Over s) (i : Int) :
    (resolve i).run m = (match s.descriptor? i with
      | none => Action.refuse (.integer i) .noDescriptor
      | some d =>
        match d.toInteger with
        | .ok n => pure (Value.handle n)
        | .error f =>
          if f.kind = FaultKind.range then Action.raise f
          else Action.refuse d (.badDescriptor i)).run m := by
  unfold resolve
  rw [Action.run_get_bind, hd.descriptors]
  rfl

theorem settles_resolve {v : Value} {i : Int} (hs : s.Docile) (hm : m.isValid = true)
    (hd : m.Over s) (hn : m.stream.cursor = n + 1) (hitem : s.HandleAt n v)
    (hv : v.index? = some i) : Action.SettlesBut (Stopped s) (resolve i) m := by
  unfold Action.SettlesBut
  rw [run_resolve_eq hd]
  rcases hget : s.descriptor? i with _ | d
  · exact settles_refuse_shownBy hm hn (Value.shownBy_displayInteger i)
      (.noDescriptor hitem hv hget)
  have hmem := Stream.mem_of_descriptor? hget
  rcases hint : d.toInteger with f | k
  · simp only [hint]
    split
    · rename_i hrange
      have hinf := hs.overflow d hmem f hint hrange
      obtain rfl := Except.error.inj (hint.symm.trans (Value.toInteger_of_isInfinity hinf))
      rintro stop m' ⟨⟩
      exact .inr ⟨hm, _, n, rfl, hn, .infinity hitem hv hget hinf⟩
    · exact settles_refuse_shownBy hm hn (hs.descriptors d hmem) (.noNumber hitem hv hget hint)
  · simp only [hint]
    exact (Action.settles_pure _).but

theorem settles_decode_basic {b : BasicType} (hs : s.Docile) (hm : m.Readable) (hd : m.Over s) :
    Action.SettlesBut (Stopped s) b.decode m := by
  refine (settles_readBasic hm).but.bind fun v m₁ hread => ?_
  obtain ⟨rest, hrest, rfl⟩ := (run_readBasic_eq_ok hm).mp hread
  have hitem : s.items[m.stream.cursor]? = some (.basic [b.code] v) :=
    hd.items ▸ getElem?_of_rest hrest
  split
  · have hresolve : ∀ i, v.index? = some i →
        Action.SettlesBut (Stopped s) (resolve i) (m.skip 1) :=
      fun i hv => settles_resolve hs hm.valid (hd.skip 1) rfl hitem hv
    split
    · exact hresolve _ rfl
    · exact hresolve _ rfl
    · exact hresolve _ rfl
    · rename_i hinteger hfixed hhandle
      have hindex : v.index? = none := by
        cases v with
        | integer i => exact absurd rfl (hinteger i)
        | fixed w i => exact absurd rfl (hfixed w i)
        | handle i => exact absurd rfl (hhandle i)
        | _ => rfl
      exact settles_refuse_shownBy hm.valid rfl (hs.items _ _ (List.mem_of_getElem? hitem))
        (.noIndex hitem hindex)
  · exact Action.settles_liftOrFail.but

/-- A bracketed value settles where its inside does. -/
theorem settles_bracket {α β : Type} {body : Action α} {f : α → Action β} (hm : m.Readable)
    (hf : c.fields = .ok fields) (hbody : ∀ rest, m.rest = .opening c :: rest →
      Action.SettlesBut (Stopped s) body (m.enter c fields))
    (hskip : ∀ {a m₁}, body.run (m.enter c fields) = (.ok a, m₁) →
      ∃ n, m₁ = (m.enter c fields).skip n)
    (hafter : ∀ a m, Action.SettlesBut (Stopped s) (f a) m) :
    Action.SettlesBut (Stopped s) (do enterContainer c; let a ← body; exitContainer; f a) m := by
  refine (settles_enterContainer hm hf).but.bind fun _ m₀ henter => ?_
  obtain ⟨rest, fields', hrest, hf', rfl⟩ := (run_enterContainer_eq_ok hm).mp henter
  obtain rfl : fields = fields' := Except.ok.inj (hf.symm.trans hf')
  refine (hbody rest hrest).bind fun a m₁ hrun => ?_
  obtain ⟨n, rfl⟩ := hskip hrun
  exact (settles_exitContainer ((hm.enter c fields).skip n) (List.cons_ne_nil _ _)).but.bind
    fun _ _ _ => hafter a _

end Message

namespace WireType

variable {s : Stream} {ρ : Registry} {unbox : Action Value} {m : Message} {n : Nat}
  {e k x t : WireType} {ts : List WireType} {β : Type}

/-- Reading a value of the type settles on every message over the stream with fewer items left than
this. -/
def Settled (s : Stream) (unbox : Action Value) (n : Nat) (t : WireType) : Prop :=
  ∀ ⦃m : Message⦄, m.Readable → m.Over s → m.rest.length < n →
    Action.SettlesBut (Stopped s) (decodeWith unbox t) m

theorem settled_row : ∀ {ts : List WireType} {m : Message}, (∀ t ∈ ts, Sound ρ unbox t) →
    (∀ t ∈ ts, Settled s unbox n t) → m.Readable → m.Over s → m.rest.length < n →
    Action.SettlesBut (Stopped s) (decodeFields unbox ts) m
  | [], m, _, _, _, _, _ => by
    rw [decodeFields]
    exact (Action.settles_pure []).but
  | t :: ts, m, hsound, hsettled, hm, hd, hn => by
    obtain ⟨hsound₁, hsounds⟩ := List.forall_mem_cons.mp hsound
    obtain ⟨hsettled₁, hsettleds⟩ := List.forall_mem_cons.mp hsettled
    rw [decodeFields]
    refine (hsettled₁ hm hd hn).bind fun w m₁ hw => ?_
    obtain ⟨seg, tail, -, rfl, -⟩ := hsound₁ hm hw
    have hlen := length_rest_skip_lt hn seg.length
    have hrow := settled_row hsounds hsettleds (hm.skip _) (hd.skip _) hlen
    exact hrow.bind fun _ _ _ => (Action.settles_pure _).but

/-- Elements that take items are read until the end of an array, which there is. -/
theorem settled_untilEnd {put : β → Value → Except Fault β} (hsound : Sound ρ unbox e)
    (hsettled : Settled s unbox n e) (he : e.IsElement)
    (hput : ∀ {m w m'}, m.Readable → (decodeWith unbox e).run m = (.ok w, m') →
      ∀ b, ∃ b', put b w = .ok b') :
    ∀ (j : Nat) (b : β) {m : Message}, m.Readable → m.Over s → m.rest.length < n →
      m.rest.length < j → Action.SettlesBut (Stopped s) (untilEnd (gatherStep unbox e put) j b) m
  | 0, _, _, _, _, _, hj => absurd hj (Nat.not_lt_zero _)
  | j + 1, b, m, hm, hd, hn, hj => by
    rw [untilEnd, Action.settlesBut_get_bind]
    split
    · exact (Action.settles_pure b).but
    · have hstep : Action.SettlesBut (Stopped s) (gatherStep unbox e put b) m := by
        refine (hsettled hm hd hn).bind fun w m₁ hw => ?_
        obtain ⟨b', hb'⟩ := hput hm hw b
        rw [hb']
        exact (Action.settles_pure b').but
      refine hstep.bind fun b₁ m₁ hrun => ?_
      obtain ⟨w, m₂, hw, hlift⟩ := Action.run_bind_eq_ok.mp hrun
      obtain ⟨-, rfl⟩ := Action.run_lift_eq_ok.mp hlift
      -- the element has taken an item, so that fewer are left
      obtain ⟨item, seg, tail, hrest, -, rfl⟩ := hsound.element he hm hw
      have hlen : (m.skip (seg.length + 1)).rest.length < m.rest.length := by
        rw [rest_skip, List.length_drop, hrest, List.length_cons]
        omega
      rw [Action.settlesBut_get_bind, if_pos (by simp)]
      exact settled_untilEnd hsound hsettled he hput j b₁ (hm.skip _) (hd.skip _) (by omega)
        (by omega)

theorem settled_array {put : β → Value → Except Fault β} {b : β} {f : β → Value}
    (hsound : Sound ρ unbox e) (hsettled : Settled s unbox n e) (he : e.IsElement)
    (hput : ∀ {m w m'}, m.Readable → (decodeWith unbox e).run m = (.ok w, m') →
      ∀ b, ∃ b', put b w = .ok b')
    (hm : m.Readable) (hd : m.Over s) (hn : m.rest.length < n) :
    Action.SettlesBut (Stopped s) (do
      enterContainer (arrayOf e)
      let vs ← repeatUntilEnd (gatherStep unbox e put) b
      exitContainer
      pure (f vs)) m := by
  refine settles_bracket hm rfl (fun rest hrest => ?_) (fun hrun => ?_) fun _ _ =>
    (Action.settles_pure _).but
  · rw [repeatUntilEnd, Action.settlesBut_get_bind]
    exact settled_untilEnd hsound hsettled he hput _ b (hm.enter _ _) (hd.enter _ _)
      (length_rest_enter_lt hn _ _) (Nat.lt_succ_self _)
  · obtain ⟨⟨seg, tail, -, hskip, -⟩, -⟩ := sound_gather hsound (hm.enter _ _) hrun
    exact ⟨_, hskip⟩

/-- What is read as a dict entry can be added to a dict. -/
theorem exists_addEntry (hsound : Sound ρ unbox (.entry k x))
    (he : (WireType.entry k x).IsElement) {w : Value} {m' : Message} (hm : m.Readable)
    (h : (decodeWith unbox (.entry k x)).run m = (.ok w, m')) (es : List (Value × Value)) :
    ∃ es', Value.addEntry es w = .ok es' := by
  obtain ⟨⟨key, rfl⟩, -, -⟩ := he.ofEntry
  obtain ⟨seg, tail, -, -, hread⟩ := hsound hm h
  obtain ⟨a, y, rfl, ha⟩ := Reads.entries (n := 1) hread w List.mem_cons_self
  exact ⟨_, Value.addEntry_eq_ok.mpr ⟨ha.hashable, rfl⟩⟩

theorem settled_pair (hsound : Sound ρ unbox k) (hk : Settled s unbox n k)
    (hx : Settled s unbox n x) (hm : m.Readable) (hd : m.Over s) (hn : m.rest.length < n) :
    Action.SettlesBut (Stopped s) (decodePair unbox k x) m := by
  refine (hk hm hd hn).bind fun a m₁ ha => ?_
  obtain ⟨seg, tail, -, rfl, -⟩ := hsound hm ha
  have hlen := length_rest_skip_lt hn seg.length
  exact (hx (hm.skip _) (hd.skip _) hlen).bind fun _ _ _ => (Action.settles_pure _).but

theorem settled_entry (hsound : Sound ρ unbox .variant) (he : (WireType.entry k x).IsElement)
    (hk : k.IsElement → Settled s unbox n k) (hx : x.IsElement → Settled s unbox n x) :
    Settled s unbox n (.entry k x) := by
  intro m hm hd hn
  obtain ⟨⟨key, rfl⟩, hreduced, hf⟩ := he.ofEntry
  have hk := hk (.reduced (isReduced_basic key))
  have hx := hx (.reduced hreduced)
  have hsoundk := decodeWith_sound hsound (.basic key)
  have hsoundx := decodeWith_sound hsound x
  rw [decodeWith_entry]
  refine settles_bracket hm hf (fun rest hrest => ?_) (fun {p m₁} hrun => ?_) fun _ _ =>
    (Action.settles_pure _).but
  · exact settled_pair hsoundk hk hx (hm.enter _ _) (hd.enter _ _) (length_rest_enter_lt hn _ _)
  · obtain ⟨a, b⟩ := p
    have hsounds : ∀ t ∈ [.basic key, x], Sound ρ unbox t := by simpa using ⟨hsoundk, hsoundx⟩
    obtain ⟨seg, tail, -, hskip, -⟩ :=
      sound_row hsounds (hm.enter _ _) (run_decodePair_eq_ok.mp hrun)
    exact ⟨_, hskip⟩

mutual

/-- **Reading settles**, if it does where a variant is read. -/
theorem settled_of_variant (hs : s.Docile) (hsound : Sound ρ unbox .variant)
    (hsettled : Settled s unbox n .variant) : ∀ t : WireType, t.IsElement → Settled s unbox n t
  | .basic b, _ => by
    intro m hm hd _
    rw [decodeWith]
    exact settles_decode_basic hs hm hd
  | .variant, _ => hsettled
  | .array e, h => by
    intro m hm hd hn
    rw [decodeWith_array]
    exact settled_array (decodeWith_sound hsound e)
      (settled_of_variant hs hsound hsettled e h.ofArray) h.ofArray (fun _ _ _ => ⟨_, rfl⟩) hm hd hn
  | .dict k x, h => by
    intro m hm hd hn
    rw [decodeWith_dict]
    have hentry := settled_entry hsound h.ofDict (settled_of_variant hs hsound hsettled k)
      (settled_of_variant hs hsound hsettled x)
    have hsoundEntry := decodeWith_sound hsound (.entry k x)
    exact settled_array hsoundEntry hentry h.ofDict (exists_addEntry hsoundEntry h.ofDict) hm hd hn
  | .entry k x, h =>
    settled_entry hsound h (settled_of_variant hs hsound hsettled k)
      (settled_of_variant hs hsound hsettled x)
  | .struct fs, h => by
    intro m hm hd hn
    obtain ⟨hfs, hf⟩ := h.ofStruct
    have hsounds := decodeWith_soundAll hsound fs
    rw [decodeWith]
    refine settles_bracket hm hf (fun rest hrest => ?_) (fun hrun => ?_) fun _ _ =>
      (Action.settles_pure _).but
    · have hsettleds := settled_of_variantAll hs hsound hsettled fs fun f hf => .reduced (hfs f hf)
      exact settled_row hsounds hsettleds (hm.enter _ _) (hd.enter _ _)
        (length_rest_enter_lt hn _ _)
    · obtain ⟨seg, tail, -, hskip, -⟩ := sound_row hsounds (hm.enter _ _) hrun
      exact ⟨_, hskip⟩
  | .tuple fs, h => absurd h fun h => h.not_tuple

theorem settled_of_variantAll (hs : s.Docile) (hsound : Sound ρ unbox .variant)
    (hsettled : Settled s unbox n .variant) :
    ∀ ts : List WireType, (∀ t ∈ ts, t.IsElement) → ∀ t ∈ ts, Settled s unbox n t
  | [], _ => fun _ ht => nomatch ht
  | t :: ts, h => by
    obtain ⟨ht, hts⟩ := List.forall_mem_cons.mp h
    have h₁ := settled_of_variant hs hsound hsettled t ht
    have h₂ := settled_of_variantAll hs hsound hsettled ts hts
    exact List.forall_mem_cons.mpr ⟨h₁, h₂⟩

end

/-- Reading a variant settles in as many steps as items are left. -/
theorem settled_unboxing (hs : s.Docile) (hρ : ρ.Filled) : ∀ n, Settled s (unboxing ρ n) n .variant
  | 0 => fun _ _ _ hn => absurd hn (Nat.not_lt_zero _)
  | n + 1 => by
    intro m hm hd hn
    rw [decodeWith, unboxing, decodeBoxed, Action.settlesBut_get_bind]
    rcases m.peekType with ⟨code, content⟩
    simp only
    split
    · rcases hl : ρ.lookup? content with _ | t
      · exact (Action.settles_fail _).but
      · have hunbox : Sound ρ (unboxing ρ n) .variant := sound_unboxing n
        have hsound := decodeWith_sound hunbox t
        refine settles_bracket hm rfl (fun rest hrest => ?_) (fun hrun => ?_) fun _ _ =>
          (Action.settles_pure _).but
        · -- the marker of the variant is taken, so that one count less is enough inside
          have hlen : (m.enter (variantOf t) [t.signature]).rest.length < n := by
            rw [hrest, List.length_cons] at hn
            rw [rest_enter_cons hrest]
            omega
          have ht : t.IsElement := .reduced (hρ.lookup hl).2
          rw [decodeWithin_eq]
          exact settled_of_variant hs hunbox (settled_unboxing hs hρ n) t ht (hm.enter _ _)
            (hd.enter _ _) hlen
        · rw [decodeWithin_eq] at hrun
          obtain ⟨seg, tail, -, hskip, -⟩ := hsound (hm.enter _ _) hrun
          exact ⟨_, hskip⟩
    · exact (settles_enterContainer hm rfl).but.bind fun _ _ _ => (Action.settles_fail _).but

/-- **Reading a value of a reduced type comes to an end and raises nothing**, unless it comes to a
handle that stops it. -/
theorem settles_decode (hs : s.Docile) (hρ : ρ.Filled) (ht : t.IsElement) (hm : m.Readable)
    (hd : m.Over s) : Action.SettlesBut (Stopped s) (decode ρ t) m := by
  unfold Action.SettlesBut
  rw [run_decode hm.valid]
  exact settled_of_variant hs (sound_unboxing _) (settled_unboxing hs hρ _) t ht hm hd
    (Nat.lt_succ_self _)

end WireType

end TypedBus
