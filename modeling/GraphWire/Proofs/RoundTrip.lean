/-
  What is written is read back as it is rebuilt.

  The functions of one level are mirrored if those for nested objects are, a
  container's entry by entry; by induction on the levels all of them are
  (`mirrorsNested_data`).  `Engine.deserialize_of_serialize` and
  `Engine.deserializeField_of_serializeField` say it of whole streams.
-/
import GraphWire.Engine.Operations
import GraphWire.Proofs.Mirroring

namespace GraphWire

variable {α : Type} {e : Engine} {h : Heap} {S : Set ObjId} {t : Task} {s s' : WriteState}
  {bs : Bytes}
  {wn : ObjId → Serializer → Writing Unit}
  {rn : ClassInfo → Serializer → Option Nat → Reading ObjId} {o : ObjId} {c : ClassInfo}
  {ser : Serializer} {v : Value}

/-! ## Values -/

theorem Heap.typeOf_of_checkClass (hc : h.checkClass o c = .ok ()) : h.typeOf o = c.type := by
  by_contra hne
  simp [Heap.checkClass, ensure, hne] at hc

/-- What is written of an object with its type: the id of its class, then the object. -/
theorem Writing.anyVia_eq_ok (he : e.registry.Sound)
    (hx : Writing.anyVia e h wn (some o) s = .ok () s') :
    ∃ c ser, e.registry.Gives c ser ∧ h.typeOf o = c.type ∧ e.registry.classOfId c.id = .ok c ∧
      c.id + 1 < 2 ^ 32 ∧ e.registry.serializer c.type = .ok ser ∧
      Writing.unlessWritten wn (e.tracks c) o ser
        { s with out := s.out.append (countBytes s.out.native (c.id + 1)) } = .ok () s' := by
  obtain ⟨c, s₁, h₁, hx⟩ := bind_eq_ok.1 hx
  obtain ⟨hc, rfl⟩ := attempt_eq_ok.1 h₁
  obtain ⟨ser, s₁, h₁, hx⟩ := bind_eq_ok.1 hx
  obtain ⟨hser, rfl⟩ := attempt_eq_ok.1 h₁
  obtain ⟨_, s₁, h₁, hx⟩ := bind_eq_ok.1 hx
  cases h₁
  obtain ⟨ho, hg, hid, hlt⟩ := he.gives_of_object hc hser
  exact ⟨c, ser, hg, ho.symm, hid, hlt, hser, hx⟩

namespace MirrorsNested

theorem unlessWritten (hn : MirrorsNested e h wn rn) (he : e.registry.Sound)
    (hg : e.registry.Gives c ser) (ho : h.typeOf o = c.type) :
    Mirrors e h (.value (some o)) (Writing.unlessWritten wn (e.tracks c) o ser)
      (Reading.objectVia e rn c ser) some := by
  cases ht : e.tracks c with
  | true =>
    rw [Reading.objectVia_of_tracks rn c ser ht]
    exact hn.tracked he hg ho ht (fun _ => rfl) fun _ _ _ _ _ hr => hr
  | false =>
    have : Reading.objectVia e rn c ser = rn c ser none := by
      simp [Reading.objectVia, ht]
    rw [this]
    exact hn.untracked he hg ho ht

theorem object (hn : MirrorsNested e h wn rn) (he : e.registry.Sound)
    (hg : e.registry.Gives c ser) :
    Mirrors e h (.value v) (Writing.objectVia e h wn v c ser)
      (Reading.objectVia e rn c ser) some := by
  intro s s' hx
  cases v with
  | none => cases hx
  | some o =>
    obtain ⟨_, s₁, h₁, hx⟩ := bind_eq_ok.1 hx
    obtain ⟨hc, rfl⟩ := attempt_eq_ok.1 h₁
    exact hn.unlessWritten he hg (Heap.typeOf_of_checkClass hc) s s' hx

theorem nullable (hn : MirrorsNested e h wn rn) (he : e.registry.Sound)
    (hg : e.registry.Gives c ser) :
    Mirrors e h (.value v) (Writing.nullableVia e h wn v c ser)
      (Reading.nullableVia rn c ser) id := by
  intro s s' hx
  rw [Reading.nullableVia_eq]
  cases v with
  | none =>
    cases hx
    exact ⟨[Marker.null.byte], .take (Reading.takes_marker .null) .null⟩
  | some o =>
    obtain ⟨_, s₁, h₁, hx⟩ := bind_eq_ok.1 hx
    obtain ⟨hc, rfl⟩ := attempt_eq_ok.1 h₁
    have ho := Heap.typeOf_of_checkClass hc
    cases ht : e.tracks c with
    | true =>
      simp only [ht, if_true] at hx
      refine hn.tracked he hg ho ht (g := some) (fun _ => rfl) (fun mk r p r' hmk hr => ?_) s s' hx
      rcases hmk with rfl | rfl
      · exact map_of_ok hr
      · exact map_of_ok hr
    | false =>
      simp only [ht, Bool.false_eq_true, if_false] at hx
      obtain ⟨_, s₁, h₁, hx⟩ := bind_eq_ok.1 hx
      cases h₁
      obtain ⟨bs, hf⟩ := hn.untracked he hg ho ht _ s' hx
      refine ⟨Marker.plain.byte :: bs, .take (Reading.takes_marker .plain) ?_⟩
      exact hf.congr (g := some) (fun _ => rfl) fun d r p r' hr => map_of_ok hr

theorem any (hn : MirrorsNested e h wn rn) (he : e.registry.Sound) :
    Mirrors e h (.value v) (Writing.anyVia e h wn v) (Reading.anyVia e rn) id := by
  intro s s' hx
  cases v with
  | none =>
    cases hx
    exact ⟨countBytes s.out.native 0 ++ [], .take (Reading.takes_count (by decide)) .null⟩
  | some o =>
    obtain ⟨c, ser, hg, ho, hid, hlt, hser, hx⟩ := Writing.anyVia_eq_ok he hx
    obtain ⟨bs, hf⟩ := hn.unlessWritten he hg ho _ s' hx
    refine ⟨countBytes s.out.native (c.id + 1) ++ bs, .take (Reading.takes_count hlt) ?_⟩
    refine hf.congr (g := some) (fun _ => rfl) fun d r p r' hr => ?_
    rw [if_neg (Nat.succ_ne_zero _), Nat.add_sub_cancel, hid, attempt_ok, pure_bind, hser,
      attempt_ok, pure_bind, bind_of_ok hr]
    rfl

theorem declared (hn : MirrorsNested e h wn rn) (he : e.registry.Sound) (ty : Declared) :
    Mirrors e h (.value v) (Writing.declaredVia e h wn ty v) (Reading.declaredVia e rn ty)
      id := by
  intro s s' hx
  obtain ⟨s₁, hy, rfl⟩ := declaring_eq_ok.1 hx
  unfold Reading.declaredVia
  cases hty : ty.type?.filter e.registry.isFinal with
  | none =>
    rw [hty] at hy
    obtain ⟨bs, hf⟩ := hn.any he _ s₁ hy
    exact ⟨bs, hf.declaring⟩
  | some type =>
    rw [hty] at hy
    obtain ⟨c, s₂, h₂, hy⟩ := bind_eq_ok.1 hy
    obtain ⟨hc, rfl⟩ := attempt_eq_ok.1 h₂
    obtain ⟨ser, s₂, h₂, hy⟩ := bind_eq_ok.1 hy
    obtain ⟨hser, rfl⟩ := attempt_eq_ok.1 h₂
    obtain ⟨bs, hf⟩ := hn.nullable he (he.gives hc hser) _ s₁ hy
    refine ⟨bs, ?_⟩
    simp only [hc, hser, attempt_ok, pure_bind]
    exact hf.declaring

theorem side (hn : MirrorsNested e h wn rn) (he : e.registry.Sound) {slot : Slot}
    (hg : ∀ c ser, slot.target = some (c, ser) → e.registry.Gives c ser) :
    Mirrors e h (.value v) (Writing.sideVia e h wn slot v) (Reading.sideVia e rn slot) id := by
  intro s s' hx
  unfold Writing.sideVia at hx
  unfold Reading.sideVia
  cases ht : slot.target with
  | none =>
    rw [ht] at hx
    exact hn.any he s s' hx
  | some target =>
    obtain ⟨c, ser⟩ := target
    simp only [ht] at hx
    cases hnull : slot.nullable with
    | true =>
      rw [hnull, if_pos rfl] at hx
      exact hn.nullable he (hg c ser ht) s s' hx
    | false =>
      rw [hnull, if_neg Bool.false_ne_true] at hx
      obtain ⟨bs, hf⟩ := hn.object he (hg c ser ht) s s' hx
      exact ⟨bs, hf.congr (g := some) (fun _ => rfl) fun d r p r' hr => map_of_ok hr⟩

end MirrorsNested

/-! ## Entries -/

theorem Slot.gives_of_resolve {r : Registry} (hr : r.Sound) {setup : SideSetup Serializer}
    (hg : r.SideGives setup) {frames : Frames} {declared : Option Declared} {side : Side}
    {slot : Slot} (hs : Slot.resolve r frames declared side setup = .ok slot) :
    ∀ c ser, slot.target = some (c, ser) → r.Gives c ser := by
  unfold Slot.resolve at hs
  split at hs
  · next cls serializer hc hser =>
    cases hs
    rintro _ _ ⟨⟩
    exact hg _ _ hc hser
  · split at hs
    · cases hs
      rintro _ _ ⟨⟩
    · next type _ =>
      obtain ⟨cls, hc, hs⟩ := except_bind_eq_ok.1 hs
      obtain ⟨serializer, hser, hs⟩ := except_bind_eq_ok.1 hs
      cases hs
      rintro _ _ ⟨⟩
      exact hr.gives hc hser

theorem gives_of_resolveSlots {r : Registry} (hr : r.Sound) {key value : SideSetup Serializer}
    (hk : r.SideGives key) (hv : r.SideGives value) {frames : Frames} {args : List Declared}
    {keySlot valueSlot : Slot} {keyType : Declared}
    (hs : resolveSlots r frames args key value = .ok (keySlot, valueSlot, keyType)) :
    (∀ c ser, keySlot.target = some (c, ser) → r.Gives c ser) ∧
      ∀ c ser, valueSlot.target = some (c, ser) → r.Gives c ser := by
  obtain ⟨h₁, h₂, -⟩ := resolveSlots_eq_ok.1 hs
  exact ⟨Slot.gives_of_resolve hr hk h₁, Slot.gives_of_resolve hr hv h₂⟩

theorem Mirrors.declaring {x : Writing Unit} {y : Reading α} {image : α → Value}
    (hm : Mirrors e h t x y image) (ty : Declared) :
    Mirrors e h t (declaring ty x) (declaring ty y) image := by
  intro s s' hx
  obtain ⟨s₁, hy, rfl⟩ := declaring_eq_ok.1 hx
  obtain ⟨bs, hf⟩ := hm _ s₁ hy
  exact ⟨bs, hf.declaring⟩

/-- What reading does when it puts an entry into a container. -/
theorem Agree.putEntry {d : Draft} {r : ReadState} (ha : Agree e S none s d r) (p : ObjId)
    (k x : Value) : ∃ r', Reading.putEntry p k x r = .ok () r' ∧
      Agree e S none s (d.put p k x) r' ∧ r'.input = r.input ∧
      r'.bindings.pending = r.bindings.pending :=
  ⟨_, rfl, { ha with heap := congrArg (fun g : Heap => (g.insert p k x).2) ha.heap }, rfl, rfl⟩

/-- **Entries are read as they are written, one by one.** -/
theorem MirrorsNested.entries (hn : MirrorsNested e h wn rn) (he : e.registry.Sound)
    {keySlot valueSlot : Slot} (hk : ∀ c ser, keySlot.target = some (c, ser) →
      e.registry.Gives c ser) (hv : ∀ c ser, valueSlot.target = some (c, ser) →
      e.registry.Gives c ser) (keyType : Declared) (l : List Entry)
    (hx : Writing.entriesVia e h wn keySlot valueSlot keyType l s = .ok () s') :
    ∃ bs : Bytes, ∀ p, Follows e h (.entries p l) none s s' bs
      (fun _ => Reading.entriesVia e rn keySlot valueSlot keyType p l.length) fun _ => none := by
  induction l generalizing s with
  | nil =>
    cases hx
    exact ⟨[], fun p => ⟨(Output.append_nil _).symm, fun _ _ d r ha _ _ _ =>
      ⟨(), d, r, rfl, .nil, ha, rfl, rfl⟩⟩⟩
  | cons entry l ih =>
    obtain ⟨k, x⟩ := entry
    obtain ⟨_, s₁, h₁, hx⟩ := bind_eq_ok.1 hx
    obtain ⟨-, rfl⟩ := attempt_eq_ok.1 h₁
    obtain ⟨_, s₁, h₁, hx⟩ := bind_eq_ok.1 hx
    obtain ⟨-, rfl⟩ := attempt_eq_ok.1 h₁
    obtain ⟨_, s₁, h₁, hx⟩ := bind_eq_ok.1 hx
    obtain ⟨_, s₂, h₂, h₃⟩ := bind_eq_ok.1 hx
    obtain ⟨b₁, f₁⟩ := (hn.side he hk).declaring keyType _ s₁ h₁
    obtain ⟨b₂, f₂⟩ := hn.side he hv _ s₂ h₂
    obtain ⟨b₃, f₃⟩ := ih h₃
    refine ⟨b₁ ++ (b₂ ++ b₃), fun p => ⟨?_, fun S hfit d r ha hd hp hin => ?_⟩⟩
    · rw [(f₃ p).1, f₂.1, f₁.1, Output.append_append, Output.append_append]
    have g₁ := f₁.2 S (hfit.of_mem (by simp [Task.values]))
    have g₂ := f₂.2 S (hfit.of_mem (by simp [Task.values]))
    have g₃ := (f₃ p).2 S (hfit.of_mem fun y hy => by
      simpa [Task.values] using Or.inr (Or.inr (by simpa [Task.values] using hy)))
    obtain ⟨k', d₁, r₁, hr₁, hd₁, ha₁, hi₁, hb₁⟩ :=
      g₁ d r ha hd trivial ((List.prefix_append _ _).trans hin)
    have hin₁ : b₂ ++ b₃ <+: r₁.input.unread := hi₁ ▸ Input.prefix_advance hin
    have hv₁ := hd₁.valid hd trivial
    obtain ⟨x', d₂, r₂, hr₂, hd₂, ha₂, hi₂, hb₂⟩ :=
      g₂ d₁ r₁ ha₁ hv₁ trivial ((List.prefix_append _ _).trans hin₁)
    have hin₂ : b₃ <+: r₂.input.unread := hi₂ ▸ Input.prefix_advance hin₁
    have hp₂ := Task.Ready.of_prefix (m := e.manner) (l := l)
      (hd₁.grown.images.trans hd₂.grown.images) hp
    obtain ⟨r₃, hr₃, ha₃, hi₃, hb₃⟩ := ha₂.putEntry p k' x'
    obtain ⟨_, d', r', hr', hd', ha', hi', hb'⟩ :=
      g₃ _ r₃ ha₃ ((hd₂.valid hv₁ trivial).put hp₂ k' x') hp₂ (hi₃.symm ▸ hin₂)
    refine ⟨(), d', r', ?_, .cons hd₁ hd₂ hd', ha', ?_, ?_⟩
    · refine (bind_of_ok hr₁).trans ((bind_of_ok hr₂).trans ?_)
      exact (bind_of_ok hr₃).trans hr'
    · rw [hi', hi₃, hi₂, hi₁, Input.advance_advance, Input.advance_advance, List.length_append,
        List.length_append]
    · rw [hb', hb₃, hb₂, hb₁]

/-! ## Objects -/

theorem completing_of_ne {x : Reading ObjId} {r r' : ReadState} {p : ObjId} (hx : x r = .ok p r')
    (hw : r'.bindings.pending.length ≠ r.bindings.pending.length) :
    completing x r = .ok p r' :=
  completing_eq_ok.2 ⟨r', hx, (if_neg hw).symm⟩

theorem completing_of_eq {x : Reading ObjId} {r r' : ReadState} {p : ObjId} (hx : x r = .ok p r')
    (hw : r'.bindings.pending = r.bindings.pending) :
    completing x r = .ok p { r' with bindings := r'.bindings.bind p } :=
  completing_eq_ok.2 ⟨r', hx, (if_pos (congrArg List.length hw)).symm⟩

/-- Reads an object under a number, or without one. -/
def Reading.numberedBody (e : Engine)
    (rn : ClassInfo → Serializer → Option Nat → Reading ObjId) (c : ClassInfo) (ser : Serializer)
    (id : Option Nat) : Reading ObjId := do
  Reading.expect id
  completing (Reading.bodyVia e rn c ser)

theorem Engine.announced_eq_none (ht : c.tracked = false) :
    e.announced c o = none ∧ ∀ d, e.numbered c d = none := by
  simp [announced, numbered, tracks, ht]

/-- What is written of a leaf. -/
theorem Writing.bodyVia_leaf_eq_ok {type : LeafType}
    (hx : Writing.bodyVia e h wn o (.leaf type) s = .ok () s') :
    ∃ a, h.node o = .leaf a ∧ a.type = type ∧ s' = { s with out := s.out.put a.toItem } := by
  cases ha : h.node o with
  | octet | container | record =>
    simp only [Writing.bodyVia, ha] at hx
    cases hx
  | leaf a =>
    simp only [Writing.bodyVia, ha] at hx
    split at hx
    · next hat =>
      cases hx
      exact ⟨a, rfl, hat, rfl⟩
    · cases hx

/-- A leaf is read as it is written. -/
theorem follows_leaf {type : LeafType} (ht : c.tracked = false)
    (hx : Writing.bodyVia e h wn o (.leaf type) s = .ok () s') :
    ∃ bs : Bytes, Follows e h (.object o) (e.announced c o) s s' bs
      (fun d => Reading.numberedBody e rn c (.leaf type) (e.numbered c d)) some := by
  obtain ⟨a, ha, rfl, rfl⟩ := Writing.bodyVia_leaf_eq_ok hx
  obtain ⟨hann, hnum⟩ := Engine.announced_eq_none (e := e) (o := o) ht
  refine ⟨a.toItem.encode s.out.native, rfl, fun S hfit d r hag hv _ hp => ?_⟩
  rw [hann] at hag
  have hstring : ∀ t, a = .string t → (Utf8.encode t).length < 2 ^ 32 := by
    have hnode := hfit.small (some o) (List.mem_singleton_self _) o .self
    rwa [ha] at hnode
  have hread := Reading.takes_scan (Reading.reads_leaf a hstring)
    { r with bindings := r.bindings.expect none } hag.source hag.layout hp
  refine ⟨r.heap.size, d.addLeaf o a, { r with
    input := r.input.advance (a.toItem.encode s.out.native).length
    heap := (r.heap.alloc (.leaf a)).2 }, ?_, ?_, ?_, rfl, rfl⟩
  · have hbody : Reading.bodyVia e rn c (.leaf a.type)
        { r with bindings := r.bindings.expect none } = .ok r.heap.size
          { r with
            input := r.input.advance (a.toItem.encode s.out.native).length
            heap := (r.heap.alloc (.leaf a)).2
            bindings := r.bindings.expect none } :=
      bind_of_ok hread
    show Reading.numberedBody e rn c _ (e.numbered c d) r = _
    rw [hnum]
    exact completing_of_eq hbody rfl
  · rw [hag.heap]
    exact .leaf rfl ha
  · exact { hag.take _ with heap := congrArg (fun g : Heap => (g.alloc (.leaf a)).2) hag.heap }

/-- Making a container and binding it, where its number is. -/
theorem Agree.begin {d : Draft} {r : ReadState} (ha : Agree e S (e.announced c o) s d r)
    (ht : c.tracked = true) (type : ContainerType) :
    Agree e S none s (d.begin o type)
      { r with
        heap := (r.heap.alloc (.container (.empty type))).2
        bindings := (r.bindings.expect (e.numbered c d)).bind r.heap.size } ∧
    ((r.bindings.expect (e.numbered c d)).bind r.heap.size).pending = r.bindings.pending := by
  have htr : e.tracks c = e.config.trackRef := by simp [Engine.tracks, ht]
  have hheap : (r.heap.alloc (.container (.empty type))).2 = (d.begin o type).heap :=
    congrArg (fun g : Heap => (g.alloc (.container (.empty type))).2) ha.heap
  cases hc : e.config.trackRef with
  | false =>
    have hnum : e.numbered c d = none := by simp [Engine.numbered, htr, hc]
    rw [hnum]
    refine ⟨⟨ha.source, ha.layout, ha.scope, hheap, ha.mem, fun h' => ?_, fun h' => ?_⟩, rfl⟩
    · rw [hc] at h'
      cases h'
    · rw [hc] at h'
      cases h'
  | true =>
    have hnum : e.numbered c d = some d.images.length := by simp [Engine.numbered, htr, hc]
    have hann : e.announced c o = some o := by simp [Engine.announced, htr, hc]
    have hw := ha.written hc
    have hb := ha.bound hc
    rw [hann] at hw hb
    rw [hnum]
    refine ⟨⟨ha.source, ha.layout, ha.scope, hheap, ha.mem, fun _ => ?_, fun _ => ?_⟩, rfl⟩
    · simpa [Draft.begin] using hw
    · simp [Bindings.bind, Bindings.expect, Array.toList_setIfInBounds, hb, Draft.begin, ha.heap]

/-- A container is read if its entries are. -/
theorem Reading.mapVia_of_entries {key value : SideSetup Serializer} {type : ContainerType}
    {r r' : ReadState} {i : Input} {n : Nat} {keySlot valueSlot : Slot} {keyType : Declared}
    (hc : c.containerType none = .ok type)
    (hn : count { r with heap := (r.heap.alloc (.container (.empty type))).2 } =
      .ok n { r with input := i, heap := (r.heap.alloc (.container (.empty type))).2 })
    (hslots : resolveSlots e.registry r.scope.frames r.scope.args key value =
      .ok (keySlot, valueSlot, keyType))
    (hx : entriesVia e rn keySlot valueSlot keyType r.heap.size n
      { r with
        input := i
        heap := (r.heap.alloc (.container (.empty type))).2
        bindings := r.bindings.bind r.heap.size } = .ok () r') :
    mapVia e rn c key value none r = .ok r.heap.size (inScope Scope.popped r') := by
  have hnew : newContainer c none r =
      .ok r.heap.size { r with heap := (r.heap.alloc (.container (.empty type))).2 } :=
    bind_of_ok (attempt_eq_ok.2 ⟨hc, rfl⟩)
  unfold mapVia
  refine (bind_of_ok hnew).trans ((bind_of_ok hn).trans ?_)
  rw [get_bind, get_bind]
  refine (bind_of_ok (attempt_eq_ok.2 ⟨hslots, rfl⟩)).trans ((modify_bind _ _ _).trans ?_)
  exact (bind_of_ok hx).trans rfl

/-- What is written of a container: how many entries it has, then the entries. -/
theorem Writing.mapVia_eq_ok {key value : SideSetup Serializer} {ct : Container}
    (hct : h.node o = .container ct) (hx : Writing.mapVia e h wn key value o s = .ok () s') :
    ∃ keySlot valueSlot keyType s₁,
      resolveSlots e.registry s.scope.frames s.scope.args key value =
        .ok (keySlot, valueSlot, keyType) ∧
      Writing.entriesVia e h wn keySlot valueSlot keyType ct.entries
        { s with out := s.out.append (countBytes s.out.native ct.entries.length) } = .ok () s₁ ∧
      s' = inScope Scope.popped s₁ := by
  have hcon : h.container? o = some ct := by simp [Heap.container?, hct]
  simp only [Writing.mapVia, hcon] at hx
  obtain ⟨_, s₁, h₁, hx⟩ := bind_eq_ok.1 hx
  cases h₁
  rw [get_bind, get_bind] at hx
  obtain ⟨⟨keySlot, valueSlot, keyType⟩, s₁, h₁, hx⟩ := bind_eq_ok.1 hx
  obtain ⟨hslots, rfl⟩ := attempt_eq_ok.1 h₁
  obtain ⟨_, s₂, h₂, hx⟩ := bind_eq_ok.1 hx
  cases hx
  exact ⟨keySlot, valueSlot, keyType, s₂, hslots, h₂, rfl⟩

/-- **A container is read as it is written.** -/
theorem MirrorsNested.map (hn : MirrorsNested e h wn rn) (he : e.registry.Sound)
    {key value : SideSetup Serializer} {type : ContainerType} (ht : c.tracked = true)
    (hfac : c.factory = some type) (hk : e.registry.SideGives key) (hv : e.registry.SideGives value)
    (ho : h.typeOf o = .container type)
    (hx : Writing.bodyVia e h wn o (.map key value none) s = .ok () s') :
    ∃ bs : Bytes, Follows e h (.object o) (e.announced c o) s s' bs
      (fun d => Reading.numberedBody e rn c (.map key value none) (e.numbered c d)) some := by
  obtain ⟨ct, hct, rfl⟩ := Heap.exists_container ho
  obtain ⟨keySlot, valueSlot, keyType, s₂, hslots, h₂, rfl⟩ := Writing.mapVia_eq_ok hct hx
  obtain ⟨hgk, hgv⟩ := gives_of_resolveSlots he hk hv hslots
  obtain ⟨bs, hf⟩ := hn.entries he hgk hgv keyType ct.entries h₂
  refine ⟨countBytes s.out.native ct.entries.length ++ bs, ?_,
    fun S hfit d r hag hd hmet hin => ?_⟩
  · show s₂.out = _
    rw [(hf 0).1, ← Output.append_append]
  have hn32 : ct.entries.length < 2 ^ 32 := by
    have hnode := hfit.small (some o) (List.mem_singleton_self _) o .self
    rwa [hct] at hnode
  obtain ⟨hag₁, hpend⟩ := hag.begin ht ct.type
  have hag₂ := hag₁.take (countBytes s.out.native ct.entries.length)
  have hready : (Task.entries d.heap.size ct.entries).Ready e.manner (d.begin o ct.type) := by
    simp [Task.Ready, Draft.begin]
  obtain ⟨_, d', r', hr', hd', hag', hin', hb'⟩ := (hf d.heap.size).2 S (hfit.entries hct) _ _
    hag₂ (hd.begin hmet hct) hready (Input.prefix_advance hin)
  refine ⟨d.heap.size, d', inScope Scope.popped r', ?_, .container hct hd', hag'.inScope _, ?_, ?_⟩
  · -- the reader finds the slots of the writer, since it is in the same scope
    have hread := @Reading.takes_count s.out.native _ hn32
      { r with
        heap := (r.heap.alloc (.container (.empty ct.type))).2
        bindings := r.bindings.expect (e.numbered c d) }
      hag.source hag.layout ((List.prefix_append _ _).trans hin)
    have hslots' : resolveSlots e.registry r.scope.frames r.scope.args key value =
        .ok (keySlot, valueSlot, keyType) := by
      rw [hag.scope]
      exact hslots
    have hbody : Reading.mapVia e rn c key value none
        { r with bindings := r.bindings.expect (e.numbered c d) } =
          .ok d.heap.size (inScope Scope.popped r') := by
      rw [← hag.heap] at hr' ⊢
      have hct : c.containerType none = .ok ct.type := by
        unfold ClassInfo.containerType
        rw [hfac]
        rfl
      exact Reading.mapVia_of_entries hct hread hslots' hr'
    refine completing_of_ne hbody ?_
    show r'.bindings.pending.length ≠ (e.numbered c d :: r.bindings.pending).length
    rw [hb', hpend]
    simp
  · show r'.input = _
    rw [hin', Input.advance_advance, List.length_append]
  · show r'.bindings.pending = _
    rw [hb']
    exact hpend

/-! ## All levels -/

theorem Follows.descend {new : Option ObjId} {s₁ : WriteState} {y : Draft → Reading α}
    {image : α → Value} {limit : Nat} (hd : s.scope.depth < limit)
    (hf : Follows e h t new (inScope Scope.deeper s) s₁ bs y image) :
    Follows e h t new s (inScope Scope.shallower s₁) bs (fun d => GraphWire.descend limit (y d))
      image := by
  refine ⟨hf.1, fun S hfit d r ha hv ht hp => ?_⟩
  obtain ⟨a, d', r', hr, hdr, ha', hi, hb⟩ :=
    hf.2 S hfit d _ (ha.inScope Scope.deeper) hv ht hp
  refine ⟨a, d', _, descend_eq_ok.2 ⟨?_, r', hr, rfl⟩, hdr, ha'.inScope _, hi, hb⟩
  have hsc : (Scoped.scope r : Scope) = s.scope := ha.scope
  rwa [hsc]

/-- **Nested objects are read as they are written**, however deep. -/
theorem mirrorsNested_data (he : e.registry.Sound) (h : Heap) (levels : Nat) :
    MirrorsNested e h (Writing.data e h levels) (Reading.data e levels) := by
  induction levels with
  | zero =>
    intro o c ser s s' _ _ hx
    cases hx
  | succ levels ih =>
    intro o c ser s s' hg ho hx
    obtain ⟨hdepth, s₁, hy, rfl⟩ := descend_eq_ok.1 hx
    cases he.shape hg with
    | leaf _ hser ht =>
      subst hser
      obtain ⟨bs, hf⟩ := follows_leaf ht hy
      exact ⟨bs, hf.descend hdepth⟩
    | map htype hser ht hfac hk hv =>
      subst hser
      obtain ⟨bs, hf⟩ := ih.map he ht hfac hk hv (ho.trans htype) hy
      exact ⟨bs, hf.descend hdepth⟩

theorem Mirrors.withNested {image : α → Value}
    {x : (ObjId → Serializer → Writing Unit) → Writing Unit}
    {y : (ClassInfo → Serializer → Option Nat → Reading ObjId) → Reading α}
    (hm : ∀ levels, Mirrors e h t (x (Writing.data e h levels)) (y (Reading.data e levels)) image) :
    Mirrors e h t (Writing.withNested e h x) (Reading.withNested e y) image := by
  intro s s' hx
  obtain ⟨bs, hf⟩ := hm _ s s' hx
  refine ⟨bs, hf.1, fun S hfit d r ha hv ht hp => ?_⟩
  obtain ⟨a, d', r', hr, hrest⟩ := hf.2 S hfit d r ha hv ht hp
  refine ⟨a, d', r', ?_, hrest⟩
  show y (Reading.data e (e.config.maxDepth - r.scope.depth)) r = _
  rw [ha.scope]
  exact hr

/-- **A value is read as it is written.** -/
theorem mirrors_any (he : e.registry.Sound) (h : Heap) (v : Value) :
    Mirrors e h (.value v) (Writing.any e h v) (Reading.any e) id :=
  .withNested fun levels => (mirrorsNested_data he h levels).any he

/-- **A declared value is read as it is written.** -/
theorem mirrors_declared (he : e.registry.Sound) (h : Heap) (ty : Declared) (v : Value) :
    Mirrors e h (.value v) (Writing.declared e h ty v) (Reading.declared e ty) id :=
  .withNested fun levels => (mirrorsNested_data he h levels).declared he ty

/-! ## Streams -/

namespace Engine

/-- The byte of the header of what an engine writes. -/
def headerByte (e : Engine) (null : Bool) : UInt8 := UInt8.ofBitVec (e.header null).toByte

theorem reads_header (native null : Bool) :
    Scan.Reads native e.readHeader [e.headerByte null] null := by
  refine (Input.reads_octet _).bind_nil ?_
  show Scan.Reads native (attempt (e.check (Header.ofByte (e.header null).toByte)) >>= fun _ =>
    pure (Header.ofByte (e.header null).toByte).null) [] null
  rw [Header.ofByte_toByte, check_header]
  exact Scan.Reads.pure _

/-- What is written of a value that is not null: the header, then the value. -/
theorem written_of_writeStream {x : Writing Unit} {out : Output}
    (hx : e.writeStream (some o) x (.empty e.config.native) = .ok () out) :
    ∃ s', x (.start ((Output.empty e.config.native).append [e.headerByte false])) = .ok () s' ∧
      s'.out = out := by
  unfold writeStream at hx
  rw [modify_bind] at hx
  have hout : e.writeHeader false (.empty e.config.native) =
      (Output.empty e.config.native).append [e.headerByte false] := rfl
  simp only [Option.isSome_some, Option.isNone_some, if_true, hout, writing] at hx
  split at hx
  · next s' h' =>
    cases hx
    exact ⟨s', h', rfl⟩
  · cases hx

/-- **The stream of a value is read wherever it stands**, and no further. -/
theorem readStream_of_mirrors {x : Writing Unit} {y : Reading Value}
    (hm : Mirrors e h (.value v) x y id) {out : Output}
    (hx : e.writeStream v x (.empty e.config.native) = .ok () out)
    (hfit : e.Fits h v) (h₀ : Heap) {i : Input}
    (hi : i.source = none) (hn : i.native = e.config.native) (hp : out.bytes <+: i.unread) :
    ∃ w d, Rebuilds e.manner h (.value v) (.start h₀) w d ∧
      e.readStream h₀ y i = .ok (w, d.heap) (i.advance out.bytes.length) := by
  unfold readStream
  cases v with
  | none =>
    cases hx
    have hhead := reads_header (e := e) e.config.native true i hi hn hp
    exact ⟨none, .start h₀, .null, (bind_of_ok hhead).trans rfl⟩
  | some o =>
    obtain ⟨s', hs', rfl⟩ := written_of_writeStream hx
    obtain ⟨bs, ho, hf⟩ := hm _ s' hs'
    have hbytes : s'.out.bytes = [e.headerByte false] ++ bs := by
      rw [ho]
      simp [WriteState.start]
    rw [hbytes] at hp ⊢
    have hhead := reads_header (e := e) e.config.native false i hi hn
      ((List.prefix_append _ _).trans hp)
    have hagree : Agree e (h.containersOf (some o)) none (.start ((Output.empty e.config.native).append
        [e.headerByte false])) (.start h₀) (.start (i.advance 1) h₀) :=
      ⟨hi, hn, rfl, rfl, List.forall_mem_nil _, fun _ => rfl, fun _ => rfl⟩
    obtain ⟨w, d, r', hr, hd, ha, hin, -⟩ :=
      hf _ hfit.task _ _ hagree (Draft.valid_start h₀) trivial (Input.prefix_advance hp)
    refine ⟨w, d, hd, (bind_of_ok hhead).trans ?_⟩
    have hy : y (.start (i.advance [e.headerByte false].length) h₀) = .ok w r' := hr
    have hadv : r'.input = i.advance ([e.headerByte false] ++ bs).length := by
      rw [hin, List.length_append]
      exact Input.advance_advance _ _ _
    show reading h₀ y _ = _
    rw [← ha.heap, ← hadv]
    unfold reading
    rw [hy]

theorem serialize_eq_written (e : Engine) (h : Heap) (v : Value) :
    e.serialize h v = e.written (e.writeStream v (Writing.any e h v)) := by
  unfold serialize written serializeTo
  rw [get_bind]
  simp [ensure, Output.empty]

theorem written_eq_ok {x : EStateM Error Output Unit} :
    e.written x = .ok bs ↔ ∃ out, x (.empty e.config.native) = .ok () out ∧ out.bytes = bs := by
  unfold written
  cases x (.empty e.config.native) <;> simp

/-- The stream of null is a header. -/
theorem serialize_none (e : Engine) (h : Heap) :
    e.serialize h none = .ok [e.headerByte true] := by
  rw [serialize_eq_written]
  rfl

/-- What is serialized is written as a stream. -/
theorem writeStream_of_serialize (hs : e.serialize h v = .ok bs) :
    ∃ out, e.writeStream v (Writing.any e h v) (.empty e.config.native) = .ok () out ∧
      out.bytes = bs :=
  written_eq_ok.1 ((e.serialize_eq_written h v).symm.trans hs)

/-- What is serialized is written after the header. -/
theorem any_of_serialize (hs : e.serialize h (some o) = .ok bs) :
    ∃ s', Writing.any e h (some o)
        (.start ((Output.empty e.config.native).append [e.headerByte false])) = .ok () s' ∧
      s'.out.bytes = bs := by
  obtain ⟨out, hx, rfl⟩ := writeStream_of_serialize hs
  obtain ⟨s', hs', rfl⟩ := written_of_writeStream hx
  exact ⟨s', hs', rfl⟩

/-- A stream is read from its bytes. -/
theorem resultOf_of_mirrors {x : Writing Unit} {y : Reading Value}
    (hm : Mirrors e h (.value v) x y id) {out : Output}
    (hx : e.writeStream v x (.empty e.config.native) = .ok () out)
    (hfit : e.Fits h v) (h₀ : Heap) :
    ∃ w d, Rebuilds e.manner h (.value v) (.start h₀) w d ∧
      resultOf (e.readStream h₀ y) ((Input.ofBytes out.bytes).withLayout e.config.native) =
        .ok (w, d.heap) := by
  obtain ⟨w, d, hd, hr⟩ := readStream_of_mirrors hm hx hfit h₀
    (i := (Input.ofBytes out.bytes).withLayout e.config.native) rfl rfl (List.prefix_refl _)
  exact ⟨w, d, hd, resultOf_eq_ok.2 ⟨_, hr⟩⟩

/-- **What is serialized is deserialized as what it is rebuilt as.** -/
theorem deserialize_of_serialize (he : e.registry.Sound) (hs : e.serialize h v = .ok bs)
    (hfit : e.Fits h v) (h₀ : Heap) :
    ∃ w d, Rebuilds e.manner h (.value v) (.start h₀) w d ∧
      e.deserialize h₀ bs = .ok (w, d.heap) := by
  obtain ⟨out, hx, rfl⟩ := writeStream_of_serialize hs
  rw [deserialize_eq_readStream]
  exact resultOf_of_mirrors (mirrors_any he h v) hx hfit h₀

/-- **What is serialized as a field is deserialized as what it is rebuilt as.** -/
theorem deserializeField_of_serializeField (he : e.registry.Sound) {ty : Declared}
    (hs : e.serializeField h ty v = .ok bs) (hfit : e.Fits h v) (h₀ : Heap) :
    ∃ w d, Rebuilds e.manner h (.value v) (.start h₀) w d ∧
      e.deserializeField h₀ ty bs = .ok (w, d.heap) := by
  obtain ⟨out, hx, rfl⟩ := written_eq_ok.1 hs
  exact resultOf_of_mirrors (mirrors_declared he h ty v) hx hfit h₀

end Engine

end GraphWire
