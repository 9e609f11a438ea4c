/-
  Copying keeps pace with writing.

  Writing with references tracked and copying walk a graph in one way: what is
  written for the first time is copied for the first time, one level deeper, and what
  was written before has a copy.  Only leaves are copied once and written each time
  that they are met.  So what can be written can be copied.

  * `InPace` says how far a copying is when a writing is so far;
  * `PacesNested` for nested objects, `pacesNested_data` for all levels of them;
  * `Engine.copy_of_serialize`: a copy is made of all that is written.
-/
import GraphWire.Engine.Operations
import GraphWire.Proofs.Copying
import GraphWire.Proofs.Mirroring
import GraphWire.Proofs.Resolution
import GraphWire.Proofs.RoundTrip

namespace GraphWire

variable {α : Type}

/-- Whether a copying is where a writing is: as deep, with copies of the containers
    that are written, but for one that is `new`, and with all that was there as it
    was. -/
structure InPace (h : Heap) (new : Option ObjId) (s : WriteState) (k : CopyState) : Prop where
  depth : k.scope.depth = s.scope.depth
  copied : ∀ o c, h.node o = .container c →
    (o ∈ s.written.objects ↔ (k.copies.get? o).isSome ∨ new = some o)
  size : h.size ≤ k.heap.size
  node : ∀ o, o < h.size → k.heap.node o = h.node o

/-- Whether a copying succeeds wherever a writing does, and is where it is then. -/
def Paces (h : Heap) (new : Option ObjId) (x : Writing Unit) (y : Copying α) : Prop :=
  ∀ s s' k, x s = .ok () s' → InPace h new s k →
    ∃ a k', y k = .ok a k' ∧ InPace h none s' k' ∧ k'.copies.pending = k.copies.pending

/-- Whether nested objects are copied where they are written. -/
structure PacesNested (e : Engine) (h : Heap) (wn : ObjId → Serializer → Writing Unit)
    (cn : ObjId → Serializer → Copying ObjId) : Prop where
  paces : ∀ o c ser, e.registry.Gives c ser → h.typeOf o = c.type → h.Closed (some o) →
    Paces h (e.announced c o) (wn o ser) (cn o ser)
  /-- Writing a leaf changes nothing but the output. -/
  leaf : ∀ o type s s', wn o (.leaf type) s = .ok () s' →
    s'.written = s.written ∧ s'.scope.depth = s.scope.depth

variable {e e' : Engine} {h : Heap} {wn : ObjId → Serializer → Writing Unit}
  {cn : ObjId → Serializer → Copying ObjId} {s s' : WriteState} {k k' : CopyState} {o p : ObjId}
  {c : ClassInfo} {ser : Serializer} {v : Value} {new : Option ObjId}

namespace InPace

/-- What is not compared does not matter. -/
theorem congr (hp : InPace h new s k) (hs : s'.scope.depth = s.scope.depth)
    (hw : s'.written = s.written) (hk : k'.scope = k.scope) (hh : k'.heap = k.heap)
    (hc : k'.copies.pairs = k.copies.pairs) : InPace h new s' k' where
  depth := by rw [hk, hs, hp.depth]
  copied o c ho := by
    rw [hw, hp.copied o c ho, Copies.get?, Copies.get?, hc]
  size := hh ▸ hp.size
  node o ho := by rw [hh, hp.node o ho]

theorem typeOf (hp : InPace h new s k) (ho : o < h.size) : k.heap.typeOf o = h.typeOf o := by
  rw [Heap.typeOf, Heap.typeOf, hp.node o ho]

/-- An entry is put into a copy. -/
theorem put (hp : InPace h new s k) (hs : h.size ≤ p) (x y : Value) :
    InPace h new s { k with heap := (k.heap.insert p x y).2 } where
  depth := hp.depth
  copied := hp.copied
  size := by
    rw [Heap.size_insert]
    exact hp.size
  node o ho := by
    rw [Heap.node_insert_of_ne x y (ho.trans_le hs).ne, hp.node o ho]

end InPace

/-! ## One level -/

theorem Copying.objectVia_of_some (hk : k.copies.get? o = some p) :
    Copying.objectVia e cn o k = .ok p k := by
  unfold Copying.objectVia
  rw [get_bind, hk]
  rfl

theorem Copying.objectVia_of_none (he : e.registry.Sound) (hg : e.registry.Gives c ser)
    (ho : k.heap.typeOf o = c.type) (hk : k.copies.get? o = none) :
    Copying.objectVia e cn o k = cn o ser k := by
  unfold Copying.objectVia
  have hclass : e.registry.classOfObject (k.heap.typeOf o) = .ok c := ho ▸ hg.classOfObject
  rw [get_bind, hk]
  simp only [get_bind, hclass, attempt_ok, pure_bind, he.serializer_eq_ok hg]

namespace PacesNested

variable (hn : PacesNested e' h wn cn) (he : e.registry.Sound) (hr : e'.registry = e.registry)
  (ht : e'.config.trackRef = true)
include hn he hr

/-- A leaf that is written again has been copied already. -/
theorem unlessWritten_leaf {type : LeafType} (hg : e.registry.Gives c (.leaf type))
    (ho : h.typeOf o = c.type) (hc : c.tracked = false) (hcl : h.Closed (some o)) :
    Paces h none (Writing.unlessWritten wn (e'.tracks c) o (.leaf type))
      (Copying.objectVia e cn o) := by
  intro s s' k hx hp
  have htype : k.heap.typeOf o = c.type := (hp.typeOf (hcl o .self)).trans ho
  have hnested := hn.paces o c _ (hr ▸ hg) ho hcl
  have htr : e'.tracks c = false := by simp [Engine.tracks, hc]
  rw [(Engine.announced_eq_none hc).1] at hnested
  rw [htr] at hx
  cases hk : k.copies.get? o with
  | some q =>
    obtain ⟨hw, hd⟩ := hn.leaf o type s s' hx
    exact ⟨q, k, Copying.objectVia_of_some hk, hp.congr hd hw rfl rfl rfl, rfl⟩
  | none =>
    rw [Copying.objectVia_of_none he hg htype hk]
    exact hnested s s' k hx hp

include ht

/-- A container that is written again has a copy, and no other has one. -/
theorem unlessWritten_map {type : ContainerType} (hg : e.registry.Gives c ser)
    (ho : h.typeOf o = c.type) (hmap : c.type = .container type) (hc : c.tracked = true)
    (hcl : h.Closed (some o)) :
    Paces h none (Writing.unlessWritten wn (e'.tracks c) o ser) (Copying.objectVia e cn o) := by
  intro s s' k hx hp
  have htype : k.heap.typeOf o = c.type := (hp.typeOf (hcl o .self)).trans ho
  have hnested := hn.paces o c ser (hr ▸ hg) ho hcl
  have htr : e'.tracks c = true := by simp [Engine.tracks, hc, ht]
  obtain ⟨ct, hct, -⟩ := Heap.exists_container (ho.trans hmap)
  have hcopied := hp.copied o ct hct
  simp only [reduceCtorEq, or_false] at hcopied
  rw [htr] at hx
  obtain ⟨again, s₁, h₁, hx⟩ := bind_eq_ok.1 hx
  cases hnum : s.written.number? o with
  | some i =>
    rw [announce_of_some hnum] at h₁
    cases h₁
    cases hx
    have hmem : o ∈ s.written.objects := by
      by_contra hmem
      rw [Written.number?, List.idxOf?_eq_none_iff.2 hmem] at hnum
      cases hnum
    obtain ⟨q, hq⟩ := Option.isSome_iff_exists.1 (hcopied.1 hmem)
    exact ⟨q, k, Copying.objectVia_of_some hq, hp.congr rfl rfl rfl rfl rfl, rfl⟩
  | none =>
    rw [announce_of_none hnum] at h₁
    cases h₁
    have hmem : o ∉ s.written.objects := List.idxOf?_eq_none_iff.1 hnum
    have hk : k.copies.get? o = none := by
      rw [← Option.not_isSome_iff_eq_none, ← hcopied]
      exact hmem
    rw [Copying.objectVia_of_none he hg htype hk]
    have hann : e'.announced c o = some o := by simp [Engine.announced, htr]
    rw [hann] at hnested
    refine hnested _ s' k hx ⟨hp.depth, fun q cq hq => ?_, hp.size, hp.node⟩
    simp only [List.mem_append, List.mem_singleton, hp.copied q cq hq, reduceCtorEq, or_false,
      Option.some.injEq]
    exact or_congr_right eq_comm

/-- **An object is copied, or has a copy, where it is written.** -/
theorem unlessWritten (hg : e.registry.Gives c ser) (ho : h.typeOf o = c.type)
    (hcl : h.Closed (some o)) :
    Paces h none (Writing.unlessWritten wn (e'.tracks c) o ser) (Copying.objectVia e cn o) := by
  cases he.shape hg with
  | leaf _ hser hc =>
    subst hser
    exact hn.unlessWritten_leaf he hr hg ho hc hcl
  | map hmap _ hc => exact hn.unlessWritten_map he hr ht hg ho hmap hc hcl

theorem object (hg : e.registry.Gives c ser) (hcl : h.Closed v) :
    Paces h none (Writing.objectVia e' h wn v c ser) (Copying.valueVia e cn v) := by
  intro s s' k hx hp
  cases v with
  | none => cases hx
  | some o =>
    obtain ⟨_, s₁, h₁, hx⟩ := bind_eq_ok.1 hx
    obtain ⟨hc, rfl⟩ := attempt_eq_ok.1 h₁
    obtain ⟨q, k', hk', hrest⟩ :=
      hn.unlessWritten he hr ht hg (Heap.typeOf_of_checkClass hc) hcl s s' k hx hp
    exact ⟨some q, k', map_of_ok hk', hrest⟩

theorem nullable (hg : e.registry.Gives c ser) (hcl : h.Closed v) :
    Paces h none (Writing.nullableVia e' h wn v c ser) (Copying.valueVia e cn v) := by
  intro s s' k hx hp
  cases v with
  | none =>
    cases hx
    exact ⟨none, k, rfl, hp.congr rfl rfl rfl rfl rfl, rfl⟩
  | some o =>
    obtain ⟨_, s₁, h₁, hx⟩ := bind_eq_ok.1 hx
    obtain ⟨hc, rfl⟩ := attempt_eq_ok.1 h₁
    have hobject := hn.unlessWritten he hr ht hg (Heap.typeOf_of_checkClass hc) hcl
    have hgo : ∃ q k', Copying.objectVia e cn o k = .ok q k' ∧ InPace h none s' k' ∧
        k'.copies.pending = k.copies.pending := by
      cases htr : e'.tracks c with
      | true =>
        rw [htr] at hobject hx
        exact hobject s s' k hx hp
      | false =>
        rw [htr] at hobject hx
        obtain ⟨_, s₁, h₁, hx⟩ := bind_eq_ok.1 hx
        cases h₁
        exact hobject _ s' k hx (hp.congr rfl rfl rfl rfl rfl)
    obtain ⟨q, k', hk', hrest⟩ := hgo
    exact ⟨some q, k', map_of_ok hk', hrest⟩

theorem any (hcl : h.Closed v) :
    Paces h none (Writing.anyVia e' h wn v) (Copying.valueVia e cn v) := by
  intro s s' k hx hp
  cases v with
  | none =>
    cases hx
    exact ⟨none, k, rfl, hp.congr rfl rfl rfl rfl rfl, rfl⟩
  | some o =>
    obtain ⟨c, s₁, h₁, hx⟩ := bind_eq_ok.1 hx
    obtain ⟨hc, rfl⟩ := attempt_eq_ok.1 h₁
    obtain ⟨ser, s₁, h₁, hx⟩ := bind_eq_ok.1 hx
    obtain ⟨hser, rfl⟩ := attempt_eq_ok.1 h₁
    obtain ⟨_, s₁, h₁, hx⟩ := bind_eq_ok.1 hx
    cases h₁
    rw [hr] at hc hser
    obtain ⟨ho, hg, -, -⟩ := he.gives_of_object hc hser
    obtain ⟨q, k', hk', hrest⟩ := hn.unlessWritten he hr ht hg ho.symm hcl _ s' k hx
      (hp.congr rfl rfl rfl rfl rfl)
    exact ⟨some q, k', map_of_ok hk', hrest⟩

theorem side {slot : Slot} (hg : ∀ c ser, slot.target = some (c, ser) → e.registry.Gives c ser)
    (hcl : h.Closed v) :
    Paces h none (Writing.sideVia e' h wn slot v) (Copying.valueVia e cn v) := by
  unfold Writing.sideVia
  cases hs : slot.target with
  | none => exact hn.any he hr ht hcl
  | some target =>
    obtain ⟨c, ser⟩ := target
    cases hnull : slot.nullable with
    | true => simpa using hn.nullable he hr ht (hg c ser hs) hcl
    | false => simpa using hn.object he hr ht (hg c ser hs) hcl

/-- **Entries are copied where they are written, one by one.** -/
theorem entries {keySlot valueSlot : Slot}
    (hkey : ∀ c ser, keySlot.target = some (c, ser) → e.registry.Gives c ser)
    (hvalue : ∀ c ser, valueSlot.target = some (c, ser) → e.registry.Gives c ser)
    (keyType : Declared) (l : List Entry) (hcl : ∀ x ∈ l, h.Closed x.1 ∧ h.Closed x.2)
    (hp : h.size ≤ p) :
    Paces h none (Writing.entriesVia e' h wn keySlot valueSlot keyType l)
      (Copying.entriesVia e cn p l) := by
  induction l with
  | nil =>
    intro s s' k hx hpace
    cases hx
    exact ⟨(), k, rfl, hpace, rfl⟩
  | cons entry l ih =>
    obtain ⟨x, y⟩ := entry
    intro s s' k hx hpace
    obtain ⟨hclx, hcly⟩ := hcl (x, y) List.mem_cons_self
    obtain ⟨_, s₁, h₁, hx⟩ := bind_eq_ok.1 hx
    obtain ⟨-, rfl⟩ := attempt_eq_ok.1 h₁
    obtain ⟨_, s₁, h₁, hx⟩ := bind_eq_ok.1 hx
    obtain ⟨-, rfl⟩ := attempt_eq_ok.1 h₁
    obtain ⟨_, s₁, h₁, hx⟩ := bind_eq_ok.1 hx
    obtain ⟨_, s₂, h₂, h₃⟩ := bind_eq_ok.1 hx
    -- frames are nothing to the copier
    obtain ⟨s₀, h₀, rfl⟩ := declaring_eq_ok.1 h₁
    obtain ⟨x', k₁, hk₁, hp₁, hw₁⟩ := hn.side he hr ht hkey hclx _ s₀ k h₀
      (hpace.congr rfl rfl rfl rfl rfl)
    obtain ⟨y', k₂, hk₂, hp₂, hw₂⟩ := hn.side he hr ht hvalue hcly _ s₂ k₁ h₂
      (hp₁.congr rfl rfl rfl rfl rfl)
    obtain ⟨_, k', hk', hp', hw'⟩ := ih (fun z hz => hcl z (List.mem_cons_of_mem _ hz)) s₂ s'
      { k₂ with heap := (k₂.heap.insert p x' y').2 } h₃ (hp₂.put hp x' y')
    refine ⟨(), k', ?_, hp', hw'.trans (hw₂.trans hw₁)⟩
    exact (bind_of_ok hk₁).trans ((bind_of_ok hk₂).trans hk')

end PacesNested

/-- A container is copied if its entries are. -/
theorem Copying.mapVia_of_entries {ct : Container} {type : ContainerType}
    (ho : k.heap.node o = .container ct)
    (hc : e.registry.classOfObject (.container ct.type) = .ok c)
    (ht : c.containerType none = .ok type)
    (hx : Copying.entriesVia e cn k.heap.size ct.entries
      { k with
        heap := (k.heap.alloc (.container (.empty type))).2
        copies := k.copies.bind k.heap.size } = .ok () k') :
    Copying.mapVia e cn none o k = .ok k.heap.size k' := by
  have hnew : newContainer c none k =
      .ok k.heap.size { k with heap := (k.heap.alloc (.container (.empty type))).2 } :=
    bind_of_ok (attempt_eq_ok.2 ⟨ht, rfl⟩)
  unfold Copying.mapVia
  rw [get_bind]
  simp only [Heap.container?, Heap.typeOf, ho, Node.type, hc, attempt_ok, pure_bind]
  refine (bind_of_ok hnew).trans ((modify_bind _ _ _).trans ?_)
  exact (bind_of_ok hx).trans rfl

/-- A container is bound to an empty copy. -/
theorem InPace.begin (hp : InPace h (some o) s k) (type : ContainerType) :
    InPace h none s
      { k with
        heap := (k.heap.alloc (.container (.empty type))).2
        copies := (k.copies.expect o).bind k.heap.size } where
  depth := hp.depth
  copied q c hq := by
    have hget : ((k.copies.expect o).bind k.heap.size).get? q =
        if q == o then some k.heap.size else k.copies.get? q := by
      show List.lookup q ((o, k.heap.size) :: k.copies.pairs) = _
      rw [List.lookup_cons]
      cases q == o <;> rfl
    rw [hget, hp.copied q c hq]
    by_cases hqo : q = o
    · simp [hqo]
    · simp [hqo, Ne.symm hqo]
  size := hp.size.trans (by simp)
  node q hq := by rw [Heap.node_alloc_of_lt _ (hq.trans_le hp.size), hp.node q hq]

/-- What is copied when it is written one level deeper is copied so. -/
theorem Paces.descend {limit : Nat} {x : Writing Unit} {y : Copying α} (hxy : Paces h new x y) :
    Paces h new (GraphWire.descend limit x) (GraphWire.descend limit y) := by
  intro s s' k hx hp
  obtain ⟨hd, s₁, h₁, rfl⟩ := descend_eq_ok.1 hx
  obtain ⟨a, k₁, hk₁, hp₁, hw⟩ := hxy _ s₁ (inScope Scope.deeper k) h₁
    { hp with depth := congrArg (· + 1) hp.depth }
  have hd' : k.scope.depth < limit := hp.depth ▸ hd
  refine ⟨a, _, descend_eq_ok.2 ⟨hd', k₁, hk₁, rfl⟩, ?_, hw⟩
  exact { hp₁ with depth := congrArg (· - 1) hp₁.depth }

/-- A leaf is copied where it is written. -/
theorem paces_leaf (type : LeafType) :
    Paces h none (Writing.bodyVia e' h wn o (.leaf type))
      (Copying.awaited e cn o (.leaf type)) := by
  intro s s' k hx hp
  obtain ⟨a, ha, -, rfl⟩ := Writing.bodyVia_leaf_eq_ok hx
  refine ⟨o, { k with copies := (k.copies.expect o).bind o }, ?_, ?_, rfl⟩
  · exact (modify_bind _ _ _).trans (completing_eq_ok.2 ⟨_, rfl, (if_pos rfl).symm⟩)
  refine ⟨hp.depth, fun q c hq => ?_, hp.size, hp.node⟩
  have hne : (q == o) = false := by
    rw [beq_eq_false_iff_ne]
    rintro rfl
    cases ha.symm.trans hq
  have hget : ((k.copies.expect o).bind o).get? q = k.copies.get? q := by
    show List.lookup q ((o, o) :: k.copies.pairs) = _
    rw [List.lookup_cons, hne]
    rfl
  rw [hget]
  exact hp.copied q c hq

namespace PacesNested

/-- **A container is copied where it is written.** -/
theorem map (hn : PacesNested e' h wn cn) (he : e.registry.Sound)
    (hr : e'.registry = e.registry) (ht : e'.config.trackRef = true) {ct : Container}
    (ho : h.node o = .container ct) (hcl : h.Closed (some o)) {key value : SideSetup Serializer}
    (hg : e.registry.Gives c ser) (hc : c.type = .container ct.type)
    (hk : e.registry.SideGives key) (hv : e.registry.SideGives value) :
    Paces h (some o) (Writing.bodyVia e' h wn o (.map key value none))
      (Copying.awaited e cn o (.map key value none)) := by
  intro s s' k hx hp
  obtain ⟨keySlot, valueSlot, keyType, s₂, hslots, h₂, rfl⟩ := Writing.mapVia_eq_ok ho hx
  rw [hr] at hslots
  obtain ⟨hgk, hgv⟩ := gives_of_resolveSlots he hk hv hslots
  have hclosed : ∀ x ∈ ct.entries, h.Closed x.1 ∧ h.Closed x.2 := fun x hx =>
    ⟨hcl.part (Heap.fst_mem_parts ho hx), hcl.part (Heap.snd_mem_parts ho hx)⟩
  obtain ⟨_, k', hk', hp', hw⟩ := hn.entries he hr ht hgk hgv keyType ct.entries hclosed hp.size
    _ s₂ _ h₂ ((hp.begin ct.type).congr rfl rfl rfl rfl rfl)
  have hclass : e.registry.classOfObject (.container ct.type) = .ok c := hc ▸ hg.classOfObject
  have hnode : k.heap.node o = .container ct := by rw [hp.node o (hcl o .self), ho]
  have hmap := Copying.mapVia_of_entries (k := { k with copies := k.copies.expect o }) hnode hclass
    (he.containerType_eq_ok hg hc) hk'
  have hpending : k'.copies.pending = k.copies.pending := hw
  -- the copy was bound before the entries, so that it is not bound again
  refine ⟨k.heap.size, k', ?_, hp'.congr rfl rfl rfl rfl rfl, hpending⟩
  refine (modify_bind _ _ _).trans (completing_eq_ok.2 ⟨k', hmap, (if_neg ?_).symm⟩)
  show k'.copies.pending.length ≠ (o :: k.copies.pending).length
  simp [hpending]

end PacesNested

/-! ## All levels -/

/-- **Nested objects are copied where they are written**, however deep. -/
theorem pacesNested_data (he : e.registry.Sound) (hr : e'.registry = e.registry)
    (ht : e'.config.trackRef = true) (hd : e'.config.maxDepth = e.config.maxDepth) (h : Heap)
    (levels : Nat) : PacesNested e' h (Writing.data e' h levels) (Copying.data e levels) := by
  induction levels with
  | zero =>
    constructor
    · intro o c ser _ _ _ s s' k hx
      cases hx
    · intro o type s s' hx
      cases hx
  | succ levels ih =>
    constructor
    · intro o c ser hg ho hcl
      rw [hr] at hg
      show Paces h _ (descend e'.config.maxDepth _) (descend e.config.maxDepth _)
      rw [hd]
      refine .descend ?_
      cases he.shape hg with
      | leaf _ hser hc =>
        subst hser
        rw [(Engine.announced_eq_none hc).1]
        exact paces_leaf _
      | map hmap hser hc _ hk hv =>
        subst hser
        obtain ⟨ct, hct, rfl⟩ := Heap.exists_container (ho.trans hmap)
        have hann : e'.announced c o = some o := by simp [Engine.announced, Engine.tracks, hc, ht]
        rw [hann]
        exact ih.map he hr ht hct hcl hg hmap hk hv
    · intro o type s s' hx
      obtain ⟨-, s₁, h₁, rfl⟩ := descend_eq_ok.1 hx
      obtain ⟨a, -, -, rfl⟩ := Writing.bodyVia_leaf_eq_ok h₁
      exact ⟨rfl, rfl⟩

namespace Engine

/-- **What is written with references tracked can be copied**, tracked or not. -/
theorem copy_of_serialize (he : e.registry.Sound) (hr : e'.registry = e.registry)
    (ht : e'.config.trackRef = true) (hd : e'.config.maxDepth = e.config.maxDepth)
    (hcl : h.Closed v) {bs : Bytes} (hs : e'.serialize h v = .ok bs) :
    ∃ w h', e.copy h v = .ok (w, h') := by
  cases v with
  | none => exact ⟨none, h, rfl⟩
  | some o =>
    obtain ⟨s', hx, -⟩ := any_of_serialize hs
    have hstart : ∀ out, InPace h none (.start out) (.start h) := fun _ =>
      ⟨rfl, fun _ _ _ => by simp [WriteState.start, CopyState.start, Written.empty, Copies.empty,
        Copies.get?], le_rfl, fun _ _ => rfl⟩
    have hpace := (pacesNested_data he hr ht hd h (e'.config.maxDepth - 0)).any he hr ht hcl
    obtain ⟨w, k', hk', -⟩ := hpace _ s' _ hx (hstart _)
    rw [hd] at hk'
    have hvalue : Copying.value e (some o) (.start h) = .ok w k' := hk'
    exact ⟨w, k'.heap, by rw [copy, hvalue]⟩

end Engine

end GraphWire
