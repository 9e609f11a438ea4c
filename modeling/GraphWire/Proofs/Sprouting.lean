/-
  What is read without tracking is a tree.

  Without tracking an object that comes with the id of its type is always a new one.
  Numbers, which may be given again, are read only on a side that has a class and may
  be null, where every marker is taken.

  * `Engine.Unnumbered` says that no binding makes such a side, `Scope.Vague` that no
    declaration does;
  * `Sprouts` says that a reading adds a tree and changes nothing else;
  * `Engine.sprout_of_deserialize` and `Engine.sprout_of_deserializeField`: so does every
    operation then, whatever the bytes are.
-/
import GraphWire.Proofs.Balance
import GraphWire.Proofs.Trees

namespace GraphWire

/-- Whether no side that is bound to a class may be null. -/
def Engine.Unnumbered (e : Engine) : Prop :=
  ∀ b, e.registry.HasSide b → b.type ≠ none → b.nullable = false

/-- Whether a final type is declared for a side. -/
def Frames.Tells (f : Frames) (r : Registry) (declared : Option Declared) : Prop :=
  ∃ d t, declared = some d ∧ f.resolve d = some t ∧ r.isFinal t = true

/-- Whether one is declared for a side of a container that is read here, the keys being the
    first. -/
def Scope.Tells (r : Registry) (sc : Scope) (i : Nat) : Prop := sc.frames.Tells r sc.args[i]?

/-- Whether no final type is declared for the entries of a container that is read here,
    nor for those of its keys, and of the keys of these, so many levels down. -/
def Scope.Vague (r : Registry) : Nat → Scope → Prop
  | 0, _ => True
  | n + 1, sc => ¬sc.Tells r 0 ∧ ¬sc.Tells r 1 ∧ Vague r n (sc.pushed sc.keyType).deeper

/-- Whether no number is given to two objects under a declaration: it is of a final type,
    or no final type is declared for the values of a container, nor for the entries of its
    keys.  Its keys may be declared so, since a key is not stored twice. -/
def Engine.Discreet (e : Engine) (ty : Declared) : Prop :=
  (∃ t, ty.type? = some t ∧ e.registry.isFinal t = true) ∨
    let sc := (Scope.start.pushed ty).deeper
    ¬sc.Tells e.registry 1 ∧
      (sc.pushed sc.keyType).deeper.Vague e.registry (e.config.maxDepth - 1)

/-- Whether no marker is read on a side. -/
def Slot.Plain (r : Registry) (slot : Slot) : Prop :=
  ∀ c ser, slot.target = some (c, ser) → r.Gives c ser ∧ slot.nullable = false

variable {e : Engine} {sc : Scope} {n levels : Nat}

/-! ## Sides -/

/-- Where nothing is declared, nothing is told of the keys either. -/
theorem Scope.Orderly.vague_deeper (hs : sc.Orderly) (r : Registry) (n : Nat) :
    sc.deeper.Vague r n := by
  have htells : ∀ sc : Scope, sc.Orderly → ∀ i, ¬sc.deeper.Tells r i := by
    rintro sc hs i ⟨d, t, hd, -⟩
    rw [hs.args_deeper] at hd
    cases hd
  induction n generalizing sc with
  | zero => trivial
  | succ n ih =>
    have hkey : sc.deeper.pushed sc.deeper.keyType = sc.deeper := by
      unfold keyType
      rw [hs.args_deeper]
      rfl
    refine ⟨htells sc hs 0, htells sc hs 1, ?_⟩
    rw [hkey]
    exact ih hs.deeper

/-- Only leaves are final. -/
theorem Registry.Sound.gives_of_isFinal {r : Registry} (hr : r.Sound) {t : ObjectType}
    (hf : r.isFinal t = true) : ∃ c type, r.classOf t = .ok c ∧
      r.serializer t = .ok (.leaf type) ∧ r.Gives c (.leaf type) := by
  unfold isFinal at hf
  split at hf
  · next reg hreg =>
    have hty := type_of_find? hreg
    cases hr.of_find? hreg with
    | leaf type =>
      cases hty
      have hg : r.Gives _ (.leaf type) := .leaf hreg
      exact ⟨_, type, classOf_eq_ok.2 ⟨_, hreg, rfl⟩, hr.serializer_eq_ok hg, hg⟩
    | container => cases hf
    | bound => cases hf
  · cases hf

theorem Frames.tells_iff {f : Frames} {r : Registry} {declared : Option Declared} :
    f.Tells r declared ↔ ∃ t, (declared.bind f.resolve).filter r.isFinal = some t := by
  simp only [Tells, Option.filter_eq_some_iff, Option.bind_eq_some_iff]
  constructor
  · rintro ⟨d, t, hd, ht, hf⟩
    exact ⟨t, ⟨d, hd, ht⟩, hf⟩
  · rintro ⟨t, ⟨d, hd, ht⟩, hf⟩
    exact ⟨d, t, hd, ht, hf⟩

/-- A side without a class is encoded as the final type that is declared for it, if there
    is one. -/
theorem Slot.resolve_unbound {r : Registry} (hr : r.Sound) (b : SideBinding) (f : Frames)
    (declared : Option Declared) (side : Side) :
    ∃ target, Slot.resolve r f declared side (b.setup none) = .ok ⟨target, b.nullable, side⟩ ∧
      (target = none ∧ ¬f.Tells r declared ∨
        f.Tells r declared ∧ ∃ c type, target = some (c, .leaf type) ∧ r.Gives c (.leaf type)) := by
  simp only [Slot.resolve, SideBinding.setup, Option.map_none, Frames.tells_iff]
  cases htold : (declared.bind f.resolve).filter r.isFinal with
  | none => exact ⟨none, rfl, Or.inl ⟨rfl, by simp⟩⟩
  | some t =>
    obtain ⟨c, type, hc, hser, hg⟩ := hr.gives_of_isFinal (Option.filter_eq_some_iff.1 htold).2
    refine ⟨_, ?_, Or.inr ⟨⟨t, rfl⟩, c, type, rfl, hg⟩⟩
    simp only [hc, hser]
    rfl

/-- **Markers are read on a side only if a final type is declared for it**, and a leaf
    follows them. -/
theorem Slot.plain_or_leaf (he : e.registry.Sound) (hu : e.Unnumbered) {b : SideBinding}
    (hb : e.registry.HasSide b) {target : Option (ClassInfo × Serializer)}
    (hbt : b.type = target.map (·.1.type))
    (ht : ∀ c ser, target = some (c, ser) → e.registry.Gives c ser) {f : Frames}
    {declared : Option Declared} {side : Side} {slot : Slot}
    (hs : Slot.resolve e.registry f declared side (b.setup target) = .ok slot) :
    slot.Plain e.registry ∨
      f.Tells e.registry declared ∧ ∃ c type, slot = ⟨some (c, .leaf type), true, side⟩ := by
  cases target with
  | some target =>
    cases hs
    refine Or.inl fun c ser hcs => ⟨ht c ser hcs, hu b hb ?_⟩
    rw [hbt]
    simp
  | none =>
    obtain ⟨target, hres, htold⟩ := Slot.resolve_unbound he b f declared side
    cases hres.symm.trans hs
    rcases htold with ⟨rfl, -⟩ | ⟨htold, c, type, rfl, hg⟩
    · exact Or.inl (by rintro c ser ⟨⟩)
    cases hnull : b.nullable with
    | true => exact Or.inr ⟨htold, c, type, rfl⟩
    | false =>
      refine Or.inl ?_
      rintro _ _ ⟨⟩
      exact ⟨hg, rfl⟩

/-! ## One level -/

/-- Whether a reading that succeeds in a scope adds a tree, at most so high, and leaves the
    objects there were and their numbers as they were. -/
def Sprouts (sc : Scope) (n : Nat) (x : Reading Value) : Prop :=
  ∀ s v s', s.scope = sc → x s = .ok v s' → s.heap.Extends s'.heap ∧
    s'.bindings = s.bindings ∧ s'.heap.Sprout s.heap.size s'.heap.size n v

/-- Whether objects without a number are read so. -/
def NestedSprouts (e : Engine) (sc : Scope) (n : Nat)
    (nested : ClassInfo → Serializer → Option Nat → Reading ObjId) : Prop :=
  ∀ c ser, e.registry.Gives c ser → Sprouts sc n (some <$> nested c ser none)

section
variable {nested : ClassInfo → Serializer → Option Nat → Reading ObjId} {s s' : ReadState}
  {c : ClassInfo} {ser : Serializer} {o p : ObjId}

namespace NestedSprouts

theorem object (hn : NestedSprouts e sc n nested) (htr : e.config.trackRef = false)
    (hc : e.registry.Gives c ser) : Sprouts sc n (some <$> Reading.objectVia e nested c ser) := by
  rw [Reading.objectVia_of_not_tracks _ (e.tracks_of_untracked htr c)]
  exact hn c ser hc

/-- **A value that comes with its type is new.** -/
theorem any (hn : NestedSprouts e sc n nested) (he : e.registry.Sound)
    (htr : e.config.trackRef = false) : Sprouts sc n (Reading.anyVia e nested) := by
  intro s v s' hsc hx
  obtain ⟨_, i, -, ⟨-, rfl, rfl⟩ | ⟨c, ser, o, -, hc, rfl, ho⟩⟩ := Reading.anyVia_eq_ok he hx
  · exact ⟨.refl _, rfl, Heap.sprout_none⟩
  · exact hn.object htr hc { s with input := i } (some o) s' hsc (map_of_ok ho)

/-- So is one on a side where no marker is read. -/
theorem side (hn : NestedSprouts e sc n nested) (he : e.registry.Sound)
    (htr : e.config.trackRef = false) {slot : Slot} (hslot : slot.Plain e.registry) :
    Sprouts sc n (Reading.sideVia e nested slot) := by
  unfold Reading.sideVia
  split
  · next c ser ht =>
    obtain ⟨hc, hnull⟩ := hslot c ser ht
    rw [if_neg (by simp [hnull])]
    exact hn.object htr hc
  · exact hn.any he htr

end NestedSprouts

theorem Sprouts.declaring {ty : Declared} {x : Reading Value} (hx : Sprouts (sc.pushed ty) n x) :
    Sprouts sc n (declaring ty x) := by
  rintro s v s' rfl hd
  obtain ⟨s₁, h₁, rfl⟩ := declaring_eq_ok.1 hd
  exact hx (inScope (·.pushed ty) s) v s₁ rfl h₁

theorem Ends.scope_of_ok {α : Type} {x : Reading α} {a : α} (hx : Keeps sc x x)
    (hs : s.scope = sc) (h : x s = .ok a s') : s'.scope = sc := by
  have hleaves := (hx s hs).2
  rw [h] at hleaves
  exact hleaves

/-- **A container grows by what is read for it.** -/
theorem sprout_of_entries {keySlot valueSlot : Slot} {keyType : Declared} (hs : sc.Orderly)
    (hkey : Sprouts sc n (declaring keyType (Reading.sideVia e nested keySlot)))
    (hvalue : Sprouts sc n (Reading.sideVia e nested valueSlot))
    (hkeyEnds : Reading.NestedEnds (sc.pushed keyType) nested nested)
    (hvalueEnds : Reading.NestedEnds sc nested nested) (m : Nat) (hsc : s.scope = sc)
    (ho : s.heap.Sprout o s.heap.size (n + 1) (some o)) (hc : ∃ c, s.heap.node o = .container c)
    (hx : Reading.entriesVia e nested keySlot valueSlot keyType o m s = .ok () s') :
    s'.heap.Sprout o s'.heap.size (n + 1) (some o) ∧ s'.bindings = s.bindings ∧
      ∀ p, p < o → s'.heap.node p = s.heap.node p := by
  induction m generalizing s with
  | zero =>
    cases hx
    exact ⟨ho, rfl, fun _ _ => rfl⟩
  | succ m ih =>
    obtain ⟨k, s₁, x, s₂, h₁, h₂, hx⟩ := Reading.entriesVia_succ_eq_ok hx
    obtain ⟨hext₁, hb₁, hk⟩ := hkey s k s₁ hsc h₁
    have hsc₁ := Ends.scope_of_ok (.declaring hs (Reading.ends_sideVia hkeyEnds keySlot)) hsc h₁
    obtain ⟨hext₂, hb₂, hv⟩ := hvalue s₁ x s₂ hsc₁ h₂
    have hsc₂ := Ends.scope_of_ok (.keeps hs (Reading.ends_sideVia hvalueEnds valueSlot)) hsc₁ h₂
    have hext := hext₁.trans hext₂
    have hlt : o < s.heap.size := (ho.range o .self).2
    obtain ⟨ct, hct⟩ := hc
    have hct₂ : s₂.heap.node o = .container ct := (hext.node o hlt).trans hct
    -- what was there before the key lies below the key, and the key below the value
    have hput : (s₂.heap.insert o k x).2.Sprout o s₂.heap.size (n + 1) (some o) :=
      (ho.later le_rfl hext).insert hct₂ (hlt.trans_le hext.size) (hk.later le_rfl hext₂) hv
        hext₁.size hext₂.size
    have hcontainer : ∃ c, (s₂.heap.insert o k x).2.node o = .container c :=
      ⟨_, Heap.node_insert_self k x hct₂ (hlt.trans_le hext.size)⟩
    obtain ⟨hsprout, hb, hkept⟩ := ih (s := { s₂ with
        heap := (s₂.heap.insert o k x).2
        inserted := s₂.inserted + 1 }) hsc₂ (by rwa [Heap.size_insert]) hcontainer hx
    refine ⟨hsprout, hb.trans (hb₂.trans hb₁), fun p hp => ?_⟩
    rw [hkept p hp]
    exact (Heap.node_insert_of_ne k x (Nat.ne_of_lt hp)).trans (hext.node p (hp.trans hlt))

/-- A new container, still empty. -/
theorem Heap.sprout_of_begin (h : Heap) (type : ContainerType) (n : Nat) :
    (h.alloc (.container (.empty type))).2.node h.size = .container (.empty type) ∧
      (h.alloc (.container (.empty type))).2.Sprout h.size
        (h.alloc (.container (.empty type))).2.size (n + 1) (some h.size) := by
  have hnode : (h.alloc (.container (.empty type))).2.node h.size = .container (.empty type) :=
    node_alloc_new _ _
  refine ⟨hnode, ?_⟩
  rw [size_alloc]
  refine sprout_of_parts_nil ?_
  rw [hnode]
  simp [Node.parts]

/-! ## All levels -/

/-- A leaf is read as a new object, with or without a number. -/
theorem Reading.data_leaf_eq_ok {type : LeafType} {id : Option Nat}
    (hx : Reading.data e levels c (.leaf type) id s = .ok p s') :
    ∃ n a, levels = n + 1 ∧ leaf type s.input = .ok a s'.input ∧ p = s.heap.size ∧
      s'.heap = (s.heap.alloc (.leaf a)).2 ∧ s'.bindings = (s.bindings.expect id).bind p := by
  cases levels with
  | zero => cases hx
  | succ n =>
    obtain ⟨-, s₁, h₁, rfl⟩ := descend_eq_ok.1 hx
    obtain ⟨_, s₂, h₂, h₃⟩ := bind_eq_ok.1 h₁
    cases h₂
    obtain ⟨s₃, h₄, hs⟩ := completing_eq_ok.1 h₃
    obtain ⟨a, s₄, h₅, h₆⟩ := bind_eq_ok.1 h₄
    obtain ⟨i, ha, rfl⟩ := Reading.scan_eq_ok.1 h₅
    cases h₆
    cases hs.trans (if_pos rfl)
    exact ⟨n, a, rfl, ha, rfl, rfl, rfl⟩

theorem Heap.sprout_of_alloc {h h' : Heap} {a : Leaf} (hh : h' = (h.alloc (.leaf a)).2) :
    h.Extends h' ∧ h'.Sprout h.size h'.size (n + 1) (some h.size) := by
  subst hh
  refine ⟨h.extends_alloc _, ?_⟩
  rw [size_alloc]
  exact sprout_of_parts_nil (by rw [node_alloc_new]; rfl)

/-- What is read of a container that is begun without a number. -/
theorem Reading.data_map_eq_ok {key value : SideSetup Serializer}
    (hx : Reading.data e (n + 1) c (.map key value none) none s = .ok p s') :
    ∃ type i m slots s₁, c.containerType none = .ok type ∧ p = s.heap.size ∧
      (BitVec.toNat <$> Input.var .u32) s.input = .ok m i ∧
      resolveSlots e.registry s.scope.deeper.frames s.scope.deeper.args key value = .ok slots ∧
      Reading.entriesVia e (Reading.data e n) slots.1 slots.2.1 slots.2.2 p m
        { s with
          input := i
          heap := (s.heap.alloc (.container (.empty type))).2
          scope := s.scope.deeper } = .ok () s₁ ∧ s'.heap = s₁.heap ∧ s'.input = s₁.input ∧
      (s₁.bindings.pending = s.bindings.pending → s'.bindings = s₁.bindings) := by
  obtain ⟨-, s₁, h₁, rfl⟩ := descend_eq_ok.1 hx
  obtain ⟨_, s₂, h₂, h₃⟩ := bind_eq_ok.1 h₁
  cases h₂
  obtain ⟨s₃, h₄, hs⟩ := completing_eq_ok.1 h₃
  obtain ⟨type, i, m, slots, s₄, htype, rfl, hm, hslots, h₅, rfl⟩ := Reading.mapVia_eq_ok h₄
  refine ⟨type, i, m, slots, s₄, htype, rfl, hm, hslots, h₅, ?_, ?_, fun hp => ?_⟩
  · rw [hs]
    split <;> rfl
  · rw [hs]
    split <;> rfl
  · -- it was bound before its entries were read
    have hne : ¬s₄.bindings.pending.length = (none :: s.bindings.pending).length := by simp [hp]
    rw [hs.trans (if_neg hne)]
    rfl

/-- **A container is a tree** where no marker is read. -/
theorem sprouts_of_plain (he : e.registry.Sound) (htr : e.config.trackRef = false)
    (hs : s.scope.deeper.Orderly)
    (hkey : NestedSprouts e (s.scope.deeper.pushed s.scope.deeper.keyType) n (Reading.data e n))
    (hvalue : NestedSprouts e s.scope.deeper n (Reading.data e n))
    {key value : SideSetup Serializer}
    (hplain : ∀ slots, resolveSlots e.registry s.scope.deeper.frames s.scope.deeper.args key value =
      .ok slots → slots.1.Plain e.registry ∧ slots.2.1.Plain e.registry)
    (hx : Reading.data e (n + 1) c (.map key value none) none s = .ok p s') :
    s.heap.Extends s'.heap ∧ s'.bindings = s.bindings ∧
      s'.heap.Sprout s.heap.size s'.heap.size (n + 1) (some p) := by
  obtain ⟨type, i, m, slots, s₁, -, rfl, -, hslots, h₁, hheap, -, hb⟩ :=
    Reading.data_map_eq_ok hx
  obtain ⟨hkeySlot, hvalueSlot⟩ := hplain slots hslots
  rw [(resolveSlots_eq_ok.1 hslots).2.2] at h₁
  obtain ⟨hnode, hnew⟩ := s.heap.sprout_of_begin type n
  obtain ⟨hsprout, hb₁, hkept⟩ := sprout_of_entries (s := { s with
      input := i
      heap := (s.heap.alloc (.container (.empty type))).2
      scope := s.scope.deeper }) hs (hkey.side he htr hkeySlot).declaring
    (hvalue.side he htr hvalueSlot) (Reading.nestedEnds_data _ (hs.pushed_deeper _))
    (Reading.nestedEnds_data _ hs.deeper) m rfl hnew ⟨_, hnode⟩ h₁
  rw [hheap]
  refine ⟨⟨(hsprout.range _ .self).2.le, fun o ho => ?_⟩, ?_, hsprout⟩
  · exact (hkept o ho).trans (Heap.node_alloc_of_lt _ ho)
  · rw [hb (congrArg Bindings.pending hb₁), hb₁]

/-- **An object that is read without a number is a tree**, on all levels. -/
theorem nestedSprouts_data (he : e.registry.Sound) (htr : e.config.trackRef = false)
    (hu : e.Unnumbered) (levels : Nat) {sc : Scope} (hs : sc.deeper.Orderly)
    (hv : sc.deeper.Vague e.registry levels) :
    NestedSprouts e sc levels (Reading.data e levels) := by
  induction levels generalizing sc with
  | zero =>
    intro c ser _ s v s' _ hx
    cases hx
  | succ levels ih =>
    rintro c ser hc s v s' rfl hx
    obtain ⟨p, hp, rfl⟩ := map_eq_ok.1 hx
    cases hc with
    | leaf =>
      obtain ⟨n, a, -, -, rfl, hh, hb⟩ := Reading.data_leaf_eq_ok hp
      obtain ⟨hext, hsprout⟩ := Heap.sprout_of_alloc hh
      exact ⟨hext, hb, hsprout⟩
    | map hreg hkt hvt hk hv' =>
      refine sprouts_of_plain he htr hs (ih (hs.pushed_deeper _) hv.2.2)
        (ih hs.deeper (hs.vague_deeper _ _)) (fun slots hslots => ?_) hp
      obtain ⟨hks, hvs, -⟩ := resolveSlots_eq_ok.1 hslots
      obtain ⟨hbk, hbv⟩ := he.hasSide hreg (.map hreg hkt hvt hk hv')
      constructor
      · refine (Slot.plain_or_leaf he hu hbk hkt hk hks).resolve_right fun ht => ?_
        exact hv.1 ht.1
      · refine (Slot.plain_or_leaf he hu hbv hvt hv' hvs).resolve_right fun ht => ?_
        exact hv.2.1 ht.1

end

/-! ## Keys with numbers -/

namespace Heap

/-- Whether an object stands alone above a container and no value of it leads to the
    object. -/
structure Outer (h : Heap) (o : ObjId) (hi n : Nat) (p : ObjId) : Prop where
  above : o < p
  below : p < hi
  sprout : h.Sprout p (p + 1) n (some p)
  apart : ∀ x ∈ h.entries o, ¬h.Leads x.2 p

/-- What holds of a container whose keys may have numbers: it is a tree, its keys have no
    parts, and no value leads to what has a number. -/
structure Keyed (h : Heap) (o : ObjId) (hi n : Nat) (bs : Bindings) : Prop where
  container : ∃ c, h.node o = .container c
  sprout : h.Sprout o hi (n + 1) (some o)
  keys : ∀ x ∈ h.entries o, ∀ p, x.1 = some p → h.Sprout p (p + 1) n (some p)
  bound : ∀ id p, bs.get id = .ok p → h.Outer o hi n p

variable {h h' : Heap} {o p : ObjId} {lo hi n : Nat} {k v : Value} {bs : Bindings}

theorem Outer.later (hp : h.Outer o lo n p) (ho : h.Sprout o lo (n + 1) (some o))
    (hlo : lo ≤ h.size) (hx : h.Extends h') (hle : lo ≤ hi) : h'.Outer o hi n p := by
  have hnode : ∀ q, q < lo → h'.node q = h.node q := fun q hq => hx.node q (hq.trans_le hlo)
  have hself := hnode o (hp.above.trans hp.below)
  refine ⟨hp.above, hp.below.trans_le hle, ?_, fun x hx' hl => ?_⟩
  · exact hp.sprout.of_kept fun q _ hq => hnode q (hq.trans_le hp.below)
  · rw [entries_congr hself] at hx'
    obtain ⟨c, hc, hxc⟩ := mem_entries.1 hx'
    have hpart := ho.part (snd_mem_parts hc hxc)
    exact hp.apart x hx' ((leads_iff_of_kept fun q hq => hnode q (hpart.range q hq).2).1 hl)

theorem Keyed.later (hk : h.Keyed o lo n bs) (hlo : lo ≤ h.size) (hx : h.Extends h')
    (hle : lo ≤ hi) : h'.Keyed o hi n bs := by
  have hnode : ∀ q, q < lo → h'.node q = h.node q := fun q hq => hx.node q (hq.trans_le hlo)
  have hself := hnode o (hk.sprout.range o .self).2
  obtain ⟨c, hc⟩ := hk.container
  refine ⟨⟨c, hself.trans hc⟩, (hk.sprout.later hlo hx).wider le_rfl hle, fun x hx' p hp => ?_,
    fun id p hp => (hk.bound id p hp).later hk.sprout hlo hx hle⟩
  rw [entries_congr hself] at hx'
  refine (hk.keys x hx' p hp).of_kept fun q _ hq => hnode q ?_
  have hpart := hk.sprout.part (fst_mem_parts hc (entries_of_node hc ▸ hx'))
  exact (Nat.lt_succ_iff.1 hq).trans_lt (hpart.range p (hp ▸ .self)).2

/-- No part leads to a key that is not stored. -/
theorem Keyed.severed (hk : h.Keyed o lo n bs) (hkey : ∀ p, k = some p → h.Outer o lo n p)
    {c : Container} (hc : h.node o = .container c)
    (hf : Entries.find? (h.sameKey (some o) k) c.entries = none) {x : Value}
    (hx : x ∈ (h.node o).parts) : h.Severed x k := by
  intro q hxq hkq
  cases k with
  | none => cases hkq
  | some p =>
    have hp := hkey p rfl
    have hqp : q = p := Nat.le_antisymm (Nat.lt_succ_iff.1 (hp.sprout.range q hkq).2)
      (hp.sprout.range q hkq).1
    subst hqp
    obtain ⟨y, hy, rfl | rfl⟩ := (mem_parts_container hc).1 hx
    · -- a key that leads to the new one would be the same
      have hstored := Entries.find?_eq_none_iff.1 hf y hy
      cases hy₁ : y.1 with
      | none => rw [hy₁] at hxq; cases hxq
      | some r =>
        rw [hy₁] at hxq hstored
        have hr := (hk.keys y (mem_entries.2 ⟨c, hc, hy⟩) r hy₁).range q hxq
        have hqr : q = r := Nat.le_antisymm (Nat.lt_succ_iff.1 hr.2) hr.1
        subst hqr
        rw [sameKey_iff.2 ⟨equal_self, rfl⟩] at hstored
        cases hstored
    · exact hp.apart y (mem_entries.2 ⟨c, hc, hy⟩) hxq

/-- **A key that has a number is not stored twice**, so that the container stays a tree. -/
theorem Keyed.sprout_insert (hk : h.Keyed o lo n bs) (hlt : o < h.size)
    (hkey : ∀ p, k = some p → h.Outer o lo n p) (hv : h.Sprout lo hi n v) (hle : lo ≤ hi) :
    (h.insert o k v).2.Sprout o hi (n + 1) (some o) := by
  obtain ⟨c, hc⟩ := hk.container
  have hself : o + 1 ≤ lo := (hk.sprout.range o .self).2
  have hvold : ∀ x ∈ (h.node o).parts, h.Severed x v := fun x hx => (hk.sprout.part hx).severed hv
  have hvnew : h.Sprout (o + 1) hi n v := hv.wider hself le_rfl
  by_cases hf : Entries.find? (h.sameKey (some o) k) c.entries = none
  swap
  · refine hk.sprout.grow (l := [v]) ?_ (by simpa using hvnew) (List.pairwise_singleton _ _)
      (by simpa using hvold) hle
    rw [parts_insert hc hlt, hc]
    exact Entries.parts_insert_of_find? k v hf
  have hknew : h.Sprout (o + 1) lo n k := by
    cases k with
    | none => exact sprout_none
    | some p => exact (hkey p rfl).sprout.wider (hkey p rfl).above (hkey p rfl).below
  refine hk.sprout.grow (l := [k, v]) ?_ (fun x hx => ?_)
    (List.pairwise_pair.2 (hknew.severed hv)) (fun x hx y hy => ?_) hle
  · rw [parts_insert hc hlt, hc]
    exact Entries.parts_insert_subperm _ k v c.entries
  · rcases List.mem_pair.1 hx with rfl | rfl
    · exact hknew.wider le_rfl hle
    · exact hvnew
  · rcases List.mem_pair.1 hy with rfl | rfl
    · exact hk.severed hkey hc hf hx
    · exact hvold x hx

theorem Keyed.insert (hk : h.Keyed o lo n bs) (hlt : o < h.size)
    (hkey : ∀ p, k = some p → h.Outer o lo n p) (hv : h.Sprout lo hi n v) (hle : lo ≤ hi) :
    (h.insert o k v).2.Keyed o hi n bs := by
  obtain ⟨c, hc⟩ := hk.container
  have hself : o + 1 ≤ lo := (hk.sprout.range o .self).2
  have hentries := entries_insert_self k v hc hlt
  -- nothing that is put in leads to the container itself
  have hkept : ∀ x, (∀ p, h.Leads x p → o < p) → ∀ p, (h.insert o k v).2.Leads x p ↔ h.Leads x p :=
    fun x hx p => leads_iff_of_kept fun q hq => node_insert_of_ne k v (Nat.ne_of_gt (hx q hq))
  have hpart : ∀ x ∈ (h.node o).parts, ∀ p, h.Leads x p → o < p := fun x hx p hp =>
    ((hk.sprout.part hx).range p hp).1
  have halone : ∀ p, o < p → h.Sprout p (p + 1) n (some p) →
      (h.insert o k v).2.Sprout p (p + 1) n (some p) := fun p hp hs =>
    hs.of_kept fun q hq _ => node_insert_of_ne k v (Nat.ne_of_gt (hp.trans_le hq))
  have houter : ∀ p, h.Outer o lo n p → (h.insert o k v).2.Outer o hi n p := by
    intro p hp
    refine ⟨hp.above, hp.below.trans_le hle, halone p hp.above hp.sprout, fun x hx hl => ?_⟩
    rw [hentries] at hx
    rcases (Entries.mem_insert hx).2 with hxv | hx
    · rw [hxv, hkept v fun q hq => hself.trans (hv.range q hq).1] at hl
      exact absurd hp.below (not_lt.2 (hv.range p hl).1)
    · rw [hkept x.2 (hpart x.2 (snd_mem_parts hc hx))] at hl
      exact hp.apart x (mem_entries.2 ⟨c, hc, hx⟩) hl
  refine ⟨⟨_, node_insert_self k v hc hlt⟩, hk.sprout_insert hlt hkey hv hle, fun x hx p hp => ?_,
    fun id p hp => houter p (hk.bound id p hp)⟩
  rw [hentries] at hx
  rcases (Entries.mem_insert hx).1 with hxk | ⟨y, hy, hyx⟩
  · exact (houter p (hkey p (hxk ▸ hp))).sprout
  · have hyp : y.1 = some p := hyx.trans hp
    have hop := hpart y.1 (fst_mem_parts hc hy) p (hyp ▸ .self)
    exact halone p hop (hk.keys y (mem_entries.2 ⟨c, hc, hy⟩) p hyp)

end Heap

section
variable {s s' : ReadState} {c : ClassInfo} {ser : Serializer} {type : LeafType} {o p : ObjId}

/-- A number that was just given is bound to what is read then. -/
theorem Bindings.get_of_fresh {bs : Bindings} {id : Nat} {q : ObjId}
    (hq : ((bs.reserve.2.expect (some bs.reserve.1)).bind p).get id = .ok q) :
    q = p ∨ bs.get id = .ok q := by
  rw [get_eq_ok] at hq ⊢
  simp only [reserve, expect, bind, Array.getElem?_setIfInBounds, Array.getElem?_push] at hq
  split at hq
  · split at hq
    · exact Or.inl (by simpa using hq.symm)
    · cases hq
  · split at hq
    · cases hq
    · exact Or.inr hq

/-- **What is read where a leaf may be null** is null, a leaf that has a number or a new one,
    which may have a new number. -/
theorem Reading.nullableVia_leaf_eq_ok {v : Value}
    (hx : nullableVia (data e levels) c (.leaf type) s = .ok v s') :
    s'.heap = s.heap ∧ s'.bindings = s.bindings ∧
        (∀ p, v = some p → ∃ id, s.bindings.get id = .ok p) ∨
      ∃ n a, levels = n + 1 ∧ v = some s.heap.size ∧ s'.heap = (s.heap.alloc (.leaf a)).2 ∧
        ∀ id p, s'.bindings.get id = .ok p → p = s.heap.size ∨ s.bindings.get id = .ok p := by
  obtain ⟨m, s₁, h₁, hx⟩ := bind_eq_ok.1 hx
  obtain ⟨i, rfl⟩ := Reading.marker_eq_ok h₁
  cases m with
  | null =>
    cases hx
    exact Or.inl ⟨rfl, rfl, by simp⟩
  | back =>
    obtain ⟨q, s₂, h₂, hx⟩ := bind_eq_ok.1 hx
    cases hx
    obtain ⟨i', id, rfl, hget⟩ := Reading.earlier_eq_ok h₂
    refine Or.inl ⟨rfl, rfl, ?_⟩
    rintro _ ⟨⟩
    exact ⟨id, hget⟩
  | plain =>
    obtain ⟨q, s₂, h₂, hx⟩ := bind_eq_ok.1 hx
    cases hx
    obtain ⟨n, a, rfl, -, rfl, hh, hb⟩ := Reading.data_leaf_eq_ok h₂
    refine Or.inr ⟨n, a, rfl, rfl, hh, fun id p hp => Or.inr ?_⟩
    rwa [hb] at hp
  | fresh =>
    obtain ⟨q, s₂, h₂, hx⟩ := bind_eq_ok.1 hx
    cases hx
    obtain ⟨id, s₃, h₃, h₄⟩ := bind_eq_ok.1 h₂
    cases h₃
    obtain ⟨n, a, rfl, -, rfl, hh, hb⟩ := Reading.data_leaf_eq_ok h₄
    refine Or.inr ⟨n, a, rfl, rfl, hh, fun id p hp => Bindings.get_of_fresh ?_⟩
    rwa [hb] at hp

/-- A key that has a number, or is given one, stands alone above its container. -/
theorem Heap.Keyed.read {k : Value} (hk : s.heap.Keyed o s.heap.size n s.bindings)
    (hx : Reading.nullableVia (Reading.data e n) c (.leaf type) s = .ok k s') :
    s.heap.Extends s'.heap ∧ s'.heap.Keyed o s'.heap.size n s'.bindings ∧
      ∀ p, k = some p → s'.heap.Outer o s'.heap.size n p := by
  rcases Reading.nullableVia_leaf_eq_ok hx with ⟨hheap, hb, hnum⟩ | ⟨m, a, rfl, rfl, hheap, hnum⟩
  · rw [hheap, hb]
    refine ⟨.refl _, hk, fun p hp => ?_⟩
    obtain ⟨id, hget⟩ := hnum p hp
    exact hk.bound id p hget
  · obtain ⟨hext, hsprout⟩ := Heap.sprout_of_alloc (n := m) hheap
    have hlt : o < s.heap.size := (hk.sprout.range o .self).2
    have houter : s'.heap.Outer o s'.heap.size (m + 1) s.heap.size := by
      refine ⟨hlt, (hsprout.range _ .self).2, ?_, fun x hx' hl => ?_⟩
      · rw [hheap, Heap.size_alloc, ← hheap] at hsprout
        exact hsprout
      · rw [Heap.entries_congr (hext.node o hlt)] at hx'
        obtain ⟨ct, hct, hxc⟩ := Heap.mem_entries.1 hx'
        have hpart := hk.sprout.part (Heap.snd_mem_parts hct hxc)
        rw [Heap.leads_iff_of_kept fun q hq => hext.node q (hpart.range q hq).2] at hl
        exact Nat.lt_irrefl _ (hpart.range _ hl).2
    have hlater := hk.later le_rfl hext hext.size
    refine ⟨hext, { hlater with bound := fun id p hp => ?_ }, ?_⟩
    · rcases hnum id p hp with rfl | hp
      · exact houter
      · exact hlater.bound id p hp
    · rintro _ ⟨⟩
      exact houter

/-- A container grows by keys that may have numbers and values that may not. -/
theorem Heap.Keyed.sprout_of_entries {valueSlot : Slot} {keyType : Declared} (hs : sc.Orderly)
    (hvalue : Sprouts sc n (Reading.sideVia e (Reading.data e n) valueSlot)) (m : Nat)
    (hsc : s.scope = sc) (hk : s.heap.Keyed o s.heap.size n s.bindings)
    (hx : Reading.entriesVia e (Reading.data e n) ⟨some (c, .leaf type), true, .key⟩ valueSlot
      keyType o m s = .ok () s') : s'.heap.Sprout o s'.heap.size (n + 1) (some o) := by
  induction m generalizing s with
  | zero =>
    cases hx
    exact hk.sprout
  | succ m ih =>
    obtain ⟨k, s₁, x, s₂, h₁, h₂, hrest⟩ := Reading.entriesVia_succ_eq_ok hx
    have hsc₁ := Ends.scope_of_ok (.declaring hs (Reading.ends_sideVia
      (Reading.nestedEnds_data n (hs.pushed_deeper keyType)) _)) hsc h₁
    obtain ⟨r, hr, rfl⟩ := declaring_eq_ok.1 h₁
    obtain ⟨-, hk₁, hkey⟩ := Heap.Keyed.read (s := inScope (·.pushed keyType) s) hk hr
    obtain ⟨hext₂, hb₂, hv⟩ := hvalue _ x s₂ hsc₁ h₂
    have hsc₂ := Ends.scope_of_ok (.keeps hs (Reading.ends_sideVia
      (Reading.nestedEnds_data n hs.deeper) valueSlot)) hsc₁ h₂
    have hlt : o < r.heap.size := (hk₁.sprout.range o .self).2
    have hput := (hk₁.later le_rfl hext₂ le_rfl).insert (hlt.trans_le hext₂.size)
      (fun p hp => (hkey p hp).later hk₁.sprout le_rfl hext₂ le_rfl) hv hext₂.size
    refine ih (s := { s₂ with
      heap := (s₂.heap.insert o k x).2
      inserted := s₂.inserted + 1 }) hsc₂ ?_ hrest
    rw [Heap.size_insert, hb₂]
    exact hput

/-- **A container is a tree** where no marker is read but in front of its own keys. -/
theorem sprout_of_outermost (he : e.registry.Sound) (htr : e.config.trackRef = false)
    (hu : e.Unnumbered) (hs : s.scope.deeper.Orderly) (hno : ¬s.scope.deeper.Tells e.registry 1)
    (hv : (s.scope.deeper.pushed s.scope.deeper.keyType).deeper.Vague e.registry n)
    (hb : s.bindings = .empty) (hc : e.registry.Gives c ser)
    (hx : Reading.data e (n + 1) c ser none s = .ok p s') :
    s'.heap.Sprout s.heap.size s'.heap.size (n + 1) (some p) := by
  have hkey := nestedSprouts_data he htr hu n (hs.pushed_deeper _) hv
  have hvalue := nestedSprouts_data he htr hu n hs.deeper (hs.vague_deeper _ _)
  cases hc with
  | leaf =>
    obtain ⟨n, a, -, -, rfl, hh, -⟩ := Reading.data_leaf_eq_ok hx
    exact (Heap.sprout_of_alloc hh).2
  | map hreg hkt hvt hk hv' =>
    obtain ⟨_, i, m, ⟨keySlot, valueSlot, keyType⟩, s₁, -, rfl, -, hslots, h₁, hheap, -, -⟩ :=
      Reading.data_map_eq_ok hx
    obtain ⟨hks, hvs, -⟩ := resolveSlots_eq_ok.1 hslots
    obtain ⟨hbk, hbv⟩ := he.hasSide hreg (.map hreg hkt hvt hk hv')
    have hvalueSlot := (Slot.plain_or_leaf he hu hbv hvt hv' hvs).resolve_right fun ht => hno ht.1
    rcases Slot.plain_or_leaf he hu hbk hkt hk hks with hplain | ⟨-, c, type, rfl⟩
    · refine (sprouts_of_plain he htr hs hkey hvalue (fun slots hslots' => ?_) hx).2.2
      cases hslots.symm.trans hslots'
      exact ⟨hplain, hvalueSlot⟩
    · obtain ⟨hnode, hnew⟩ := s.heap.sprout_of_begin ‹_› n
      rw [hheap]
      refine Heap.Keyed.sprout_of_entries hs (hvalue.side he htr hvalueSlot) m rfl ?_ h₁
      refine ⟨⟨_, hnode⟩, hnew, fun x hx => ?_, fun id q hq => ?_⟩
      · rw [Heap.entries_of_node hnode] at hx
        simp at hx
      · rw [hb] at hq
        cases hq

/-- Where nothing has a number yet, a leaf that may be null is new. -/
theorem sprout_of_nullable_leaf {v : Value} (hb : s.bindings = .empty)
    (hx : Reading.nullableVia (Reading.data e n) c (.leaf type) s = .ok v s') :
    s'.heap.Sprout s.heap.size s'.heap.size n v := by
  rcases Reading.nullableVia_leaf_eq_ok hx with ⟨-, -, hnum⟩ | ⟨m, a, rfl, rfl, hheap, -⟩
  · cases v with
    | none => exact Heap.sprout_none
    | some p =>
      obtain ⟨id, hget⟩ := hnum p rfl
      rw [hb] at hget
      cases hget
  · exact (Heap.sprout_of_alloc hheap).2

end

/-! ## Streams -/

variable {h₀ h : Heap} {bs : Bytes} {v : Value} {ty : Declared}

/-- **What is read with the ids of all types is a tree.** -/
theorem Engine.sprout_of_deserialize (he : e.registry.Sound) (htr : e.config.trackRef = false)
    (hu : e.Unnumbered) (hx : e.deserialize h₀ bs = .ok (v, h)) :
    h.Sprout h₀.size h.size e.config.maxDepth v := by
  obtain ⟨i', hx⟩ := deserialize_eq_ok.1 hx
  obtain ⟨_, i, -, ⟨rfl, rfl, -⟩ | ⟨s, hany, rfl, -⟩⟩ := readStream_eq_ok hx
  · exact Heap.sprout_none
  · have hs := Scope.orderly_start
    have hn := nestedSprouts_data he htr hu e.config.maxDepth hs.deeper (hs.vague_deeper _ _)
    exact (hn.any he htr (.start i h₀) v s rfl hany).2.2

/-- **So is what is declared**, where no number is given to two objects. -/
theorem Engine.sprout_of_deserializeField (he : e.registry.Sound)
    (htr : e.config.trackRef = false) (hu : e.Unnumbered) (hd : e.Discreet ty)
    (hx : e.deserializeField h₀ ty bs = .ok (v, h)) :
    h.Sprout h₀.size h.size e.config.maxDepth v := by
  obtain ⟨i', hx⟩ := resultOf_eq_ok.1 hx
  obtain ⟨_, i, -, ⟨rfl, rfl, -⟩ | ⟨s, hdeclared, rfl, -⟩⟩ := readStream_eq_ok hx
  · exact Heap.sprout_none
  obtain ⟨s₁, h₁, rfl⟩ := declaring_eq_ok.1 hdeclared
  cases htype : ty.type?.filter e.registry.isFinal with
  | some type =>
    rw [htype] at h₁
    obtain ⟨c, s₂, h₂, h₁⟩ := bind_eq_ok.1 h₁
    obtain ⟨hc, rfl⟩ := attempt_eq_ok.1 h₂
    obtain ⟨ser, s₃, h₃, h₁⟩ := bind_eq_ok.1 h₁
    obtain ⟨hser, rfl⟩ := attempt_eq_ok.1 h₃
    obtain ⟨c', type', -, hser', -⟩ := he.gives_of_isFinal (Option.filter_eq_some_iff.1 htype).2
    cases hser.symm.trans hser'
    exact sprout_of_nullable_leaf rfl h₁
  | none =>
    rw [htype] at h₁
    obtain ⟨hno, hv⟩ := hd.resolve_left fun ⟨t, ht, hf⟩ => by simp [ht, hf] at htype
    obtain ⟨_, i₂, -, ⟨-, rfl, -⟩ | ⟨c, ser, p, -, hc, rfl, hp⟩⟩ := Reading.anyVia_eq_ok he h₁
    · exact Heap.sprout_none
    rw [Reading.objectVia_of_not_tracks _ (e.tracks_of_untracked htr c)] at hp
    have hs := Scope.orderly_start.pushed_deeper ty
    cases hn : e.config.maxDepth with
    | zero =>
      rw [hn] at hp
      cases hp
    | succ n =>
      rw [hn] at hp hv
      show s₁.heap.Sprout h₀.size s₁.heap.size (n + 1) (some p)
      exact sprout_of_outermost
        (s := { inScope (·.pushed ty) (ReadState.start i h₀) with input := i₂ })
        he htr hu hs hno hv rfl hc hp

end GraphWire
