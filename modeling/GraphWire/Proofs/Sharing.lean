/-
  What is shared without tracking.

  A stream can give one object twice where its number is taken, though no writer gave
  numbers.

  * `exists_shared_read`: a container that is bound to a class that may be null can be read
    twice with the same object;
  * `exists_shared_field`: so can a final type that is declared for values;
  * `Engine.tree_of_unnumbered`: what is read is a tree exactly where this cannot be.
-/
import GraphWire.Proofs.Breaches
import GraphWire.Proofs.Sprouting

namespace GraphWire

variable {e : Engine}

/-! ## Sides with classes -/

/-- A container that carries an object leads to it. -/
theorem Registry.Carries.exists_path {r : Registry} {b : SideBinding} {h : Heap} {o q : ObjId}
    (hq : r.Carries b (some q) h o) : ∃ i, h.Path (some o) [i] q := by
  obtain ⟨c, reg, hc, -, x, hx, hside⟩ := hq
  have hpart : some q ∈ (h.node o).parts :=
    (Heap.mem_parts_container hc).2 ⟨x, hx, hside.imp (·.2) (·.2)⟩
  obtain ⟨i, hi⟩ := List.getElem?_of_mem hpart
  exact ⟨i, .part hi .here⟩

/-- **An object is shared** where a class may be null on a side. -/
theorem exists_shared_read (he : e.Assembled) (hd : 3 ≤ e.config.maxDepth) (h₀ : Heap)
    (htr : e.config.trackRef = false) {b : SideBinding} (hb : e.registry.HasSide b)
    (hbt : b.type ≠ none) (hnull : b.nullable = true) :
    ∃ bs v h, e.deserialize h₀ bs = .ok (v, h) ∧ ¬h.Tree v := by
  obtain ⟨t, hbt⟩ := Option.ne_none_iff_exists'.1 hbt
  obtain ⟨bs, h, o, c, p, p', q, hdes, hc, hentries, hp, hp', -⟩ :=
    Engine.exists_common_read he hd h₀ htr hb hb hnull hnull hbt hbt
  obtain ⟨i, hi⟩ := hp.exists_path
  obtain ⟨j, hj⟩ := hp'.exists_path
  refine ⟨bs, some o, h, hdes, fun ht => ?_⟩
  have hkey : (h.node o).parts[0]? = some (some p) := by simp [hc, Node.parts, hentries]
  have hvalue : (h.node o).parts[1]? = some (some p') := by simp [hc, Node.parts, hentries]
  cases ht _ _ q (.part hkey hi) (.part hvalue hj)

/-! ## Declared sides -/

namespace Yields

variable {c : ClassInfo} {type : LeafType} {target : Option (ClassInfo × Serializer)}

/-- There are bytes for a leaf in any scope that leaves a level. -/
theorem leaf (e : Engine) (type : LeafType) :
    ∃ bs, ∀ {S P l c}, (∀ sc, S sc → sc.depth < e.config.maxDepth) → ∀ id,
      Yields e S bs (Reading.data e (l + 1) c (.leaf type) id) P fun o b h =>
        ∃ b₁ h₁ n, P b₁ h₁ ∧ o = h₁.size ∧ b = (b₁.expect id).bind o ∧ h = (h₁.alloc n).2 := by
  obtain ⟨a, rfl, ha⟩ := exists_leaf_of_type type
  refine ⟨a.toItem.encode e.config.native, fun hS id s hs hp => ?_⟩
  exact ⟨_, _, Reading.data_leaf a ha id hs (hS _ hs.scope), s.passes_added _ _ _, _, _, _, hp, rfl,
    rfl, rfl⟩

/-- The first number is given to a leaf that may be null. -/
theorem numbered_leaf (e : Engine) (type : LeafType) :
    ∃ bs, ∀ {S l c side}, (∀ sc, S sc → sc.depth < e.config.maxDepth) →
      Yields e S bs (Reading.sideVia e (Reading.data e (l + 1)) ⟨some (c, .leaf type), true, side⟩)
        (fun b _ => b.bound = #[]) fun v b _ => ∃ q, v = some q ∧ b.get 0 = .ok q := by
  obtain ⟨bs, hleaf⟩ := leaf e type
  refine ⟨[Marker.fresh.byte] ++ bs, fun {S l c side} hS => ?_⟩
  have hnew : Yields e S bs (Reading.data e (l + 1) c (.leaf type) (some 0))
      (fun b _ => b.bound = #[none]) fun o b _ => b.get 0 = .ok o := by
    refine (hleaf hS (some 0)).imp (fun _ _ hb => hb) ?_
    rintro _ _ _ ⟨b, h, n, hb, rfl, rfl, rfl⟩
    simp [Bindings.get_eq_ok, Bindings.expect, Bindings.bind, hb]
  show Yields e S _ (Reading.nullableVia (Reading.data e (l + 1)) c (.leaf type)) _ _
  exact take (Reading.takes_marker .fresh) ((fresh hnew).map fun o b h ho => ⟨o, rfl, ho⟩)

/-- There are bytes for a new object, without a number, on a side that may be null. -/
theorem plain (he : e.registry.Sound) (htr : e.config.trackRef = false)
    (hc : e.registry.Gives c (.leaf type))
    (ht : target = none ∨ ∃ c type, target = some (c, .leaf type)) :
    ∃ bs, ∀ {S l side} {P : Bindings → Prop}, (∀ sc, S sc → sc.depth < e.config.maxDepth) →
      Yields e S bs (Reading.sideVia e (Reading.data e (l + 1)) ⟨target, true, side⟩)
        (fun b _ => P b) fun v b _ => (∃ p, v = some p) ∧ P b := by
  rcases ht with rfl | ⟨c, type, rfl⟩
  · obtain ⟨bs, hleaf⟩ := leaf e type
    refine ⟨countBytes e.config.native (c.id + 1) ++ bs, fun {S l side P} hS => ?_⟩
    refine (any_of_untracked he hc htr (hleaf hS none)).imp (fun _ _ hp => hp) ?_
    rintro _ _ _ ⟨o, rfl, b, h, n, hb, -, rfl, -⟩
    exact ⟨⟨o, rfl⟩, hb⟩
  · obtain ⟨bs, hleaf⟩ := leaf e type
    refine ⟨[Marker.plain.byte] ++ bs, fun {S l side P} hS => ?_⟩
    show Yields e S _ (Reading.nullableVia (Reading.data e (l + 1)) c (.leaf type)) _ _
    refine take (Reading.takes_marker .plain) ((hleaf hS none).map ?_)
    rintro _ _ _ ⟨b, h, n, hb, rfl, rfl, rfl⟩
    exact ⟨⟨_, rfl⟩, hb⟩

/-- There are bytes for null there. -/
theorem absent (e : Engine) (ht : target = none ∨ ∃ c type, target = some (c, .leaf type)) :
    ∃ bs, ∀ {S nested side P}, Yields e S bs (Reading.sideVia e nested ⟨target, true, side⟩) P
      fun v b h => v = none ∧ P b h := by
  rcases ht with rfl | ⟨c, type, rfl⟩
  · exact ⟨_, null⟩
  · exact ⟨_, null_of_nullable⟩

end Yields

/-- A key that is not null is put behind null. -/
theorem Heap.entries_insert_behind_null {h : Heap} {o p : ObjId} {c : Container} {x y : Value}
    (hc : h.node o = .container c) (ho : o < h.size) (hentries : c.entries = [(none, x)]) :
    (h.insert o (some p) y).2.entries o = [(none, x), (some p, y)] := by
  have hkey : h.sameKey (some o) (some p) none = false := by simp [sameKey, equal_none_right]
  rw [entries_insert_self (some p) y hc ho, hentries]
  simp [Entries.insert, hkey]

/-- Two entries that share their value. -/
theorem exists_shared_entries (he : e.registry.Sound) (htr : e.config.trackRef = false)
    {key : Option (ClassInfo × Serializer)} {c : ClassInfo} {type : LeafType}
    (hkey : key = none ∨ ∃ c type, key = some (c, .leaf type))
    (hc : e.registry.Gives c (.leaf type)) (keyType : Declared) :
    ∃ bs, ∀ {l s o ct}, s.Faces e (fun sc => sc.depth < e.config.maxDepth) bs →
      s.bindings.bound = #[] → o < s.heap.size → s.heap.node o = .container ct → ct.entries = [] →
      ∃ p q s', Reading.entriesVia e (Reading.data e (l + 1)) ⟨key, true, .key⟩
          ⟨some (c, .leaf type), true, .value⟩ keyType o 2 s = .ok () s' ∧
        s'.bindings.pending = s.bindings.pending ∧
        s'.heap.entries o = [(none, some q), (some p, some q)] := by
  let S : Scope → Prop := fun sc => sc.depth < e.config.maxDepth
  have hS : ∀ sc, S sc → S (sc.pushed keyType) := fun _ h => h
  -- one from null to a new leaf, and one from something else to that leaf again
  obtain ⟨as, hnull⟩ := Yields.absent e hkey
  obtain ⟨bs, hfresh⟩ := Yields.numbered_leaf e type
  obtain ⟨cs, hnew⟩ := Yields.plain he htr hc hkey
  refine ⟨(as ++ bs) ++ (cs ++ ([Marker.back.byte] ++ countBytes e.config.native 0)), ?_⟩
  intro l s o ct hs hb ho hct hempty
  have hfirst : ∀ k : Value, Yields e S bs (Reading.sideVia e (Reading.data e (l + 1))
      ⟨some (c, .leaf type), true, .value⟩) (fun b _ => k = none ∧ b.bound = #[])
      fun v b _ => k = none ∧ ∃ q, v = some q ∧ b.get 0 = .ok q := fun k =>
    ((hfresh fun _ => id).framed (F := fun _ => k = none) fun _ _ _ => id).imp
      (fun _ _ => And.symm) fun _ _ _ => And.symm
  obtain ⟨_, _, s₁, hpass₁, ⟨rfl, q, rfl, hq⟩, hx₁⟩ :=
    Yields.entry (o := o) hnull hS hfirst hs.left hb 1
  let s₂ : ReadState := { s₁ with
    heap := (s₁.heap.insert o none (some q)).2
    inserted := s₁.inserted + 1 }
  have hs₁ := hs.right hpass₁
  have hsecond : ∀ k : Value, Yields e S ([Marker.back.byte] ++ countBytes e.config.native 0)
      (Reading.sideVia e (Reading.data e (l + 1)) ⟨some (c, .leaf type), true, .value⟩)
      (fun b _ => (∃ p, k = some p) ∧ b.get 0 = .ok q)
      fun v _ _ => (∃ p, k = some p) ∧ v = some q := by
    intro k
    refine (Yields.back (Or.inl rfl) fun b h hp => ⟨q, hp.2⟩).imp (fun _ _ hp => hp) ?_
    rintro _ b h ⟨⟨p, rfl, hp⟩, hk, hq⟩
    cases hp.symm.trans hq
    exact ⟨hk, rfl⟩
  obtain ⟨_, _, s₃, hpass₃, ⟨⟨p, rfl⟩, rfl⟩, hx₃⟩ :=
    Yields.entry (o := o) (hnew fun _ => id) hS hsecond
      (s := s₂) ⟨hs₁.source, hs₁.layout, hs₁.ahead, hs₁.scope⟩ hq 0
  have ho₁ : o < s₁.heap.size := ho.trans_le hpass₁.size
  have hct₁ := (hpass₁.node o ho).trans hct
  have hct₂ : s₂.heap.node o =
      .container (ct.insert (s₁.heap.sameKey (some o) none) none (some q)).2 :=
    Heap.node_insert_self none (some q) hct₁ ho₁
  have ho₂ : o < s₂.heap.size := by
    show o < (s₁.heap.insert o none (some q)).2.size
    rwa [Heap.size_insert]
  refine ⟨p, q, _, hx₁.trans hx₃, hpass₃.pending.trans hpass₁.pending, ?_⟩
  refine Heap.entries_insert_behind_null ((hpass₃.node o ho₂).trans hct₂)
    (ho₂.trans_le hpass₃.size) ?_
  rw [Container.entries_insert, hempty]
  rfl

/-- The state in which the entries of a declared container are read, past its type and its
    count. -/
def ReadState.opened (e : Engine) (h₀ : Heap) (ty : Declared) (type : ContainerType)
    (as count bs : Bytes) : ReadState :=
  let s := inScope (·.pushed ty) (ReadState.start (e.past (as ++ (count ++ bs))) h₀)
  inScope Scope.deeper ({ s with input := s.input.advance as.length }.added
    (.container (.empty type)) none count)

@[simp] theorem ReadState.heap_opened (e : Engine) (h₀ : Heap) (ty : Declared)
    (type : ContainerType) (as count bs : Bytes) :
    (opened e h₀ ty type as count bs).heap = (h₀.alloc (.container (.empty type))).2 := rfl

theorem ReadState.faces_opened (hd : 2 ≤ e.config.maxDepth) (h₀ : Heap) (ty : Declared)
    (type : ContainerType) (as count bs : Bytes) :
    (opened e h₀ ty type as count bs).Faces e (fun sc => sc.depth < e.config.maxDepth) bs where
  source := rfl
  layout := rfl
  ahead := Input.prefix_advance (Input.prefix_advance (List.prefix_refl (as ++ (count ++ bs))))
  scope := hd

/-- **A declared container is read** if its entries are. -/
theorem Engine.deserializeField_of_entries (he : e.registry.Sound)
    (htr : e.config.trackRef = false) {l n : Nat} (hl : e.config.maxDepth = l + 1) (h₀ : Heap)
    {ty : Declared} (hty : ty.type?.filter e.registry.isFinal = none) {c : ClassInfo}
    {key value : SideSetup Serializer} (hc : e.registry.Gives c (.map key value none))
    {type : ContainerType} (hct : c.containerType none = .ok type) {keySlot valueSlot : Slot}
    {keyType : Declared} (hslots : resolveSlots e.registry (Scope.start.pushed ty).deeper.frames
      (Scope.start.pushed ty).deeper.args key value = .ok (keySlot, valueSlot, keyType))
    (hn : n < 2 ^ 32) {bs : Bytes} {s : ReadState}
    (hx : Reading.entriesVia e (Reading.data e l) keySlot valueSlot keyType h₀.size n
      (.opened e h₀ ty type (countBytes e.config.native (c.id + 1)) (countBytes e.config.native n)
        bs) = .ok () s) (hp : s.bindings.pending = []) :
    e.deserializeField h₀ ty ([e.headerByte false] ++ (countBytes e.config.native (c.id + 1) ++
      (countBytes e.config.native n ++ bs))) = .ok (some h₀.size, s.heap) := by
  let S : Scope → Prop := fun sc => sc.depth < e.config.maxDepth
  let as := countBytes e.config.native (c.id + 1)
  let cs := as ++ (countBytes e.config.native n ++ bs)
  let s₀ := inScope (·.pushed ty) (ReadState.start (e.past cs) h₀)
  let s₁ : ReadState := { s₀ with input := s₀.input.advance as.length }
  have hpos : 0 < e.config.maxDepth := hl ▸ Nat.succ_pos l
  have hstart : (ReadState.start (e.past cs) h₀).Faces e S cs := ReadState.faces_start h₀ _ hpos
  have hs₀ : s₀.Faces e S cs := ⟨hstart.source, hstart.layout, hstart.ahead, hstart.scope⟩
  have hs₁ : s₁.Faces e S (countBytes e.config.native n ++ bs) :=
    hs₀.right ⟨rfl, rfl, rfl, le_rfl, fun _ _ => rfl⟩
  have hdata := Reading.data_map_of_entries hct hn none hs₁.left hs₁.scope hslots hx hp
  rw [← Reading.objectVia_of_not_tracks (Reading.data e (l + 1)) (e.tracks_of_untracked htr c)]
    at hdata
  have hany := (Reading.anyVia_eq_object he hc _ hs₀.left).trans (map_of_ok hdata)
  obtain ⟨s', hdeclared, hheap⟩ : ∃ s', Reading.declared e ty (.start (e.past cs) h₀) =
      .ok (some h₀.size) s' ∧ s'.heap = s.heap := by
    refine ⟨_, declaring_eq_ok.2 ⟨inScope Scope.shallower (inScope Scope.popped s), ?_, rfl⟩, rfl⟩
    rw [hty]
    show Reading.anyVia e (Reading.data e e.config.maxDepth) s₀ = _
    rw [hl]
    exact hany
  rw [← hheap]
  exact resultOf_eq_ok.2 ⟨_, readStream_of_ok hdeclared⟩

/-- **An object is shared** where a final type is declared for values. -/
theorem exists_shared_field (he : e.Assembled) (hd : 2 ≤ e.config.maxDepth) (h₀ : Heap)
    (htr : e.config.trackRef = false) {ty : Declared}
    (hty : ty.type?.filter e.registry.isFinal = none)
    (ht : (Scope.start.pushed ty).deeper.Tells e.registry 1) :
    ∃ bs v h, e.deserializeField h₀ ty bs = .ok (v, h) ∧ ¬h.Tree v := by
  obtain ⟨l, hl⟩ := Nat.exists_eq_add_of_le' hd
  have hs := he.sound
  let sc := (Scope.start.pushed ty).deeper
  obtain ⟨key, hkey, hkeys⟩ := Slot.resolve_unbound hs {} sc.frames sc.args[0]? .key
  obtain ⟨value, hvalue, hvalues⟩ := Slot.resolve_unbound hs {} sc.frames sc.args[1]? .value
  obtain ⟨-, c, type, rfl, hc⟩ := hvalues.resolve_left fun h => h.2 ht
  have hroot := he.gives_linked
  obtain ⟨bs, hentries⟩ := exists_shared_entries hs htr
    (hkeys.imp (·.1) fun ⟨_, c, type, h, _⟩ => ⟨c, type, h⟩) hc sc.keyType
  let s₀ := ReadState.opened e h₀ ty .linked
    (countBytes e.config.native ((Registration.ofContainer .linked 10).id + 1))
    (countBytes e.config.native 2) bs
  have hs₀ : s₀.Faces e (fun sc => sc.depth < e.config.maxDepth) bs :=
    ReadState.faces_opened hd ..
  have hnode : s₀.heap.node h₀.size = .container (.empty .linked) := h₀.node_alloc_new _
  obtain ⟨p, q, s, hx, hp, hshared⟩ :=
    hentries (l := l) hs₀ rfl (by simp [s₀]) hnode (Container.entries_empty _)
  have hslots : resolveSlots e.registry sc.frames sc.args (SideBinding.setup {} none)
      (SideBinding.setup {} none) =
        .ok (⟨key, true, .key⟩, ⟨some (c, .leaf type), true, .value⟩, sc.keyType) :=
    resolveSlots_eq_ok.2 ⟨hkey, hvalue, rfl⟩
  have hfield := Engine.deserializeField_of_entries hs htr hl h₀ hty hroot
    (hs.containerType_eq_ok hroot rfl) hslots (by decide) hx hp
  refine ⟨_, _, s.heap, hfield, fun htree => ?_⟩
  obtain ⟨ct, hct, -⟩ : ∃ c, s.heap.node h₀.size = .container c ∧ (none, some q) ∈ c.entries :=
    Heap.mem_entries.1 (by simp [hshared])
  have hparts : (s.heap.node h₀.size).parts = [none, some q, some p, some q] := by
    rw [Heap.entries_of_node hct] at hshared
    simp [hct, Node.parts, hshared]
  cases htree [1] [3] q (.part (by rw [hparts]; rfl) .here) (.part (by rw [hparts]; rfl) .here)

/-! ## All engines -/

namespace Engine

/-- **What is read without tracking is a tree, no higher than the limit, where no class may
    be null on a side** and no final type is declared for values; it need not be where one
    is. -/
theorem tree_of_unnumbered (he : e.Assembled) (htr : e.config.trackRef = false) :
    (e.Unnumbered → ∀ h₀ bs v h, (e.deserialize h₀ bs = .ok (v, h) ∨
      ∃ ty, e.Discreet ty ∧ e.deserializeField h₀ ty bs = .ok (v, h)) →
        h.Tree v ∧ h.HeightLe e.config.maxDepth v) ∧
    (3 ≤ e.config.maxDepth → (∀ h₀ bs v h, e.deserialize h₀ bs = .ok (v, h) → h.Tree v) →
      e.Unnumbered) ∧
    (2 ≤ e.config.maxDepth → ∀ ty : Declared, ty.type?.filter e.registry.isFinal = none →
      (∀ h₀ bs v h, e.deserializeField h₀ ty bs = .ok (v, h) → h.Tree v) →
      ¬(Scope.start.pushed ty).deeper.Tells e.registry 1) := by
  refine ⟨fun hu h₀ bs v h hx => ?_, fun hd hall b hb hbt => ?_, fun hd ty hty hall ht => ?_⟩
  · have hsprout : h.Sprout h₀.size h.size e.config.maxDepth v := by
      rcases hx with hx | ⟨ty, hty, hx⟩
      · exact sprout_of_deserialize he.sound htr hu hx
      · exact sprout_of_deserializeField he.sound htr hu hty hx
    exact ⟨hsprout.tree, hsprout.height⟩
  · by_contra hnull
    obtain ⟨bs, v, h, hx, hn⟩ :=
      exists_shared_read he hd .empty htr hb hbt (Bool.eq_true_of_not_eq_false hnull)
    exact hn (hall _ _ _ _ hx)
  · obtain ⟨bs, v, h, hx, hn⟩ := exists_shared_field he hd .empty htr hty ht
    exact hn (hall _ _ _ _ hx)

/-- It is enough to look at all that is registered. -/
theorem unnumbered_of_sides
    (hs : ∀ b ∈ e.registry.sides, b.type ≠ none → b.nullable = false) : e.Unnumbered :=
  fun b hb => hs b hb.mem_sides

/-- Nothing is declared for the entries of keys that have no arguments. -/
theorem discreet_of_keys {ty : Declared} (hno : ¬(Scope.start.pushed ty).deeper.Tells e.registry 1)
    (hkey : (Scope.start.pushed ty).deeper.keyType.args = []) : e.Discreet ty := by
  refine Or.inr ⟨hno, ?_⟩
  rw [Scope.pushed_of_args_eq_nil hkey]
  exact (Scope.orderly_start.pushed_deeper ty).vague_deeper _ _

/-- An engine with a type of containers whose values are containers or null. -/
def hashValues : Engine :=
  { registry := Registry.builtins.insert
      (.ofBinding (.named 0) 40 { value := { type := some (.container .hash) } }) }

theorem assembled_hashValues : hashValues.Assembled :=
  .registerMapWith (.start {}) (by decide) ⟨rfl, rfl⟩ (rfl : ({} : Engine).registerMapWith 40
    (.named 0) { value := { type := some (.container .hash) } } = .ok hashValues)

/-- A container of that type with one value twice. -/
def sharedHash : Heap :=
  let h := (Heap.empty.alloc (.container (.empty (.named 0)))).2
  let h := (h.alloc (.leaf (.i32 1))).2
  let h := ((h.alloc (.container (.empty .hash))).2.insert 0 (some 1) (some 2)).2
  ((h.alloc (.leaf (.i32 2))).2.insert 0 (some 3) (some 2)).2

/-- **One object is read as two values**, though nothing is tracked. -/
theorem shared_read_of_hashValues :
    hashValues.Assembled ∧ hashValues.config.trackRef = false ∧
      hashValues.deserialize .empty [2, 41, 2, 5, 2, 0, 0, 5, 4, 254, 0] =
        .ok (some 0, sharedHash) ∧ ¬sharedHash.Tree (some 0) := by
  refine ⟨assembled_hashValues, rfl, by decide +kernel, fun ht => ?_⟩
  have hparts : (sharedHash.node 0).parts = [some 1, some 2, some 3, some 2] := by decide +kernel
  cases ht [1] [3] 2 (.part (by rw [hparts]; rfl) .here) (.part (by rw [hparts]; rfl) .here)

/-- What is declared for a container whose keys are numbers. -/
def numbersFirst : Declared := .concrete (.container .linked) [.concrete (.leaf .i32) [], .unknown]

/-- What is declared for a container whose values are numbers. -/
def numbersSecond : Declared := .concrete (.container .linked) [.unknown, .concrete (.leaf .i32) []]

/-- The number of a key is given to a second key, which is the same then. -/
theorem tree_of_unnumbered_numberKeys :
    (∃ v h, numberKeys.deserializeField .empty numbersFirst [2, 11, 2, 0, 14, 0, 254, 0, 5, 14] =
      .ok (v, h) ∧ h.Tree v ∧ h.HeightLe 128 v) ∧
    (¬∀ h₀ bs v h, hashValues.deserialize h₀ bs = .ok (v, h) → h.Tree v) ∧
    ¬∀ h₀ bs v h, numberKeys.deserializeField h₀ numbersSecond bs = .ok (v, h) → h.Tree v := by
  refine ⟨?_, fun hall => ?_, fun hall => ?_⟩
  · have hx : numberKeys.deserializeField .empty numbersFirst
        [2, 11, 2, 0, 14, 0, 254, 0, 5, 14] = .ok (some 0,
          ((((Heap.empty.alloc (.container (.empty .linked))).2.alloc (.leaf (.i32 7))).2.alloc
            (.leaf (.i32 7))).2.insert 0 (some 1) (some 2)).2) := by decide +kernel
    have hd : numberKeys.Discreet numbersFirst := by
      refine discreet_of_keys ?_ rfl
      rintro ⟨d, t, hd, ht, -⟩
      cases hd
      cases ht
    have hu : numberKeys.Unnumbered := unnumbered_of_sides (by decide)
    exact ⟨_, _, hx, (tree_of_unnumbered assembled_numberKeys rfl).1 hu _ _ _ _
      (Or.inr ⟨numbersFirst, hd, hx⟩)⟩
  · have hhash := @Registry.Gives.map hashValues.registry .hash _ none none rfl rfl rfl
      (by simp) (by simp)
    have hgives := @Registry.Gives.map hashValues.registry (.named 0) _ none (some (_, _)) rfl rfl
      rfl (by simp) (by rintro _ _ ⟨⟩; exact hhash)
    have hside : hashValues.registry.HasSide { type := some (.container .hash) } :=
      ⟨.named 0, _, _, rfl, assembled_hashValues.sound.serializer_eq_ok hgives, Or.inr rfl⟩
    cases (tree_of_unnumbered assembled_hashValues rfl).2.1 (by decide) hall _ hside (by simp)
  · exact (tree_of_unnumbered assembled_numberKeys rfl).2.2 (by decide) numbersSecond (by decide)
      hall ⟨.concrete (.leaf .i32) [], .leaf .i32, rfl, rfl, rfl⟩

end Engine

end GraphWire
