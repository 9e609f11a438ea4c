/-
  Copying rebuilds.

  What is copied is rebuilt next to what is there: containers that are met again
  are their copies, and leaves are their own (`Engine.rebuilds_of_copy`).
-/
import GraphWire.Engine.Operations
import GraphWire.Proofs.Rebuilding
import GraphWire.Proofs.Resolution

namespace GraphWire

/-- Whether a value leads to objects that there are. -/
def Heap.Closed (h : Heap) (v : Value) : Prop := ∀ o, h.Leads v o → o < h.size

theorem Heap.Closed.part {h : Heap} {o : ObjId} {x : Value} (ho : h.Closed (some o))
    (hx : x ∈ (h.node o).parts) : h.Closed x :=
  fun p hp => ho p (.part hx hp)

theorem Heap.closed_of_parts {h : Heap} {v : Value}
    (hp : ∀ o < h.size, ∀ x ∈ (h.node o).parts, x.getD 0 < h.size) (hv : v.getD 0 < h.size) :
    h.Closed v := by
  intro o ho
  induction ho with
  | self => exact hv
  | part hx _ ih => exact ih (hp _ hv _ hx)

/-- How a copy is made. -/
def Manner.copying : Manner := ⟨true, false⟩

/-- Whether copying has come as far as a draft, where what was there is as it was. -/
structure Copied (h : Heap) (s : CopyState) (d : Draft) : Prop where
  heap : s.heap = d.heap
  found : ∀ o p, s.copies.get? o = some p →
    (p = o ∧ ∃ a, h.node o = .leaf a) ∨ d.images.lookup o = some p
  missing : ∀ o, s.copies.get? o = none → d.images.lookup o = none
  fresh : ∀ o p, (o, p) ∈ d.images → h.size ≤ p
  size : h.size ≤ d.heap.size
  node : ∀ o, o < h.size → d.heap.node o = h.node o

/-- Whether what a computation copies is rebuilt, and nothing is left pending. -/
def Redoes {α : Type} (h : Heap) (t : Task) (x : Copying α) (image : α → Value) : Prop :=
  ∀ s d a s', Copied h s d → d.Valid .copying h → t.Ready .copying d → x s = .ok a s' →
    ∃ d', Rebuilds .copying h t d (image a) d' ∧ Copied h s' d' ∧
      s'.copies.pending = s.copies.pending

/-- Whether objects of the registered types are copied as they are rebuilt. -/
def RedoesNested (e : Engine) (h : Heap) (nested : ObjId → Serializer → Copying ObjId) : Prop :=
  ∀ o c ser, e.registry.Gives c ser → c.type = h.typeOf o → h.Closed (some o) →
    Redoes h (.object o) (nested o ser) some

variable {e : Engine} {h : Heap} {nested : ObjId → Serializer → Copying ObjId}
  {s s' : CopyState} {d : Draft} {o p : ObjId} {v w : Value}

theorem copied_start (h : Heap) : Copied h (.start h) (.start h) where
  heap := rfl
  found o p hp := by cases hp
  missing o _ := rfl
  fresh o p hp := by cases hp
  size := le_rfl
  node _ _ := rfl

/-! ## Steps -/

namespace Copied

/-- Neither the scope nor what is pending matters. -/
theorem congr (hc : Copied h s d) (hh : s'.heap = s.heap)
    (hp : s'.copies.pairs = s.copies.pairs) : Copied h s' d where
  heap := hh.trans hc.heap
  found o p ho := hc.found o p (by rwa [Copies.get?, ← hp])
  missing o ho := hc.missing o (by rwa [Copies.get?, ← hp])
  fresh := hc.fresh
  size := hc.size
  node := hc.node

/-- A leaf is bound to itself. -/
theorem keepLeaf (hc : Copied h s d) {a : Leaf} (ha : h.node o = .leaf a)
    (hp : s'.copies.pairs = (o, o) :: s.copies.pairs) (hh : s'.heap = s.heap)
    (hm : d.images.lookup o = none) : Copied h s' (d.keepLeaf o) := by
  have hget : ∀ q, s'.copies.get? q = if q == o then some o else s.copies.get? q := by
    intro q
    rw [Copies.get?, hp, List.lookup_cons]
    cases q == o <;> rfl
  refine ⟨hh.trans hc.heap, fun q p hq => ?_, fun q hq => ?_, hc.fresh, hc.size, hc.node⟩
  · rw [hget] at hq
    by_cases hqo : q = o
    · subst hqo
      simp only [beq_self_eq_true, if_true, Option.some.injEq] at hq
      exact Or.inl ⟨hq.symm, a, ha⟩
    · simp only [beq_iff_eq, hqo, if_false] at hq
      exact hc.found q p hq
  · rw [hget] at hq
    by_cases hqo : q = o
    · subst hqo
      exact hm
    · simp only [beq_iff_eq, hqo, if_false] at hq
      exact hc.missing q hq

/-- A container is bound to a new one. -/
theorem begin (hc : Copied h s d) (type : ContainerType)
    (hp : s'.copies.pairs = (o, d.heap.size) :: s.copies.pairs)
    (hh : s'.heap = (s.heap.alloc (.container (.empty type))).2)
    (hm : d.images.lookup o = none) : Copied h s' (d.begin o type) := by
  have hget : ∀ q, s'.copies.get? q = if q == o then some d.heap.size else s.copies.get? q := by
    intro q
    rw [Copies.get?, hp, List.lookup_cons]
    cases q == o <;> rfl
  have hlook : ∀ q, (d.begin o type).images.lookup q =
      (d.images.lookup q).or (if q == o then some d.heap.size else none) := by
    intro q
    rw [Draft.begin, List.lookup_append, List.lookup_cons]
    cases q == o <;> rfl
  constructor
  · rw [hh, hc.heap]
    rfl
  · intro q p hq
    rw [hget] at hq
    rw [hlook]
    by_cases hqo : q = o
    · subst hqo
      simp only [beq_self_eq_true, if_true] at hq
      exact Or.inr (by simp [hm, hq])
    · simp only [beq_iff_eq, hqo, if_false] at hq
      exact (hc.found q p hq).imp_right fun hq => by simp [hq]
  · intro q hq
    rw [hget] at hq
    by_cases hqo : q = o
    · subst hqo
      simp at hq
    · simp only [beq_iff_eq, hqo, if_false] at hq
      simp [hlook, hqo, hc.missing q hq]
  · intro q p hq
    rcases List.mem_append.1 hq with hq | hq
    · exact hc.fresh q p hq
    · cases List.mem_singleton.1 hq
      exact hc.size
  · exact hc.size.trans (by simp)
  · intro q hq
    rw [Draft.node_begin type (hq.trans_le hc.size), hc.node q hq]

/-- An entry is put into a copy. -/
theorem put (hc : Copied h s d) (hp : p ∈ d.images.map Prod.snd) (k x : Value)
    (hh : s'.heap = (s.heap.insert p k x).2) (hpairs : s'.copies.pairs = s.copies.pairs) :
    Copied h s' (d.put p k x) := by
  obtain ⟨⟨o, p⟩, hm, rfl⟩ := List.mem_map.1 hp
  have hc' : Copied h { s' with heap := s.heap } d := hc.congr rfl hpairs
  refine ⟨?_, hc'.found, hc'.missing, hc.fresh, by simpa using hc.size, fun q hq => ?_⟩
  · rw [hh, hc.heap]
    rfl
  · rw [Draft.node_put k x (hq.trans_le (hc.fresh o p hm)).ne, hc.node q hq]

end Copied

/-! ## One level -/

/-- **An object is copied, or its copy is found, as it is rebuilt.** -/
theorem RedoesNested.object (hn : RedoesNested e h nested) (he : e.registry.Sound)
    (hcl : h.Closed (some o)) :
    Redoes h (.value (some o)) (Copying.objectVia e nested o) some := by
  intro s d p s' hc hd _ hx
  unfold Copying.objectVia at hx
  rw [get_bind] at hx
  cases hget : s.copies.get? o with
  | some q =>
    rw [hget] at hx
    cases hx
    rcases hc.found o p hget with ⟨rfl, a, ha⟩ | hl
    · -- a leaf that is met again is rebuilt once more, as itself
      have hm : d.met .copying p = none := by
        refine lookup_eq_none_of_forall fun i hi he => ?_
        obtain ⟨c, -, hco, -⟩ := hd.images_type i.1 i.2 hi
        rw [he, ha] at hco
        cases hco
      have hlt := hcl p .self
      refine ⟨d.keepLeaf p, .unmet hm (.sameLeaf rfl ha (hlt.trans_le hc.size) ?_), ?_, rfl⟩
      · rw [hc.node p hlt, ha]
      · exact ⟨hc.heap, hc.found, hc.missing, hc.fresh, hc.size, hc.node⟩
    · exact ⟨d, .met hl, hc, rfl⟩
  | none =>
    rw [hget] at hx
    simp only [get_bind] at hx
    obtain ⟨c, s₁, h₁, hx⟩ := bind_eq_ok.1 hx
    obtain ⟨hcls, rfl⟩ := attempt_eq_ok.1 h₁
    obtain ⟨ser, s₁, h₁, hx⟩ := bind_eq_ok.1 hx
    obtain ⟨hser, rfl⟩ := attempt_eq_ok.1 h₁
    obtain ⟨htype, hg, -, -⟩ := he.gives_of_object hcls hser
    have hm : d.met .copying o = none := hc.missing o hget
    have htype' : c.type = h.typeOf o := by
      rw [htype, Heap.typeOf, Heap.typeOf, hc.heap, hc.node o (hcl o .self)]
    obtain ⟨d', hr, hc', hp⟩ := hn o c ser hg htype' hcl s d p s' hc hd hm hx
    exact ⟨d', .unmet hm hr, hc', hp⟩

theorem RedoesNested.value (hn : RedoesNested e h nested) (he : e.registry.Sound)
    (hcl : h.Closed v) : Redoes h (.value v) (Copying.valueVia e nested v) id := by
  intro s d w s' hc hd ht hx
  cases v with
  | none =>
    cases hx
    exact ⟨d, .null, hc, rfl⟩
  | some o =>
    obtain ⟨p, ho, rfl⟩ := map_eq_ok.1 hx
    exact hn.object he hcl s d p s' hc hd ht ho

/-- **Entries are copied as they are rebuilt, one by one.** -/
theorem RedoesNested.entries (hn : RedoesNested e h nested) (he : e.registry.Sound)
    (l : List Entry) (hcl : ∀ x ∈ l, h.Closed x.1 ∧ h.Closed x.2) :
    Redoes h (.entries p l) (Copying.entriesVia e nested p l) fun _ => none := by
  induction l with
  | nil =>
    intro s d _ s' hc hd ht hx
    cases hx
    exact ⟨d, .nil, hc, rfl⟩
  | cons x l ih =>
    obtain ⟨k, x⟩ := x
    intro s d _ s' hc hd ht hx
    obtain ⟨hk, hv⟩ := hcl (k, x) List.mem_cons_self
    obtain ⟨k', s₁, h₁, hx⟩ := bind_eq_ok.1 hx
    obtain ⟨x', s₂, h₂, hx⟩ := bind_eq_ok.1 hx
    obtain ⟨_, s₃, h₃, hl⟩ := bind_eq_ok.1 hx
    cases h₃
    obtain ⟨d₁, hr₁, hc₁, hp₁⟩ := hn.value he hk s d k' s₁ hc hd trivial h₁
    have hd₁ := hr₁.valid hd trivial
    obtain ⟨d₂, hr₂, hc₂, hp₂⟩ := hn.value he hv s₁ d₁ x' s₂ hc₁ hd₁ trivial h₂
    have hd₂ := hr₂.valid hd₁ trivial
    have hp := Task.Ready.of_prefix (m := .copying) (l := l)
      (hr₁.grown.images.trans hr₂.grown.images) ht
    have hc₃ : Copied h { s₂ with heap := (s₂.heap.insert p k' x').2 } (d₂.put p k' x') :=
      hc₂.put hp k' x' rfl rfl
    obtain ⟨d', hr', hc', hp'⟩ := ih (fun y hy => hcl y (List.mem_cons_of_mem _ hy)) _
      (d₂.put p k' x') _ s' hc₃ (hd₂.put hp k' x') hp hl
    exact ⟨d', .cons hr₁ hr₂ hr', hc', hp'.trans (hp₂.trans hp₁)⟩

/-- The class of a container says what its copy is made from. -/
theorem Registry.Sound.containerType_eq {r : Registry} (hr : r.Sound) {type type' : ContainerType}
    {c : ClassInfo} (hc : r.classOfObject (.container type) = .ok c)
    (ht : c.containerType none = .ok type') : type' = type := by
  obtain ⟨reg, hreg, rfl⟩ := classOfObject_eq_ok.1 hc
  have hs := hr.of_find? hreg
  have htype := type_of_find? hreg
  cases hs with
  | leaf => cases htype
  | container =>
    cases htype
    cases ht
    rfl
  | bound =>
    cases htype
    cases ht
    rfl

/-- Copies an object that waits for its copy. -/
def Copying.awaited (e : Engine) (nested : ObjId → Serializer → Copying ObjId) (o : ObjId)
    (ser : Serializer) : Copying ObjId := do
  Copying.expect o
  completing (Copying.bodyVia e nested o ser)

theorem Copying.awaited_eq_ok {ser : Serializer} (hx : Copying.awaited e nested o ser s = .ok p s') :
    ∃ s₁, Copying.bodyVia e nested o ser { s with copies := s.copies.expect o } = .ok p s₁ ∧
      s' = if s₁.copies.pending.length = s.copies.pending.length + 1 then
        { s₁ with copies := s₁.copies.bind p } else s₁ := by
  obtain ⟨_, s₀, h₀, hx⟩ := bind_eq_ok.1 hx
  cases h₀
  exact completing_eq_ok.1 hx

/-- A leaf is its own copy. -/
theorem redoes_leaf {a : Leaf} (ha : h.node o = .leaf a) (hcl : h.Closed (some o))
    (type : LeafType) : Redoes h (.object o) (Copying.awaited e nested o (.leaf type)) some := by
  intro s d p s' hc hd ht hx
  obtain ⟨s₁, h₁, rfl⟩ := Copying.awaited_eq_ok hx
  cases h₁
  have hlt := hcl o .self
  have hpending : (s.copies.expect o).pending.length = s.copies.pending.length + 1 := rfl
  simp only [hpending, if_true]
  refine ⟨d.keepLeaf o, .sameLeaf rfl ha (hlt.trans_le hc.size) ?_, ?_, rfl⟩
  · rw [hc.node o hlt, ha]
  · exact hc.keepLeaf ha rfl rfl ht

theorem Copying.mapVia_eq_ok {c : Container} (ho : s.heap.node o = .container c)
    (hx : Copying.mapVia e nested none o s = .ok p s') :
    ∃ cls type, e.registry.classOfObject (.container c.type) = .ok cls ∧
      cls.containerType none = .ok type ∧ p = s.heap.size ∧
        Copying.entriesVia e nested p c.entries
          { s with
            heap := (s.heap.alloc (.container (.empty type))).2
            copies := s.copies.bind p } = .ok () s' := by
  unfold Copying.mapVia at hx
  rw [get_bind] at hx
  simp only [Heap.container?, ho] at hx
  obtain ⟨cls, s₁, h₁, hx⟩ := bind_eq_ok.1 hx
  obtain ⟨hcls, rfl⟩ := attempt_eq_ok.1 h₁
  obtain ⟨copy, s₁, h₁, hb⟩ := bind_eq_ok.1 hx
  obtain ⟨type, s₂, h₂, h₃⟩ := bind_eq_ok.1 h₁
  obtain ⟨htype, rfl⟩ := attempt_eq_ok.1 h₂
  cases h₃
  obtain ⟨_, s₃, h₄, he⟩ := bind_eq_ok.1 hb
  cases h₄
  obtain ⟨_, s₄, h₅, h₆⟩ := bind_eq_ok.1 he
  cases h₆
  rw [Heap.typeOf, ho] at hcls
  exact ⟨cls, type, hcls, htype, rfl, h₅⟩

/-- **A container is copied as it is rebuilt.** -/
theorem RedoesNested.map (hn : RedoesNested e h nested) (he : e.registry.Sound)
    {c : Container} (ho : h.node o = .container c) (hcl : h.Closed (some o))
    (key value : SideSetup Serializer) :
    Redoes h (.object o) (Copying.awaited e nested o (.map key value none)) some := by
  intro s d p s' hc hd ht hx
  have hnode : s.heap.node o = .container c := by rw [hc.heap, hc.node o (hcl o .self), ho]
  obtain ⟨s₁, h₁, hs'⟩ := Copying.awaited_eq_ok hx
  obtain ⟨cls, type, hcls, htype, rfl, h₂⟩ := Copying.mapVia_eq_ok (s := { s with
    copies := s.copies.expect o }) hnode h₁
  cases he.containerType_eq hcls htype
  have hbegin : Copied h { s with
      heap := (s.heap.alloc (.container (.empty c.type))).2
      copies := (s.copies.expect o).bind s.heap.size } (d.begin o c.type) :=
    hc.begin c.type (by rw [← hc.heap]; rfl) rfl ht
  have hcl' : ∀ x ∈ c.entries, h.Closed x.1 ∧ h.Closed x.2 := fun x hx =>
    ⟨hcl.part (Heap.fst_mem_parts ho hx), hcl.part (Heap.snd_mem_parts ho hx)⟩
  obtain ⟨d', hr, hc', hp⟩ := hn.entries he c.entries hcl' _ _ () s₁ hbegin (hd.begin ht ho)
    (by simp [Task.Ready, Draft.begin, hc.heap]) h₂
  -- the copy was bound before the entries, so that it is not bound again
  have hp' : s₁.copies.pending = s.copies.pending := hp
  rw [if_neg (by simp [hp'])] at hs'
  subst hs'
  refine ⟨d', ?_, hc', hp'⟩
  rw [hc.heap] at hr ⊢
  exact .container ho hr

/-! ## All levels -/

/-- **An object of a registered type is copied as it is rebuilt.** -/
theorem redoesNested_data (he : e.registry.Sound) (levels : Nat) :
    RedoesNested e h (Copying.data e levels) := by
  induction levels with
  | zero =>
    intro o c ser _ _ _ s d p s' _ _ _ hx
    cases hx
  | succ levels ih =>
    intro o c ser hg htype hcl s d p s' hc hd ht hx
    obtain ⟨-, s₁, hx₁, rfl⟩ := descend_eq_ok.1 hx
    have hr : Redoes h (.object o) (Copying.awaited e (Copying.data e levels) o ser) some := by
      cases he.shape hg with
      | leaf hleaf hser =>
        subst hser
        obtain ⟨a, ha, -⟩ := Heap.exists_leaf (htype.symm.trans hleaf)
        exact redoes_leaf ha hcl _
      | map hmap hser =>
        subst hser
        obtain ⟨ct, hct, -⟩ := Heap.exists_container (htype.symm.trans hmap)
        exact ih.map he hct hcl _ _
    have hc₁ : Copied h (inScope Scope.deeper s) d := hc.congr rfl rfl
    obtain ⟨d', hd', hc', hp⟩ := hr _ d p s₁ hc₁ hd ht hx₁
    exact ⟨d', hd', hc'.congr rfl rfl, hp⟩

/-- **What is copied is rebuilt** next to what is there. -/
theorem Engine.copied_of_copy (he : e.registry.Sound) (hv : h.Closed v) {h' : Heap}
    (hx : e.copy h v = .ok (w, h')) :
    ∃ d s, Rebuilds .copying h (.value v) (.start h) w d ∧ Copied h s d ∧ h' = d.heap := by
  unfold copy at hx
  split at hx
  · next w' s hs =>
    cases hx
    obtain ⟨d, hr, hc, -⟩ := (redoesNested_data he _).value he hv _ (.start h) w s
      (copied_start h) (Draft.valid_start h) trivial hs
    exact ⟨d, s, hr, hc, hc.heap⟩
  · cases hx

/-- **What is copied is rebuilt.** -/
theorem Engine.rebuilds_of_copy (he : e.registry.Sound) (hv : h.Closed v) {h' : Heap}
    (hx : e.copy h v = .ok (w, h')) :
    ∃ d, Rebuilds .copying h (.value v) (.start h) w d ∧ h' = d.heap := by
  obtain ⟨d, -, hr, -, hd⟩ := copied_of_copy he hv hx
  exact ⟨d, hr, hd⟩

end GraphWire
