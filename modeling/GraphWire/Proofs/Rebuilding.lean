/-
  Rebuilding a graph.

  Reading what was written and copying come to the same: the graph is walked and
  its containers are made once more, each filled with the images of its entries
  as they are met.  `Rebuilds` says what comes out, without streams, scopes and
  limits.

  * `Rebuilds.grown`: what is there before stays as it is;
  * `Rebuilds.valid`: images are new, each of one container, of the same type;
  * `Rebuilds.entryCount`: an image has as many entries as its container, less
    those whose key was taken for one that was stored before.
-/
import GraphWire.Graph.Equality
import GraphWire.Proofs.Heights
import Mathlib.Data.List.Forall2
import Mathlib.Data.List.Nodup
import Mathlib.Order.Nat

namespace GraphWire

/-- How a graph is rebuilt. -/
structure Manner where
  /-- A container that is met again is what it was rebuilt as. -/
  shares : Bool
  /-- Leaves are made anew each time they are met; else they are their own images. -/
  leaves : Bool

/-- A graph that is being rebuilt. -/
structure Draft where
  heap : Heap
  /-- Containers and their images, in the order in which they are met. -/
  images : List (ObjId × ObjId)
  /-- Leaves and their images. -/
  leaves : List (ObjId × ObjId)
  /-- The image of the container of each entry whose key was taken for another. -/
  lost : List ObjId

namespace Draft

/-- Nothing is rebuilt yet. -/
def start (h : Heap) : Draft := ⟨h, [], [], []⟩

/-- The image of a container that is met again. -/
def met (m : Manner) (d : Draft) (o : ObjId) : Option ObjId :=
  if m.shares then d.images.lookup o else none

/-- A new leaf for the leaf `o`. -/
def addLeaf (d : Draft) (o : ObjId) (a : Leaf) : Draft :=
  { d with heap := (d.heap.alloc (.leaf a)).2, leaves := d.leaves ++ [(o, d.heap.size)] }

/-- The leaf itself as its image. -/
def keepLeaf (d : Draft) (o : ObjId) : Draft := { d with leaves := d.leaves ++ [(o, o)] }

/-- A new container, still empty, for the container `o`. -/
def begin (d : Draft) (o : ObjId) (type : ContainerType) : Draft :=
  { d with
    heap := (d.heap.alloc (.container (.empty type))).2
    images := d.images ++ [(o, d.heap.size)] }

/-- One more entry of an image. -/
def put (d : Draft) (p : ObjId) (k v : Value) : Draft :=
  let (old, heap) := d.heap.insert p k v
  { d with heap, lost := if old.isSome then p :: d.lost else d.lost }

end Draft

/-- What there is to rebuild: a value, an object that is met for the first time,
    or entries that go into an image. -/
inductive Task where
  | value (v : Value)
  | object (o : ObjId)
  | entries (p : ObjId) (l : List Entry)

/-- What a task leads to, one by one. -/
def Task.values : Task → List Value
  | .value v => [v]
  | .object o => [some o]
  | .entries _ l => l.flatMap fun e => [e.1, e.2]

/-- What becomes of a task: an image, and the graph as far as it is rebuilt. -/
inductive Rebuilds (m : Manner) (h : Heap) : Task → Draft → Value → Draft → Prop
  | null {d} : Rebuilds m h (.value none) d none d
  | met {d o p} : d.met m o = some p → Rebuilds m h (.value (some o)) d (some p) d
  | unmet {d o w d'} : d.met m o = none → Rebuilds m h (.object o) d w d' →
      Rebuilds m h (.value (some o)) d w d'
  | leaf {d o a} : m.leaves = true → h.node o = .leaf a →
      Rebuilds m h (.object o) d (some d.heap.size) (d.addLeaf o a)
  | sameLeaf {d o a} : m.leaves = false → h.node o = .leaf a → o < d.heap.size →
      d.heap.node o = .leaf a → Rebuilds m h (.object o) d (some o) (d.keepLeaf o)
  | container {d o c d'} : h.node o = .container c →
      Rebuilds m h (.entries d.heap.size c.entries) (d.begin o c.type) none d' →
      Rebuilds m h (.object o) d (some d.heap.size) d'
  | nil {d p} : Rebuilds m h (.entries p []) d none d
  | cons {d p k v l k' d₁ v' d₂ d'} : Rebuilds m h (.value k) d k' d₁ →
      Rebuilds m h (.value v) d₁ v' d₂ → Rebuilds m h (.entries p l) (d₂.put p k' v') none d' →
      Rebuilds m h (.entries p ((k, v) :: l)) d none d'

/-! ## Steps -/

namespace Draft

variable {d : Draft} {m : Manner} {o p : ObjId}

@[simp] theorem size_addLeaf (a : Leaf) : (d.addLeaf o a).heap.size = d.heap.size + 1 :=
  Heap.size_alloc _ _

@[simp] theorem size_begin (type : ContainerType) :
    (d.begin o type).heap.size = d.heap.size + 1 :=
  Heap.size_alloc _ _

theorem node_begin_new (type : ContainerType) :
    (d.begin o type).heap.node d.heap.size = .container (.empty type) :=
  Heap.node_alloc_new _ _

theorem node_begin (type : ContainerType) (hp : p < d.heap.size) :
    (d.begin o type).heap.node p = d.heap.node p :=
  Heap.node_alloc_of_lt _ hp

theorem node_addLeaf (a : Leaf) (hp : p < d.heap.size) :
    (d.addLeaf o a).heap.node p = d.heap.node p :=
  Heap.node_alloc_of_lt _ hp

section
variable (k v : Value)

theorem heap_put {c : Container} (hc : d.heap.node p = .container c) :
    (d.put p k v).heap =
      d.heap.set p (.container (c.insert (d.heap.sameKey (some p) k) k v).2) :=
  Heap.insert_of_container k v hc

theorem lost_put {c : Container} (hc : d.heap.node p = .container c) :
    (d.put p k v).lost =
      if (Entries.find? (d.heap.sameKey (some p) k) c.entries).isSome then p :: d.lost
      else d.lost := by
  simp [put, Heap.insert, hc, Container.fst_insert, Container.find?_eq]

theorem node_put {q : ObjId} (hq : q ≠ p) : (d.put p k v).heap.node q = d.heap.node q :=
  Heap.node_insert_of_ne k v hq

@[simp] theorem size_put : (d.put p k v).heap.size = d.heap.size := Heap.size_insert k v

/-- An image stays a container of its type. -/
theorem node_put_self {c : Container} (hp : p < d.heap.size) (hc : d.heap.node p = .container c) :
    ∃ c', (d.put p k v).heap.node p = .container c' ∧ c'.type = c.type ∧
      c'.entries = Entries.insert (d.heap.sameKey (some p) k) k v c.entries := by
  refine ⟨_, by rw [heap_put k v hc, Heap.node_set_self _ hp], ?_, ?_⟩
  · exact Container.type_insert _ _ _ _
  · exact Container.entries_insert _ _ _ _

end

/-! ## Growth -/

/-- How far a graph is rebuilt since: the objects that were there stay as they
    are, `but` for one that entries are put into. -/
structure Grown (d : Draft) (but : Option ObjId) (d' : Draft) : Prop where
  size : d.heap.size ≤ d'.heap.size
  node : ∀ o, o < d.heap.size → some o ≠ but → d'.heap.node o = d.heap.node o
  images : d.images <+: d'.images
  leaves : d.leaves <+: d'.leaves
  lost : d.lost <:+ d'.lost
  lost_new : ∀ p, p < d.heap.size → some p ≠ but → d'.lost.count p = d.lost.count p

theorem Grown.refl (but : Option ObjId) (d : Draft) : d.Grown but d :=
  ⟨le_rfl, fun _ _ _ => rfl, List.prefix_rfl, List.prefix_rfl, List.suffix_rfl, fun _ _ _ => rfl⟩

theorem Grown.trans {but : Option ObjId} {d₁ d₂ : Draft} (h₁ : d.Grown but d₁)
    (h₂ : d₁.Grown but d₂) : d.Grown but d₂ where
  size := h₁.size.trans h₂.size
  node o ho hb := (h₂.node o (ho.trans_le h₁.size) hb).trans (h₁.node o ho hb)
  images := h₁.images.trans h₂.images
  leaves := h₁.leaves.trans h₂.leaves
  lost := h₁.lost.trans h₂.lost
  lost_new p hp hb := (h₂.lost_new p (hp.trans_le h₁.size) hb).trans (h₁.lost_new p hp hb)

theorem Grown.weaken {d' : Draft} (hg : d.Grown none d') (but : Option ObjId) : d.Grown but d' :=
  { hg with
    node := fun o ho _ => hg.node o ho (by simp)
    lost_new := fun p hp _ => hg.lost_new p hp (by simp) }

theorem grown_addLeaf (a : Leaf) : d.Grown none (d.addLeaf o a) where
  size := by simp
  node p hp _ := node_addLeaf a hp
  images := List.prefix_rfl
  leaves := List.prefix_append _ _
  lost := List.suffix_rfl
  lost_new _ _ _ := rfl

theorem grown_keepLeaf : d.Grown none (d.keepLeaf o) :=
  { Grown.refl none d with leaves := List.prefix_append _ _ }

theorem grown_begin (type : ContainerType) : d.Grown none (d.begin o type) where
  size := by simp
  node p hp _ := node_begin type hp
  images := List.prefix_append _ _
  leaves := List.prefix_rfl
  lost := List.suffix_rfl
  lost_new _ _ _ := rfl

theorem grown_put (k v : Value) : d.Grown (some p) (d.put p k v) where
  size := by simp
  node q _ hq := node_put k v fun h => hq (congrArg some h)
  images := List.prefix_rfl
  leaves := List.prefix_rfl
  lost := by
    unfold put
    dsimp only
    split
    · exact List.suffix_cons _ _
    · exact List.suffix_rfl
  lost_new q _ hq := by
    have hne : p ≠ q := fun h => hq (congrArg some h.symm)
    unfold put
    dsimp only
    split
    · exact List.count_cons_of_ne hne
    · rfl

end Draft

/-- What a task may change of what is there already. -/
def Task.target : Task → Option ObjId
  | .entries p _ => some p
  | _ => none

/-- **Rebuilding adds objects and leaves those that are there as they are.** -/
theorem Rebuilds.grown {m : Manner} {h : Heap} {t : Task} {d d' : Draft} {w : Value}
    (hr : Rebuilds m h t d w d') : d.Grown t.target d' := by
  induction hr with
  | null => exact .refl _ _
  | met => exact .refl _ _
  | unmet _ _ ih => exact ih
  | leaf => exact Draft.grown_addLeaf _
  | sameLeaf => exact Draft.grown_keepLeaf
  | @container d o c d' _ _ ih =>
    -- the image did not exist before, so that nothing is exempt
    have hb : d.Grown none (d.begin o c.type) := Draft.grown_begin _
    have hlt : d.heap.size < (d.begin o c.type).heap.size := by simp
    constructor
    · exact hb.size.trans ih.size
    · intro q hq _
      rw [ih.node q (hq.trans hlt) (by simp [Task.target, hq.ne]), hb.node q hq (by simp)]
    · exact hb.images.trans ih.images
    · exact hb.leaves.trans ih.leaves
    · exact hb.lost.trans ih.lost
    · intro q hq _
      rw [ih.lost_new q (hq.trans hlt) (by simp [Task.target, hq.ne]), hb.lost_new q hq (by simp)]
  | nil => exact .refl _ _
  | cons _ _ _ ihk ihv ihl =>
    exact ((ihk.weaken _).trans (ihv.weaken _)).trans ((Draft.grown_put _ _).trans ihl)

/-! ## Images -/

theorem lookup_of_mem {l : List (ObjId × ObjId)} {o p : ObjId} (hn : (l.map Prod.fst).Nodup)
    (hm : (o, p) ∈ l) : l.lookup o = some p := by
  cases hl : l.lookup o with
  | none => simpa using List.lookup_eq_none_iff.1 hl _ hm
  | some q =>
    obtain ⟨s, t, he, -⟩ := List.lookup_eq_some_iff.1 hl
    have hq : (o, q) ∈ l := by simp [he]
    exact congrArg (some ·.2) (List.inj_on_of_nodup_map hn hq hm rfl)

theorem lookup_eq_none_of_forall {l : List (ObjId × ObjId)} {o : ObjId}
    (hl : ∀ i ∈ l, i.1 ≠ o) : l.lookup o = none :=
  List.lookup_eq_none_iff.2 fun i hi => bne_iff_ne.2 (hl i hi).symm

/-- What holds of a graph all the time that it is rebuilt. -/
structure Draft.Valid (m : Manner) (h : Heap) (d : Draft) : Prop where
  images_lt : ∀ o p, (o, p) ∈ d.images → p < d.heap.size
  images_nodup : (d.images.map Prod.snd).Nodup
  images_type : ∀ o p, (o, p) ∈ d.images → ∃ c c', h.node o = .container c ∧
    d.heap.node p = .container c' ∧ c'.type = c.type
  leaves_node : ∀ o p, (o, p) ∈ d.leaves → p < d.heap.size ∧ ∃ a, h.node o = .leaf a ∧
    d.heap.node p = .leaf a
  leaves_inj : ∀ o o' p, (o, p) ∈ d.leaves → (o', p) ∈ d.leaves → o = o'
  leaves_same : m.leaves = false → ∀ o p, (o, p) ∈ d.leaves → o = p
  shared : m.shares = true → (d.images.map Prod.fst).Nodup
  lost_mem : ∀ p ∈ d.lost, p ∈ d.images.map Prod.snd

/-- When a task can come up. -/
def Task.Ready (m : Manner) (d : Draft) : Task → Prop
  | .value _ => True
  | .object o => d.met m o = none
  | .entries p _ => p ∈ d.images.map Prod.snd

namespace Draft

variable {m : Manner} {h : Heap} {d : Draft} {o p : ObjId}

theorem valid_start (h₀ : Heap) : (start h₀).Valid m h := by
  constructor <;> simp [start]

theorem Valid.image_unique (hv : d.Valid m h) {o' : ObjId} (h₁ : (o, p) ∈ d.images)
    (h₂ : (o', p) ∈ d.images) : o = o' :=
  congrArg Prod.fst (List.inj_on_of_nodup_map hv.images_nodup h₁ h₂ rfl)

theorem Valid.lt_of_mem (hv : d.Valid m h) (hp : p ∈ d.images.map Prod.snd) :
    p < d.heap.size := by
  obtain ⟨⟨o, p⟩, hm, rfl⟩ := List.mem_map.1 hp
  exact hv.images_lt o p hm

theorem Valid.container_of_mem (hv : d.Valid m h) (hp : p ∈ d.images.map Prod.snd) :
    ∃ c, d.heap.node p = .container c := by
  obtain ⟨⟨o, p⟩, hm, rfl⟩ := List.mem_map.1 hp
  obtain ⟨_, c', _, hc', _⟩ := hv.images_type o p hm
  exact ⟨c', hc'⟩

/-- Nothing of a valid draft depends on more than the objects that there are. -/
theorem Valid.of_heap (hv : d.Valid m h) {d' : Draft} (hi : d'.images = d.images)
    (hl : d'.leaves = d.leaves) (hlost : ∀ p ∈ d'.lost, p ∈ d.images.map Prod.snd)
    (hs : d.heap.size ≤ d'.heap.size)
    (hn : ∀ p, p < d.heap.size → (∀ a, d.heap.node p = .leaf a → d'.heap.node p = .leaf a) ∧
      ∀ c, d.heap.node p = .container c → ∃ c', d'.heap.node p = .container c' ∧
        c'.type = c.type) : d'.Valid m h where
  images_lt o p hm := (hv.images_lt o p (hi ▸ hm)).trans_le hs
  images_nodup := hi ▸ hv.images_nodup
  images_type o p hm := by
    rw [hi] at hm
    obtain ⟨c, c', hc, hc', ht⟩ := hv.images_type o p hm
    obtain ⟨c₂, hc₂, ht₂⟩ := (hn p (hv.images_lt o p hm)).2 c' hc'
    exact ⟨c, c₂, hc, hc₂, ht₂.trans ht⟩
  leaves_node o p hm := by
    rw [hl] at hm
    obtain ⟨hp, a, ha, ha'⟩ := hv.leaves_node o p hm
    exact ⟨hp.trans_le hs, a, ha, (hn p hp).1 a ha'⟩
  leaves_inj := hl ▸ hv.leaves_inj
  leaves_same := hl ▸ hv.leaves_same
  shared := hi ▸ hv.shared
  lost_mem := hi ▸ hlost

theorem Valid.put (hv : d.Valid m h) (hp : p ∈ d.images.map Prod.snd) (k v : Value) :
    (d.put p k v).Valid m h := by
  obtain ⟨c, hc⟩ := hv.container_of_mem hp
  refine hv.of_heap rfl rfl ?_ (by simp) fun q hq => ?_
  · rw [lost_put k v hc]
    split
    · exact List.forall_mem_cons.2 ⟨hp, hv.lost_mem⟩
    · exact hv.lost_mem
  · by_cases hqp : q = p
    · subst hqp
      obtain ⟨c', hc', ht, -⟩ := node_put_self k v hq hc
      rw [hc]
      constructor
      · rintro a ⟨⟩
      · rintro c₁ ⟨⟩
        exact ⟨c', hc', ht⟩
    · rw [node_put k v hqp]
      exact ⟨fun a ha => ha, fun c₁ h₁ => ⟨c₁, h₁, rfl⟩⟩

/-- Adding an object keeps what there is. -/
theorem Valid.alloc (hv : d.Valid m h) (n : Node) :
    Valid m h { d with heap := (d.heap.alloc n).2 } := by
  refine hv.of_heap rfl rfl hv.lost_mem (by simp) fun q hq => ?_
  rw [Heap.node_alloc_of_lt n hq]
  exact ⟨fun a ha => ha, fun c hc => ⟨c, hc, rfl⟩⟩

theorem Valid.begin (hv : d.Valid m h) (ho : d.met m o = none) {c : Container}
    (hc : h.node o = .container c) : (d.begin o c.type).Valid m h := by
  have ha := hv.alloc (.container (.empty c.type))
  have hnew : ∀ q, q ∈ d.images.map Prod.snd → q ≠ d.heap.size :=
    fun q hq => (hv.lt_of_mem hq).ne
  constructor
  · intro o' p hm
    rcases List.mem_append.1 hm with hm | hm
    · exact ha.images_lt o' p hm
    · cases List.mem_singleton.1 hm
      simp
  · simp only [Draft.begin, List.map_append, List.map_cons, List.map_nil]
    refine List.nodup_append.2 ⟨hv.images_nodup, by simp, fun q hq q' hq' => ?_⟩
    rw [List.mem_singleton.1 hq']
    exact hnew q hq
  · intro o' p hm
    rcases List.mem_append.1 hm with hm | hm
    · exact ha.images_type o' p hm
    · cases List.mem_singleton.1 hm
      exact ⟨c, _, hc, node_begin_new _, Container.type_empty _⟩
  · exact ha.leaves_node
  · exact hv.leaves_inj
  · exact hv.leaves_same
  · intro hs
    simp only [Draft.begin, List.map_append, List.map_cons, List.map_nil]
    refine List.nodup_append.2 ⟨hv.shared hs, by simp, fun q hq q' hq' => ?_⟩
    rw [List.mem_singleton.1 hq']
    rintro rfl
    obtain ⟨⟨q, p⟩, hm, rfl⟩ := List.mem_map.1 hq
    rw [met, if_pos hs, List.lookup_eq_none_iff] at ho
    simpa using ho _ hm
  · intro p hp
    rw [Draft.begin, List.map_append]
    exact List.mem_append_left _ (hv.lost_mem p hp)

theorem Valid.addLeaf (hv : d.Valid m h) (hm : m.leaves = true) {a : Leaf}
    (ha : h.node o = .leaf a) : (d.addLeaf o a).Valid m h := by
  have hv' := hv.alloc (.leaf a)
  refine { hv' with leaves_node := ?_, leaves_inj := ?_, leaves_same := ?_ }
  · intro o' p hp
    rcases List.mem_append.1 hp with hp | hp
    · exact hv'.leaves_node o' p hp
    · cases List.mem_singleton.1 hp
      exact ⟨by simp, a, ha, Heap.node_alloc_new _ _⟩
  · intro o₁ o₂ p h₁ h₂
    rcases List.mem_append.1 h₁ with h₁ | h₁ <;> rcases List.mem_append.1 h₂ with h₂ | h₂
    · exact hv.leaves_inj o₁ o₂ p h₁ h₂
    · cases List.mem_singleton.1 h₂
      exact absurd (hv.leaves_node _ _ h₁).1 (lt_irrefl _)
    · cases List.mem_singleton.1 h₁
      exact absurd (hv.leaves_node _ _ h₂).1 (lt_irrefl _)
    · cases List.mem_singleton.1 h₁
      cases List.mem_singleton.1 h₂
      rfl
  · intro hm'
    rw [hm] at hm'
    cases hm'

theorem Valid.keepLeaf (hv : d.Valid m h) (hm : m.leaves = false) {a : Leaf}
    (ha : h.node o = .leaf a) (ho : o < d.heap.size) (ha' : d.heap.node o = .leaf a) :
    (d.keepLeaf o).Valid m h := by
  have hsame : ∀ o' p, (o', p) ∈ (d.keepLeaf o).leaves → o' = p := by
    intro o' p hp
    rcases List.mem_append.1 hp with hp | hp
    · exact hv.leaves_same hm o' p hp
    · cases List.mem_singleton.1 hp
      rfl
  refine { hv with leaves_node := ?_, leaves_inj := ?_, leaves_same := fun _ => hsame }
  · intro o' p hp
    rcases List.mem_append.1 hp with hp | hp
    · exact hv.leaves_node o' p hp
    · cases List.mem_singleton.1 hp
      exact ⟨ho, a, ha, ha'⟩
  · intro o₁ o₂ p h₁ h₂
    rw [hsame _ _ h₁, hsame _ _ h₂]

end Draft

theorem Task.Ready.of_prefix {m : Manner} {d d' : Draft} {p : ObjId} {l : List Entry}
    (hi : d.images <+: d'.images) (hp : p ∈ d.images.map Prod.snd) :
    (Task.entries p l).Ready m d' := by
  obtain ⟨e, he, rfl⟩ := List.mem_map.1 hp
  exact List.mem_map.2 ⟨e, hi.subset he, rfl⟩

/-- **What holds of a graph that is being rebuilt goes on to hold.** -/
theorem Rebuilds.valid {m : Manner} {h : Heap} {t : Task} {d d' : Draft} {w : Value}
    (hr : Rebuilds m h t d w d') (hv : d.Valid m h) (ht : t.Ready m d) : d'.Valid m h := by
  induction hr with
  | null => exact hv
  | met => exact hv
  | unmet ho _ ih => exact ih hv ho
  | leaf hm ha => exact hv.addLeaf hm ha
  | sameLeaf hm ha ho ha' => exact hv.keepLeaf hm ha ho ha'
  | container hc _ ih => exact ih (hv.begin ht hc) (by simp [Task.Ready, Draft.begin])
  | nil => exact hv
  | cons hk hx _ ihk ihv ihl =>
    have h₁ := ihk hv trivial
    have h₂ := ihv h₁ trivial
    have hp := Task.Ready.of_prefix (m := m) (l := []) (hk.grown.images.trans hx.grown.images) ht
    exact ihl (h₂.put hp _ _) hp

/-! ## Entries -/

/-- Whether the images, but for some, have as many entries as their containers,
    less those that were lost. -/
def Draft.Balanced (h : Heap) (busy : List ObjId) (d : Draft) : Prop :=
  ∀ o p, (o, p) ∈ d.images → p ∉ busy →
    (d.heap.entries p).length + d.lost.count p = (h.entries o).length

theorem Draft.length_put {m : Manner} {h : Heap} {d : Draft} {p : ObjId} (hv : d.Valid m h)
    (hp : p ∈ d.images.map Prod.snd) (k v : Value) :
    ((d.put p k v).heap.entries p).length + (d.put p k v).lost.count p =
      (d.heap.entries p).length + d.lost.count p + 1 := by
  obtain ⟨c, hc⟩ := hv.container_of_mem hp
  obtain ⟨c', hc', -, he⟩ := node_put_self k v (hv.lt_of_mem hp) hc
  rw [Heap.entries_of_node hc', Heap.entries_of_node hc, he, Entries.length_insert,
    lost_put k v hc]
  split
  · rw [List.count_cons_self]
    omega
  · omega

theorem Rebuilds.balanced_aux {m : Manner} {h : Heap} {t : Task} {d d' : Draft} {w : Value}
    (hr : Rebuilds m h t d w d') (hv : d.Valid m h) (ht : t.Ready m d) {busy : List ObjId}
    (hb : ∀ p, t.target = some p → p ∈ busy) (hd : d.Balanced h busy) :
    d'.Balanced h busy ∧ ∀ p l, t = .entries p l →
      (d'.heap.entries p).length + d'.lost.count p =
        (d.heap.entries p).length + d.lost.count p + l.length := by
  induction hr generalizing busy with
  | null => exact ⟨hd, by simp⟩
  | met => exact ⟨hd, by simp⟩
  | unmet ho _ ih => exact ⟨(ih hv ho hb hd).1, by simp⟩
  | @leaf d o a =>
    refine ⟨fun o' p hm hp => ?_, by simp⟩
    rw [Heap.entries_congr (Draft.node_addLeaf a (hv.images_lt o' p hm))]
    exact hd o' p hm hp
  | sameLeaf => exact ⟨hd, by simp⟩
  | @container d o c d' hc hr ih =>
    have hv' := hv.begin ht hc
    have hready : (Task.entries d.heap.size c.entries).Ready m (d.begin o c.type) := by
      simp [Task.Ready, Draft.begin]
    -- the new image is left out until all its entries are there
    have hd' : (d.begin o c.type).Balanced h (d.heap.size :: busy) := by
      intro o' p hm hp
      rcases List.mem_append.1 hm with hm | hm
      · rw [Heap.entries_congr (Draft.node_begin _ (hv.images_lt o' p hm))]
        exact hd o' p hm fun h' => hp (List.mem_cons_of_mem _ h')
      · cases List.mem_singleton.1 hm
        simp at hp
    obtain ⟨hb', hl⟩ := ih hv' hready (by simp [Task.target]) hd'
    refine ⟨fun o' p hm hp => ?_, by simp⟩
    by_cases hps : p = d.heap.size
    · subst hps
      have hself : (o, d.heap.size) ∈ d'.images := hr.grown.images.subset (by simp [Draft.begin])
      cases (hr.valid hv' hready).image_unique hm hself
      have hnone : d.lost.count d.heap.size = 0 :=
        List.count_eq_zero.2 fun hl => lt_irrefl _ (hv.lt_of_mem (hv.lost_mem _ hl))
      have hempty : (d.begin o c.type).heap.entries d.heap.size = [] := by
        rw [Heap.entries_of_node (Draft.node_begin_new _), Container.entries_empty]
      rw [hl _ _ rfl, Heap.entries_of_node hc, hempty]
      show 0 + d.lost.count d.heap.size + c.entries.length = c.entries.length
      omega
    · exact hb' o' p hm (by simp [hps, hp])
  | nil => exact ⟨hd, by simp⟩
  | @cons d p k v l k' d₁ v' d₂ d' hk hx hl ihk ihv ihl =>
    have hv₁ := hk.valid hv trivial
    have hv₂ := hx.valid hv₁ trivial
    have hpb : p ∈ busy := hb p rfl
    have hg : d.Grown none d₂ := hk.grown.trans hx.grown
    have hp := Task.Ready.of_prefix (m := m) (l := []) hg.images ht
    have hd₂ := (ihv hv₁ trivial (by simp [Task.target])
      (ihk hv trivial (by simp [Task.target]) hd).1).1
    obtain ⟨hd', hlen⟩ := ihl (hv₂.put hp k' v') hp hb (by
      intro o' q hm hq
      have hne : q ≠ p := fun h' => hq (h' ▸ hpb)
      rw [Heap.entries_congr (Draft.node_put k' v' hne),
        (Draft.grown_put k' v').lost_new q (hv₂.images_lt o' q hm) (by simpa using hne)]
      exact hd₂ o' q hm hq)
    refine ⟨hd', fun p' l' h' => ?_⟩
    cases h'
    have hplt := hv.lt_of_mem ht
    rw [hlen _ _ rfl, Draft.length_put hv₂ hp, Heap.entries_congr (hg.node p hplt (by simp)),
      hg.lost_new p hplt (by simp), List.length_cons]
    omega

/-- **An image has as many entries as its container, less those that were lost.** -/
theorem Rebuilds.entryCount {m : Manner} {h h₀ : Heap} {v w : Value} {d : Draft}
    (hr : Rebuilds m h (.value v) (.start h₀) w d) {o p : ObjId} (hp : (o, p) ∈ d.images) :
    (d.heap.entries p).length + d.lost.count p = (h.entries o).length := by
  have hb : (Draft.start h₀).Balanced h [] := by simp [Draft.Balanced, Draft.start]
  exact (hr.balanced_aux (Draft.valid_start h₀) trivial (by simp [Task.target]) hb).1 o p hp
    List.not_mem_nil

/-- **Every image has as many entries as its container iff none was lost.** -/
theorem Rebuilds.forall_length_eq_iff {m : Manner} {h h₀ : Heap} {v w : Value} {d : Draft}
    (hr : Rebuilds m h (.value v) (.start h₀) w d) :
    (∀ o p, (o, p) ∈ d.images → (d.heap.entries p).length = (h.entries o).length) ↔
      d.lost = [] := by
  have hv := hr.valid (Draft.valid_start h₀) trivial
  constructor
  · intro hall
    refine List.eq_nil_iff_forall_not_mem.2 fun p hp => ?_
    obtain ⟨⟨o, p⟩, hm, rfl⟩ := List.mem_map.1 (hv.lost_mem p hp)
    have hcount := hr.entryCount hm
    have := hall o p hm
    have hpos := List.count_pos_iff.2 hp
    simp only at hpos
    omega
  · intro hl o p hm
    simpa [hl] using hr.entryCount hm

end GraphWire
