/-
  Containers whose keys are leaves.

  Leaves do not change, so a key that differs from those that are stored keeps
  differing from them.

  * `Heap.LeafKeyed` says that the keys of each container that a value leads to are
    null or leaves and that no key stands twice;
  * `Heap.Built.leafKeyed`: so it is in all heaps that are built by inserting
    null and leaves as keys.
-/
import GraphWire.Proofs.Images

namespace GraphWire

namespace Heap

variable {h h' : Heap} {v k k' : Value} {o : ObjId} {busy busy' : Option ObjId}

/-- Whether a value is null or a leaf. -/
def LeafOrNull (h : Heap) (v : Value) : Prop :=
  ∀ o, v = some o → o < h.size ∧ ∃ a, h.node o = .leaf a

/-- Whether the keys of each container that a value leads to are null or leaves, no
    two of them the same. -/
structure LeafKeyed (h : Heap) (v : Value) : Prop where
  leaf : ∀ o, h.Leads v o → ∀ e ∈ h.entries o, h.LeafOrNull e.1
  tidy : h.Tidy v

theorem LeafOrNull.heightLe (hv : h.LeafOrNull v) : h.HeightLe 1 v := by
  cases v with
  | none => exact heightLe_none
  | some o =>
    obtain ⟨-, a, ha⟩ := hv o rfl
    exact heightLe_of_leaf ha

theorem LeafKeyed.wellKeyed (hv : h.LeafKeyed v) : h.WellKeyed v where
  height o ho e he := ⟨1, (hv.leaf o ho e he).heightLe⟩
  tidy := hv.tidy

/-! ## Heaps with leaves as keys -/

/-- The heaps that are built by making leaves and containers and by inserting null
    and leaves as keys. -/
inductive Built : Heap → Prop
  | empty : Built .empty
  | leaf {h : Heap} (a : Leaf) : Built h → Built (h.alloc (.leaf a)).2
  | container {h : Heap} (type : ContainerType) : Built h →
      Built (h.alloc (.container (.empty type))).2
  | insert {h : Heap} {o : ObjId} {k v : Value} : Built h → o < h.size → h.LeafOrNull k →
      Built (h.insert o k v).2

/-- Whether the leaves of a heap are leaves of another. -/
def KeepsLeaves (h h' : Heap) : Prop :=
  ∀ o a, o < h.size → h.node o = .leaf a → o < h'.size ∧ h'.node o = .leaf a

theorem LeafOrNull.keep (hv : h.LeafOrNull v) (hn : h.KeepsLeaves h') : h'.LeafOrNull v := by
  intro o ho
  obtain ⟨hs, a, ha⟩ := hv o ho
  exact (hn o a hs ha).imp_right fun ha => ⟨a, ha⟩

/-- Leaves compare alike wherever they are the same. -/
theorem sameKey_congr (hk : h.LeafOrNull k) (hk' : h.LeafOrNull k') (hn : h.KeepsLeaves h') :
    h'.sameKey busy' k k' = h.sameKey busy k k' := by
  rw [Bool.eq_iff_iff, sameKey_iff, sameKey_iff]
  cases k with
  | none =>
    rw [equal_none_left, equal_none_left]
    refine and_congr_right ?_
    rintro rfl
    simp [hashInput]
  | some p =>
    cases k' with
    | none =>
      rw [equal_none_right, equal_none_right]
      simp
    | some q =>
      obtain ⟨hp, a, ha⟩ := hk p rfl
      obtain ⟨hq, b, hb⟩ := hk' q rfl
      rw [equal_some (hk.keep hn).heightLe, equal_some hk.heightLe]
      simp [equalObjects, hashInput, ha, hb, (hn p a hp ha).2, (hn q b hq hb).2]

/-- Whether the keys of a container are null or leaves, no two of them the same. -/
structure Neat (h : Heap) (l : List Entry) : Prop where
  leaf : ∀ e ∈ l, h.LeafOrNull e.1
  apart : h.Apart l

theorem neat_nil : h.Neat [] := ⟨by simp, .nil⟩

theorem Neat.keep {l : List Entry} (hl : h.Neat l) (hn : h.KeepsLeaves h') : h'.Neat l where
  leaf e he := (hl.leaf e he).keep hn
  apart := hl.apart.imp_of_mem fun he he' hne => by
    rw [sameKey_congr (hl.leaf _ he') (hl.leaf _ he) hn, hne]

/-- An insertion of a leaf keeps the keys different. -/
theorem Neat.insert {l : List Entry} (hl : h.Neat l) (hk : h.LeafOrNull k) :
    h.Neat (Entries.insert (h.sameKey busy k) k v l) := by
  refine ⟨fun e he => ?_, hl.apart.insert k v fun e he => ?_⟩
  · rcases (Entries.mem_insert he).1 with hek | ⟨e', he', hek⟩
    · exact hek ▸ hk
    · exact hek ▸ hl.leaf e' he'
  · exact sameKey_congr hk (hl.leaf e he) fun _ _ hp ha => ⟨hp, ha⟩

/-- An object without entries is added. -/
theorem entries_alloc {n : Node} (hn : ∀ c, n = .container c → c.entries = []) (o : ObjId) :
    (h.alloc n).2.entries o = h.entries o := by
  rcases lt_trichotomy o h.size with ho | rfl | ho
  · exact entries_congr (node_alloc_of_lt n ho)
  · simp only [entries, node_alloc_new, node_of_size_le le_rfl]
    cases n with
    | container c => exact hn c rfl
    | _ => rfl
  · simp only [entries]
    rw [node_of_size_le ho.le, node_of_size_le ((size_alloc h n).trans_le ho)]

theorem keepsLeaves_alloc (n : Node) : h.KeepsLeaves (h.alloc n).2 := by
  intro o a ho ha
  exact ⟨by simp; omega, by rw [node_alloc_of_lt n ho, ha]⟩

theorem keepsLeaves_set {c : Container} (hc : h.node o = .container c) (n : Node) :
    h.KeepsLeaves (h.set o n) := by
  intro p a hp ha
  have hne : p ≠ o := by
    rintro rfl
    cases hc.symm.trans ha
  exact ⟨by simpa using hp, by rw [node_set_of_ne n hne, ha]⟩

theorem Built.neat (hb : h.Built) : ∀ o, h.Neat (h.entries o) := by
  induction hb with
  | empty => exact fun o => neat_nil
  | leaf a _ ih =>
    intro o
    rw [entries_alloc (by simp)]
    exact (ih o).keep (keepsLeaves_alloc _)
  | container type _ ih =>
    intro o
    rw [entries_alloc (by simp)]
    exact (ih o).keep (keepsLeaves_alloc _)
  | @insert h o k v _ ho hk ih =>
    intro p
    unfold Heap.insert
    cases hc : h.node o with
    | container c =>
      refine Neat.keep ?_ (keepsLeaves_set hc _)
      by_cases hp : p = o
      · subst hp
        rw [entries_of_node (node_set_self _ ho), Container.entries_insert]
        exact (entries_of_node hc ▸ ih p).insert hk
      · rw [entries_congr (node_set_of_ne _ hp)]
        exact ih p
    | _ => exact ih p

/-- **Where null and leaves only are inserted as keys, no key stands twice.** -/
theorem Built.leafKeyed (hb : h.Built) (v : Value) : h.LeafKeyed v where
  leaf o _ := (hb.neat o).leaf
  tidy o _ := (hb.neat o).apart

end Heap

end GraphWire
