/-
  Where values lead and how high they stand.

  * `Heap.Leads` says which objects a value leads to, and `Heap.containersOf` which
    containers;
  * `Heap.HeightLe` says that all ways down from a value end after so many
    objects.  A value of some height leads into no cycle
    (`Heap.HeightLe.not_leads`), and one that leads into none is no higher than
    there are objects (`Heap.Acyclic.heightLe`).
-/
import GraphWire.Graph.Equality
import GraphWire.Graph.Walk
import Mathlib.Data.Finset.Card

namespace GraphWire

namespace Heap

variable {h : Heap} {v x : Value} {o p : ObjId} {m n : Nat}

/-- The entries of a container; none if the object is no container. -/
def entries (h : Heap) (o : ObjId) : List Entry :=
  match h.node o with
  | .container c => c.entries
  | _ => []

theorem entries_of_node {c : Container} (hc : h.node o = .container c) :
    h.entries o = c.entries := by
  simp [entries, hc]

theorem mem_entries {e : Entry} : e ∈ h.entries o ↔ ∃ c, h.node o = .container c ∧ e ∈ c.entries := by
  unfold entries
  cases h.node o <;> simp

theorem entries_congr {h' : Heap} (hn : h'.node o = h.node o) : h'.entries o = h.entries o := by
  simp [entries, hn]

theorem mem_parts_container {c : Container} (hc : h.node o = .container c) :
    x ∈ (h.node o).parts ↔ ∃ e ∈ c.entries, x = e.1 ∨ x = e.2 := by
  simp [hc, Node.parts]

theorem fst_mem_parts {c : Container} (hc : h.node o = .container c) {e : Entry}
    (he : e ∈ c.entries) : e.1 ∈ (h.node o).parts :=
  (mem_parts_container hc).2 ⟨e, he, Or.inl rfl⟩

theorem snd_mem_parts {c : Container} (hc : h.node o = .container c) {e : Entry}
    (he : e ∈ c.entries) : e.2 ∈ (h.node o).parts :=
  (mem_parts_container hc).2 ⟨e, he, Or.inr rfl⟩

theorem fst_mem_parts_of_entries {e : Entry} (he : e ∈ h.entries o) : e.1 ∈ (h.node o).parts := by
  obtain ⟨c, hc, he⟩ := mem_entries.1 he
  exact fst_mem_parts hc he

theorem exists_leaf {type : LeafType} (ht : h.typeOf o = .leaf type) :
    ∃ a, h.node o = .leaf a ∧ a.type = type := by
  unfold typeOf at ht
  cases ho : h.node o with
  | leaf a =>
    rw [ho] at ht
    exact ⟨a, rfl, ObjectType.leaf.inj ht⟩
  | octet | container | record =>
    rw [ho] at ht
    cases ht

theorem exists_container {type : ContainerType} (ht : h.typeOf o = .container type) :
    ∃ c, h.node o = .container c ∧ c.type = type := by
  unfold typeOf at ht
  cases ho : h.node o with
  | container c =>
    rw [ho] at ht
    exact ⟨c, rfl, ObjectType.container.inj ht⟩
  | leaf | octet | record =>
    rw [ho] at ht
    cases ht

section
variable (k w : Value)

theorem insert_of_container {c : Container} (hc : h.node p = .container c) :
    (h.insert p k w).2 = h.set p (.container (c.insert (h.sameKey (some p) k) k w).2) := by
  simp [insert, hc]

theorem node_insert_self {c : Container} (hc : h.node p = .container c) (hp : p < h.size) :
    (h.insert p k w).2.node p = .container (c.insert (h.sameKey (some p) k) k w).2 := by
  rw [insert_of_container k w hc, node_set_self _ hp]

theorem entries_insert_self {c : Container} (hc : h.node p = .container c) (hp : p < h.size) :
    (h.insert p k w).2.entries p = Entries.insert (h.sameKey (some p) k) k w c.entries := by
  rw [entries_of_node (node_insert_self k w hc hp), Container.entries_insert]

theorem node_insert_of_ne (hop : o ≠ p) : (h.insert p k w).2.node o = h.node o := by
  unfold insert
  cases h.node p with
  | container c => exact node_set_of_ne _ hop
  | _ => rfl

@[simp] theorem size_insert : (h.insert p k w).2.size = h.size := by
  unfold insert
  cases h.node p with
  | container c => exact size_set _ _ _
  | _ => rfl

end

/-! ## Ways down -/

/-- The objects that a value leads to, its own among them. -/
inductive Leads (h : Heap) : Value → ObjId → Prop
  | self {o : ObjId} : Leads h (some o) o
  | part {o : ObjId} {x : Value} {p : ObjId} : x ∈ (h.node o).parts → Leads h x p → Leads h (some o) p

theorem Leads.trans (hv : h.Leads v o) (ho : h.Leads (some o) p) : h.Leads v p := by
  induction hv with
  | self => exact ho
  | part hx _ ih => exact .part hx (ih ho)

/-- The containers that a value leads to. -/
def containersOf (h : Heap) (v : Value) : Set ObjId :=
  {o | h.Leads v o ∧ ∃ c, h.node o = .container c}

theorem containersOf_part (hx : x ∈ (h.node o).parts) :
    h.containersOf x ⊆ h.containersOf (some o) :=
  fun _ hp => ⟨.part hx hp.1, hp.2⟩

/-! ## Heights -/

/-- Whether all ways down from a value end after so many objects. -/
def HeightLe (h : Heap) : Nat → Value → Prop
  | _, none => True
  | 0, some _ => False
  | n + 1, some o => ∀ x ∈ (h.node o).parts, HeightLe h n x

theorem heightLe_none : h.HeightLe n none := by cases n <;> trivial

instance decidableHeightLe (h : Heap) : (n : Nat) → (v : Value) → Decidable (h.HeightLe n v)
  | _, none => .isTrue heightLe_none
  | 0, some _ => .isFalse id
  | n + 1, some o =>
    have := decidableHeightLe h n
    inferInstanceAs (Decidable (∀ x ∈ (h.node o).parts, h.HeightLe n x))

theorem HeightLe.part (hv : h.HeightLe (n + 1) (some o)) (hx : x ∈ (h.node o).parts) :
    h.HeightLe n x :=
  hv x hx

theorem HeightLe.pos (hv : h.HeightLe n (some o)) : ∃ m, n = m + 1 := by
  cases n with
  | zero => exact hv.elim
  | succ m => exact ⟨m, rfl⟩

theorem HeightLe.succ (hv : h.HeightLe n v) : h.HeightLe (n + 1) v := by
  induction n generalizing v with
  | zero =>
    cases v with
    | none => exact heightLe_none
    | some o => exact hv.elim
  | succ n ih =>
    cases v with
    | none => exact heightLe_none
    | some o => exact fun x hx => ih (hv x hx)

theorem HeightLe.mono (hv : h.HeightLe n v) (hm : n ≤ m) : h.HeightLe m v := by
  induction hm with
  | refl => exact hv
  | step _ ih => exact ih.succ

theorem HeightLe.leads (hv : h.HeightLe n v) (ho : h.Leads v o) : h.HeightLe n (some o) := by
  induction ho generalizing n with
  | self => exact hv
  | part hx _ ih =>
    obtain ⟨n, rfl⟩ := hv.pos
    exact (ih (hv.part hx)).succ

/-- **A value of some height leads into no cycle.** -/
theorem HeightLe.not_leads (ho : h.HeightLe n (some o)) (hx : x ∈ (h.node o).parts) :
    ¬h.Leads x o := by
  induction n with
  | zero => exact ho.elim
  | succ n ih => exact fun hl => ih ((ho.part hx).leads hl) hl

/-- A leaf has no parts. -/
theorem heightLe_of_leaf {a : Leaf} (ha : h.node o = .leaf a) : h.HeightLe 1 (some o) := by
  intro x hx
  simp [ha, Node.parts] at hx

/-! ## Bounds -/

theorem node_of_size_le (ho : h.size ≤ o) : h.node o = .leaf (.bool false) := by
  have ho' : h.nodes.size ≤ o := ho
  simp [node, Array.getD_eq_getD_getElem?, ho']

theorem lt_size_of_part (hx : x ∈ (h.node o).parts) : o < h.size := by
  by_contra ho
  simp [node_of_size_le (Nat.le_of_not_lt ho), Node.parts] at hx

theorem entries_of_size_le (ho : h.size ≤ o) : h.entries o = [] := by
  simp [entries, node_of_size_le ho]

/-- Whether a value leads into no cycle. -/
def Acyclic (h : Heap) (v : Value) : Prop :=
  ∀ o, h.Leads v o → ∀ x ∈ (h.node o).parts, ¬h.Leads x o

theorem Acyclic.part (ho : h.Acyclic (some o)) (hx : x ∈ (h.node o).parts) : h.Acyclic x :=
  fun p hp => ho p (.part hx hp)

theorem HeightLe.acyclic (hv : h.HeightLe n v) : h.Acyclic v :=
  fun _ ho _ hx => (hv.leads ho).not_leads hx

/-- A way down that meets no object twice is no longer than there are objects with parts. -/
theorem Acyclic.heightLe_of_card_le (hv : h.Acyclic v) {s : Finset ObjId}
    (hs : ∀ o, h.Leads v o → ∀ x ∈ (h.node o).parts, o ∈ s) (hn : s.card ≤ n) :
    h.HeightLe (n + 1) v := by
  induction n generalizing v s with
  | zero =>
    cases v with
    | none => exact heightLe_none
    | some o =>
      intro x hx
      rw [Finset.card_eq_zero.1 (Nat.le_zero.1 hn)] at hs
      exact absurd (hs o .self x hx) (Finset.notMem_empty o)
  | succ n ih =>
    cases v with
    | none => exact heightLe_none
    | some o =>
      intro x hx
      have ho := hs o .self x hx
      refine ih (hv.part hx) (s := s.erase o) (fun p hp y hy => ?_) ?_
      · -- the object is not met again
        have hne : p ≠ o := fun he => hv o .self x hx (he ▸ hp)
        exact Finset.mem_erase.2 ⟨hne, hs p (.part hx hp) y hy⟩
      · rw [Finset.card_erase_of_mem ho]
        exact Nat.sub_le_of_le_add hn

/-- **A value that leads into no cycle is no higher than there are objects**, if one more is
    counted for a name that has none. -/
theorem Acyclic.heightLe (hv : h.Acyclic v) : h.HeightLe (h.size + 1) v :=
  hv.heightLe_of_card_le (s := Finset.range h.size)
    (fun _ _ _ hx => Finset.mem_range.2 (lt_size_of_part hx)) (Finset.card_range _).le

theorem HeightLe.le_size (hv : h.HeightLe n v) : h.HeightLe (h.size + 1) v := hv.acyclic.heightLe

end Heap

end GraphWire
