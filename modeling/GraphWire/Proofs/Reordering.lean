/-
  Containers in another order.

  An unordered container may be walked in any order, and in another one each time it is
  built; an ordered one keeps the order in which it was filled.  Neither is seen by equality.

  * `Heap.Shuffled` says that two heaps differ in the order of containers only,
    `Heap.Reordered` in that of unordered ones;
  * `Heap.Shuffled.tidy` and `Heap.Shuffled.equal_iff`: keys that differ in one of them
    differ in the other, and values that are equal in one are equal in the other.
-/
import GraphWire.Proofs.Equality
import GraphWire.Proofs.Mirroring

namespace GraphWire

/-- Whether an object is another, or the same container in another order. -/
inductive Node.Shuffled : Node → Node → Prop
  | refl (n : Node) : Shuffled n n
  | container {c c' : Container} : c'.type = c.type → c.entries.Perm c'.entries →
      Shuffled (.container c) (.container c')

namespace Node.Shuffled

variable {n n' : Node} {c : Container}

theorem symm (hn : n.Shuffled n') : n'.Shuffled n := by
  cases hn with
  | refl => exact .refl n
  | container ht hp => exact .container ht.symm hp.symm

theorem type_eq (hn : n.Shuffled n') : n'.type = n.type := by
  cases hn with
  | refl => rfl
  | container ht => exact congrArg ObjectType.container ht

theorem parts (hn : n.Shuffled n') : n.parts.Perm n'.parts := by
  cases hn with
  | refl => exact .refl _
  | container _ hp => exact hp.flatMap_right _

theorem small (hn : n.Shuffled n') (hs : n.Small) : n'.Small := by
  cases hn with
  | refl => exact hs
  | container _ hp => exact hp.length_eq.symm.trans_lt hs

theorem exists_container (hn : Shuffled (.container c) n') :
    ∃ c', n' = .container c' ∧ c'.type = c.type ∧ c.entries.Perm c'.entries := by
  cases hn with
  | refl => exact ⟨c, rfl, rfl, .refl _⟩
  | container ht hp => exact ⟨_, rfl, ht, hp⟩

theorem eq (hn : n.Shuffled n') (hc : ∀ c, n ≠ .container c) : n' = n := by
  cases hn with
  | refl => rfl
  | container => exact absurd rfl (hc _)

end Node.Shuffled

namespace Heap

/-- Whether two heaps differ in the order of containers only. -/
def Shuffled (h h' : Heap) : Prop := ∀ o, (h.node o).Shuffled (h'.node o)

variable {h h' : Heap} {v w : Value} {o p : ObjId} {n : Nat}

theorem Shuffled.refl (h : Heap) : h.Shuffled h := fun _ => .refl _

namespace Shuffled

theorem symm (hr : h.Shuffled h') : h'.Shuffled h := fun o => (hr o).symm

theorem node_eq (hr : h.Shuffled h') {m : Node} (hm : h.node o = m)
    (hc : ∀ c, m ≠ .container c) : h'.node o = m :=
  ((hr o).eq (hm ▸ hc)).trans hm

theorem typeOf_eq (hr : h.Shuffled h') (o : ObjId) : h'.typeOf o = h.typeOf o := (hr o).type_eq

theorem mem_parts (hr : h.Shuffled h') {x : Value} :
    x ∈ (h'.node o).parts ↔ x ∈ (h.node o).parts :=
  (hr o).parts.mem_iff.symm

theorem entries (hr : h.Shuffled h') (o : ObjId) : (h.entries o).Perm (h'.entries o) := by
  have hn := hr o
  unfold Heap.entries
  generalize h.node o = n, h'.node o = n' at hn ⊢
  cases hn with
  | refl => exact .refl _
  | container _ hp => exact hp

theorem leads (hr : h.Shuffled h') (hl : h.Leads v o) : h'.Leads v o := by
  induction hl with
  | self => exact .self
  | part hx _ ih => exact .part (hr.mem_parts.2 hx) ih

theorem heightLe (hr : h.Shuffled h') (hv : h.HeightLe n v) : h'.HeightLe n v := by
  induction n generalizing v with
  | zero =>
    cases v with
    | none => exact heightLe_none
    | some o => exact hv.elim
  | succ n ih =>
    cases v with
    | none => exact heightLe_none
    | some o => exact fun x hx => ih (hv.part (hr.mem_parts.1 hx))

theorem hashInput_eq (hr : h.Shuffled h') (v : Value) : h'.hashInput v = h.hashInput v := by
  cases v with
  | none => rfl
  | some o =>
    have hn := hr o
    generalize hm : h.node o = n, hm' : h'.node o = n' at hn
    cases hn with
    | refl => simp only [hashInput, hm, hm']
    | container ht => exact hashInput_eq_of_type hm' hm ht

end Shuffled

/-- Whether what is tidy stays so up to a height, and what is equal, in whatever order
    containers are. -/
def Unmoved (n : Nat) : Prop := ∀ {h h' : Heap} {v : Value}, h.Shuffled h' → h.HeightLe n v →
  h.Tidy v → h'.Tidy v ∧ ∀ w, h.HeightLe n w → h.Tidy w → h.equal none v w = true →
    h'.equal none v w = true

namespace Unmoved

theorem sameKey (hn : Unmoved n) (hr : h.Shuffled h') (hv : h.HeightLe n v)
    (hw : h.HeightLe n w) (tv : h.Tidy v) (tw : h.Tidy w) (hs : h.sameKey none v w = true) :
    h'.sameKey none v w = true := by
  rw [sameKey_iff] at hs ⊢
  rw [hr.hashInput_eq, hr.hashInput_eq]
  exact ⟨(hn hr hv tv).2 w hw tw hs.1, hs.2⟩

/-- Keys that differ still do, in any order. -/
theorem apart (hn : Unmoved n) (hr : h.Shuffled h') {l l' : List Entry} (hp : l.Perm l')
    (hl : ∀ e ∈ l, h.HeightLe n e.1 ∧ h.Tidy e.1) (ha : h.Apart l) : h'.Apart l' := by
  -- in the new heap they are the same no sooner than in the old one
  have hback : ∀ e ∈ l, ∀ e' ∈ l, h.sameKey none e'.1 e.1 = false →
      h'.sameKey none e'.1 e.1 = false := by
    intro e he e' he' hne
    refine Bool.eq_false_iff.2 fun hs => Bool.eq_false_iff.1 hne ?_
    exact hn.sameKey hr.symm (hr.heightLe (hl e' he').1) (hr.heightLe (hl e he).1)
      (hn hr (hl e' he').1 (hl e' he').2).1 (hn hr (hl e he).1 (hl e he).2).1 hs
  have hsymm : ∀ e ∈ l, ∀ e' ∈ l, h.sameKey none e'.1 e.1 = false →
      h.sameKey none e.1 e'.1 = false := by
    intro e he e' he' hne
    refine Bool.eq_false_iff.2 fun hs => Bool.eq_false_iff.1 hne ?_
    rw [sameKey_iff] at hs ⊢
    exact ⟨(hl e he).1.equal_symm (hl e' he').1 (hl e he).2 (hl e' he').2 hs.1, hs.2.symm⟩
  have hboth : l.Pairwise fun e e' =>
      h'.sameKey none e'.1 e.1 = false ∧ h'.sameKey none e.1 e'.1 = false :=
    ha.imp_of_mem fun he he' hne => ⟨hback _ he _ he' hne, hback _ he' _ he (hsymm _ he _ he' hne)⟩
  exact (hp.pairwise hboth And.symm).imp And.left

theorem tidy_succ (hn : Unmoved n) (hr : h.Shuffled h') (hv : h.HeightLe (n + 1) (some o))
    (tv : h.Tidy (some o)) : h'.Tidy (some o) := by
  intro p hp
  cases hp with
  | self =>
    refine hn.apart hr (hr.entries o) (fun e he => ?_) (tv o .self)
    have hpart := fst_mem_parts_of_entries he
    exact ⟨hv.part hpart, tv.part hpart⟩
  | part hx hp =>
    rw [hr.mem_parts] at hx
    exact (hn hr (hv.part hx) (tv.part hx)).1 p hp

/-- **Objects that are alike still are**, each entry finding the one that it found. -/
theorem alike (hn : Unmoved n) (hr : h.Shuffled h') (hv : h.HeightLe (n + 1) (some o))
    (hw : h.HeightLe (n + 1) (some p)) (tv : h.Tidy (some o)) (tw : h.Tidy (some p))
    (he : h.Alike o p) : h'.Alike o p := by
  cases he with
  | leaf ha hb he => exact .leaf (hr.node_eq ha (by simp)) (hr.node_eq hb (by simp)) he
  | octet ha hb => exact .octet (hr.node_eq ha (by simp)) (hr.node_eq hb (by simp))
  | @container c d hc hd ht hl he =>
    obtain ⟨c', hc', htc, hcc⟩ := (hc ▸ hr o).exists_container
    obtain ⟨d', hd', htd, hdd⟩ := (hd ▸ hr p).exists_container
    refine .container hc' hd' (htc.trans (ht.trans htd.symm))
      (hcc.length_eq.symm.trans (hl.trans hdd.length_eq)) fun e hm => ?_
    have hm := hcc.mem_iff.2 hm
    obtain ⟨x, hx, hex⟩ := he e hm
    obtain ⟨k, hk, hek⟩ := Entries.mem_of_find? hx
    have m₁ := fst_mem_parts hc hm
    have m₁' := snd_mem_parts hc hm
    have m₂ := fst_mem_parts hd hk
    have m₂' := snd_mem_parts hd hk
    have hsame := hn.sameKey hr (hv.part m₁) (hw.part m₂) (tv.part m₁) (tw.part m₂) hek
    exact ⟨x, (h'.settled n).find? (hr.heightLe hw) (hn.tidy_succ hr hw tw) hd'
      (hr.heightLe (hv.part m₁)) (hn hr (hv.part m₁) (tv.part m₁)).1 (hdd.mem_iff.1 hk) hsame,
      (hn hr (hv.part m₁') (tv.part m₁')).2 x (hw.part m₂') (tw.part m₂') hex⟩
  | @record fs gs hf hg he =>
    have hfs : ∀ x ∈ fs, x ∈ (h.node o).parts := by simp [hf, Node.parts]
    have hgs : ∀ x ∈ gs, x ∈ (h.node p).parts := by simp [hg, Node.parts]
    obtain ⟨hl, hz⟩ := List.forall₂_iff_zip.1 he
    refine .record (hr.node_eq hf (by simp)) (hr.node_eq hg (by simp))
      (List.forall₂_iff_zip.2 ⟨hl, fun {x y} hm => ?_⟩)
    have hx := hfs x (List.of_mem_zip hm).1
    have hy := hgs y (List.of_mem_zip hm).2
    exact (hn hr (hv.part hx) (tv.part hx)).2 y (hw.part hy) (tw.part hy) (hz hm)

end Unmoved

/-- The order of containers moves nothing, at any height. -/
theorem unmoved (n : Nat) : Unmoved n := by
  induction n with
  | zero =>
    intro h h' v hr hv _
    cases v with
    | none =>
      exact ⟨fun o ho => (by cases ho), fun w _ _ he => equal_none_left.2 (equal_none_left.1 he)⟩
    | some o => exact hv.elim
  | succ n ih =>
    intro h h' v hr hv tv
    refine ⟨?_, fun w hw tw he => ?_⟩
    · cases v with
      | none => exact fun o ho => (by cases ho)
      | some o => exact ih.tidy_succ hr hv tv
    cases v with
    | none => exact equal_none_left.2 (equal_none_left.1 he)
    | some o =>
      cases w with
      | none => cases equal_none_right.1 he
      | some p =>
        rcases (equal_iff hv).1 he with rfl | he
        · exact equal_self
        · exact (equal_iff (hr.heightLe hv)).2 (Or.inr (ih.alike hr hv hw tv tw he))

/-- **Keys that differ do so in any order.** -/
theorem Shuffled.tidy (hr : h.Shuffled h') (hv : h.HeightLe n v) (tv : h.Tidy v) :
    h'.Tidy v :=
  (unmoved n hr hv tv).1

/-- **Values are equal in one order if they are in another.** -/
theorem Shuffled.equal_iff (hr : h.Shuffled h') (hv : h.HeightLe n v) (hw : h.HeightLe n w)
    (tv : h.Tidy v) (tw : h.Tidy w) :
    h'.equal none v w = true ↔ h.equal none v w = true := by
  refine ⟨fun he => ?_, (unmoved n hr hv tv).2 w hw tw⟩
  exact (unmoved n hr.symm (hr.heightLe hv) (hr.tidy hv tv)).2 w (hr.heightLe hw) (hr.tidy hw tw) he

end Heap

/-! ## Unordered containers -/

/-- Whether an object is another, or the same unordered container in another order. -/
inductive Node.Reordered : Node → Node → Prop
  | refl (n : Node) : Reordered n n
  | hash {t t' : HashTable Value} : t.slots.Perm t'.slots →
      Reordered (.container (.hash t)) (.container (.hash t'))

theorem Node.Reordered.shuffled {n n' : Node} (hn : n.Reordered n') : n.Shuffled n' := by
  cases hn with
  | refl => exact .refl n
  | hash hp => exact .container rfl hp

namespace Heap

variable {h h' : Heap}

/-- Whether two heaps differ in the order of unordered containers only. -/
def Reordered (h h' : Heap) : Prop := ∀ o, (h.node o).Reordered (h'.node o)

theorem Reordered.refl (h : Heap) : h.Reordered h := fun _ => .refl _

theorem Reordered.shuffled (hr : h.Reordered h') : h.Shuffled h' := fun o => (hr o).shuffled

end Heap

end GraphWire
