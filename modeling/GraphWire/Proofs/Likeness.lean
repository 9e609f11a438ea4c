/-
  Likeness of graphs.

  * `Heap.Isomorphic`: two values lead to containers that correspond one to one,
    so that their types and entries do; sharing and cycles have one shape;
  * `Heap.SameTree`: two values unfold into the same finite tree;
  * both follow if the values are related by a relation under which values match,
    and so do those that they lead to (`Heap.Matching`);
  * `Rebuilds.isomorphic`, `Rebuilds.sameTree`: what a value is rebuilt as is like
    it if no entry is lost.

  Entries correspond in their order if the containers are ordered.
-/
import GraphWire.Proofs.Images
import Mathlib.Data.Set.Function

namespace GraphWire

/-- Whether two containers have one type and related entries, in the same order if
    the containers are ordered. -/
def Container.Like (R : Value → Value → Prop) (c c' : Container) : Prop :=
  c'.type = c.type ∧ ∃ l, l.Perm c'.entries ∧ (c.type ≠ .hash → l = c'.entries) ∧
    List.Forall₂ (fun e e' => R e.1 e'.1 ∧ R e.2 e'.2) c.entries l

theorem Container.Like.of_forall₂ {R : Value → Value → Prop} {c c' : Container}
    (ht : c'.type = c.type)
    (he : List.Forall₂ (fun e e' => R e.1 e'.1 ∧ R e.2 e'.2) c.entries c'.entries) :
    c.Like R c' :=
  ⟨ht, c'.entries, .refl _, fun _ => rfl, he⟩

namespace Heap

/-- Whether the second value corresponds to the first, where containers do by a
    function: leaves have one type and the same bits. -/
inductive Image (h h' : Heap) (f : ObjId → ObjId) : Value → Value → Prop
  | null : Image h h' f none none
  | leaf {o p : ObjId} {a : Leaf} : h.node o = .leaf a → h'.node p = .leaf a →
      Image h h' f (some o) (some p)
  | container {o : ObjId} {c : Container} : h.node o = .container c →
      Image h h' f (some o) (some (f o))

/-- Whether two values lead to graphs of one shape. -/
def Isomorphic (h h' : Heap) (v w : Value) : Prop :=
  ∃ f : ObjId → ObjId, Set.BijOn f (h.containersOf v) (h'.containersOf w) ∧ Image h h' f v w ∧
    ∀ o ∈ h.containersOf v, ∃ c c', h.node o = .container c ∧ h'.node (f o) = .container c' ∧
      c.Like (Image h h' f) c'

/-- Whether two values unfold into the same tree, of at most some height. -/
def SameTreeAt (h h' : Heap) : Nat → Value → Value → Prop
  | _, none, none => True
  | n + 1, some o, some p =>
    (∃ a, h.node o = .leaf a ∧ h'.node p = .leaf a) ∨
      ∃ c c', h.node o = .container c ∧ h'.node p = .container c' ∧ c.Like (SameTreeAt h h' n) c'
  | _, _, _ => False

/-- Whether two values unfold into the same finite tree. -/
def SameTree (h h' : Heap) (v w : Value) : Prop := ∃ n, SameTreeAt h h' n v w

end Heap

/-! ## Matchings -/

namespace Heap

/-- Whether two values match as far as can be seen, where those that they lead to
    are related. -/
inductive Matched (h h' : Heap) (R : Value → Value → Prop) : Value → Value → Prop
  | null : Matched h h' R none none
  | leaf {o p : ObjId} {a : Leaf} : h.node o = .leaf a → h'.node p = .leaf a →
      Matched h h' R (some o) (some p)
  | container {o p : ObjId} {c c' : Container} : h.node o = .container c →
      h'.node p = .container c' → c'.type = c.type →
      List.Forall₂ (fun e e' => R e.1 e'.1 ∧ R e.2 e'.2) c.entries c'.entries →
      Matched h h' R (some o) (some p)

/-- Whether values that are related match, and so do those that they lead to. -/
def Matching (h h' : Heap) (R : Value → Value → Prop) : Prop :=
  ∀ v w, R v w → Matched h h' R v w

/-- Whether no container is related to two others, and none are related to one. -/
def OneToOne (h : Heap) (R : Value → Value → Prop) : Prop :=
  ∀ o p o' p', R (some o) (some p) → R (some o') (some p') →
    (∃ c, h.node o = .container c) → (o = o' ↔ p = p')

namespace Matching

variable {h h' : Heap} {R : Value → Value → Prop} {v w : Value} {o p : ObjId}

theorem container (hR : Matching h h' R) (hop : R (some o) (some p)) {c : Container}
    (hc : h.node o = .container c) : ∃ c', h'.node p = .container c' ∧ c'.type = c.type ∧
      List.Forall₂ (fun e e' => R e.1 e'.1 ∧ R e.2 e'.2) c.entries c'.entries := by
  cases hR _ _ hop with
  | leaf ha _ => cases hc.symm.trans ha
  | container hd hd' ht he =>
    cases hc.symm.trans hd
    exact ⟨_, hd', ht, he⟩

protected theorem swap (hR : Matching h h' R) : Matching h' h fun w v => R v w := by
  intro w v hvw
  cases hR v w hvw with
  | null => exact .null
  | leaf ha ha' => exact .leaf ha' ha
  | container hc hc' ht he => exact .container hc' hc ht.symm he.flip

/-- Wherever the one of two related values leads, there the other does too. -/
theorem leads (hR : Matching h h' R) (hvw : R v w) (hl : h.Leads v o) :
    ∃ p, h'.Leads w p ∧ R (some o) (some p) := by
  induction hl generalizing w with
  | @self o =>
    cases w with
    | none => cases hR _ _ hvw
    | some p => exact ⟨p, .self, hvw⟩
  | @part o x q hx _ ih =>
    cases hR _ _ hvw with
    | leaf ha _ => simp [ha, Node.parts] at hx
    | container hc hc' ht he =>
      obtain ⟨e, hm, hxe⟩ := (mem_parts_container hc).1 hx
      obtain ⟨e', hm', hk, hy⟩ := forall₂_mem_left he e hm
      rcases hxe with rfl | rfl
      · obtain ⟨q', hq', hr⟩ := ih hk
        exact ⟨q', .part (fst_mem_parts hc' hm') hq', hr⟩
      · obtain ⟨q', hq', hr⟩ := ih hy
        exact ⟨q', .part (snd_mem_parts hc' hm') hq', hr⟩

/-! ### Graphs of one shape -/

section
variable (hR : Matching h h' R) {f : ObjId → ObjId}
  (hf : ∀ o p, (∃ c, h.node o = .container c) → R (some o) (some p) → f o = p)
include hR hf

theorem image (hvw : R v w) : Image h h' f v w := by
  cases hR v w hvw with
  | null => exact .null
  | leaf ha ha' => exact .leaf ha ha'
  | container hc => exact hf _ _ ⟨_, hc⟩ hvw ▸ .container hc

variable (hvw : R v w)
include hvw

theorem image_mem (ho : o ∈ h.containersOf v) : h'.Leads w (f o) ∧ R (some o) (some (f o)) := by
  obtain ⟨hl, hc⟩ := ho
  obtain ⟨p, hp, hop⟩ := hR.leads hvw hl
  obtain rfl := hf o p hc hop
  exact ⟨hp, hop⟩

variable (hone : OneToOne h R)
include hone

/-- Containers that are related one to one correspond by the function. -/
theorem bijOn : Set.BijOn f (h.containersOf v) (h'.containersOf w) := by
  refine ⟨?_, ?_, ?_⟩
  · intro o ho
    obtain ⟨hl, hop⟩ := hR.image_mem hf hvw ho
    obtain ⟨_, hc⟩ := ho.2
    obtain ⟨c', hc', -⟩ := hR.container hop hc
    exact ⟨hl, c', hc'⟩
  · intro o ho o' ho' he
    exact (hone _ _ _ _ (hR.image_mem hf hvw ho).2 (hR.image_mem hf hvw ho').2 ho.2).2 he
  · rintro p ⟨hp, c', hp'⟩
    obtain ⟨o, ho, hop⟩ := hR.swap.leads hvw hp
    obtain ⟨c, hc, -⟩ := hR.swap.container hop hp'
    exact ⟨o, ⟨ho, c, hc⟩, hf o p ⟨c, hc⟩ hop⟩

/-- **Values that match one to one lead to graphs of one shape.** -/
theorem isomorphic_by : h.Isomorphic h' v w := by
  refine ⟨f, hR.bijOn hf hvw hone, hR.image hf hvw, fun o ho => ?_⟩
  obtain ⟨c, hc⟩ := ho.2
  obtain ⟨c', hc', ht, he⟩ := hR.container (hR.image_mem hf hvw ho).2 hc
  exact ⟨c, c', hc, hc', .of_forall₂ ht (he.imp fun _ _ hee =>
    ⟨hR.image hf hee.1, hR.image hf hee.2⟩)⟩

end

/-! ### The same tree -/

/-- **Values that match unfold into the same tree**, if the first has some height. -/
theorem sameTreeAt {n : Nat} (hR : Matching h h' R) (hv : h.HeightLe n v) (hvw : R v w) :
    SameTreeAt h h' n v w := by
  induction n generalizing v w with
  | zero =>
    cases hR v w hvw with
    | null => trivial
    | leaf => exact hv.elim
    | container => exact hv.elim
  | succ n ih =>
    cases hR v w hvw with
    | null => trivial
    | leaf ha ha' => exact Or.inl ⟨_, ha, ha'⟩
    | container hc hc' ht he =>
      refine Or.inr ⟨_, _, hc, hc', .of_forall₂ ht (forall₂_imp_of_mem he fun e hm e' hee => ?_)⟩
      exact ⟨ih (hv.part (fst_mem_parts hc hm)) hee.1, ih (hv.part (snd_mem_parts hc hm)) hee.2⟩

end Matching

end Heap

/-! ## What is rebuilt -/

namespace Draft

variable {m : Manner} {h : Heap} {d : Draft} {v w : Value} {o p : ObjId}

/-- What a container was rebuilt as, if it was. -/
def imageOf (d : Draft) (o : ObjId) : ObjId := (d.images.lookup o).getD 0

theorem imageOf_eq (hn : (d.images.map Prod.fst).Nodup) (hm : (o, p) ∈ d.images) :
    d.imageOf o = p := by
  rw [imageOf, lookup_of_mem hn hm]
  rfl

/-- **Values match what stands for them** once all images are finished. -/
theorem Covered.matching (hc : d.Covered h []) (hd : d.Valid m h) :
    h.Matching d.heap d.Stands := by
  intro v w hs
  cases v with
  | none =>
    cases hs
    exact .null
  | some o =>
    cases w with
    | none => cases hs
    | some p =>
      rcases hd.nodes hs with ⟨c, c', hm, hn, hn', ht⟩ | ⟨a, -, ha, ha'⟩
      · have hp := hc o p hm List.not_mem_nil
        rw [Heap.entries_of_node hn, Heap.entries_of_node hn'] at hp
        exact .container hn hn' ht hp
      · exact .leaf ha ha'

theorem Valid.mem_of_stands (hd : d.Valid m h) (ho : ∃ c, h.node o = .container c)
    (hs : d.Stands (some o) (some p)) : (o, p) ∈ d.images := by
  obtain ⟨c, hc⟩ := ho
  rcases hd.nodes hs with ⟨-, -, hm, -⟩ | ⟨a, -, ha, -⟩
  · exact hm
  · cases hc.symm.trans ha

theorem Valid.imageOf_of_stands (hd : d.Valid m h) (hn : (d.images.map Prod.fst).Nodup)
    (o p : ObjId) (ho : ∃ c, h.node o = .container c) (hs : d.Stands (some o) (some p)) :
    d.imageOf o = p :=
  imageOf_eq hn (hd.mem_of_stands ho hs)

/-- Containers stand for one another one to one if each is rebuilt once. -/
theorem Valid.oneToOne (hd : d.Valid m h) (hn : (d.images.map Prod.fst).Nodup) :
    h.OneToOne d.Stands := by
  intro o p o' p' hs hs' ho
  constructor
  · rintro rfl
    exact (hd.imageOf_of_stands hn o p ho hs).symm.trans (hd.imageOf_of_stands hn o p' ho hs')
  · rintro rfl
    exact Option.some.inj (hd.stands_unique hs hs')

end Draft

namespace Rebuilds

variable {m : Manner} {h h₀ : Heap} {v w : Value} {d : Draft}

/-- **No entry of a well-keyed graph is lost.** -/
theorem lost_eq_nil (hr : Rebuilds m h (.value v) (.start h₀) w d) (hw : h.WellKeyed v) :
    d.lost = [] := by
  have hb : ∀ b ∈ ([] : List (ObjId × ObjId)), b ∈ (Draft.start h₀).images := by simp
  exact hr.lost_eq (Draft.valid_start h₀) trivial hb (by simp [Draft.Covered, Draft.start])
    ⟨hw, by simp⟩

theorem covered_of_lost (hr : Rebuilds m h (.value v) (.start h₀) w d) (hl : d.lost = []) :
    d.Covered h [] ∧ d.Stands v w :=
  hr.covered (Draft.valid_start h₀) trivial (hl.trans rfl) (by simp [Task.target])
    (by simp [Draft.Covered, Draft.start])

/-- **A graph that shares is rebuilt in its shape** unless an entry is lost. -/
theorem isomorphic (hr : Rebuilds m h (.value v) (.start h₀) w d) (hm : m.shares = true)
    (hl : d.lost = []) : Heap.Isomorphic h d.heap v w := by
  have hd := hr.valid (Draft.valid_start h₀) trivial
  have hn := hd.shared hm
  obtain ⟨hc, hs⟩ := hr.covered_of_lost hl
  exact (hc.matching hd).isomorphic_by (hd.imageOf_of_stands hn) hs (hd.oneToOne hn)

/-- **A value of some height is rebuilt as the same tree** unless an entry is lost. -/
theorem sameTree (hr : Rebuilds m h (.value v) (.start h₀) w d) {n : Nat} (hv : h.HeightLe n v)
    (hl : d.lost = []) : Heap.SameTree h d.heap v w := by
  obtain ⟨hc, hs⟩ := hr.covered_of_lost hl
  exact ⟨n, (hc.matching (hr.valid (Draft.valid_start h₀) trivial)).sameTreeAt hv hs⟩

end Rebuilds

/-- **Only values of some height can be rebuilt without sharing.** -/
theorem Rebuilds.exists_height {m : Manner} {h : Heap} {t : Task} {d d' : Draft} {w : Value}
    (hr : Rebuilds m h t d w d') (hm : m.shares = false) :
    ∃ n, ∀ v ∈ t.values, h.HeightLe n v := by
  induction hr with
  | null => exact ⟨0, by simp [Task.values, Heap.heightLe_none]⟩
  | met h => simp [Draft.met, hm] at h
  | unmet _ _ ih => exact ih
  | leaf _ ha => exact ⟨1, by simpa [Task.values] using Heap.heightLe_of_leaf ha⟩
  | sameLeaf _ ha => exact ⟨1, by simpa [Task.values] using Heap.heightLe_of_leaf ha⟩
  | container hc _ ih =>
    obtain ⟨n, hn⟩ := ih
    refine ⟨n + 1, ?_⟩
    simp only [Task.values, List.mem_singleton, forall_eq]
    intro x hx
    refine hn x ?_
    simpa [Node.parts, hc, Task.values] using hx
  | nil => exact ⟨0, by simp [Task.values]⟩
  | cons _ _ _ ihk ihv ihl =>
    obtain ⟨n₁, h₁⟩ := ihk
    obtain ⟨n₂, h₂⟩ := ihv
    obtain ⟨n₃, h₃⟩ := ihl
    refine ⟨max n₁ (max n₂ n₃), ?_⟩
    simp only [Task.values, List.mem_singleton, forall_eq] at h₁ h₂
    simp only [Task.values, List.flatMap_cons, List.cons_append, List.nil_append,
      List.forall_mem_cons]
    exact ⟨h₁.mono (by omega), h₂.mono (by omega), fun v hv => (h₃ v hv).mono (by omega)⟩

end GraphWire
