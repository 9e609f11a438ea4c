/-
  Unfoldings.

  A value unfolds into an ordered tree in which nothing is shared any more; the tree is
  infinite if the value leads into a cycle, so it is seen down to any depth
  (`Heap.unfold`).

  Two values of ordered graphs are alike by a relation that matches them:

  * `Heap.Matching.sameUnfolding`, `Heap.matching_of_sameUnfolding`: they unfold alike
    iff there is one;
  * `Heap.Matching.isomorphic`, `Heap.Isomorphic.exists_matching`: they have one shape
    iff there is one that relates containers one to one.
-/
import GraphWire.Proofs.Likeness

namespace GraphWire

/-- What is seen of the tree that a value unfolds into. -/
inductive Tree where
  /-- What lies deeper than is looked. -/
  | cut
  | null
  | leaf (a : Leaf)
  | container (type : ContainerType) (entries : List (Tree × Tree))
  /-- An object that is neither a leaf nor a container. -/
  | other (type : ObjectType)

/-- Whether an object is a leaf or a container whose entries have an order. -/
def Node.Ordered : Node → Prop
  | .leaf _ => True
  | .container c => c.type ≠ .hash
  | _ => False

instance : DecidablePred Node.Ordered
  | .leaf _ => inferInstanceAs (Decidable True)
  | .container c => inferInstanceAs (Decidable (c.type ≠ .hash))
  | .octet _ | .record _ => inferInstanceAs (Decidable False)

namespace Heap

/-- What is seen of the tree that a value unfolds into, so many objects deep. -/
def unfold (h : Heap) : (depth : Nat) → Value → Tree
  | _, none => .null
  | 0, some _ => .cut
  | depth + 1, some o =>
    match h.node o with
    | .leaf a => .leaf a
    | .container c => .container c.type
      (c.entries.map fun e => (unfold h depth e.1, unfold h depth e.2))
    | n => .other n.type

/-- Whether two values unfold into the same ordered tree, finite or not. -/
def SameUnfolding (h h' : Heap) (v w : Value) : Prop :=
  ∀ depth, h.unfold depth v = h'.unfold depth w

/-- Whether a value leads to leaves and ordered containers only. -/
def Ordered (h : Heap) (v : Value) : Prop := ∀ o, h.Leads v o → (h.node o).Ordered

variable {h h' : Heap} {R : Value → Value → Prop} {v w x : Value} {o p : ObjId}

theorem Ordered.part (hv : h.Ordered (some o)) (hx : x ∈ (h.node o).parts) : h.Ordered x :=
  fun q hq => hv q (.part hx hq)

/-! ## Matchings and unfoldings -/

/-- **Values that match unfold alike.** -/
theorem Matching.sameUnfolding (hR : Matching h h' R) (hvw : R v w) : h.SameUnfolding h' v w := by
  intro depth
  induction depth generalizing v w with
  | zero => cases hR v w hvw <;> rfl
  | succ depth ih =>
    cases hR v w hvw with
    | null => rfl
    | leaf ha ha' => simp only [unfold, ha, ha']
    | container hc hc' ht he =>
      simp only [unfold, hc, hc', ht]
      congr 1
      refine List.forall₂_eq_eq_eq ▸ List.forall₂_map_left_iff.2 (List.forall₂_map_right_iff.2 ?_)
      exact he.imp fun _ _ hee => Prod.ext (ih hee.1) (ih hee.2)

theorem SameUnfolding.eq_none (hs : h.SameUnfolding h' v w) : v = none ↔ w = none := by
  have h0 := hs 0
  cases v <;> cases w <;> simp [unfold] at h0 ⊢

/-- Lists whose entries have the same trees at every depth have them pairwise. -/
theorem forall₂_of_unfold {l l' : List Entry}
    (hl : ∀ depth, l.map (fun e => (h.unfold depth e.1, h.unfold depth e.2)) =
      l'.map fun e => (h'.unfold depth e.1, h'.unfold depth e.2)) :
    List.Forall₂ (fun e e' => h.SameUnfolding h' e.1 e'.1 ∧ h.SameUnfolding h' e.2 e'.2) l l' := by
  induction l generalizing l' with
  | nil =>
    cases l' with
    | nil => exact .nil
    | cons e' l' => simpa using hl 0
  | cons e l ih =>
    cases l' with
    | nil => simpa using hl 0
    | cons e' l' =>
      simp only [List.map_cons, List.cons.injEq, Prod.mk.injEq] at hl
      exact .cons ⟨fun depth => (hl depth).1.1, fun depth => (hl depth).1.2⟩
        (ih fun depth => (hl depth).2)

/-- **Values of ordered graphs that unfold alike match.** -/
theorem matching_of_sameUnfolding :
    Matching h h' fun v w => h.SameUnfolding h' v w ∧ h.Ordered v := by
  rintro v w ⟨hs, hv⟩
  cases v with
  | none =>
    obtain rfl := hs.eq_none.1 rfl
    exact .null
  | some o =>
    cases w with
    | none => cases hs.eq_none.2 rfl
    | some p =>
      have hs' := fun depth => hs (depth + 1)
      simp only [unfold] at hs'
      cases ho : h.node o with
      | leaf a =>
        cases hp : h'.node p with
        | leaf b =>
          simp only [ho, hp, Tree.leaf.injEq, forall_const] at hs'
          exact .leaf ho (hs' ▸ hp)
        | octet | container | record => simp [ho, hp] at hs'
      | container c =>
        cases hp : h'.node p with
        | container c' =>
          simp only [ho, hp, Tree.container.injEq] at hs'
          refine .container ho hp (hs' 0).1.symm ?_
          refine forall₂_imp_of_mem (forall₂_of_unfold fun depth => (hs' depth).2) ?_
          intro e hm e' hee
          exact ⟨⟨hee.1, hv.part (fst_mem_parts ho hm)⟩, hee.2, hv.part (snd_mem_parts ho hm)⟩
        | octet | leaf | record => simp [ho, hp] at hs'
      | octet | record =>
        have hn := hv o .self
        rw [ho] at hn
        exact hn.elim

/-! ## Matchings and shapes -/

/-- **Values that match one to one have one shape.** -/
theorem Matching.isomorphic (hR : Matching h h' R) (hone : h.OneToOne R) (hvw : R v w) :
    h.Isomorphic h' v w := by
  obtain ⟨f, hf⟩ : ∃ f : ObjId → ObjId, ∀ o p, (∃ c, h.node o = .container c) →
      R (some o) (some p) → f o = p := by
    have hex : ∀ o, ∃ q, ∀ p, (∃ c, h.node o = .container c) → R (some o) (some p) → q = p := by
      intro o
      by_cases ho : ∃ q, R (some o) (some q)
      · obtain ⟨q, hq⟩ := ho
        exact ⟨q, fun p hc hp => (hone o q o p hq hp hc).1 rfl⟩
      · exact ⟨0, fun p _ hp => absurd ⟨p, hp⟩ ho⟩
    choose f hf using hex
    exact ⟨f, hf⟩
  exact hR.isomorphic_by hf hvw hone

/-- **Values of ordered graphs that have one shape match one to one.** -/
theorem Isomorphic.exists_matching (hi : h.Isomorphic h' v w) (hv : h.Ordered v) :
    ∃ R, Matching h h' R ∧ h.OneToOne R ∧ R v w := by
  obtain ⟨f, hbij, hroot, hent⟩ := hi
  -- what leads further than the value does may have an image that is no container
  let R : Value → Value → Prop := fun x y => Image h h' f x y ∧ ∀ o, h.Leads x o → h.Leads v o
  have hdone : ∀ {o p}, R (some o) (some p) → ∀ {c}, h.node o = .container c →
      o ∈ h.containersOf v ∧ p = f o := by
    rintro o p ⟨hi, hl⟩ c hc
    cases hi with
    | leaf ha _ => cases hc.symm.trans ha
    | container _ => exact ⟨⟨hl o .self, c, hc⟩, rfl⟩
  refine ⟨R, ?_, ?_, hroot, fun o => id⟩
  · rintro x y ⟨hi, hl⟩
    cases hi with
    | null => exact .null
    | leaf ha ha' => exact .leaf ha ha'
    | @container o c hc =>
      have ho := hl o .self
      obtain ⟨d, c', hd, hc', ht, l, -, hord, hlike⟩ := hent o ⟨ho, c, hc⟩
      cases hc.symm.trans hd
      have hnode := hv o ho
      rw [hc] at hnode
      obtain rfl := hord hnode
      refine .container hc hc' ht (forall₂_imp_of_mem hlike fun e hm e' hee => ?_)
      exact ⟨⟨hee.1, fun q hq => hl q (.part (fst_mem_parts hc hm) hq)⟩,
        hee.2, fun q hq => hl q (.part (snd_mem_parts hc hm) hq)⟩
  · rintro o p o' p' hop hop' ⟨c, hc⟩
    obtain ⟨hmem, rfl⟩ := hdone hop hc
    constructor
    · rintro rfl
      exact (hdone hop' hc).2.symm
    · intro hp
      obtain ⟨_, d, -, hd', -⟩ := hent o hmem
      rw [hp] at hd'
      have hc' : ∃ c', h.node o' = .container c' := by
        cases hop'.1 with
        | leaf _ ha => cases hd'.symm.trans ha
        | container hc' => exact ⟨_, hc'⟩
      obtain ⟨c', hc'⟩ := hc'
      obtain ⟨hmem', he⟩ := hdone hop' hc'
      exact hbij.injOn hmem hmem' (hp.trans he)

end Heap

end GraphWire
