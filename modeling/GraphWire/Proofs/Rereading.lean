/-
  A stream that is read again.

  What is read of a stream does not depend on what is there before: read into two heaps, it
  gives graphs of one shape.

  * `Heap.Matching.isomorphic_of_trees`: trees that match have one shape, since what matches
    lies at the same place;
  * `Engine.isomorphic_of_reread`: so two readings of what was written give graphs of one
    shape, and still do when more is read after.
-/
import GraphWire.Proofs.Fidelity
import GraphWire.Proofs.Sprouting
import GraphWire.Proofs.Unfolding

namespace GraphWire

/-! ## Matchings -/

/-- What is related to something that is related to something else. -/
theorem forall₂_comp {α β γ : Type} {R : α → β → Prop} {S : β → γ → Prop} {T : α → γ → Prop}
    {l : List α} {l' : List β} {l'' : List γ} (hl : List.Forall₂ R l l')
    (hl' : List.Forall₂ S l' l'') (hT : ∀ a b c, R a b → S b c → T a c) :
    List.Forall₂ T l l'' := by
  induction hl generalizing l'' with
  | nil =>
    cases hl'
    exact .nil
  | cons hab _ ih =>
    cases hl' with
    | cons hbc hl' => exact .cons (hT _ _ _ hab hbc) (ih hl')

namespace Heap

variable {h h' h'' : Heap} {R S : Value → Value → Prop} {v w : Value} {o p : ObjId}

namespace Matching

/-- Values that match what others match, match them. -/
theorem comp (hR : Matching h h' R) (hS : Matching h' h'' S) :
    Matching h h'' fun v w => ∃ x, R v x ∧ S x w := by
  rintro v w ⟨x, hvx, hxw⟩
  cases hR v x hvx with
  | null =>
    cases hS _ _ hxw
    exact .null
  | leaf ha ha' =>
    cases hS _ _ hxw with
    | leaf hb hb' =>
      cases ha'.symm.trans hb
      exact .leaf ha hb'
    | container hd => cases ha'.symm.trans hd
  | container hc hc' ht he =>
    cases hS _ _ hxw with
    | leaf hb => cases hc'.symm.trans hb
    | container hd hd' ht' he' =>
      cases hc'.symm.trans hd
      refine .container hc hd' (ht'.trans ht) (forall₂_comp he he' fun _ e _ hee hee' => ?_)
      exact ⟨⟨e.1, hee.1, hee'.1⟩, e.2, hee.2, hee'.2⟩

/-- It does not matter what else becomes of the second heap. -/
theorem of_kept (hR : Matching h h' R) (hk : ∀ v p, R v (some p) → h''.node p = h'.node p) :
    Matching h h'' R := by
  intro v w hvw
  cases hR v w hvw with
  | null => exact .null
  | leaf ha ha' => exact .leaf ha ((hk _ _ hvw).trans ha')
  | container hc hc' ht he => exact .container hc ((hk _ _ hvw).trans hc') ht he

end Matching

/-! ## Trees -/

/-- A way leads to one object only. -/
theorem Path.unique {is : List Nat} (ho : h.Path v is o) (hp : h.Path v is p) : o = p := by
  induction ho with
  | here =>
    cases hp
    rfl
  | part hx _ ih =>
    cases hp with
    | part hy hp =>
      cases hx.symm.trans hy
      exact ih hp

/-- Entries are related as their sides are that stand at the same place. -/
theorem forall₂_of_places {l l' : List Entry}
    (hl : List.Forall₂ (fun e e' => R e.1 e'.1 ∧ R e.2 e'.2) l l')
    (hS : ∀ (i : Nat) x y, (l.flatMap fun (k, v) => [k, v])[i]? = some x →
      (l'.flatMap fun (k, v) => [k, v])[i]? = some y → R x y → S x y) :
    List.Forall₂ (fun e e' => S e.1 e'.1 ∧ S e.2 e'.2) l l' := by
  induction hl with
  | nil => exact .nil
  | cons hee _ ih =>
    refine .cons ⟨hS 0 _ _ rfl rfl hee.1, hS 1 _ _ rfl rfl hee.2⟩ (ih fun i x y hx hy => ?_)
    exact hS (i + 2) x y hx hy

/-- Whether related values lie at the same place. -/
def Aligned (h h' : Heap) (R : Value → Value → Prop) (v w x y : Value) : Prop :=
  R x y ∧ ∀ o, x = some o → ∃ p is, y = some p ∧ h.Path v is o ∧ h'.Path w is p

theorem Matching.aligned (hR : Matching h h' R) (v w : Value) :
    Matching h h' (Aligned h h' R v w) := by
  rintro x y ⟨hxy, hplace⟩
  cases hR x y hxy with
  | null => exact .null
  | leaf ha ha' => exact .leaf ha ha'
  | @container o p c c' hc hc' ht he =>
    obtain ⟨_, is, ⟨⟩, hv, hw⟩ := hplace o rfl
    refine .container hc hc' ht (forall₂_of_places he fun i x y hx hy hxy => ⟨hxy, ?_⟩)
    rintro q rfl
    obtain ⟨q', rfl⟩ : ∃ q', y = some q' := by
      cases hR _ _ hxy <;> exact ⟨_, rfl⟩
    exact ⟨q', is ++ [i], rfl, hv.append (.part (by simpa [hc, Node.parts] using hx) .here),
      hw.append (.part (by simpa [hc', Node.parts] using hy) .here)⟩

/-- **Trees that match have one shape.** -/
theorem Matching.isomorphic_of_trees (hR : Matching h h' R) (hv : h.Tree v) (hw : h'.Tree w)
    (hvw : R v w) : h.Isomorphic h' v w := by
  refine (hR.aligned v w).isomorphic (fun o p o' p' hop hop' _ => ?_) ⟨hvw, fun o ho => ?_⟩
  · obtain ⟨_, is, ⟨⟩, hvo, hwp⟩ := hop.2 o rfl
    obtain ⟨_, is', ⟨⟩, hvo', hwp'⟩ := hop'.2 o' rfl
    constructor
    · rintro rfl
      obtain rfl := hv _ _ _ hvo hvo'
      exact hwp.unique hwp'
    · rintro rfl
      obtain rfl := hw _ _ _ hwp hwp'
      exact hvo.unique hvo'
  · subst ho
    obtain ⟨p, rfl⟩ : ∃ p, w = some p := by
      cases hR _ _ hvw <;> exact ⟨_, rfl⟩
    exact ⟨p, [], rfl, .here, .here⟩

end Heap

/-! ## What is rebuilt twice -/

namespace Draft

variable {m : Manner} {h g : Heap} {d d' : Draft} {v w : Value} {p : ObjId}

theorem Valid.lt_of_stands (hd : d.Valid m h) (hs : d.Stands v (some p)) : p < d.heap.size := by
  cases hs with
  | container hm => exact hd.images_lt _ _ hm
  | leaf hm => exact (hd.leaves_node _ _ hm).1

/-- Values still match what stands for them when objects are added. -/
theorem Covered.matching_later (hc : d.Covered h []) (hd : d.Valid m h) (hx : d.heap.Extends g) :
    h.Matching g d.Stands :=
  (hc.matching hd).of_kept fun _ p hs => hx.node p (hd.lt_of_stands hs)

end Draft

namespace Engine

variable {e : Engine} {h g g' k k' : Heap} {v w w' : Value} {bs : Bytes}

/-- What was written is read as what it is rebuilt as. -/
theorem rebuilds_of_reread (he : e.registry.Sound) (hs : e.serialize h v = .ok bs)
    (hfit : e.Fits h v) (hd : e.deserialize g bs = .ok (w, k)) :
    ∃ d : Draft, k = d.heap ∧ Rebuilds e.manner h (.value v) (.start g) w d := by
  obtain ⟨w', d, hr, hd'⟩ := deserialize_of_serialize he hs hfit g
  cases hd.symm.trans hd'
  exact ⟨d, rfl, hr⟩

/-- Reading adds objects and leaves those that are there as they are. -/
theorem extends_of_reread (he : e.registry.Sound) (hs : e.serialize h v = .ok bs)
    (hfit : e.Fits h v) (hd : e.deserialize g bs = .ok (w, k)) : g.Extends k := by
  obtain ⟨d, rfl, hr⟩ := rebuilds_of_reread he hs hfit hd
  exact ⟨hr.grown.size, fun o ho => hr.grown.node o ho (by simp [Task.target])⟩

/-- **Two readings of what was written give graphs of one shape**, also after more was read. -/
theorem isomorphic_of_reread (he : e.registry.Sound)
    (hu : e.config.trackRef = false → e.Unnumbered) (hv : h.LeafKeyed v)
    (hs : e.serialize h v = .ok bs) (hfit : e.Fits h v)
    (hd : e.deserialize g bs = .ok (w, k)) (hd' : e.deserialize g' bs = .ok (w', k'))
    {later : Heap} (hx : k'.Extends later) : k.Isomorphic later w w' := by
  obtain ⟨d, rfl, hr⟩ := rebuilds_of_reread he hs hfit hd
  obtain ⟨d', rfl, hr'⟩ := rebuilds_of_reread he hs hfit hd'
  have hvalid := hr.valid (Draft.valid_start g) trivial
  have hvalid' := hr'.valid (Draft.valid_start g') trivial
  obtain ⟨hc, hw⟩ := hr.covered_of_lost (hr.lost_eq_nil hv.wellKeyed)
  obtain ⟨hc', hw'⟩ := hr'.covered_of_lost (hr'.lost_eq_nil hv.wellKeyed)
  have hR := (hc.matching hvalid).swap.comp (hc'.matching_later hvalid' hx)
  have hww : ∃ x, d.Stands x w ∧ d'.Stands x w' := ⟨v, hw, hw'⟩
  cases htr : e.config.trackRef with
  | true =>
    have hone := hvalid.oneToOne (hvalid.shared htr)
    have hone' := hvalid'.oneToOne (hvalid'.shared htr)
    refine hR.isomorphic ?_ hww
    rintro o p o' p' ⟨x, hxo, hxp⟩ ⟨x', hxo', hxp'⟩ ⟨c, hc₀⟩
    cases x with
    | none => cases hxo
    | some q =>
      cases x' with
      | none => cases hxo'
      | some q' =>
        obtain ⟨_, hq, -⟩ := (hc.matching hvalid).swap.container hxo hc₀
        exact (hone q o q' o' hxo hxo' ⟨_, hq⟩).symm.trans (hone' q p q' p' hxp hxp' ⟨_, hq⟩)
  | false =>
    have htree := (sprout_of_deserialize he htr (hu htr) hd).tree
    have htree' := ((sprout_of_deserialize he htr (hu htr) hd').later le_rfl hx).tree
    exact hR.isomorphic_of_trees htree htree' hww

end Engine

end GraphWire
