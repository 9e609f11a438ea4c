/-
  Copies are graphs of their own.

  * `Heap.Replica` says that a value is a copy: containers correspond one to one to
    new ones with corresponding entries, leaves are shared, and all that was there is
    as it was;
  * `Engine.copy_replicates`: what can be written with references tracked is copied
    so, whether references are tracked or not.
-/
import GraphWire.Proofs.Fidelity
import GraphWire.Proofs.Pacing

namespace GraphWire

namespace Heap

/-- What stands for a value where containers are replaced: null and leaves stand for
    themselves. -/
def replaced (h : Heap) (f : ObjId → ObjId) : Value → Value
  | none => none
  | some o =>
    match h.node o with
    | .container _ => some (f o)
    | _ => some o

/-- Whether a value of a later heap is a copy of a value, where a function replaces
    the containers. -/
structure Replica (h h' : Heap) (f : ObjId → ObjId) (v w : Value) : Prop where
  root : w = h.replaced f v
  bijective : Set.BijOn f (h.containersOf v) (h'.containersOf w)
  entries : ∀ o ∈ h.containersOf v, ∃ c c', h.node o = .container c ∧
    h'.node (f o) = .container c' ∧ c.Like (fun x y => y = h.replaced f x) c'
  /-- The containers of the copy are new, and none of them is one of the original. -/
  fresh : ∀ p ∈ h'.containersOf w, h.size ≤ p ∧ ¬h'.Leads v p
  /-- The leaves of the copy are those of the original. -/
  leaves : ∀ p a, h'.Leads w p → h'.node p = .leaf a → h.Leads v p ∧ h.node p = .leaf a
  /-- What was there is as it was. -/
  kept : ∀ o, o < h.size → h'.node o = h.node o

variable {h h' : Heap} {v : Value} {o : ObjId}

/-- A value leads to what it led to before, if that is as it was. -/
theorem Closed.leads_of_kept (hcl : h.Closed v) (hkept : ∀ o, o < h.size → h'.node o = h.node o)
    (hl : h'.Leads v o) : h.Leads v o := by
  induction hl with
  | self => exact .self
  | @part o x q hx _ ih =>
    have hlt : o < h.size := hcl o .self
    rw [hkept o hlt] at hx
    exact .part hx (ih (hcl.part hx))

end Heap

/-- What stands for a value in a copy is its replacement. -/
theorem Draft.Stands.replaced {d : Draft} {h : Heap} {v w : Value} (hs : d.Stands v w)
    (hd : d.Valid .copying h) : w = h.replaced d.imageOf v := by
  have hn := hd.shared rfl
  cases hs with
  | null => rfl
  | container hm =>
    obtain ⟨c, -, hc, -⟩ := hd.images_type _ _ hm
    simp only [Heap.replaced, hc, imageOf_eq hn hm]
  | leaf hm =>
    obtain ⟨-, a, ha, -⟩ := hd.leaves_node _ _ hm
    obtain rfl := hd.leaves_same rfl _ _ hm
    simp only [Heap.replaced, ha]

/-- **A copy that has lost nothing is a graph of its own.** -/
theorem Copied.replica {h : Heap} {s : CopyState} {d : Draft} {v w : Value} (hc : Copied h s d)
    (hr : Rebuilds .copying h (.value v) (.start h) w d) (hl : d.lost = []) (hcl : h.Closed v) :
    h.Replica d.heap d.imageOf v w := by
  have hd := hr.valid (Draft.valid_start h) trivial
  have hn := hd.shared rfl
  obtain ⟨hcov, hs⟩ := hr.covered_of_lost hl
  have hmatch := hcov.matching hd
  have hf := hd.imageOf_of_stands hn
  have hbij := hmatch.bijOn hf hs (hd.oneToOne hn)
  refine ⟨hs.replaced hd, hbij, ?_, ?_, ?_, hc.node⟩
  · intro o ho
    obtain ⟨c, hco⟩ := ho.2
    obtain ⟨c', hco', ht, hp⟩ := hmatch.container (hmatch.image_mem hf hs ho).2 hco
    exact ⟨c, c', hco, hco', .of_forall₂ ht (hp.imp fun _ _ he =>
      ⟨he.1.replaced hd, he.2.replaced hd⟩)⟩
  · intro p hp
    obtain ⟨o, ho, rfl⟩ := hbij.surjOn hp
    have hnew : h.size ≤ d.imageOf o :=
      hc.fresh _ _ (hd.mem_of_stands ho.2 (hmatch.image_mem hf hs ho).2)
    refine ⟨hnew, fun hlead => ?_⟩
    have hold : d.imageOf o < h.size := hcl _ (hcl.leads_of_kept hc.node hlead)
    exact absurd hnew (Nat.not_le.2 hold)
  · intro p a hp ha
    obtain ⟨o, ho, hsp⟩ := hmatch.swap.leads hs hp
    rcases hd.nodes hsp with ⟨-, c', -, -, hc', -⟩ | ⟨a', hm, ha', hp'⟩
    · cases hc'.symm.trans ha
    · obtain rfl := hd.leaves_same rfl _ _ hm
      cases hp'.symm.trans ha
      exact ⟨ho, ha'⟩

namespace Engine

/-- **What can be written with references tracked is copied as a graph of its own.** -/
theorem copy_replicates {e e' : Engine} (he : e.Assembled) (hr : e'.registry = e.registry)
    (ht : e'.config.trackRef = true) (hd : e'.config.maxDepth = e.config.maxDepth) {h : Heap}
    {v : Value} (hk : h.LeafKeyed v) (hcl : h.Closed v) {bs : Bytes}
    (hs : e'.serialize h v = .ok bs) :
    ∃ w h' f, e.copy h v = .ok (w, h') ∧ h.Replica h' f v w := by
  obtain ⟨w, h', hcopy⟩ := copy_of_serialize he.sound hr ht hd hcl hs
  obtain ⟨d, s, hrebuilds, hc, rfl⟩ := copied_of_copy he.sound hcl hcopy
  exact ⟨w, d.heap, d.imageOf, hcopy,
    hc.replica hrebuilds (hrebuilds.lost_eq_nil hk.wellKeyed) hcl⟩

/-- An engine that tracks nothing copies a container that is its own value. -/
theorem copy_replicates_loop :
    ({ config := { trackRef := true } } : Engine).serialize loop (some 0) =
        .ok [10, 11, 0, 1, 5, 14, 11, 254, 0] ∧
      ∃ w h' f, ({} : Engine).copy loop (some 0) = .ok (w, h') ∧ loop.Replica h' f (some 0) w := by
  have hs : ({ config := { trackRef := true } } : Engine).serialize loop (some 0) =
      .ok [10, 11, 0, 1, 5, 14, 11, 254, 0] := by decide +kernel
  have hb : loop.Built := by
    refine .insert (.leaf _ (.container _ .empty)) (by decide) ?_
    rintro o ⟨⟩
    exact ⟨by decide, .i32 7, rfl⟩
  have hcl : loop.Closed (some 0) := Heap.closed_of_parts (by decide +kernel) (by decide)
  have hr : ({ config := { trackRef := true } } : Engine).registry = ({} : Engine).registry := rfl
  exact ⟨hs, copy_replicates (.start {}) hr rfl rfl (hb.leafKeyed _) hcl hs⟩

end Engine

end GraphWire
