/-
  What a stream shows of the identity of objects.

  It shows which objects are one, if references are tracked, and nothing else of what
  they are called: graphs have one stream iff they have one shape.  If references are
  not tracked it does not show even that: then graphs have one stream iff they unfold
  into the same tree.

  Lengths, counts and numbers have 32 bits in a stream, so graphs for which that is too
  little are left aside where a stream is to tell what it holds.
-/
import GraphWire.Proofs.Fidelity
import GraphWire.Proofs.Retracing

namespace GraphWire

namespace Heap

variable {h : Heap} {v : Value}

theorem ordered_of_nodes (hn : ∀ o < h.size, (h.node o).Ordered) : h.Ordered v := by
  intro o _
  by_cases ho : o < h.size
  · exact hn o ho
  · rw [node_of_size_le (Nat.le_of_not_lt ho)]
    trivial

end Heap

namespace Engine

/-- Whether two values are alike in what an engine writes of them. -/
def Alike (e : Engine) (h h' : Heap) (v w : Value) : Prop :=
  if e.config.trackRef then h.Isomorphic h' v w else h.SameUnfolding h' v w

variable {e : Engine} {h h' : Heap} {v w : Value}

/-- **A stream shows the likeness of graphs, and nothing else**: values with one stream
    are alike, and values of ordered graphs that are alike have one stream or cannot be
    written for one reason. -/
theorem serialize_shows_likeness (he : e.Assembled) (h h' : Heap) (v w : Value) :
    (e.Fits h v → e.Fits h' w → ∀ bs, e.serialize h v = .ok bs → e.serialize h' w = .ok bs →
      e.Alike h h' v w) ∧
    (h.Ordered v → e.Alike h h' v w → e.serialize h v = e.serialize h' w) := by
  unfold Alike
  constructor
  · intro hv hw bs hs ht
    obtain ⟨R, hR, hvw⟩ := matching_of_serialize he.sound hv hw.small hs ht
    split
    · next htr => exact hR.matching.isomorphic (hR.oneToOne htr) hvw
    · exact hR.matching.sameUnfolding hvw
  · intro hv halike
    split at halike
    · obtain ⟨R, hmatch, hone, hvw⟩ := halike.exists_matching hv
      exact serialize_eq_of_matching he.sound ⟨hmatch, fun _ => hone⟩ hvw
    · next htr =>
      have hR : e.Twinned h h' fun v w => h.SameUnfolding h' v w ∧ h.Ordered v :=
        ⟨Heap.matching_of_sameUnfolding, fun h => absurd h htr⟩
      exact serialize_eq_of_matching he.sound hR ⟨halike, hv⟩

/-- The same graph as `loop` under other names, with an object that is not part of it. -/
def renamedLoop : Heap :=
  ((((Heap.empty.alloc (.leaf (.bool true))).2.alloc (.leaf (.i32 7))).2.alloc
    (.container (.empty .linked))).2.insert 2 (some 1) (some 2)).2

theorem serialize_shows_likeness_loop :
    ({ config := { trackRef := true } } : Engine).serialize loop (some 0) =
        .ok [10, 11, 0, 1, 5, 14, 11, 254, 0] ∧
      ({ config := { trackRef := true } } : Engine).Alike loop renamedLoop (some 0) (some 2) ∧
      ({ config := { trackRef := true } } : Engine).serialize loop (some 0) =
        ({ config := { trackRef := true } } : Engine).serialize renamedLoop (some 2) := by
  have hs : ({ config := { trackRef := true } } : Engine).serialize loop (some 0) =
      .ok [10, 11, 0, 1, 5, 14, 11, 254, 0] := by decide +kernel
  have ht : ({ config := { trackRef := true } } : Engine).serialize renamedLoop (some 2) =
      .ok [10, 11, 0, 1, 5, 14, 11, 254, 0] := by decide +kernel
  have hshows := serialize_shows_likeness (.start { trackRef := true }) loop renamedLoop (some 0)
    (some 2)
  have halike := hshows.1 (fits_of_nodes _ (by decide +kernel) (by decide) _)
    (fits_of_nodes _ (by decide +kernel) (by decide) _) _ hs ht
  exact ⟨hs, halike, hshows.2 (Heap.ordered_of_nodes (by decide +kernel)) halike⟩

end Engine

end GraphWire
