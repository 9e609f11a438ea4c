/-
  What is read back is like what was written.

  * `Engine.isomorphic_of_serialize`: a graph whose keys are null or leaves comes
    back in its shape if references are tracked;
  * `Engine.sameTree_of_serializeField`: a value that is declared comes back as the
    same tree if they are not.

  Lengths, counts and numbers have 32 bits in a stream, and nothing is said where
  that is too little.
-/
import GraphWire.Proofs.LeafKeys
import GraphWire.Proofs.Likeness
import GraphWire.Proofs.RoundTrip

namespace GraphWire

namespace Engine

variable {e : Engine} {h : Heap} {v : Value} {bs : Bytes}

/-- **What is tracked comes back in its shape.** -/
theorem isomorphic_of_serialize (he : e.Assembled) (ht : e.config.trackRef = true)
    (hv : h.LeafKeyed v) (hfit : e.Fits h v) (hs : e.serialize h v = .ok bs) (h₀ : Heap) :
    ∃ w h', e.deserialize h₀ bs = .ok (w, h') ∧ h.Isomorphic h' v w := by
  obtain ⟨w, d, hr, hd⟩ := deserialize_of_serialize he.sound hs hfit h₀
  exact ⟨w, d.heap, hd, hr.isomorphic ht (hr.lost_eq_nil hv.wellKeyed)⟩

/-- A container that is its own only value. -/
def loop : Heap :=
  (((Heap.empty.alloc (.container (.empty .linked))).2.alloc (.leaf (.i32 7))).2.insert 0 (some 1)
    (some 0)).2

theorem isomorphic_of_serialize_loop :
    ({ config := { trackRef := true } } : Engine).serialize loop (some 0) =
        .ok [10, 11, 0, 1, 5, 14, 11, 254, 0] ∧
      ∃ w h', ({ config := { trackRef := true } } : Engine).deserialize .empty
        [10, 11, 0, 1, 5, 14, 11, 254, 0] = .ok (w, h') ∧ loop.Isomorphic h' (some 0) w := by
  have hs : ({ config := { trackRef := true } } : Engine).serialize loop (some 0) =
      .ok [10, 11, 0, 1, 5, 14, 11, 254, 0] := by decide +kernel
  have hb : loop.Built := by
    refine .insert (.leaf _ (.container _ .empty)) (by decide) ?_
    rintro o ⟨⟩
    exact ⟨by decide, .i32 7, rfl⟩
  have hfit := fits_of_nodes { config := { trackRef := true } } (h := loop) (by decide +kernel)
    (by decide) (some 0)
  exact ⟨hs, isomorphic_of_serialize (.start _) rfl (hb.leafKeyed _) hfit hs .empty⟩

/-- **What is declared comes back as the same tree.** -/
theorem sameTree_of_serializeField (he : e.Assembled) (ht : e.config.trackRef = false)
    (hv : h.Tidy v) (hfit : e.Fits h v) {ty : Declared} (hs : e.serializeField h ty v = .ok bs)
    (h₀ : Heap) :
    ∃ w h', e.deserializeField h₀ ty bs = .ok (w, h') ∧ h.SameTree h' v w := by
  obtain ⟨w, d, hr, hd⟩ := deserializeField_of_serializeField he.sound hs hfit h₀
  obtain ⟨n, hn⟩ := hr.exists_height ht
  have hn : h.HeightLe n v := hn v (List.mem_singleton_self v)
  exact ⟨w, d.heap, hd, hr.sameTree hn (hr.lost_eq_nil (hn.wellKeyed hv))⟩

/-- An engine with a type of containers whose keys are numbers. -/
def numberKeys : Engine :=
  { registry := Registry.builtins.insert
      (.ofBinding (.named 0) 40 { key := { type := some (.leaf .i32), nullable := false } }) }

theorem assembled_numberKeys : numberKeys.Assembled :=
  .registerMapWith (.start {}) (by decide) ⟨rfl, rfl⟩ (rfl : ({} : Engine).registerMapWith 40
    (.named 0) { key := { type := some (.leaf .i32), nullable := false } } = .ok numberKeys)

/-- A container of that type that maps a number to itself. -/
def single : Heap :=
  (((Heap.empty.alloc (.container (.empty (.named 0)))).2.alloc (.leaf (.i32 7))).2.insert 0 (some 1)
    (some 1)).2

theorem sameTree_of_serializeField_single :
    numberKeys.serializeField single
          (.concrete (.container (.named 0)) [.unknown, .concrete (.leaf .i32) []]) (some 0) =
        .ok [2, 41, 1, 14, 255, 14] ∧
      ∃ w h', numberKeys.deserializeField .empty
          (.concrete (.container (.named 0)) [.unknown, .concrete (.leaf .i32) []])
          [2, 41, 1, 14, 255, 14] = .ok (w, h') ∧ single.SameTree h' (some 0) w := by
  have hs : numberKeys.serializeField single
      (.concrete (.container (.named 0)) [.unknown, .concrete (.leaf .i32) []]) (some 0) =
        .ok [2, 41, 1, 14, 255, 14] := by decide +kernel
  have hb : single.Built := by
    refine .insert (.leaf _ (.container _ .empty)) (by decide) ?_
    rintro o ⟨⟩
    exact ⟨by decide, .i32 7, rfl⟩
  have hfit := fits_of_nodes numberKeys (h := single) (by decide +kernel) (by decide) (some 0)
  exact ⟨hs, sameTree_of_serializeField assembled_numberKeys rfl (hb.leafKeyed _).tidy hfit hs
    .empty⟩

end Engine

end GraphWire
