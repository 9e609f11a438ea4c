/-
  Streams that are cut short.

  A reading of the first bytes of a stream goes in step with the reading of the whole
  stream until it needs a byte that is missing.  The whole stream is read to its last
  byte, so that the reading of fewer bytes never ends otherwise.

  * `Engine.resultOf_readStream_truncated`: what is read to the end cannot be read from
    less;
  * `Engine.underflow_of_truncated`: so it is for all that is serialized, declared or not.
-/
import GraphWire.Proofs.Fidelity
import GraphWire.Proofs.Streaming

namespace GraphWire

/-- The first of some bytes in memory fall short of all of them by the rest. -/
theorem Input.outruns_ofBytes (bs rest : Bytes) (native : Bool) :
    Input.Outruns rest ((Input.ofBytes (bs ++ rest)).withLayout native)
      ((Input.ofBytes bs).withLayout native) where
  left := ⟨Nat.le_of_eq (Nat.zero_add _), by rintro _ ⟨⟩⟩
  right := ⟨Nat.le_of_eq (Nat.zero_add _), by rintro _ ⟨⟩⟩
  ahead := by simp [Input.ahead, Input.ofBytes, Input.withLayout]
  native := rfl

/-- **A reading that needs the last byte fails without it**, by an underflow. -/
theorem Engine.underflow_of_steady {α : Type} {rest : Bytes} {x : Scan α} (hx : Steady rest x)
    (hrest : rest ≠ []) {i i' j : Input} (hij : i.Outruns rest j) {a : α}
    (hi : x i = .ok a i') (hend : i'.ahead = []) :
    ∃ required available, resultOf x j = .error (.underflow required available) := by
  have hxy := hx i j hij
  rw [hi] at hxy
  unfold resultOf
  generalize x j = r at hxy ⊢
  cases hxy with
  | ok _ hij' =>
    -- the second input would have less than nothing ahead
    have hnil : _ ++ rest = [] := hij'.ahead.symm.trans hend
    exact absurd (List.append_eq_nil_iff.1 hnil).2 hrest
  | early he =>
    obtain ⟨-, required, available, rfl⟩ := he
    exact ⟨required, available, rfl⟩

namespace Engine

variable {e : Engine} {h : Heap} {v : Value} {bs cs : Bytes}

/-- **What is written cannot be read from its first bytes only.** -/
theorem resultOf_readStream_truncated {x : Writing Unit} {y : Reading Value}
    (hm : Mirrors e h (.value v) x y id) (hy : ∀ rest, Reading.Steady rest y) {out : Output}
    (hx : e.writeStream v x (.empty e.config.native) = .ok () out) (hfit : e.Fits h v)
    (hcs : cs <+: out.bytes) (hne : cs ≠ out.bytes) (h₀ : Heap) :
    ∃ required available, resultOf (e.readStream h₀ y)
      ((Input.ofBytes cs).withLayout e.config.native) = .error (.underflow required available) := by
  obtain ⟨rest, hrest⟩ := hcs
  obtain ⟨w, d, -, hr⟩ := readStream_of_mirrors hm hx hfit h₀
    (i := (Input.ofBytes out.bytes).withLayout e.config.native) rfl rfl (List.prefix_refl _)
  refine underflow_of_steady (steady_readStream (hy rest) e h₀) ?_
    (hrest ▸ Input.outruns_ofBytes cs rest e.config.native) hr ?_
  · rintro rfl
    exact hne (by simpa using hrest)
  · simp [Input.ahead, Input.advance, Input.ofBytes, Input.withLayout]

/-- **A stream that is cut anywhere is refused as too short.**  Whatever was written, and
    whether it was declared or not, its first bytes are never taken for a value nor for
    anything malformed. -/
theorem underflow_of_truncated (he : e.Assembled) (hfit : e.Fits h v) (hcs : cs <+: bs)
    (hne : cs ≠ bs) (h₀ : Heap) :
    (e.serialize h v = .ok bs →
      ∃ required available, e.deserialize h₀ cs = .error (.underflow required available)) ∧
    ∀ ty, e.serializeField h ty v = .ok bs →
      ∃ required available, e.deserializeField h₀ ty cs =
        .error (.underflow required available) := by
  constructor
  · intro hs
    obtain ⟨out, hx, rfl⟩ := writeStream_of_serialize hs
    rw [deserialize_eq_readStream]
    exact resultOf_readStream_truncated (mirrors_any he.sound h v) (fun _ => Reading.steady_any) hx
      hfit hcs hne h₀
  · intro ty hs
    obtain ⟨out, hx, rfl⟩ := written_eq_ok.1 hs
    exact resultOf_readStream_truncated (mirrors_declared he.sound h ty v)
      (fun _ => Reading.steady_declared ty) hx hfit hcs hne h₀

/-- The stream of the container that holds itself, cut before the last number. -/
theorem underflow_of_truncated_loop :
    ({ config := { trackRef := true } } : Engine).serialize loop (some 0) =
        .ok [10, 11, 0, 1, 5, 14, 11, 254, 0] ∧
      ∃ required available, ({ config := { trackRef := true } } : Engine).deserialize .empty
        [10, 11, 0, 1, 5, 14, 11, 254] = .error (.underflow required available) := by
  have hs : ({ config := { trackRef := true } } : Engine).serialize loop (some 0) =
      .ok [10, 11, 0, 1, 5, 14, 11, 254, 0] := by decide +kernel
  have hfit := fits_of_nodes { config := { trackRef := true } } (h := loop) (by decide +kernel)
    (by decide) (some 0)
  exact ⟨hs, (underflow_of_truncated (.start _) hfit ⟨[0], rfl⟩ (by decide) .empty).1 hs⟩

end Engine

end GraphWire
