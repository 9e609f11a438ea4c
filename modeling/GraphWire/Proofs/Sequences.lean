/-
  Streams that follow on one another.

  Several values are written to one output and read from one input.  Nothing of one value is
  left over for the next: each is written as it is alone, and each reading ends where the
  stream that it reads does, however the input is refilled.

  * `Engine.deserializeTimes` reads so many streams, one after the other, into one heap;
  * `Engine.deserializeWith_ahead`: a reading does the same when more is ahead, and leaves it;
  * `Engine.serialize_in_turn`: the values come back in turn.
-/
import GraphWire.Proofs.Depths
import GraphWire.Proofs.Rereading
import GraphWire.Proofs.Surroundings
import GraphWire.Proofs.Truncation

namespace GraphWire

/-! ## Readings in turn -/

namespace Engine

/-- Reads so many streams from an input, one after the other. -/
def deserializeTimes (e : Engine) : Nat → Heap → Scan (List Value × Heap)
  | 0, h => pure ([], h)
  | n + 1, h => do
    let (v, h) ← e.deserializeWith h
    let (vs, h) ← e.deserializeTimes n h
    return (v :: vs, h)

variable {e : Engine} {h g : Heap} {v w : Value} {bs rest : Bytes} {i j : Input}

/-- **A reading does the same when more is ahead**, and leaves that. -/
theorem deserializeWith_ahead (hi : i.Ready) (hn : i.native = e.config.native)
    (hahead : i.ahead = bs ++ rest)
    (hd : e.deserializeWith g ((Input.ofBytes bs).withLayout e.config.native) = .ok (w, h) j)
    (hend : j.ahead = []) (hj : j.native = e.config.native) :
    ∃ i', e.deserializeWith g i = .ok (w, h) i' ∧ i'.Ready ∧ i'.native = e.config.native ∧
      i'.ahead = rest := by
  have hij : i.Outruns rest ((Input.ofBytes bs).withLayout e.config.native) :=
    ⟨hi, Input.supplied_ofBytes _ _, by rw [Input.ahead_ofBytes, hahead], hn⟩
  have hrun := e.steady_deserializeWith g _ _ hij
  rw [hd] at hrun
  generalize e.deserializeWith g i = r at hrun ⊢
  cases hrun with
  | ok _ hij' => exact ⟨_, rfl, hij'.left, hij'.native.trans hj, by rw [hij'.ahead, hend]; rfl⟩

/-- What was written is read to its last byte, and from no more than its bytes. -/
theorem deserializeWith_of_serialize (he : e.registry.Sound) (hs : e.serialize h v = .ok bs)
    (hfit : e.Fits h v) (g : Heap) (hi : i.Ready) (hn : i.native = e.config.native)
    (hahead : i.ahead = bs ++ rest) : ∃ w k, e.deserialize g bs = .ok (w, k) ∧ ∃ i',
      e.deserializeWith g i = .ok (w, k) i' ∧ i'.Ready ∧ i'.native = e.config.native ∧
        i'.ahead = rest := by
  obtain ⟨out, hx, rfl⟩ := writeStream_of_serialize hs
  obtain ⟨w, d, -, hr⟩ := readStream_of_mirrors (mirrors_any he h v) hx hfit g
    (i := (Input.ofBytes out.bytes).withLayout e.config.native) rfl rfl (List.prefix_refl _)
  rw [← deserializeWith_ofBytes] at hr
  refine ⟨w, d.heap, resultOf_eq_ok.2 ⟨_, hr⟩, deserializeWith_ahead hi hn hahead hr ?_ rfl⟩
  simp [Input.ahead, Input.advance, Input.ofBytes, Input.withLayout]

/-- A stream has a header at least. -/
theorem ne_nil_of_serialize (he : e.registry.Sound) (hs : e.serialize h v = .ok bs) : bs ≠ [] := by
  cases v with
  | none =>
    rw [serialize_none] at hs
    cases hs
    exact List.cons_ne_nil _ _
  | some o =>
    obtain ⟨s', hs', rfl⟩ := any_of_serialize hs
    obtain ⟨cs, ho, -⟩ := mirrors_any he h (some o) _ s' hs'
    rw [ho]
    simp [WriteState.start]

/-- Whether what was read from some bytes is, as it now stands, what they give alone. -/
def Rereads (e : Engine) (later : Heap) (bs : Bytes) (w : Value) : Prop :=
  ∀ g, ∃ w' k, e.deserialize g bs = .ok (w', k) ∧ k.Isomorphic later w' w

/-- **Streams that follow on one another are read in turn**, each to its end and no further. -/
theorem deserializeTimes_of_serialize (he : e.registry.Sound)
    (hu : e.config.trackRef = false → e.Unnumbered) {vs : List Value} {bss : List Bytes}
    (hk : ∀ v ∈ vs, h.LeafKeyed v) (hfit : ∀ v ∈ vs, e.Fits h v)
    (hs : List.Forall₂ (fun v bs => e.serialize h v = .ok bs) vs bss) {n : Nat}
    (hle : n ≤ vs.length) (g : Heap) (hi : i.Ready) (hn : i.native = e.config.native)
    (hahead : i.ahead = bss.flatten) :
    ∃ ws k i', e.deserializeTimes n g i = .ok (ws, k) i' ∧ i'.Ready ∧
      i'.ahead = (bss.drop n).flatten ∧ g.Extends k ∧
      List.Forall₂ (e.Rereads k) (bss.take n) ws := by
  induction n generalizing vs bss g i with
  | zero => exact ⟨[], g, i, rfl, hi, hahead, .refl g, .nil⟩
  | succ n ih =>
    cases hs with
    | nil => cases hle
    | @cons v bs vs bss hv hs =>
      obtain ⟨hkv, hk⟩ := List.forall_mem_cons.1 hk
      obtain ⟨hfv, hfit⟩ := List.forall_mem_cons.1 hfit
      obtain ⟨w, k₁, hd, i₁, hread, hi₁, hn₁, hahead₁⟩ :=
        deserializeWith_of_serialize he hv hfv g hi hn (hahead.trans List.flatten_cons)
      obtain ⟨ws, k, i', hreads, hi', hahead', hx, hws⟩ :=
        ih hk hfit hs (Nat.le_of_succ_le_succ hle) k₁ hi₁ hn₁ hahead₁
      refine ⟨w :: ws, k, i', ?_, hi', hahead', (extends_of_reread he hv hfv hd).trans hx,
        .cons (fun g' => ?_) hws⟩
      · exact (bind_of_ok hread).trans ((bind_of_ok hreads).trans rfl)
      · have hahead : ((Input.ofBytes bs).withLayout e.config.native).ahead = bs ++ [] := by
          rw [Input.ahead_ofBytes, List.append_nil]
        obtain ⟨w', k', hd', -⟩ := deserializeWith_of_serialize he hv hfv g'
          (Input.supplied_ofBytes bs e.config.native) rfl hahead
        exact ⟨w', k', hd', isomorphic_of_reread he hu hkv hv hfv hd' hd hx⟩

/-- **Values that are written in turn come back in turn.**  To whatever an output holds their
    streams are appended as each is written alone; from an input with these streams ahead they
    are read one by one, each in the shape in which it is read alone, and the input is at its
    end when all are read and not before. -/
theorem serialize_in_turn (he : e.Plain) {vs : List Value} {bss : List Bytes}
    (hk : ∀ v ∈ vs, h.LeafKeyed v) (hfit : ∀ v ∈ vs, e.Fits h v)
    (hs : List.Forall₂ (fun v bs => e.serialize h v = .ok bs) vs bss) :
    (∀ out : Output, out.native = e.config.native →
      forM vs (e.serializeTo h) out = .ok () (out.append bss.flatten)) ∧
    ∀ (g : Heap) (i : Input), i.Ready → i.native = e.config.native → i.ahead = bss.flatten →
      ∀ n ≤ vs.length, ∃ ws k i', e.deserializeTimes n g i = .ok (ws, k) i' ∧
        List.Forall₂ (e.Rereads k) (bss.take n) ws ∧ i'.ahead = (bss.drop n).flatten ∧
        ∃ i'', i'.atEnd = .ok (n == vs.length) i'' := by
  have hsound := he.assembled.sound
  refine ⟨fun out hn => serializeTo_forM hs hn, fun g i hi hn hahead n hle => ?_⟩
  obtain ⟨ws, k, i', hreads, hi', hahead', -, hws⟩ := deserializeTimes_of_serialize hsound
    (fun _ => he.unbound.unnumbered) hk hfit hs hle g hi hn hahead
  obtain ⟨i'', hend, -⟩ := hi'.atEnd
  refine ⟨ws, k, i', hreads, hws, hahead', i'', ?_⟩
  have hlength := hs.length_eq
  suffices hempty : i'.ahead.isEmpty = (n == vs.length) from hempty ▸ hend
  rw [hahead', Bool.eq_iff_iff, List.isEmpty_iff, beq_iff_eq, List.flatten_eq_nil_iff]
  refine ⟨fun hnil => ?_, fun hn => by simp [List.drop_eq_nil_of_le (hlength ▸ hn.ge)]⟩
  by_contra hne
  -- some stream is still ahead, and it has a header
  obtain ⟨bs, hbs⟩ := List.exists_mem_of_ne_nil (bss.drop n)
    (by rw [ne_eq, List.drop_eq_nil_iff]; omega)
  obtain ⟨v, -, hv⟩ := forall₂_mem_right hs bs (List.mem_of_mem_drop hbs)
  exact ne_nil_of_serialize hsound hv (hnil bs hbs)

/-- Three streams in pieces, with interruptions: a cycle, null and the cycle again. -/
def thrice : Source :=
  ⟨[10, 11, 0, 1, 5, 14, 11, 254, 0] ++ [11] ++ [10, 11, 0, 1, 5, 14, 11, 254, 0],
    [.upTo 1, .interrupted, .upTo 12, .interrupted, .upTo 2]⟩

/-- They are appended to an output that holds something, and read through a buffer of eight. -/
theorem serialize_in_turn_thrice :
    (∀ out : Output, out.native = false →
      forM [some 0, none, some 0]
          (({ config := { trackRef := true } } : Engine).serializeTo loop) out =
        .ok () (out.append thrice.data)) ∧
      ∀ n ≤ 3, ∃ ws k i', ({ config := { trackRef := true } } : Engine).deserializeTimes n loop
          ((Input.ofSource thrice 8).withLayout false) = .ok (ws, k) i' ∧
        ∃ i'', i'.atEnd = .ok (n == 3) i'' := by
  have hs : ({ config := { trackRef := true } } : Engine).serialize loop (some 0) =
      .ok [10, 11, 0, 1, 5, 14, 11, 254, 0] := by decide +kernel
  have hnull : ({ config := { trackRef := true } } : Engine).serialize loop none = .ok [11] := by
    decide +kernel
  have hb : loop.Built := by
    refine .insert (.leaf _ (.container _ .empty)) (by decide) ?_
    rintro o ⟨⟩
    exact ⟨by decide, .i32 7, rfl⟩
  have hsteady : thrice.Steady := by
    refine ⟨fun t ht => ?_, by decide⟩
    simp only [thrice, List.mem_cons, List.not_mem_nil, or_false] at ht
    rcases ht with rfl | rfl | rfl | rfl | rfl <;> simp
  have hturn := serialize_in_turn (.start { trackRef := true }) (fun v _ => hb.leafKeyed v)
    (fun v _ => fits_of_nodes _ (by decide +kernel) (by decide) v)
    (.cons hs (.cons hnull (.cons hs .nil)))
  refine ⟨hturn.1, fun n hn => ?_⟩
  obtain ⟨ws, k, i', hreads, -, -, hend⟩ := hturn.2 loop
    ((Input.ofSource thrice 8).withLayout false) (outruns_source hsteady (by decide) false).left rfl
    rfl n hn
  exact ⟨ws, k, i', hreads, hend⟩

end Engine

end GraphWire
