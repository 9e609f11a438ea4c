/-
  Reading a graph from a source.

  Two readings of the same bytes go in step, however the bytes come to them: at
  every step they have built the same objects and bound the same numbers, and only
  how much of what is ahead is buffered differs (`ReadState.Beside`).  So they do
  where the last bytes are missing from the second, until it needs them.

  * `Reading.steady_any`: one step for each way of reading, and all levels by
    induction;
  * `Engine.deserializeFrom_steady`: a steady source gives what its bytes give.
-/
import GraphWire.Engine.Operations
import GraphWire.Proofs.Beside
import GraphWire.Proofs.Refills

namespace GraphWire

variable {α : Type}

/-- Items are read in step wherever the same bytes are ahead. -/
theorem scanning_outruns {rest : Bytes} : Scanning (.without rest) (Input.Outruns rest) where
  scan hx := by
    refine (Input.steady_of_composed hx).mono ?_ ?_
    · exact fun _ _ he => he.2
    · exact fun _ he => he
  same := .refl

namespace Reading

variable {rest : Bytes}

/-- Whether a reading does the same whatever is buffered, and where the last bytes
    are not ahead. -/
abbrev Steady (rest : Bytes) (x : Reading α) : Prop :=
  Steps (.without rest) (Input.Outruns rest) Eq x

theorem sameScope_outruns : SameScope (ReadState.Beside (Input.Outruns rest) Eq) where
  scope := by
    rintro _ _ ⟨hij, rfl, heap, bindings, inserted⟩
    rfl
  change f := by
    rintro _ _ ⟨hij, rfl, heap, bindings, inserted⟩
    exact .mk hij rfl heap bindings inserted

theorem steady_descend {limit : Nat} {x : Reading α} (hx : Steady rest x) :
    Steady rest (descend limit x) :=
  .descend sameScope_outruns (fun _ => sameScope_outruns) (fun _ => .refl _) hx

theorem steady_declaring {ty : Declared} {x : Reading α} (hx : Steady rest x) :
    Steady rest (declaring ty x) :=
  .declaring sameScope_outruns (fun _ => sameScope_outruns) hx

/-! ## One level -/

variable {e : Engine} {nested : ClassInfo → Serializer → Option Nat → Reading ObjId}

/-- Whether nested objects are read alike whatever is buffered. -/
abbrev NestedSteady (rest : Bytes)
    (nested : ClassInfo → Serializer → Option Nat → Reading ObjId) : Prop :=
  NestedSteps (.without rest) (Input.Outruns rest) Eq
    (ReadState.Beside (Input.Outruns rest) Eq) nested

theorem nestedSteady (hn : ∀ c ser id, Steady rest (nested c ser id)) : NestedSteady rest nested :=
  ⟨scanning_outruns, fun _ _ => id, hn⟩

section
variable (hn : NestedSteady rest nested)
include hn

theorem steady_declaredVia (ty : Declared) : Steady rest (declaredVia e nested ty) := by
  refine steady_declaring ?_
  split
  · exact (beside_attempt hn.scanning _).bind fun c =>
      (beside_attempt hn.scanning _).bind fun ser => hn.nullable c ser
  · exact hn.any

theorem steady_mapVia (c : ClassInfo) (key value : SideSetup Serializer)
    (factory : Option ContainerType) : Steady rest (mapVia e nested c key value factory) := by
  refine .bind (beside_newContainer hn.scanning c factory) fun o => ?_
  refine (beside_count hn.scanning).bind fun n => .get_bind ?_
  rintro _ _ ⟨hij, rfl, heap, bindings, inserted⟩
  refine .get_bind ?_
  rintro _ _ ⟨hij, rfl, heap, bindings, inserted⟩
  refine (beside_attempt hn.scanning _).bind fun slots => (beside_bindObject o).bind fun _ => ?_
  refine (beside_entries (steady_declaring (hn.side _)) (hn.side _) o n).bind fun _ => ?_
  exact .bind (.modify (sameScope_outruns.change _)) fun _ => .pure o

theorem steady_bodyVia (c : ClassInfo) (ser : Serializer) :
    Steady rest (bodyVia e nested c ser) :=
  beside_body hn.scanning hn.ends (steady_declaredVia hn) c (steady_mapVia hn c) ser

end

/-! ## All levels -/

theorem steady_data (levels : Nat) (c : ClassInfo) (ser : Serializer) (id : Option Nat) :
    Steady rest (data e levels c ser id) := by
  induction levels generalizing c ser id with
  | zero => exact InStepTo.tooDeep sameScope_outruns fun _ => .refl _
  | succ levels ih =>
    refine steady_descend ((beside_expect id).bind fun _ =>
      .completing (fun _ _ h => h.waiting) (fun _ _ h => h.waiting) beside_bind ?_)
    exact steady_bodyVia (nestedSteady ih) c ser

theorem nestedSteady_data (levels : Nat) : NestedSteady rest (data e levels) :=
  nestedSteady (steady_data levels)

theorem steady_any : Steady rest (any e) := by
  rintro _ _ ⟨hij, rfl, heap, bindings, inserted⟩
  exact (nestedSteady_data _).any _ _ (.mk hij rfl heap bindings inserted)

theorem steady_declared (ty : Declared) : Steady rest (declared e ty) := by
  rintro _ _ ⟨hij, rfl, heap, bindings, inserted⟩
  exact steady_declaredVia (nestedSteady_data _) ty _ _ (.mk hij rfl heap bindings inserted)

end Reading

/-! ## Streams -/

namespace Engine

variable {rest : Bytes}

/-- Whether a reading of a stream does the same whatever is buffered, and where the
    last bytes are not ahead. -/
abbrev Steady (rest : Bytes) (x : Scan α) : Prop :=
  InStep (.without rest) (Input.Outruns rest) x x

theorem steady_readHeader (e : Engine) : Steady rest e.readHeader :=
  (scanning_outruns.scan Input.composed_octet).bind fun _ =>
    .bind (.attempt fun _ _ => .refl _) fun _ => .pure _

theorem steady_readStream {x : Reading Value} (hx : Reading.Steady rest x) (e : Engine)
    (h : Heap) : Steady rest (e.readStream h x) := by
  refine (steady_readHeader e).bind fun null => ?_
  split
  · exact .pure _
  · exact beside_reading rfl h hx

theorem steady_deserializeWith (e : Engine) (h : Heap) :
    Steady rest (e.deserializeWith h) := by
  refine .get_bind fun i j hij => ?_
  rw [hij.native]
  exact .bind (.attempt fun _ _ => .refl _) fun _ => steady_readStream Reading.steady_any e h

/-- The bytes in memory and a steady source that has them still to hand out. -/
theorem outruns_source {source : Source} (hs : source.Steady) {capacity : Nat}
    (hc : 8 ≤ capacity) (native : Bool) :
    Input.Outruns [] ((Input.ofSource source capacity).withLayout native)
      ((Input.ofBytes source.data).withLayout native) where
  left := Input.supplied_ofSource hs hc native
  right := Input.supplied_ofBytes source.data native
  ahead := by rw [Input.ahead_ofBytes, List.append_nil]; rfl
  native := rfl

/-- **Refills never change a result.**  A steady source, in whatever pieces it hands
    out its data and however often it is interrupted, gives through a buffer with room
    for every number what its data give in memory: the same value in the same heap, or
    an error that is the same but for the numbers of an underflow. -/
theorem deserializeFrom_steady (e : Engine) (h : Heap) {source : Source} (hs : source.Steady)
    (hc : 8 ≤ e.config.bufferSize) :
    (∀ v h', e.deserializeFrom h source = .ok (v, h') ↔
      e.deserialize h source.data = .ok (v, h')) ∧
    ∀ err, e.deserializeFrom h source = .error err →
      ∃ err', e.deserialize h source.data = .error err' ∧ err.Alike err' := by
  have hstep := e.steady_deserializeWith h _ _ (outruns_source hs hc e.config.native)
  unfold deserializeFrom deserialize resultOf
  generalize e.deserializeWith h ((Input.ofSource source _).withLayout _) = r,
    e.deserializeWith h ((Input.ofBytes _).withLayout _) = r' at hstep ⊢
  cases hstep with
  | ok a _ => exact ⟨fun _ _ => Iff.rfl, by simp⟩
  | error he => exact ⟨by simp, by rintro _ ⟨⟩; exact ⟨_, rfl, he⟩⟩
  | early he => exact absurd rfl he.1

/-- A text of ten bytes in pieces, with interruptions. -/
def piecewise : Source :=
  ⟨[0x02, 0x09, 0x0a, 0x72, 0x65, 0x66, 0x69, 0x6c, 0x6c, 0x61, 0x62, 0x6c, 0x65],
    [.interrupted, .upTo 1, .upTo 3, .interrupted, .interrupted, .upTo 2]⟩

/-- It is read through a buffer of eight. -/
theorem deserializeFrom_steady_piecewise :
    piecewise.Steady ∧ Engine.deserializeFrom { config := { bufferSize := 8 } } .empty piecewise =
      .ok (some 0, ⟨#[.leaf (.string "refillable")]⟩) := by
  have hs : piecewise.Steady := by
    refine ⟨?_, by decide⟩
    intro t ht
    simp only [piecewise, List.mem_cons, List.not_mem_nil, or_false] at ht
    rcases ht with rfl | rfl | rfl | rfl | rfl | rfl <;> simp
  have hsame := deserializeFrom_steady { config := { bufferSize := 8 } } .empty hs (by decide)
  exact ⟨hs, (hsame.1 _ _).2 rfl⟩

end Engine

end GraphWire
