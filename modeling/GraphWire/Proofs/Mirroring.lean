/-
  Reading follows writing.

  A writing that succeeds appends bytes, and wherever these bytes stand, the
  reading of the same name takes just them and makes of them what the value is
  rebuilt as (`Mirrors`).  In between, writer and reader agree on the scope, and
  the numbers that the one has given are those that the other has bound
  (`Agree`).

  Lengths, counts and numbers have 32 bits in a stream, and `Engine.Fits` says that
  this is enough for a value.  Numbers are given to containers only, and to none
  twice, so that there are no more of them than containers (`Agree.number_lt`).

  * `Follows` and its lemmas: bytes taken before, another result, a declaration around;
  * `MirrorsNested.tracked`, `MirrorsNested.untracked`: if nested objects are read as they
    are written, so is an object with its marker and number, and one without them.
-/
import GraphWire.Proofs.Rebuilding
import GraphWire.Proofs.Resolution
import GraphWire.Proofs.Scans
import Mathlib.Data.Set.Card

namespace GraphWire

variable {α β : Type}

/-! ## Outputs -/

namespace Output

theorem append_append (o : Output) (bs cs : Bytes) :
    (o.append bs).append cs = o.append (bs ++ cs) := by
  have h : o.written ++ bs ++ cs = o.written ++ (bs ++ cs) := Array.toList_inj.1 (by simp)
  simp only [append, h]

theorem append_nil (o : Output) : o.append [] = o := by
  simp [append]

end Output

/-- The bytes of an id or a count. -/
def countBytes (native : Bool) (n : Nat) : Bytes :=
  (Item.var .u32 (BitVec.ofNat _ n)).encode native

/-- The byte of a marker. -/
def Marker.byte (m : Marker) : UInt8 := UInt8.ofBitVec m.code

/-! ## Readings of an input that is all in memory -/

namespace Reading

/-- Whether a reading takes the bytes for a result and changes nothing else. -/
def Takes (native : Bool) (y : Reading α) (bs : Bytes) (a : α) : Prop :=
  ∀ r : ReadState, r.input.source = none → r.input.native = native → bs <+: r.input.unread →
    y r = .ok a { r with input := r.input.advance bs.length }

theorem takes_scan {native : Bool} {x : Scan α} {bs : Bytes} {a : α}
    (hx : Scan.Reads native x bs a) : Takes native (scan x) bs a := by
  intro r hs hn hp
  unfold scan
  rw [hx r.input hs hn hp]

theorem takes_count {native : Bool} {n : Nat} (hn : n < 2 ^ 32) :
    Takes native count (countBytes native n) n := by
  intro r hs hl hp
  unfold count
  rw [bind_of_ok (takes_scan (Input.reads_var .u32 (BitVec.ofNat _ n)) r hs hl hp)]
  have : (BitVec.ofNat 32 n).toNat = n := by
    rw [BitVec.toNat_ofNat]
    exact Nat.mod_eq_of_lt hn
  exact congrArg (EStateM.Result.ok · _) this

theorem takes_marker {native : Bool} (m : Marker) : Takes native marker [m.byte] m := by
  intro r hs hl hp
  unfold marker
  rw [bind_of_ok (takes_scan (Input.reads_octet m.code) r hs hl hp),
    Marker.ofCode?_eq_some_iff.2 rfl]
  rfl

end Reading

/-! ## Agreement -/

/-- Different members of a set are no more than it has. -/
theorem length_le_of_nodup {l : List α} {S : Set α} {n : Nat} (hl : l.Nodup)
    (hm : ∀ a ∈ l, a ∈ S) (hS : S.encard ≤ n) : l.length ≤ n := by
  classical
  have hsub : (↑l.toFinset : Set α) ⊆ S := by simpa [Set.subset_def] using hm
  have hcard := (Set.encard_le_encard hsub).trans hS
  rw [Set.encard_coe_eq_coe_finsetCard, List.toFinset_card_of_nodup hl] at hcard
  exact_mod_cast hcard

/-- How what was written is rebuilt. -/
def Engine.manner (e : Engine) : Manner := ⟨e.config.trackRef, true⟩

/-- Whether a writer and a reader agree, where an object may be announced that is
    not built yet and all that have numbers are of a set. -/
structure Agree (e : Engine) (S : Set ObjId) (new : Option ObjId) (s : WriteState) (d : Draft)
    (r : ReadState) : Prop where
  source : r.input.source = none
  layout : r.input.native = s.out.native
  scope : r.scope = s.scope
  heap : r.heap = d.heap
  mem : ∀ o ∈ s.written.objects, o ∈ S
  written : e.config.trackRef = true → s.written.objects = d.images.map Prod.fst ++ new.toList
  bound : e.config.trackRef = true →
    r.bindings.bound.toList = (d.images.map fun i => some i.2) ++ new.toList.map fun _ => none

/-- Whether the length of a text, or the count of entries, has 32 bits. -/
def Node.Small : Node → Prop
  | .leaf a => ∀ t, a = .string t → (Utf8.encode t).length < 2 ^ 32
  | .container c => c.entries.length < 2 ^ 32
  | _ => True

instance : DecidablePred Node.Small
  | .leaf (.string s) => decidable_of_iff ((Utf8.encode s).length < 2 ^ 32) (by simp [Node.Small])
  | .leaf (.bool _) | .leaf (.i8 _) | .leaf (.i16 _) | .leaf (.i32 _) | .leaf (.i64 _)
  | .leaf (.f32 _) | .leaf (.f64 _) => isTrue (by rintro t ⟨⟩)
  | .container c => inferInstanceAs (Decidable (c.entries.length < 2 ^ 32))
  | .octet _ | .record _ => inferInstanceAs (Decidable True)

/-- Whether all lengths and counts of what a value leads to have 32 bits. -/
def Heap.Small (h : Heap) (v : Value) : Prop := ∀ o, h.Leads v o → (h.node o).Small

/-- Whether lengths, counts and the numbers that are given to containers have 32 bits
    where a value is written. -/
structure Engine.Fits (e : Engine) (h : Heap) (v : Value) : Prop where
  small : h.Small v
  few : e.config.trackRef = true → (h.containersOf v).encard ≤ 2 ^ 32

/-- Whether nothing is cut to 32 bits in what is written for a task, where numbers are
    given to containers of a set. -/
structure Task.Fits (e : Engine) (h : Heap) (S : Set ObjId) (t : Task) : Prop where
  small : ∀ v ∈ t.values, h.Small v
  few : e.config.trackRef = true → S.encard ≤ 2 ^ 32
  subset : ∀ v ∈ t.values, h.containersOf v ⊆ S

/-- Whether a reading takes the bytes that a writing has appended, and makes of
    them what a task comes to, if nothing is cut. -/
def Follows (e : Engine) (h : Heap) (t : Task) (new : Option ObjId) (s s' : WriteState)
    (bs : Bytes) (y : Draft → Reading α) (image : α → Value) : Prop :=
  s'.out = s.out.append bs ∧ ∀ S, t.Fits e h S →
    ∀ d r, Agree e S new s d r → d.Valid e.manner h → t.Ready e.manner d →
      bs <+: r.input.unread → ∃ a d' r', y d r = .ok a r' ∧
        Rebuilds e.manner h t d (image a) d' ∧ Agree e S none s' d' r' ∧
        r'.input = r.input.advance bs.length ∧ r'.bindings.pending = r.bindings.pending

/-- Whether a reading takes what a writing appends, and makes of it what a task comes to. -/
def Mirrors (e : Engine) (h : Heap) (t : Task) (x : Writing Unit) (y : Reading α)
    (image : α → Value) : Prop :=
  ∀ s s', x s = .ok () s' → ∃ bs : Bytes, Follows e h t none s s' bs (fun _ => y) image

variable {e : Engine} {h : Heap} {S : Set ObjId} {t : Task} {new : Option ObjId}
  {s s' : WriteState} {d d' : Draft} {r r' : ReadState} {bs cs : Bytes}

namespace Heap

variable {v : Value} {o : ObjId}

theorem Small.part (hs : h.Small (some o)) {x : Value} (hx : x ∈ (h.node o).parts) : h.Small x :=
  fun q hq => hs q (.part hx hq)

theorem small_of_nodes (hn : ∀ o < h.size, (h.node o).Small) : h.Small v := by
  intro o _
  by_cases ho : o < h.size
  · exact hn o ho
  · rw [node_of_size_le (Nat.le_of_not_lt ho)]
    rintro t ⟨⟩

/-- There are no more containers than objects. -/
theorem encard_containersOf_le (h : Heap) (v : Value) : (h.containersOf v).encard ≤ h.size := by
  have hsub : h.containersOf v ⊆ (↑(Finset.range h.size) : Set ObjId) := by
    rintro o ⟨-, c, hc⟩
    rw [Finset.mem_coe, Finset.mem_range]
    by_contra ho
    rw [node_of_size_le (Nat.le_of_not_lt ho)] at hc
    cases hc
  calc (h.containersOf v).encard ≤ (↑(Finset.range h.size) : Set ObjId).encard :=
        Set.encard_le_encard hsub
    _ = h.size := by rw [Set.encard_coe_eq_coe_finsetCard, Finset.card_range]

end Heap

theorem Engine.fits_of_nodes (e : Engine) {h : Heap} (hn : ∀ o < h.size, (h.node o).Small)
    (hs : h.size < 2 ^ 32) (v : Value) : e.Fits h v where
  small := Heap.small_of_nodes hn
  few _ := (h.encard_containersOf_le v).trans (by exact_mod_cast hs.le)

theorem Engine.Fits.task {v : Value} (hf : e.Fits h v) :
    (Task.value v).Fits e h (h.containersOf v) where
  small := List.forall_mem_singleton.2 hf.small
  few := hf.few
  subset := List.forall_mem_singleton.2 subset_rfl

theorem Task.Fits.of_mem {t₁ : Task} (hf : t.Fits e h S) (hv : ∀ v ∈ t₁.values, v ∈ t.values) :
    t₁.Fits e h S where
  small v hm := hf.small v (hv v hm)
  few := hf.few
  subset v hm := hf.subset v (hv v hm)

/-- The entries of a container fit if it does. -/
theorem Task.Fits.entries {o p : ObjId} {c : Container} (hf : (Task.object o).Fits e h S)
    (hc : h.node o = .container c) : (Task.entries p c.entries).Fits e h S := by
  have hparts : ∀ v ∈ (Task.entries p c.entries).values, v ∈ (h.node o).parts := by
    simp [Node.parts, hc, Task.values]
  have ho : (some o : Value) ∈ (Task.object o).values := List.mem_singleton_self _
  exact ⟨fun v hv => (hf.small _ ho).part (hparts v hv), hf.few,
    fun v hv => (Heap.containersOf_part (hparts v hv)).trans (hf.subset _ ho)⟩

theorem Agree.take (ha : Agree e S new s d r) (bs : Bytes) :
    Agree e S new { s with out := s.out.append bs } d
      { r with input := r.input.advance bs.length } :=
  { ha with
    source := ha.source
    layout := ha.layout }

theorem Agree.inScope (ha : Agree e S new s d r) (change : Scope → Scope) :
    Agree e S new (inScope change s) d (inScope change r) :=
  { ha with scope := congrArg change ha.scope }

namespace Follows

variable {y : Draft → Reading α} {image : α → Value}

/-- Bytes that are taken before. -/
theorem take {y₀ : Reading β} {b : β} {f : Draft → β → Reading α}
    (hy : Reading.Takes s.out.native y₀ bs b)
    (hf : Follows e h t new { s with out := s.out.append bs } s' cs (fun d => f d b) image) :
    Follows e h t new s s' (bs ++ cs) (fun d => y₀ >>= f d) image := by
  obtain ⟨ho, hf⟩ := hf
  refine ⟨by rw [ho, Output.append_append], fun S hfit d r ha hv ht hp => ?_⟩
  have hy' := hy r ha.source ha.layout ((List.prefix_append bs cs).trans hp)
  obtain ⟨a, d', r', hr, hd, ha', hi, hb⟩ :=
    hf S hfit d _ (ha.take bs) hv ht (Input.prefix_advance hp)
  refine ⟨a, d', r', (bind_of_ok hy').trans hr, hd, ha', ?_, hb⟩
  rw [hi, Input.advance_advance, List.length_append]

/-- The same reading with another result. -/
theorem congr {y' : Draft → Reading β} {image' : β → Value} {g : α → β}
    (hf : Follows e h t new s s' bs y image) (hg : ∀ a, image' (g a) = image a)
    (hy : ∀ d r a r', y d r = .ok a r' → y' d r = .ok (g a) r') :
    Follows e h t new s s' bs y' image' := by
  refine ⟨hf.1, fun S hfit d r ha hv ht hp => ?_⟩
  obtain ⟨a, d', r', hr, hd, hrest⟩ := hf.2 S hfit d r ha hv ht hp
  exact ⟨g a, d', r', hy d r a r' hr, by rwa [hg], hrest⟩

theorem null : Follows e h (.value none) none s s [] (fun _ => pure none) id :=
  ⟨(Output.append_nil _).symm, fun _ _ d r ha _ _ _ => ⟨none, d, r, rfl, .null, ha, rfl, rfl⟩⟩

/-- An object that is not to be found among those met before. -/
theorem unmet {o : ObjId} (hm : ∀ d : Draft, d.Valid e.manner h → d.met e.manner o = none)
    (hf : Follows e h (.object o) new s s' bs y image) :
    Follows e h (.value (some o)) new s s' bs y image := by
  refine ⟨hf.1, fun S hfit d r ha hv _ hp => ?_⟩
  obtain ⟨a, d', r', hr, hd, hrest⟩ := hf.2 S (hfit.of_mem fun _ => id) d r ha hv (hm d hv) hp
  exact ⟨a, d', r', hr, .unmet (hm d hv) hd, hrest⟩

/-- Both under the frame of a declaration. -/
theorem declaring {ty : Declared} {s₁ : WriteState} {y : Reading α}
    (hf : Follows e h t none (inScope (·.pushed ty) s) s₁ bs (fun _ => y) image) :
    Follows e h t none s (inScope (·.lowered s.scope.frames.height) s₁) bs
      (fun _ => GraphWire.declaring ty y) image := by
  refine ⟨hf.1, fun S hfit d r ha hv ht hp => ?_⟩
  obtain ⟨a, d', r', hr, hd, ha', hi, hb⟩ :=
    hf.2 S hfit d _ (ha.inScope (·.pushed ty)) hv ht hp
  refine ⟨a, d', _, declaring_eq_ok.2 ⟨r', hr, rfl⟩, hd, ?_, hi, hb⟩
  have hsc : (Scoped.scope r : Scope) = s.scope := ha.scope
  rw [hsc]
  exact ha'.inScope _

end Follows

/-! ## Objects that are met for the first time, and again -/

/-- The object that is to be built next, if its class is tracked. -/
def Engine.announced (e : Engine) (c : ClassInfo) (o : ObjId) : Option ObjId :=
  if e.tracks c then some o else none

/-- The number that an object is built under, if its class is tracked. -/
def Engine.numbered (e : Engine) (c : ClassInfo) (d : Draft) : Option Nat :=
  if e.tracks c then some d.images.length else none

/-- Whether nested objects are read as they are written. -/
def MirrorsNested (e : Engine) (h : Heap) (wn : ObjId → Serializer → Writing Unit)
    (rn : ClassInfo → Serializer → Option Nat → Reading ObjId) : Prop :=
  ∀ o c ser s s', e.registry.Gives c ser → h.typeOf o = c.type →
    wn o ser s = .ok () s' → ∃ bs : Bytes,
      Follows e h (.object o) (e.announced c o) s s' bs (fun d => rn c ser (e.numbered c d)) some

variable {wn : ObjId → Serializer → Writing Unit}
  {rn : ClassInfo → Serializer → Option Nat → Reading ObjId} {o : ObjId} {c : ClassInfo}
  {ser : Serializer} {v : Value}

/-- What is not tracked was never met. -/
theorem met_eq_none (he : e.registry.Sound) (hg : e.registry.Gives c ser)
    (ho : h.typeOf o = c.type) (ht : e.tracks c = false) (hv : d.Valid e.manner h) :
    d.met e.manner o = none := by
  unfold Draft.met
  split
  · next hm =>
    refine lookup_eq_none_of_forall fun i hi => ?_
    have hc : c.tracked = false := by simpa [Engine.tracks, show e.config.trackRef = true from hm] using ht
    cases he.shape hg with
    | leaf hl =>
      obtain ⟨c', _, hc', -⟩ := hv.images_type i.1 i.2 hi
      rintro rfl
      simp [Heap.typeOf, hc', hl, Node.type] at ho
    | map _ _ hct => cases hc.symm.trans hct
  · rfl

/-- What is tracked is a container. -/
theorem mem_containersOf (he : e.registry.Sound) (hg : e.registry.Gives c ser)
    (ho : h.typeOf o = c.type) (ht : e.tracks c = true) : o ∈ h.containersOf (some o) := by
  have htracked : c.tracked = true := (Bool.and_eq_true_iff.1 ht).2
  cases he.shape hg with
  | leaf _ _ hnot => cases htracked.symm.trans hnot
  | map htype =>
    obtain ⟨ct, hct, -⟩ := Heap.exists_container (ho.trans htype)
    exact ⟨.self, ct, hct⟩

namespace Reading

variable (rn) (c) (ser)

/-- Goes on after the marker of a tracked object. -/
def resume : Marker → Reading ObjId
  | .back => earlier
  | .fresh => freshVia rn c ser
  | m => throw (.unexpectedMarker m c.type)

theorem objectVia_of_tracks (ht : e.tracks c = true) :
    objectVia e rn c ser = marker >>= resume rn c ser := by
  unfold objectVia
  rw [if_pos ht]
  rfl

theorem nullableVia_eq : nullableVia rn c ser = marker >>= fun m =>
    match m with
    | .null => pure none
    | .plain => some <$> rn c ser none
    | m => some <$> resume rn c ser m := by
  unfold nullableVia
  congr 1
  funext m
  cases m <;> rfl

end Reading

theorem announce_of_some {i : Nat} (hi : s.written.number? o = some i) :
    Writing.announce o s = .ok true
      { s with out := s.out.append (Marker.back.byte :: countBytes s.out.native i) } := by
  have h' : s.out.append (Marker.back.byte :: countBytes s.out.native i) =
      (s.out.append [Marker.back.byte]).append (countBytes s.out.native i) := by
    rw [Output.append_append]
    rfl
  rw [h']
  show EStateM.Result.ok _ _ = _
  simp only [hi]
  rfl

theorem announce_of_none (hi : s.written.number? o = none) :
    Writing.announce o s = .ok false
      { s with
        out := s.out.append [Marker.fresh.byte]
        written := ⟨s.written.objects ++ [o]⟩ } := by
  show EStateM.Result.ok _ _ = _
  simp only [hi]
  rfl

/-- The number of an object leads to its image. -/
theorem Agree.earlier {i : Nat} (ha : Agree e S none s d r) (hv : d.Valid e.manner h)
    (ht : e.config.trackRef = true) (hi : s.written.number? o = some i) :
    ∃ p, r.bindings.get i = .ok p ∧ d.met e.manner o = some p := by
  unfold Written.number? at hi
  have hw : s.written.objects = d.images.map Prod.fst := by simpa using ha.written ht
  have hb : r.bindings.bound.toList = d.images.map fun i => some i.2 := by
    simpa using ha.bound ht
  rw [hw] at hi
  obtain ⟨hlt, hio, -⟩ := List.idxOf?_eq_some_iff.1 hi
  rw [List.length_map] at hlt
  rw [List.getElem_map] at hio
  obtain ⟨p, hp⟩ : ∃ p, d.images[i] = (o, p) := ⟨d.images[i].2, by rw [← hio]⟩
  refine ⟨p, ?_, ?_⟩
  · have : r.bindings.bound[i]? = some (some p) := by
      rw [← Array.getElem?_toList, hb, List.getElem?_map, List.getElem?_eq_getElem hlt, hp]
      rfl
    unfold Bindings.get
    rw [this]
  · unfold Draft.met
    rw [if_pos (show e.manner.shares = true from ht)]
    exact lookup_of_mem (hv.shared ht) (hp ▸ List.getElem_mem hlt)

theorem Agree.met_none (ha : Agree e S (some o) s d r) (ht : e.config.trackRef = true)
    {objects : List ObjId} (hw : s.written.objects = objects ++ [o]) (ho : o ∉ objects) :
    d.met e.manner o = none := by
  have h' := ha.written ht
  rw [hw] at h'
  have : objects = d.images.map Prod.fst := List.append_cancel_right h'
  unfold Draft.met
  rw [if_pos (show e.manner.shares = true from ht)]
  refine lookup_eq_none_of_forall ?_
  rintro i hi rfl
  exact ho (this ▸ List.mem_map_of_mem hi)

theorem Engine.trackRef_of_tracks (ht : e.tracks c = true) : e.config.trackRef = true :=
  (Bool.and_eq_true_iff.1 ht).1

/-- A number that was given has 32 bits if only so many objects may have one. -/
theorem Agree.number_lt {i : Nat} (ha : Agree e S none s d r) (hv : d.Valid e.manner h)
    (ht : e.config.trackRef = true) (hS : S.encard ≤ 2 ^ 32) (hi : s.written.number? o = some i) :
    i < 2 ^ 32 := by
  have hw : s.written.objects = d.images.map Prod.fst := by simpa using ha.written ht
  have hlen := length_le_of_nodup (hw ▸ hv.shared ht) ha.mem (n := 2 ^ 32) (by exact_mod_cast hS)
  exact (List.idxOf?_eq_some_iff.1 hi).1.trans_le hlen

/-- And there is one left for a new object. -/
theorem Agree.images_lt (ha : Agree e S none s d r) (hv : d.Valid e.manner h)
    (ht : e.config.trackRef = true) (hS : S.encard ≤ 2 ^ 32) (ho : o ∈ S)
    (hnum : s.written.number? o = none) : d.images.length < 2 ^ 32 := by
  have hw : s.written.objects = d.images.map Prod.fst := by simpa using ha.written ht
  have hnodup : (o :: s.written.objects).Nodup :=
    List.nodup_cons.2 ⟨List.idxOf?_eq_none_iff.1 hnum, hw ▸ hv.shared ht⟩
  have hlen := length_le_of_nodup hnodup (List.forall_mem_cons.2 ⟨ho, ha.mem⟩) (n := 2 ^ 32)
    (by exact_mod_cast hS)
  rwa [List.length_cons, hw, List.length_map] at hlen

theorem Agree.reserve (ha : Agree e S none s d r) (ht : e.tracks c = true)
    (hlt : d.images.length < 2 ^ 32) :
    Reading.reserve r = .ok d.images.length
      { r with bindings := { r.bindings with bound := r.bindings.bound.push none } } := by
  have hb : r.bindings.bound.size = d.images.length := by
    have := ha.bound (Engine.trackRef_of_tracks ht)
    rw [← Array.length_toList, this]
    simp
  show EStateM.Result.ok (BitVec.ofNat 32 r.bindings.bound.size).toNat _ = _
  rw [hb, BitVec.toNat_ofNat, Nat.mod_eq_of_lt hlt]

section
variable {f : Marker → Reading α} {g : ObjId → α} {image : α → Value}

/-- An object met before is read by its number, whatever is done with it then. -/
theorem follows_back {i : Nat} (htr : e.config.trackRef = true) (hi : ∀ p, image (g p) = some p)
    (hf : ∀ r p r', Reading.earlier r = .ok p r' → f .back r = .ok (g p) r')
    (hnum : s.written.number? o = some i) :
    Follows e h (.value (some o)) none s
      { s with out := s.out.append (Marker.back.byte :: countBytes s.out.native i) }
      (Marker.back.byte :: countBytes s.out.native i) (fun _ => Reading.marker >>= f) image := by
  refine ⟨rfl, fun S hfit d r ha hv _ hp => ?_⟩
  have hlt : i < 2 ^ 32 := ha.number_lt hv htr (hfit.few htr) hnum
  obtain ⟨p, hp', hm⟩ := ha.earlier hv htr hnum
  have hmark := Reading.takes_marker .back r ha.source ha.layout
    ((List.prefix_append [Marker.back.byte] _).trans hp)
  have hcount := Reading.takes_count hlt _ (ha.take [Marker.back.byte]).source
    (ha.take [Marker.back.byte]).layout (@Input.prefix_advance _ [Marker.back.byte] _ hp)
  let bytes : Bytes := Marker.back.byte :: countBytes s.out.native i
  refine ⟨g p, d, { r with input := r.input.advance bytes.length }, ?_, ?_, ha.take bytes, rfl, rfl⟩
  · refine (bind_of_ok hmark).trans (hf _ p _ ?_)
    refine (bind_of_ok hcount).trans ((get_bind _ _).trans ?_)
    show attempt (r.bindings.get i) _ = _
    rw [hp', Input.advance_advance, List.length_singleton, Nat.add_comm]
    rfl
  · rw [hi]
    exact .met hm

/-- What changes when the marker of a new object is written and read. -/
theorem Agree.fresh (ha : Agree e S none s d r) (ht : e.tracks c = true) (ho : o ∈ S)
    (hnum : s.written.number? o = none) :
    Agree e S (e.announced c o)
      { s with
        out := s.out.append [Marker.fresh.byte]
        written := ⟨s.written.objects ++ [o]⟩ } d
      { r with
        input := r.input.advance 1
        bindings := { r.bindings with bound := r.bindings.bound.push none } } ∧
    d.met e.manner o = none := by
  have htr := Engine.trackRef_of_tracks ht
  have ha₁ := ha.take [Marker.fresh.byte]
  have ha₂ : Agree e S (some o)
      { s with
        out := s.out.append [Marker.fresh.byte]
        written := ⟨s.written.objects ++ [o]⟩ } d
      { r with
        input := r.input.advance 1
        bindings := { r.bindings with bound := r.bindings.bound.push none } } := by
    refine { ha₁ with mem := fun p hp => ?_, written := fun _ => ?_, bound := fun _ => ?_ }
    · rcases List.mem_append.1 hp with hp | hp
      · exact ha.mem p hp
      · rwa [List.mem_singleton.1 hp]
    · simpa using ha.written htr
    · simpa using ha.bound htr
  refine ⟨?_, ha₂.met_none htr rfl (List.idxOf?_eq_none_iff.1 hnum)⟩
  unfold Engine.announced
  rwa [if_pos ht]

/-- A new object is read as it is written, whatever is done with it then. -/
theorem MirrorsNested.follows_fresh (hn : MirrorsNested e h wn rn) (he : e.registry.Sound)
    (hg : e.registry.Gives c ser) (ho : h.typeOf o = c.type) (ht : e.tracks c = true)
    (hi : ∀ p, image (g p) = some p)
    (hf : ∀ r p r', Reading.freshVia rn c ser r = .ok p r' → f .fresh r = .ok (g p) r')
    (hnum : s.written.number? o = none)
    (hx : wn o ser { s with
      out := s.out.append [Marker.fresh.byte]
      written := ⟨s.written.objects ++ [o]⟩ } = .ok () s') :
    ∃ bs, Follows e h (.value (some o)) none s s' (Marker.fresh.byte :: bs)
      (fun _ => Reading.marker >>= f) image := by
  obtain ⟨bs, hout, hnest⟩ := hn o c ser _ _ hg ho hx
  refine ⟨bs, ?_, fun S hfit d r ha hv _ hp => ?_⟩
  · rw [hout, Output.append_append]
    rfl
  have hmark := Reading.takes_marker .fresh r ha.source ha.layout
    ((List.prefix_append [Marker.fresh.byte] bs).trans hp)
  have hoS : o ∈ S := hfit.subset _ (List.mem_singleton_self _) (mem_containersOf he hg ho ht)
  have htr := Engine.trackRef_of_tracks ht
  have hlt : d.images.length < 2 ^ 32 := ha.images_lt hv htr (hfit.few htr) hoS hnum
  obtain ⟨ha₂, hmet⟩ := ha.fresh ht hoS hnum
  obtain ⟨p, d', r', hr, hd, ha', hin, hb⟩ := hnest S (hfit.of_mem fun _ => id) d _ ha₂ hv hmet
    (@Input.prefix_advance _ [Marker.fresh.byte] _ hp)
  refine ⟨g p, d', r', ?_, ?_, ha', ?_, hb⟩
  · refine (bind_of_ok hmark).trans (hf _ p _ ?_)
    simp only [Engine.numbered, if_pos ht] at hr
    exact (bind_of_ok ((ha.take [Marker.fresh.byte]).reserve ht hlt)).trans hr
  · rw [hi]
    exact .unmet hmet hd
  · rw [hin, Input.advance_advance, List.length_cons, Nat.add_comm]

/-- **A tracked object is read as it is written**, whatever is done with it then. -/
theorem MirrorsNested.tracked (hn : MirrorsNested e h wn rn) (he : e.registry.Sound)
    (hg : e.registry.Gives c ser) (ho : h.typeOf o = c.type) (ht : e.tracks c = true)
    (hi : ∀ p, image (g p) = some p)
    (hf : ∀ mk r p r', mk = .back ∨ mk = .fresh → Reading.resume rn c ser mk r = .ok p r' →
      f mk r = .ok (g p) r') :
    Mirrors e h (.value (some o)) (Writing.unlessWritten wn true o ser)
      (Reading.marker >>= f) image := by
  intro s s' hx
  obtain ⟨again, s₁, h₁, hx⟩ := bind_eq_ok.1 hx
  cases hnum : s.written.number? o with
  | some i =>
    rw [announce_of_some hnum] at h₁
    cases h₁
    cases hx
    exact ⟨Marker.back.byte :: countBytes s.out.native i,
      follows_back (Engine.trackRef_of_tracks ht) hi (fun r p r' => hf .back r p r' (Or.inl rfl)) hnum⟩
  | none =>
    rw [announce_of_none hnum] at h₁
    cases h₁
    obtain ⟨bs, hfol⟩ := hn.follows_fresh he hg ho ht hi
      (fun r p r' => hf .fresh r p r' (Or.inr rfl)) hnum hx
    exact ⟨Marker.fresh.byte :: bs, hfol⟩

end

/-- An object that is not tracked is read as it is written. -/
theorem MirrorsNested.untracked (hn : MirrorsNested e h wn rn) (he : e.registry.Sound)
    (hg : e.registry.Gives c ser) (ho : h.typeOf o = c.type) (ht : e.tracks c = false) :
    Mirrors e h (.value (some o)) (wn o ser) (rn c ser none) some := by
  intro s s' hx
  obtain ⟨bs, hf⟩ := hn o c ser s s' hg ho hx
  have hnum : ∀ d : Draft, e.numbered c d = none := by simp [Engine.numbered, ht]
  have hann : e.announced c o = none := by simp [Engine.announced, ht]
  simp only [hnum, hann] at hf
  exact ⟨bs, hf.unmet fun d hv => met_eq_none he hg ho ht hv⟩

end GraphWire
