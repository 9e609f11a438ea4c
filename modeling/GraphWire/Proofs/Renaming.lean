/-
  Names do not matter.

  Values that match are written alike, with the same bytes or up to the same error,
  whatever their objects are called.  If references are tracked the containers have to
  be related one to one: then the objects written before the one and before the other
  correspond in their order, and an object has the number of the one it is related to
  (`number?_eq`).

  * `AlikeNested.any` and others: one step for each way of writing, and all levels by
    induction (`alikeNested_data`);
  * `Engine.serialize_eq_of_matching`: the streams of values that match are the same.
-/
import GraphWire.Proofs.Comparing
import GraphWire.Proofs.RoundTrip
import GraphWire.Proofs.Unfolding

namespace GraphWire

/-- Whether related outputs have the same layout and stay related when the same item is put
    into both. -/
structure Output.Joint (O : Output → Output → Prop) : Prop where
  native : ∀ o o', O o o' → o.native = o'.native
  put : ∀ i o o', O o o' → O (o.put i) (o'.put i)

theorem Output.Joint.eq : Output.Joint Eq where
  native _ _ := congrArg Output.native
  put i _ _ := congrArg (Output.put · i)

/-- What matches when two graphs are written: values by the relation, which is one to
    one for containers if references are tracked. -/
structure Engine.Twinned (e : Engine) (h h' : Heap) (R : Value → Value → Prop) : Prop where
  matching : h.Matching h' R
  oneToOne : e.config.trackRef = true → h.OneToOne R

/-- Whether two writings are at the same point, where the objects written before the
    one are related to those written before the other. -/
structure WriteState.Twin (e : Engine) (h : Heap) (R : Value → Value → Prop)
    (s t : WriteState) : Prop where
  out : s.out = t.out
  scope : s.scope = t.scope
  written : e.config.trackRef = true → List.Forall₂ (fun o p =>
    (∃ c, h.node o = .container c) ∧ R (some o) (some p)) s.written.objects t.written.objects

/-- Whether two writings do the same from the same point on. -/
abbrev WrittenAlike (e : Engine) (h : Heap) (R : Value → Value → Prop)
    (x y : Writing Unit) : Prop :=
  InStep .strict (WriteState.Twin e h R) x y

variable {e : Engine} {h h' : Heap} {R : Value → Value → Prop} {v w : Value} {o p : ObjId}
  {c : ClassInfo} {ser : Serializer} {wn wn' : ObjId → Serializer → Writing Unit}

theorem sameScope_twin : SameScope (WriteState.Twin e h R) where
  scope _ _ hst := hst.scope
  change f _ _ hst := { hst with scope := congrArg f hst.scope }

namespace Heap.Matching

variable (hR : h.Matching h' R)
include hR

theorem typeOf_eq (hop : R (some o) (some p)) : h.typeOf o = h'.typeOf p := by
  cases hR _ _ hop with
  | leaf ha ha' => simp [typeOf, ha, ha']
  | container hc hc' ht _ => simp [typeOf, hc, hc', Node.type, ht]

theorem checkClass_eq (hop : R (some o) (some p)) (c : ClassInfo) :
    h.checkClass o c = h'.checkClass p c := by
  unfold checkClass
  rw [hR.typeOf_eq hop]

end Heap.Matching

/-! ## Numbers -/

/-- Lists that are related one to one have what is related at the same place. -/
theorem idxOf?_eq_of_forall₂ {l l' : List ObjId}
    (hl : List.Forall₂ (fun o' p' => o' = o ↔ p' = p) l l') : l.idxOf? o = l'.idxOf? p := by
  induction hl with
  | nil => rfl
  | @cons o' p' l l' ho _ ih =>
    rw [List.idxOf?_cons, List.idxOf?_cons, ih]
    simp only [beq_iff_eq, ho]

theorem number?_eq {s t : WriteState} (hst : s.Twin e h R t) (ht : e.config.trackRef = true)
    (hone : h.OneToOne R) (hop : R (some o) (some p)) :
    s.written.number? o = t.written.number? p :=
  idxOf?_eq_of_forall₂ ((hst.written ht).imp fun o' p' hop' => hone o' p' o p hop'.2 hop hop'.1)

theorem written_put (i : Item) : WrittenAlike e h R (Writing.put i) (Writing.put i) :=
  .modify fun _ _ hst => { hst with out := by rw [hst.out] }

theorem announced_alike (ht : e.config.trackRef = true) (hone : h.OneToOne R)
    (hc : ∃ c, h.node o = .container c) (hop : R (some o) (some p)) :
    InStep .strict (WriteState.Twin e h R) (Writing.announce o) (Writing.announce p) := by
  intro s t hst
  have hnum := number?_eq hst ht hone hop
  cases hs : s.written.number? o with
  | some i =>
    rw [announce_of_some hs, announce_of_some (hnum.symm.trans hs)]
    exact .ok true { hst with out := by rw [hst.out] }
  | none =>
    rw [announce_of_none hs, announce_of_none (hnum.symm.trans hs)]
    exact .ok false
      { hst with
        out := by rw [hst.out]
        written := fun ht => List.rel_append (hst.written ht) (.cons ⟨hc, hop⟩ .nil) }

/-! ## One level -/

/-- Whether nested objects that are related are written alike. -/
def AlikeNested (e : Engine) (h : Heap) (R : Value → Value → Prop)
    (wn wn' : ObjId → Serializer → Writing Unit) : Prop :=
  ∀ o p c ser, R (some o) (some p) → e.registry.Gives c ser → h.typeOf o = c.type →
    WrittenAlike e h R (wn o ser) (wn' p ser)

section
variable (hn : AlikeNested e h R wn wn') (he : e.registry.Sound) (hR : e.Twinned h h' R)
include hn he hR

theorem AlikeNested.unlessWritten (hg : e.registry.Gives c ser) (ho : h.typeOf o = c.type)
    (hop : R (some o) (some p)) :
    WrittenAlike e h R (Writing.unlessWritten wn (e.tracks c) o ser)
      (Writing.unlessWritten wn' (e.tracks c) p ser) := by
  cases ht : e.tracks c with
  | false => exact hn o p c ser hop hg ho
  | true =>
    have htr := Engine.trackRef_of_tracks ht
    have hc : ∃ c, h.node o = .container c := by
      cases he.shape hg with
      | leaf _ _ hnot => simp [Engine.tracks, hnot] at ht
      | map hmap =>
        obtain ⟨c, hc, -⟩ := Heap.exists_container (ho.trans hmap)
        exact ⟨c, hc⟩
    refine (announced_alike htr (hR.oneToOne htr) hc hop).bind fun again => ?_
    cases again with
    | true => exact .pure ()
    | false => exact hn o p c ser hop hg ho

theorem AlikeNested.object (hg : e.registry.Gives c ser) (hvw : R v w) :
    WrittenAlike e h R (Writing.objectVia e h wn v c ser) (Writing.objectVia e h' wn' w c ser) := by
  cases v with
  | none =>
    cases hR.matching _ _ hvw
    exact .throw rfl
  | some o =>
    cases w with
    | none => cases hR.matching _ _ hvw
    | some p =>
      unfold Writing.objectVia
      simp only [← hR.matching.checkClass_eq hvw c]
      exact .attempt_bind (fun _ _ => rfl) fun _ hcheck =>
        hn.unlessWritten he hR hg (Heap.typeOf_of_checkClass hcheck) hvw

theorem AlikeNested.nullable (hg : e.registry.Gives c ser) (hvw : R v w) :
    WrittenAlike e h R (Writing.nullableVia e h wn v c ser)
      (Writing.nullableVia e h' wn' w c ser) := by
  cases v with
  | none =>
    cases hR.matching _ _ hvw
    exact written_put _
  | some o =>
    cases w with
    | none => cases hR.matching _ _ hvw
    | some p =>
      unfold Writing.nullableVia
      simp only [← hR.matching.checkClass_eq hvw c]
      refine .attempt_bind (fun _ _ => rfl) fun _ hcheck => ?_
      have ho := Heap.typeOf_of_checkClass hcheck
      have hrest := hn.unlessWritten he hR hg ho hvw
      cases ht : e.tracks c with
      | true =>
        rw [ht] at hrest
        exact hrest
      | false => exact (written_put _).bind fun _ => hn o p c ser hvw hg ho

theorem AlikeNested.any (hvw : R v w) :
    WrittenAlike e h R (Writing.anyVia e h wn v) (Writing.anyVia e h' wn' w) := by
  cases v with
  | none =>
    cases hR.matching _ _ hvw
    exact written_put _
  | some o =>
    cases w with
    | none => cases hR.matching _ _ hvw
    | some p =>
      unfold Writing.anyVia
      simp only [← hR.matching.typeOf_eq hvw]
      refine .attempt_bind (fun _ _ => rfl) fun c hc => ?_
      refine .attempt_bind (fun _ _ => rfl) fun ser hser => ?_
      obtain ⟨ho, hg, -⟩ := he.gives_of_object hc hser
      exact (written_put _).bind fun _ => hn.unlessWritten he hR hg ho.symm hvw

theorem AlikeNested.side {slot : Slot}
    (hg : ∀ c ser, slot.target = some (c, ser) → e.registry.Gives c ser) (hvw : R v w) :
    WrittenAlike e h R (Writing.sideVia e h wn slot v) (Writing.sideVia e h' wn' slot w) := by
  unfold Writing.sideVia
  cases ht : slot.target with
  | none => exact hn.any he hR hvw
  | some target =>
    obtain ⟨c, ser⟩ := target
    cases slot.nullable with
    | true => exact hn.nullable he hR (hg c ser ht) hvw
    | false => exact hn.object he hR (hg c ser ht) hvw

theorem AlikeNested.entries {keySlot valueSlot : Slot}
    (hk : ∀ c ser, keySlot.target = some (c, ser) → e.registry.Gives c ser)
    (hv : ∀ c ser, valueSlot.target = some (c, ser) → e.registry.Gives c ser)
    (keyType : Declared) {l l' : List Entry}
    (hl : List.Forall₂ (fun e e' => R e.1 e'.1 ∧ R e.2 e'.2) l l') :
    WrittenAlike e h R (Writing.entriesVia e h wn keySlot valueSlot keyType l)
      (Writing.entriesVia e h' wn' keySlot valueSlot keyType l') := by
  have hcheck : ∀ (slot : Slot) {v w}, R v w → slot.check v = slot.check w := by
    intro slot v w hvw
    cases hR.matching _ _ hvw <;> rfl
  induction hl with
  | nil => exact .pure ()
  | @cons entry entry' l l' hee _ ih =>
    obtain ⟨k, x⟩ := entry
    obtain ⟨k', x'⟩ := entry'
    unfold Writing.entriesVia
    simp only [← hcheck _ hee.1, ← hcheck _ hee.2]
    refine .attempt_bind (fun _ _ => rfl) fun _ _ => .attempt_bind (fun _ _ => rfl) fun _ _ => ?_
    refine .bind (.declaring sameScope_twin (fun _ => sameScope_twin) (hn.side he hR hk hee.1))
      fun _ => ?_
    exact .bind (hn.side he hR hv hee.2) fun _ => ih

theorem AlikeNested.map {key value : SideSetup Serializer} (hk : e.registry.SideGives key)
    (hv : e.registry.SideGives value) (hop : R (some o) (some p)) :
    WrittenAlike e h R (Writing.mapVia e h wn key value o)
      (Writing.mapVia e h' wn' key value p) := by
  unfold Writing.mapVia
  cases hR.matching _ _ hop with
  | leaf ha ha' =>
    simp only [Heap.container?, ha, ha', hR.matching.typeOf_eq hop]
    exact .throw rfl
  | container hc hc' _ hent =>
    simp only [Heap.container?, hc, hc', hent.length_eq]
    refine .bind (written_put _) fun _ => .get_bind fun s t hst => .get_bind fun s' t' hst' => ?_
    have hargs : declaredArgs s = declaredArgs t := congrArg (fun sc : Scope =>
      sc.frames.next sc.depth) hst.scope
    rw [hargs, hst'.scope]
    refine .attempt_bind (fun _ _ => rfl) fun slots hslots => ?_
    obtain ⟨keySlot, valueSlot, keyType⟩ := slots
    obtain ⟨hgk, hgv⟩ := gives_of_resolveSlots he hk hv hslots
    exact .bind (hn.entries he hR hgk hgv keyType hent) fun _ => .modify (sameScope_twin.change _)

theorem AlikeNested.body (hg : e.registry.Gives c ser) (hop : R (some o) (some p)) :
    WrittenAlike e h R (Writing.bodyVia e h wn o ser) (Writing.bodyVia e h' wn' p ser) := by
  cases he.shape hg with
  | leaf _ hser =>
    subst hser
    unfold Writing.bodyVia
    cases hR.matching _ _ hop with
    | leaf ha ha' =>
      simp only [ha, ha', hR.matching.typeOf_eq hop]
      split
      · exact written_put _
      · exact .throw rfl
    | container hc hc' =>
      simp only [hc, hc', hR.matching.typeOf_eq hop]
      exact .throw rfl
  | map _ hser _ _ hk hv =>
    subst hser
    exact hn.map he hR hk hv hop

end

/-! ## All levels -/

section
variable (he : e.registry.Sound) (hR : e.Twinned h h' R)
include he hR

/-- **Nested objects that are related are written alike**, however deep. -/
theorem alikeNested_data (levels : Nat) :
    AlikeNested e h R (Writing.data e h levels) (Writing.data e h' levels) := by
  induction levels with
  | zero => exact fun _ _ _ _ _ _ _ => .tooDeep sameScope_twin fun _ => rfl
  | succ levels ih =>
    intro o p c ser hop hg _
    exact .descend sameScope_twin (fun _ => sameScope_twin) (fun _ => rfl) (ih.body he hR hg hop)

/-- **Values that are related are written alike.** -/
theorem any_alike (hvw : R v w) :
    WrittenAlike e h R (Writing.any e h v) (Writing.any e h' w) := by
  intro s t hst
  have hlevels := (alikeNested_data he hR (e.config.maxDepth - t.scope.depth)).any he hR hvw s t hst
  unfold Writing.any Writing.withNested
  rwa [hst.scope]

end

/-! ## Streams -/

namespace Engine

section
variable {O : Output → Output → Prop} {S S' : WriteState → WriteState → Prop} {x y : Writing Unit}

/-- Writings that go in step leave outputs related. -/
theorem inStep_writing (hstart : ∀ o o', O o o' → S (.start o) (.start o'))
    (hend : ∀ s t, S' s t → O s.out t.out) (hxy : InStepTo .strict S (fun _ => S') x y) :
    InStep .strict O (writing x) (writing y) := by
  intro o o' ho
  have hrun := hxy _ _ (hstart o o' ho)
  unfold writing
  generalize x (.start o) = r, y (.start o') = r' at hrun ⊢
  cases hrun with
  | ok _ hst => exact .ok () (hend _ _ hst)
  | error he => exact .error he
  | early he => exact he.elim

/-- Streams are written in step if their values are. -/
theorem inStep_writeStream (hO : Output.Joint O) (hsome : v.isSome = w.isSome)
    (hxy : InStep .strict O (writing x) (writing y)) :
    InStep .strict O (e.writeStream v x) (e.writeStream w y) := by
  have hnone : v.isNone = w.isNone := by rw [← Option.not_isSome, ← Option.not_isSome, hsome]
  unfold writeStream
  rw [hnone, hsome]
  have hheader : InStep .strict O (modify (e.writeHeader w.isNone) : EStateM Error Output PUnit)
      (modify (e.writeHeader w.isNone)) := .modify (hO.put _)
  refine hheader.bind fun _ => ?_
  split
  · exact hxy
  · exact .pure ()

/-- So are those to an output of the layout of the engine. -/
theorem inStep_serializeTo (hO : Output.Joint O) (hsome : v.isSome = w.isSome)
    (hxy : InStep .strict O (writing (Writing.any e h v)) (writing (Writing.any e h' w))) :
    InStep .strict O (e.serializeTo h v) (e.serializeTo h' w) := by
  refine .get_bind fun o o' ho => ?_
  rw [hO.native o o' ho]
  exact .attempt_bind (fun _ _ => rfl) fun _ _ => inStep_writeStream hO hsome hxy

/-- What is written in step to empty outputs is the same. -/
theorem written_eq {x y : EStateM Error Output Unit} (hxy : InStep .strict O x y)
    (hstart : O (.empty e.config.native) (.empty e.config.native))
    (hend : ∀ o o', O o o' → o = o') : e.written x = e.written y := by
  have hrun := hxy _ _ hstart
  unfold written
  generalize x (.empty e.config.native) = r, y (.empty e.config.native) = r' at hrun ⊢
  cases hrun with
  | ok _ ho => rw [hend _ _ ho]
  | error he => rw [show _ = _ from he]
  | early he => exact he.elim

end

variable (he : e.registry.Sound) (hR : e.Twinned h h' R)
include he hR

/-- What is appended to an output does not depend on the names. -/
theorem serializeTo_alike (hvw : R v w) :
    InStep .strict Eq (e.serializeTo h v) (e.serializeTo h' w) := by
  have hsome : v.isSome = w.isSome := by cases hR.matching _ _ hvw <;> rfl
  refine inStep_serializeTo .eq hsome (inStep_writing ?_ (fun _ _ hst => hst.out)
    (any_alike he hR hvw))
  rintro o _ rfl
  exact ⟨rfl, rfl, fun _ => .nil⟩

/-- **Values that match have the same stream**, or fail with the same error. -/
theorem serialize_eq_of_matching (hvw : R v w) : e.serialize h v = e.serialize h' w :=
  written_eq (serializeTo_alike he hR hvw) rfl fun _ _ => id

end Engine

end GraphWire
