/-
  The surroundings of a writing.

  A writing appends and never looks back: with other bytes before, it appends the same bytes,
  gives the same numbers and fails with the same error.  Of the frames around it, it looks at
  nothing but the final types that declarations stand for, so that it does the same where other
  frames serve as well.

  * `Writing.Pair` relates writings that are at the same point in two surroundings;
  * `Writing.nestedPairs_data`: one step for each way of writing, and all levels by induction;
  * `Engine.serializeTo_eq_ok`: so the stream of a value is appended to whatever stands there,
    and streams follow on one another (`Engine.serializeTo_forM`).
-/
import GraphWire.Proofs.Parameters
import GraphWire.Proofs.Renaming

namespace GraphWire

/-- Whether an output holds what another has before and then what a third holds. -/
structure Output.After (p o o' : Output) : Prop where
  eq : o = p.append o'.bytes
  native : o'.native = p.native

theorem Output.After.native_eq {p o o' : Output} (ho : Output.After p o o') :
    o.native = o'.native := by
  rw [ho.eq, ho.native, native_append]

theorem Output.After.append {p o o' : Output} (ho : Output.After p o o') (bs : Bytes) :
    Output.After p (o.append bs) (o'.append bs) :=
  ⟨by rw [ho.eq, append_append, bytes_append], ho.native⟩

theorem Output.joint_after {p : Output} : Output.Joint (Output.After p) where
  native _ _ ho := ho.native_eq
  put i o o' ho := by
    unfold Output.put
    rw [ho.native_eq]
    exact ho.append _

/-- Where nothing stands before, the outputs are the same. -/
theorem Output.after_empty {o o' : Output} {native : Bool} :
    Output.After (.empty native) o o' ↔ o = o' ∧ o'.native = native := by
  have happend : (Output.empty o'.native).append o'.bytes = o' := by
    simp [Output.append, Output.empty, Output.bytes]
  constructor
  · rintro ⟨rfl, rfl⟩
    exact ⟨happend, rfl⟩
  · rintro ⟨rfl, rfl⟩
    exact ⟨happend.symm, rfl⟩

namespace Writing

variable {e : Engine} {h : Heap} {p : Output} {sc sc' : Scope}
  {nested : ObjId → Serializer → Writing Unit} {x y : Writing Unit}

/-! ## Pairs -/

/-- Whether two writings are at the same point, the one in a scope and where an output stands
    before, the other in another scope. -/
structure Pair (p : Output) (sc sc' : Scope) (s t : WriteState) : Prop where
  out : Output.After p s.out t.out
  written : s.written = t.written
  left : s.scope = sc
  right : t.scope = sc'

theorem Pair.eq {native : Bool} {s t : WriteState} (hst : Pair (.empty native) sc sc s t) :
    s = t := by
  obtain ⟨out, written, scope⟩ := s
  obtain ⟨out', written', scope'⟩ := t
  obtain ⟨hout, rfl, hleft, hright⟩ := hst
  obtain rfl : out = out' := (Output.after_empty.1 hout).1
  obtain rfl : scope = scope' := hleft.trans hright.symm
  rfl

theorem pairing_pair : Pairing (Pair p) where
  left hst := hst.left
  right hst := hst.right
  change f g hst := ⟨hst.out, hst.written, congrArg f hst.left, congrArg g hst.right⟩

/-- Whether two computations that start in a pair of states end in one. -/
abbrev PairsTo (p : Output) (sc sc' : Scope) (S : WriteState → WriteState → Prop)
    (x y : Writing Unit) : Prop :=
  InStepTo .strict (Pair p sc sc') (fun _ => S) x y

theorem pairs_put (i : Item) : PairsTo p sc sc' (Pair p sc sc') (put i) (put i) :=
  .modify fun _ _ hst => { hst with out := Output.joint_after.put i _ _ hst.out }

theorem pairs_announce (o : ObjId) : InStep .strict (Pair p sc sc') (announce o) (announce o) := by
  intro s t hst
  cases ht : t.written.number? o with
  | some i =>
    rw [announce_of_some ht, announce_of_some (hst.written ▸ ht), hst.out.native_eq]
    exact .ok true { hst with out := hst.out.append _ }
  | none =>
    rw [announce_of_none ht, announce_of_none (hst.written ▸ ht), hst.written]
    exact .ok false { hst with out := hst.out.append _, written := rfl }

/-! ## One level -/

/-- An object is announced alike, and written alike unless it was written before. -/
theorem pairs_unlessWritten {nested' : ObjId → Serializer → Writing Unit} {o : ObjId}
    {ser ser' : Serializer} (tracked : Bool)
    (hx : PairsTo p sc sc' (Spent (Pair p) sc sc') (nested o ser) (nested' o ser')) :
    PairsTo p sc sc' (Spent (Pair p) sc sc') (unlessWritten nested tracked o ser)
      (unlessWritten nested' tracked o ser') := by
  cases tracked with
  | false => exact hx
  | true =>
    refine (pairs_announce o).bind fun again => ?_
    cases again with
    | false => exact hx
    | true => exact .pure_of () fun _ _ => Or.inl

/-- A leaf is written alike, whatever is around it. -/
theorem pairs_leaf (type : LeafType) (o : ObjId) : PairsTo p sc sc' (Pair p sc sc')
    (bodyVia e h nested o (.leaf type)) (bodyVia e h nested o (.leaf type)) := by
  simp only [bodyVia]
  split
  · split
    · exact pairs_put _
    · exact .throw rfl
  · exact .throw rfl

/-- Whether nested objects are written alike in two scopes. -/
def NestedPairs (p : Output) (sc sc' : Scope) (nested : ObjId → Serializer → Writing Unit) : Prop :=
  ∀ o ser, PairsTo p sc sc' (Spent (Pair p) sc sc') (nested o ser) (nested o ser)

section
variable (hn : NestedPairs p sc sc' nested)
include hn

theorem NestedPairs.unlessWritten (tracked : Bool) (o : ObjId) (ser : Serializer) :
    PairsTo p sc sc' (Spent (Pair p) sc sc') (unlessWritten nested tracked o ser)
      (unlessWritten nested tracked o ser) :=
  pairs_unlessWritten tracked (hn o ser)

theorem NestedPairs.nullable (v : Value) (c : ClassInfo) (ser : Serializer) :
    PairsTo p sc sc' (Spent (Pair p) sc sc') (nullableVia e h nested v c ser)
      (nullableVia e h nested v c ser) := by
  cases v with
  | none => exact (pairs_put _).spends
  | some o =>
    refine .attempt_bind (fun _ _ => rfl) fun _ _ => ?_
    split
    · exact hn.unlessWritten true o ser
    · exact (pairs_put _).bind fun _ => hn o ser

theorem NestedPairs.object (v : Value) (c : ClassInfo) (ser : Serializer) :
    PairsTo p sc sc' (Spent (Pair p) sc sc') (objectVia e h nested v c ser)
      (objectVia e h nested v c ser) := by
  cases v with
  | none => exact .throw rfl
  | some o => exact .attempt_bind (fun _ _ => rfl) fun _ _ => hn.unlessWritten _ o ser

theorem NestedPairs.any (v : Value) :
    PairsTo p sc sc' (Spent (Pair p) sc sc') (anyVia e h nested v) (anyVia e h nested v) := by
  cases v with
  | none => exact (pairs_put _).spends
  | some o =>
    refine .attempt_bind (fun _ _ => rfl) fun c _ => .attempt_bind (fun _ _ => rfl) fun ser _ => ?_
    exact (pairs_put _).bind fun _ => hn.unlessWritten _ o ser

theorem NestedPairs.side (slot : Slot) (v : Value) :
    PairsTo p sc sc' (Spent (Pair p) sc sc') (sideVia e h nested slot v)
      (sideVia e h nested slot v) := by
  unfold sideVia
  split
  · split
    · exact hn.nullable v _ _
    · exact hn.object v _ _
  · exact hn.any v

end

section
variable (hs : sc.Entered) (hs' : sc'.Entered)
include hs hs'

/-- What is declared in two ways that name the same final type, or none. -/
theorem pairs_declaredVia {ty ty' : Declared} (htype : ty'.type?.filter e.registry.isFinal =
    ty.type?.filter e.registry.isFinal) (v : Value)
    (hn : NestedPairs p (sc.pushed ty) (sc'.pushed ty') nested) :
    PairsTo p sc sc' (Pair p sc sc') (declaredVia e h nested ty v)
      (declaredVia e h nested ty' v) := by
  unfold declaredVia
  rw [htype]
  refine pairing_pair.declaring hs hs' ?_
  split
  · exact .attempt_bind (fun _ _ => rfl) fun c _ => .attempt_bind (fun _ _ => rfl) fun ser _ =>
      hn.nullable v c ser
  · exact hn.any v

theorem pairs_entriesVia {keySlot valueSlot : Slot} {ty ty' : Declared}
    (hkey : NestedPairs p (sc.pushed ty) (sc'.pushed ty') nested)
    (hvalue : NestedPairs p sc sc' nested) (entries : List Entry) :
    PairsTo p sc sc' (Pair p sc sc') (entriesVia e h nested keySlot valueSlot ty entries)
      (entriesVia e h nested keySlot valueSlot ty' entries) := by
  induction entries with
  | nil => exact .pure ()
  | cons entry entries ih =>
    refine .attempt_bind (fun _ _ => rfl) fun _ _ => .attempt_bind (fun _ _ => rfl) fun _ _ => ?_
    refine InStepTo.bind (pairing_pair.declaring hs hs' (hkey.side keySlot _)) fun _ => ?_
    exact InStepTo.bind ((hvalue.side valueSlot _).keeps hs hs') fun _ => ih

theorem pairs_fieldsVia (tys : List Declared) (vs : List Value)
    (hn : ∀ ty, NestedPairs p (sc.pushed ty) (sc'.pushed ty) nested) :
    PairsTo p sc sc' (Pair p sc sc') (fieldsVia e h nested tys vs)
      (fieldsVia e h nested tys vs) := by
  induction tys generalizing vs with
  | nil => exact .pure ()
  | cons ty tys ih => exact InStepTo.bind (pairs_declaredVia hs hs' rfl _ (hn ty)) fun _ => ih _

/-- A container is written with the same types on both sides of its entries. -/
theorem pairs_mapVia {R : Scope → Scope → Prop} (hR : Scope.Serves e.registry R) (hg : R sc sc')
    (key value : SideSetup Serializer) (o : ObjId)
    (hkey : NestedPairs p (sc.pushed sc.keyType) (sc'.pushed sc'.keyType) nested)
    (hvalue : NestedPairs p sc sc' nested) :
    PairsTo p sc sc' (Pair p sc.popped sc'.popped) (mapVia e h nested key value o)
      (mapVia e h nested key value o) := by
  unfold mapVia
  split
  · exact .throw rfl
  · next c hc =>
    refine (pairs_put _).bind fun _ => .get_bind fun s t hst => .get_bind fun s₁ t₁ hst₁ => ?_
    have hargs : (declaredArgs s).getD [] = sc.args := congrArg Scope.args hst.left
    have hargs' : (declaredArgs t).getD [] = sc'.args := congrArg Scope.args hst.right
    rw [hargs, hargs', hst₁.left, hst₁.right, hR.slots hg]
    cases hr : resolveSlots e.registry sc.frames sc.args key value with
    | error err => exact .throw rfl
    | ok slots =>
      obtain ⟨keySlot, valueSlot, keyType⟩ := slots
      obtain rfl : keyType = sc.keyType := (resolveSlots_eq_ok.1 hr).2.2
      simp only [Except.map, attempt_ok, pure_bind]
      refine InStepTo.bind (pairs_entriesVia hs hs' hkey hvalue c.entries) fun _ => ?_
      exact .modify fun _ _ => pairing_pair.change Scope.popped Scope.popped

theorem pairs_bodyVia {R : Scope → Scope → Prop} (hR : Scope.Serves e.registry R) (hg : R sc sc')
    (o : ObjId) (ser : Serializer)
    (hn : ∀ ty, NestedPairs p (sc.pushed ty) (sc'.pushed ty) nested)
    (hkey : NestedPairs p (sc.pushed sc.keyType) (sc'.pushed sc'.keyType) nested)
    (hvalue : NestedPairs p sc sc' nested) :
    PairsTo p sc sc' (fun s t => Pair p sc sc' s t ∨ Pair p sc.popped sc'.popped s t)
      (bodyVia e h nested o ser) (bodyVia e h nested o ser) := by
  cases ser with
  | leaf type => exact (pairs_leaf type o).post fun _ _ _ => Or.inl
  | octet =>
    simp only [bodyVia]
    split
    · exact (pairs_put _).post fun _ _ _ => Or.inl
    · exact .throw rfl
  | record fields binds =>
    simp only [bodyVia]
    split
    · exact (pairs_fieldsVia hs hs' fields _ hn).post fun _ _ _ => Or.inl
    · exact .throw rfl
  | map key value factory =>
    exact (pairs_mapVia hs hs' hR hg key value o hkey hvalue).post fun _ _ _ => Or.inr

end

/-! ## All levels -/

/-- **Nested objects are written alike** in scopes that serve alike. -/
theorem nestedPairs_data {R : Scope → Scope → Prop} (hR : Scope.Serves e.registry R)
    (levels : Nat) (hs : sc.deeper.Entered) (hg : R sc sc') :
    NestedPairs p sc sc' (data e h levels) := by
  intro o ser
  induction levels generalizing sc sc' o ser with
  | zero => exact pairing_pair.tooDeep (fun _ => rfl) (hR.depth hg)
  | succ levels ih =>
    have hs' := hR.entered (hR.deeper hg) hs
    refine pairing_pair.descend (fun _ => rfl) (hR.depth hg)
      (pairs_bodyVia hs hs' hR (hR.deeper hg) o ser (fun ty => ?_) ?_ ?_)
    · exact ih (hs.pushed_deeper ty) (hR.pushed (hR.deeper hg) ty)
    · exact ih (hs.pushed_deeper _) (hR.keys (hR.deeper hg))
    · exact ih hs.deeper (hR.deeper hg)

/-- From the start a value is appended to whatever stands there. -/
theorem pairs_any (v : Value) :
    PairsTo p .start .start (Pair p .start .start) (any e h v) (any e h v) := by
  intro s t hst
  have hn : NestedPairs p .start .start (data e h e.config.maxDepth) :=
    nestedPairs_data (Scope.Grounds.serves _) _ Scope.orderly_start.entered.deeper (.refl _)
  unfold any withNested
  rw [hst.left, hst.right]
  exact (hn.any v).keeps Scope.orderly_start.entered Scope.orderly_start.entered s t hst

end Writing

/-! ## Streams -/

namespace Engine

variable {e : Engine} {h : Heap} {bs : Bytes} {p : Output} {v : Value}

/-- A stream is appended as it is written to an empty output. -/
theorem appends_serializeTo (e : Engine) (h : Heap) (v : Value) :
    InStep .strict (Output.After p) (e.serializeTo h v) (e.serializeTo h v) :=
  inStep_serializeTo Output.joint_after rfl (inStep_writing (fun _ _ ho => ⟨ho, rfl, rfl, rfl⟩)
    (fun _ _ hst => hst.out) (Writing.pairs_any v))

/-- **The stream of a value is appended to what stands in the output.** -/
theorem serializeTo_eq_ok (hs : e.serialize h v = .ok bs) (hn : p.native = e.config.native) :
    e.serializeTo h v p = .ok () (p.append bs) := by
  obtain ⟨o, ho, rfl⟩ := written_eq_ok.1 hs
  have hrun := e.appends_serializeTo h v p (.empty e.config.native)
    ⟨(Output.append_nil p).symm, hn.symm⟩
  rw [ho] at hrun
  generalize e.serializeTo h v p = r at hrun ⊢
  cases hrun with
  | ok _ ho => rw [ho.eq]

/-- **Streams follow on one another.** -/
theorem serializeTo_forM {vs : List Value} {bss : List Bytes}
    (hs : List.Forall₂ (fun v bs => e.serialize h v = .ok bs) vs bss)
    (hn : p.native = e.config.native) :
    forM vs (e.serializeTo h) p = .ok () (p.append bss.flatten) := by
  induction hs generalizing p with
  | nil => rw [List.flatten_nil, Output.append_nil]; rfl
  | @cons v bs vs bss hv _ ih =>
    rw [List.forM_cons, bind_of_ok (serializeTo_eq_ok hv hn), ih (p := p.append bs) hn,
      Output.append_append, List.flatten_cons]

end Engine

end GraphWire
