/-
  Readings side by side.

  Two readings are at the same point of a graph: they have built the same objects and bound the
  same numbers.  Their inputs may differ in one way and their scopes in another
  (`ReadState.Beside`).

  * `Reading.beside_scan`: what reads items goes in step if it does on such inputs;
  * `Reading.beside_bindObject` and the like: so does what builds and binds, whatever the inputs
    and the scopes;
  * `Reading.NestedSteps.any`, `Reading.beside_body` and the like: one step for each way of
    reading, where nested objects are read in step and may end in other scopes.
-/
import GraphWire.Engine.Operations
import GraphWire.Proofs.Comparing
import GraphWire.Proofs.Composition

namespace GraphWire

variable {α : Type}

/-- Whether two readings are at the same point, but for their inputs and their scopes. -/
inductive ReadState.Beside (Q : Input → Input → Prop) (S : Scope → Scope → Prop) :
    ReadState → ReadState → Prop where
  | mk {i j : Input} (input : Q i j) {sc sc' : Scope} (scope : S sc sc') (heap : Heap)
      (bindings : Bindings) (inserted : Nat) :
    Beside Q S ⟨i, heap, bindings, sc, inserted⟩ ⟨j, heap, bindings, sc', inserted⟩

theorem ReadState.Beside.waiting {Q : Input → Input → Prop} {S : Scope → Scope → Prop}
    {s t : ReadState} (h : s.Beside Q S t) : Building.waiting s = Building.waiting t := by
  cases h
  rfl

/-- What is built on both sides is bound on both sides alike. -/
theorem InStepTo.completing {σ τ : Type} [Building σ] [Building τ] {T : Tolerance}
    {R S : σ → τ → Prop} {x : EStateM Error σ ObjId} {y : EStateM Error τ ObjId}
    (hR : ∀ s t, R s t → Building.waiting s = Building.waiting t)
    (hS : ∀ s t, S s t → Building.waiting s = Building.waiting t)
    (hbind : ∀ o s t, S s t → S (Building.bind o s) (Building.bind o t))
    (hx : InStepTo T R (fun _ => S) x y) :
    InStepTo T R (fun _ => S) (completing x) (completing y) := by
  refine .get_bind fun s t hst => hx.bind fun o => .get_bind fun s₁ t₁ hst₁ => ?_
  rw [hR s t hst, hS s₁ t₁ hst₁]
  split
  · exact InStepTo.bind (.modify fun s t => hbind o s t) fun _ => .pure o
  · exact .pure o

/-- Whether readings of items go in step on such inputs. -/
structure Scanning (T : Tolerance) (Q : Input → Input → Prop) : Prop where
  scan : ∀ {α : Type} {x : Scan α}, x.Composed → InStep T Q x x
  same : ∀ err, T.same err err

namespace Reading

variable {T : Tolerance} {Q : Input → Input → Prop} {S : Scope → Scope → Prop}

/-- Whether a reading goes in step with itself, from such a point to such a point. -/
abbrev Steps (T : Tolerance) (Q : Input → Input → Prop) (S : Scope → Scope → Prop)
    (x : Reading α) : Prop :=
  InStep T (ReadState.Beside Q S) x x

/-! ## Changes beside the input -/

theorem beside_newObject (n : Node) : Steps T Q S (newObject n) := by
  rintro _ _ ⟨hij, hsc, heap, bindings, inserted⟩
  exact .ok _ (.mk hij hsc _ bindings inserted)

theorem beside_bind (o : ObjId) (s t : ReadState) (h : s.Beside Q S t) :
    ReadState.Beside Q S (Building.bind o s) (Building.bind o t) := by
  obtain ⟨hij, hsc, heap, bindings, inserted⟩ := h
  exact .mk hij hsc heap _ inserted

theorem beside_bindObject (o : ObjId) : Steps T Q S (bindObject o) := .modify (beside_bind o)

theorem beside_bindTimes (n : Nat) (o : ObjId) : Steps T Q S (bindTimes n o) := by
  induction n with
  | zero => exact .pure _
  | succ n ih => exact (beside_bindObject o).bind fun _ => ih

theorem beside_addField (o : ObjId) (v : Value) : Steps T Q S (addField o v) := by
  refine .modify ?_
  rintro _ _ ⟨hij, hsc, heap, bindings, inserted⟩
  exact .mk hij hsc _ bindings inserted

theorem beside_putEntry (o : ObjId) (k v : Value) : Steps T Q S (putEntry o k v) := by
  have hinsert : Steps T Q S (insertEntry o k v) := by
    refine .modify ?_
    rintro _ _ ⟨hij, hsc, heap, bindings, inserted⟩
    exact .mk hij hsc _ bindings inserted
  refine hinsert.bind fun _ => .modify ?_
  rintro _ _ ⟨hij, hsc, heap, bindings, inserted⟩
  exact .mk hij hsc heap bindings _

theorem beside_expect (id : Option Nat) : Steps T Q S (expect id) := by
  refine .modify ?_
  rintro _ _ ⟨hij, hsc, heap, bindings, inserted⟩
  exact .mk hij hsc heap _ inserted

theorem beside_reserve : Steps T Q S reserve := by
  rintro _ _ ⟨hij, hsc, heap, bindings, inserted⟩
  exact .ok _ (.mk hij hsc heap _ inserted)

/-! ## Readings of items -/

theorem composed_leaf (type : LeafType) : Scan.Composed (leaf type) := by
  cases type with
  | bool => exact Input.composed_bool.map _
  | i8 => exact Input.composed_octet.map _
  | i16 => exact (Input.composed_scalar .i16).map _
  | i32 => exact (Input.composed_var .i32).map _
  | i64 => exact (Input.composed_var .i64).map _
  | f32 => exact (Input.composed_scalar .f32).map _
  | f64 => exact (Input.composed_scalar .f64).map _
  | string => exact Input.composed_string.map _

section
variable (hT : Scanning T Q)
include hT

theorem beside_attempt (r : Except Error α) : Steps T Q S (attempt r) :=
  .attempt fun _ _ => hT.same _

theorem beside_newContainer (c : ClassInfo) (factory : Option ContainerType) :
    Steps T Q S (newContainer c factory) :=
  (beside_attempt hT _).bind fun _ => beside_newObject _

theorem beside_scan {x : Scan α} (hx : x.Composed) : Steps T Q S (scan x) := by
  rintro _ _ (@⟨i, j, hij, sc, sc', hsc, heap, bindings, inserted⟩)
  have hxy := hT.scan hx i j hij
  unfold scan
  generalize x i = r, x j = r' at hxy ⊢
  cases hxy with
  | ok a hij₁ => exact .ok a (.mk hij₁ hsc heap bindings inserted)
  | error he => exact .error he
  | @early r e _ he =>
    cases r with
    | ok a i' => exact .early he
    | error e' i' => exact .early he

theorem beside_count : Steps T Q S count :=
  (beside_scan hT (Input.composed_var .u32)).bind fun _ => .pure _

theorem beside_marker : Steps T Q S marker := by
  refine (beside_scan hT Input.composed_octet).bind fun code => ?_
  split
  · exact .pure _
  · exact .throw (hT.same _)

theorem beside_earlier : Steps T Q S earlier := by
  refine (beside_count hT).bind fun id => .get_bind ?_
  rintro _ _ ⟨hij, hsc, heap, bindings, inserted⟩
  exact beside_attempt hT _

end

/-! ## One level -/

variable {e : Engine} {nested : ClassInfo → Serializer → Option Nat → Reading ObjId}
  {E : ReadState → ReadState → Prop}

/-- Whether nested objects are read in step, and how their readings end. -/
structure NestedSteps (T : Tolerance) (Q : Input → Input → Prop) (S : Scope → Scope → Prop)
    (E : ReadState → ReadState → Prop)
    (nested : ClassInfo → Serializer → Option Nat → Reading ObjId) : Prop where
  scanning : Scanning T Q
  ends : ∀ s t, ReadState.Beside Q S s t → E s t
  nested : ∀ c ser id,
    InStepTo T (ReadState.Beside Q S) (fun _ => E) (nested c ser id) (nested c ser id)

section
variable (hn : NestedSteps T Q S E nested)
include hn

theorem NestedSteps.fresh (c : ClassInfo) (ser : Serializer) :
    InStepTo T (ReadState.Beside Q S) (fun _ => E) (freshVia nested c ser)
      (freshVia nested c ser) :=
  InStepTo.bind beside_reserve fun id => hn.nested c ser (some id)

theorem NestedSteps.nullable (c : ClassInfo) (ser : Serializer) :
    InStepTo T (ReadState.Beside Q S) (fun _ => E) (nullableVia nested c ser)
      (nullableVia nested c ser) := by
  refine InStepTo.bind (beside_marker hn.scanning) fun m => ?_
  cases m with
  | null => exact .pure_of _ hn.ends
  | back => exact InStepTo.bind (beside_earlier hn.scanning) fun _ => .pure_of _ hn.ends
  | plain => exact (hn.nested c ser none).bind fun _ => .pure _
  | fresh => exact (hn.fresh c ser).bind fun _ => .pure _

theorem NestedSteps.object (c : ClassInfo) (ser : Serializer) :
    InStepTo T (ReadState.Beside Q S) (fun _ => E) (objectVia e nested c ser)
      (objectVia e nested c ser) := by
  unfold objectVia
  split
  · refine InStepTo.bind (beside_marker hn.scanning) fun m => ?_
    cases m with
    | back => exact (beside_earlier hn.scanning).post fun _ => hn.ends
    | fresh => exact hn.fresh c ser
    | null | plain => exact .throw (hn.scanning.same _)
  · exact hn.nested c ser none

theorem NestedSteps.any : InStepTo T (ReadState.Beside Q S) (fun _ => E) (anyVia e nested)
    (anyVia e nested) := by
  refine InStepTo.bind (beside_count hn.scanning) fun id => ?_
  split
  · exact .pure_of _ hn.ends
  · exact InStepTo.bind (beside_attempt hn.scanning _) fun c =>
      InStepTo.bind (beside_attempt hn.scanning _) fun ser =>
        (hn.object c ser).bind fun _ => .pure _

theorem NestedSteps.side (slot : Slot) : InStepTo T (ReadState.Beside Q S) (fun _ => E)
    (sideVia e nested slot) (sideVia e nested slot) := by
  unfold sideVia
  split
  · split
    · exact hn.nullable _ _
    · rw [map_eq_pure_bind]
      exact (hn.object _ _).bind fun _ => .pure _
  · exact hn.any

end

/-- Entries are read in step if both sides of each are. -/
theorem beside_entries {keySlot valueSlot : Slot} {ty ty' : Declared}
    (hkey : InStep T (ReadState.Beside Q S) (declaring ty (sideVia e nested keySlot))
      (declaring ty' (sideVia e nested keySlot)))
    (hvalue : Steps T Q S (sideVia e nested valueSlot)) (o : ObjId) (n : Nat) :
    InStep T (ReadState.Beside Q S) (entriesVia e nested keySlot valueSlot ty o n)
      (entriesVia e nested keySlot valueSlot ty' o n) := by
  induction n with
  | zero => exact .pure _
  | succ n ih =>
    exact hkey.bind fun k => hvalue.bind fun v => (beside_putEntry o k v).bind fun _ => ih

/-- Fields are read in step if each is. -/
theorem beside_fields (hd : ∀ ty, Steps T Q S (declaredVia e nested ty)) (o : ObjId)
    (tys : List Declared) : Steps T Q S (fieldsVia e nested o tys) := by
  induction tys with
  | nil => exact .pure _
  | cons ty tys ih => exact (hd ty).bind fun v => (beside_addField o v).bind fun _ => ih

/-- What a serializer reads, it reads in step if fields and containers are so read. -/
theorem beside_body (hT : Scanning T Q) (hE : ∀ s t, ReadState.Beside Q S s t → E s t)
    (hd : ∀ ty, Steps T Q S (declaredVia e nested ty)) (c : ClassInfo)
    (hmap : ∀ key value factory, InStepTo T (ReadState.Beside Q S) (fun _ => E)
      (mapVia e nested c key value factory) (mapVia e nested c key value factory))
    (ser : Serializer) : InStepTo T (ReadState.Beside Q S) (fun _ => E)
      (bodyVia e nested c ser) (bodyVia e nested c ser) := by
  cases ser with
  | leaf type =>
    exact InStepTo.post ((beside_scan hT (composed_leaf type)).bind fun _ => beside_newObject _)
      fun _ => hE
  | octet =>
    exact InStepTo.post ((beside_scan hT Input.composed_octet).bind fun _ => beside_newObject _)
      fun _ => hE
  | record fields binds =>
    refine InStepTo.post ?_ fun _ => hE
    exact (beside_newObject _).bind fun o => (beside_bindTimes binds o).bind fun _ =>
      (beside_fields hd o fields).bind fun _ => .pure o
  | map key value factory => exact hmap key value factory

end Reading

/-! ## Whole readings -/

/-- Readings in step go in step on the inputs alone, whatever becomes of the scopes. -/
theorem Engine.beside_reading {T : Tolerance} {Q : Input → Input → Prop}
    {S S' : Scope → Scope → Prop} {x y : Reading Value} (hS : S .start .start) (h : Heap)
    (hx : InStepTo T (ReadState.Beside Q S) (fun _ => ReadState.Beside Q S') x y) :
    InStep T Q (reading h x) (reading h y) := by
  intro i j hij
  have hxy := hx (.start i h) (.start j h) (.mk hij hS h .empty 0)
  unfold reading
  generalize x (.start i h) = r, y (.start j h) = r' at hxy ⊢
  cases hxy with
  | ok v hst =>
    obtain ⟨hij₁, -, heap, bindings, inserted⟩ := hst
    exact .ok (v, heap) hij₁
  | error he => exact .error he
  | early he => exact .early he

end GraphWire
