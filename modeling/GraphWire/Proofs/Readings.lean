/-
  Readings in two scopes.

  Of the frames around it a reading looks at nothing but the final types that declarations stand
  for, so that it does the same where other frames serve as well: it reads the same items, builds
  the same objects and fails with the same error.

  * `Reading.Pair` relates readings that are at the same point in two scopes;
  * `Reading.nestedPairs_data`: one step for each way of reading, and all levels by induction.
-/
import GraphWire.Proofs.Beside
import GraphWire.Proofs.Pairing

namespace GraphWire

namespace Reading

variable {e : Engine} {sc sc' : Scope}
  {nested : ClassInfo → Serializer → Option Nat → Reading ObjId}

/-- Whether two readings are at the same point, the one in a scope, the other in another. -/
abbrev Pair (sc sc' : Scope) : ReadState → ReadState → Prop :=
  ReadState.Beside Eq fun a b => a = sc ∧ b = sc'

theorem pairing_pair : Pairing Pair where
  left := by
    rintro _ _ _ _ ⟨-, ⟨rfl, rfl⟩, heap, bindings, inserted⟩
    rfl
  right := by
    rintro _ _ _ _ ⟨-, ⟨rfl, rfl⟩, heap, bindings, inserted⟩
    rfl
  change f g := by
    rintro ⟨hij, ⟨rfl, rfl⟩, heap, bindings, inserted⟩
    exact .mk hij ⟨rfl, rfl⟩ heap bindings inserted

theorem scanning_eq : Scanning .strict Eq := ⟨fun {_ x} _ => .refl x, fun _ => rfl⟩

/-- Whether nested objects are read alike in two scopes. -/
abbrev NestedPairs (sc sc' : Scope)
    (nested : ClassInfo → Serializer → Option Nat → Reading ObjId) : Prop :=
  NestedSteps .strict Eq (fun a b => a = sc ∧ b = sc') (Spent Pair sc sc') nested

/-! ## One level -/

section
variable (hs : sc.Entered) (hs' : sc'.Entered)
include hs hs'

/-- What is declared in two ways that name the same final type, or none. -/
theorem pairs_declaredVia {ty ty' : Declared} (htype : ty'.type?.filter e.registry.isFinal =
    ty.type?.filter e.registry.isFinal) (hn : NestedPairs (sc.pushed ty) (sc'.pushed ty') nested) :
    InStep .strict (Pair sc sc') (declaredVia e nested ty) (declaredVia e nested ty') := by
  unfold declaredVia
  rw [htype]
  refine pairing_pair.declaring hs hs' ?_
  split
  · exact InStepTo.bind (beside_attempt hn.scanning _) fun c =>
      InStepTo.bind (beside_attempt hn.scanning _) fun ser => hn.nullable c ser
  · exact hn.any

/-- A container is read with the same types on both sides of its entries. -/
theorem pairs_mapVia {R : Scope → Scope → Prop} (hR : Scope.Serves e.registry R) (hg : R sc sc')
    (c : ClassInfo) (hkey : NestedPairs (sc.pushed sc.keyType) (sc'.pushed sc'.keyType) nested)
    (hvalue : NestedPairs sc sc' nested) (key value : SideSetup Serializer)
    (factory : Option ContainerType) :
    InStepTo .strict (Pair sc sc') (fun _ => Pair sc.popped sc'.popped)
      (mapVia e nested c key value factory) (mapVia e nested c key value factory) := by
  refine InStepTo.bind (beside_newContainer scanning_eq c factory) fun o => ?_
  refine InStepTo.bind (beside_count scanning_eq) fun n => .get_bind fun s t hst =>
    .get_bind fun s₁ t₁ hst₁ => ?_
  have hargs : (declaredArgs s).getD [] = sc.args := congrArg Scope.args (pairing_pair.left hst)
  have hargs' : (declaredArgs t).getD [] = sc'.args := congrArg Scope.args (pairing_pair.right hst)
  have hleft : s₁.scope = sc := pairing_pair.left hst₁
  have hright : t₁.scope = sc' := pairing_pair.right hst₁
  rw [hargs, hargs', hleft, hright, hR.slots hg]
  cases hr : resolveSlots e.registry sc.frames sc.args key value with
  | error err => exact .throw rfl
  | ok slots =>
    obtain ⟨keySlot, valueSlot, keyType⟩ := slots
    obtain rfl : keyType = sc.keyType := (resolveSlots_eq_ok.1 hr).2.2
    simp only [Except.map, attempt_ok, pure_bind]
    have hkeySide := pairing_pair.declaring hs hs' (hkey.side (e := e) keySlot)
    have hvalueSide := InStepTo.keeps (P := Pair) (hvalue.side (e := e) valueSlot) hs hs'
    refine InStepTo.bind (beside_bindObject o) fun _ => ?_
    refine InStepTo.bind (beside_entries hkeySide hvalueSide o n) fun _ => ?_
    exact InStepTo.bind (.modify fun _ _ => pairing_pair.change Scope.popped Scope.popped)
      fun _ => .pure o

theorem pairs_bodyVia {R : Scope → Scope → Prop} (hR : Scope.Serves e.registry R) (hg : R sc sc')
    (c : ClassInfo) (ser : Serializer)
    (hn : ∀ ty, NestedPairs (sc.pushed ty) (sc'.pushed ty) nested)
    (hkey : NestedPairs (sc.pushed sc.keyType) (sc'.pushed sc'.keyType) nested)
    (hvalue : NestedPairs sc sc' nested) :
    InStepTo .strict (Pair sc sc')
      (fun _ s t => Pair sc sc' s t ∨ Pair sc.popped sc'.popped s t)
      (bodyVia e nested c ser) (bodyVia e nested c ser) :=
  beside_body scanning_eq (fun _ _ => Or.inl)
    (fun ty => pairs_declaredVia hs hs' rfl (hn ty)) c
    (fun key value factory => (pairs_mapVia hs hs' hR hg c hkey hvalue key value factory).post
      fun _ _ _ => Or.inr) ser

end

/-! ## All levels -/

/-- **Nested objects are read alike** in scopes that serve alike. -/
theorem nestedPairs_data {R : Scope → Scope → Prop} (hR : Scope.Serves e.registry R)
    (levels : Nat) (hs : sc.deeper.Entered) (hg : R sc sc') :
    NestedPairs sc sc' (data e levels) := by
  refine ⟨scanning_eq, fun _ _ => Or.inl, fun c ser id => ?_⟩
  induction levels generalizing sc sc' c ser id with
  | zero => exact pairing_pair.tooDeep (fun _ => rfl) (hR.depth hg)
  | succ levels ih =>
    have hs' := hR.entered (hR.deeper hg) hs
    have hnested : ∀ {sc sc'}, sc.deeper.Entered → R sc sc' → NestedPairs sc sc' (data e levels) :=
      fun hs hg => ⟨scanning_eq, fun _ _ => Or.inl, fun c ser id => ih hs hg c ser id⟩
    refine pairing_pair.descend (fun _ => rfl) (hR.depth hg)
      (InStepTo.bind (beside_expect id) fun _ => .completing ?_ ?_ ?_
        (pairs_bodyVia hs hs' hR (hR.deeper hg) c ser (fun ty => ?_) ?_ ?_))
    · exact fun _ _ h => h.waiting
    · rintro s t (h | h) <;> exact h.waiting
    · exact fun o s t h => h.imp (beside_bind o s t) (beside_bind o s t)
    · exact hnested (hs.pushed_deeper ty) (hR.pushed (hR.deeper hg) ty)
    · exact hnested (hs.pushed_deeper _) (hR.keys (hR.deeper hg))
    · exact hnested hs.deeper (hR.deeper hg)

end Reading

end GraphWire
