/-
  Sides of leaves.

  A side on which all objects are leaves of one type is encoded without a look at the registry
  or at the frames around.  It makes no difference, then, how its class came to be known: from
  a binding, or from a declaration.

  * `Engine.Encodes` says how an engine encodes both sides of the containers of a class that are
    declared in some way;
  * `Writing.pairs_mapVia_leaves`, `Reading.pairs_mapVia_leaves`: two engines whose slots are the
    same, and of leaves, write and read the entries alike;
  * `Engine.serializeField_leaves`, `Engine.deserializeField_leaves`: and so they do streams, as
    far as these begin with the number of the class (`Engine.opening`).
-/
import GraphWire.Proofs.RoundTrip
import GraphWire.Proofs.Silence

namespace GraphWire

variable {e e' : Engine} {h : Heap} {p : Output} {sc sc' : Scope}
  {slot keySlot valueSlot : Slot} {ty ty' keyType keyType' : Declared}
  {key value key' value' : SideSetup Serializer}

/-- Whether all objects on a side are leaves of one type. -/
def Slot.OfLeaves (s : Slot) : Prop := ∃ c type, s.target = some (c, .leaf type)

/-! ## Writing -/

namespace Writing

variable {nested nested' : ObjId → Serializer → Writing Unit}

/-- A side of leaves is written through nothing but its class and serializer. -/
theorem sideVia_leaves (hconfig : e'.config = e.config) (hslot : slot.OfLeaves)
    (hn : ∀ o type, nested' o (.leaf type) = nested o (.leaf type)) (v : Value) :
    sideVia e' h nested' slot v = sideVia e h nested slot v := by
  obtain ⟨c, type, htarget⟩ := hslot
  have htracks := Engine.tracks_congr hconfig c
  cases v with
  | none => simp only [sideVia, htarget, nullableVia, objectVia]
  | some o => simp only [sideVia, htarget, nullableVia, objectVia, unlessWritten, hn, htracks]

theorem entriesVia_leaves (hconfig : e'.config = e.config) (hk : keySlot.OfLeaves)
    (hv : valueSlot.OfLeaves) (hn : ∀ o type, nested' o (.leaf type) = nested o (.leaf type))
    (entries : List Entry) : entriesVia e' h nested' keySlot valueSlot keyType entries =
      entriesVia e h nested keySlot valueSlot keyType entries := by
  induction entries with
  | nil => rfl
  | cons entry entries ih =>
    simp only [entriesVia, sideVia_leaves hconfig hk hn, sideVia_leaves hconfig hv hn, ih]

theorem data_leaf_congr (hconfig : e'.config = e.config) (levels : Nat) (o : ObjId)
    (type : LeafType) : data e' h levels o (.leaf type) = data e h levels o (.leaf type) := by
  cases levels with
  | zero => simp only [data, hconfig]
  | succ levels => simp only [data, hconfig, bodyVia]

/-- How leaves are written, and nothing else. -/
def onlyLeaves (nested : ObjId → Serializer → Writing Unit) : ObjId → Serializer → Writing Unit
  | o, .leaf type => nested o (.leaf type)
  | _, _ => pure ()

theorem nestedPairs_onlyLeaves (hdepth : sc'.depth = sc.depth) (levels : Nat) :
    NestedPairs p sc sc' (onlyLeaves (data e h levels)) := by
  intro o ser
  cases ser with
  | leaf type =>
    cases levels with
    | zero => exact pairing_pair.tooDeep (fun _ => rfl) hdepth
    | succ levels =>
      exact pairing_pair.descend (fun _ => rfl) hdepth
        ((pairs_leaf type o).post fun _ _ _ => Or.inl)
  | octet | record | map => exact .pure_of () fun _ _ => Or.inl

end Writing

/-! ## Reading -/

namespace Reading

variable {nested nested' : ClassInfo → Serializer → Option Nat → Reading ObjId}

/-- A side of leaves is read through nothing but its class and serializer. -/
theorem sideVia_leaves (hconfig : e'.config = e.config) (hslot : slot.OfLeaves)
    (hn : ∀ c type id, nested' c (.leaf type) id = nested c (.leaf type) id) :
    sideVia e' nested' slot = sideVia e nested slot := by
  obtain ⟨c, type, htarget⟩ := hslot
  have htracks := Engine.tracks_congr hconfig c
  simp only [sideVia, htarget, nullableVia, objectVia, freshVia, hn, htracks]

theorem entriesVia_leaves (hconfig : e'.config = e.config) (hk : keySlot.OfLeaves)
    (hv : valueSlot.OfLeaves)
    (hn : ∀ c type id, nested' c (.leaf type) id = nested c (.leaf type) id) (o : ObjId) (n : Nat) :
    entriesVia e' nested' keySlot valueSlot keyType o n =
      entriesVia e nested keySlot valueSlot keyType o n := by
  induction n with
  | zero => rfl
  | succ n ih =>
    simp only [entriesVia, sideVia_leaves hconfig hk hn, sideVia_leaves hconfig hv hn, ih]

theorem data_leaf_congr (hconfig : e'.config = e.config) (levels : Nat) (c : ClassInfo)
    (type : LeafType) (id : Option Nat) :
    data e' levels c (.leaf type) id = data e levels c (.leaf type) id := by
  cases levels with
  | zero => simp only [data, hconfig]
  | succ levels => simp only [data, hconfig, bodyVia]

/-- How leaves are read, and nothing else. -/
def onlyLeaves (nested : ClassInfo → Serializer → Option Nat → Reading ObjId) :
    ClassInfo → Serializer → Option Nat → Reading ObjId
  | c, .leaf type, id => nested c (.leaf type) id
  | _, _, _ => pure 0

/-- What is read of an object one level deeper is bound alike, unless that was done on the
    way. -/
theorem pairs_level {limit : Nat} {x y : Reading ObjId} (hdepth : sc'.depth = sc.depth)
    (id : Option Nat) (hx : InStepTo .strict (Pair sc.deeper sc'.deeper)
      (fun _ s t => Pair sc.deeper sc'.deeper s t ∨ Pair sc.deeper.popped sc'.deeper.popped s t)
      x y) :
    InStepTo .strict (Pair sc sc') (fun _ => Spent Pair sc sc')
      (descend limit do expect id; completing x) (descend limit do expect id; completing y) := by
  refine pairing_pair.descend (fun _ => rfl) hdepth
    (InStepTo.bind (beside_expect id) fun _ => .completing ?_ ?_ ?_ hx)
  · exact fun _ _ h => h.waiting
  · rintro s t (h | h) <;> exact h.waiting
  · exact fun o s t h => h.imp (beside_bind o s t) (beside_bind o s t)

theorem nestedPairs_onlyLeaves (hdepth : sc'.depth = sc.depth) (levels : Nat) :
    NestedPairs sc sc' (onlyLeaves (data e levels)) := by
  refine ⟨scanning_eq, fun _ _ => Or.inl, fun c ser id => ?_⟩
  cases ser with
  | leaf type =>
    cases levels with
    | zero => exact pairing_pair.tooDeep (fun _ => rfl) hdepth
    | succ levels =>
      refine pairs_level hdepth id (InStepTo.post ?_ fun _ _ _ => Or.inl)
      exact (beside_scan scanning_eq (composed_leaf type)).bind fun _ => beside_newObject _
  | octet | record | map => exact .pure_of 0 fun _ _ => Or.inl

/-- An object of a known class is read alike if what stands behind its marker is. -/
theorem pairs_objectVia (hconfig : e'.config = e.config) {c : ClassInfo} {ser ser' : Serializer}
    (hx : ∀ id, InStepTo .strict (Pair sc sc') (fun _ => Spent Pair sc sc') (nested c ser id)
      (nested' c ser' id)) :
    InStepTo .strict (Pair sc sc') (fun _ => Spent Pair sc sc') (objectVia e nested c ser)
      (objectVia e' nested' c ser') := by
  unfold objectVia
  rw [Engine.tracks_congr hconfig]
  split
  · refine InStepTo.bind (beside_marker scanning_eq) fun m => ?_
    cases m with
    | back => exact (beside_earlier scanning_eq).post fun _ _ _ => Or.inl
    | fresh => exact InStepTo.bind beside_reserve fun id => hx (some id)
    | null | plain => exact .throw rfl
  · exact hx none

end Reading

/-! ## Containers -/

section
variable (hconfig : e'.config = e.config) (hk : keySlot.OfLeaves) (hv : valueSlot.OfLeaves)
  (hs : sc.Entered) (hs' : sc'.Entered) (hdepth : sc'.depth = sc.depth)
  (hty : keyType.args = []) (hty' : keyType'.args = [])
  (hr : resolveSlots e.registry sc.frames sc.args key value = .ok (keySlot, valueSlot, keyType))
  (hr' : resolveSlots e'.registry sc'.frames sc'.args key' value' =
    .ok (keySlot, valueSlot, keyType'))
include hconfig hk hv hs hs' hdepth hty hty' hr hr'

/-- **Entries of leaves are written alike** by both engines, whatever their sides are known
    from. -/
theorem Writing.pairs_mapVia_leaves (levels : Nat) (o : ObjId) :
    PairsTo p sc sc' (Pair p sc.popped sc'.popped) (mapVia e h (data e h levels) key value o)
      (mapVia e' h (data e' h levels) key' value' o) := by
  unfold mapVia
  cases h.container? o with
  | none => exact .throw rfl
  | some c =>
    refine (pairs_put _).bind fun _ => .get_bind fun s t hst => .get_bind fun s₁ t₁ hst₁ => ?_
    have hargs : (declaredArgs s).getD [] = sc.args := congrArg Scope.args hst.left
    have hargs' : (declaredArgs t).getD [] = sc'.args := congrArg Scope.args hst.right
    rw [hargs, hargs', hst₁.left, hst₁.right, hr, hr']
    simp only [attempt_ok, pure_bind]
    refine InStepTo.bind ?_ fun _ => .modify fun _ _ =>
      pairing_pair.change Scope.popped Scope.popped
    have honly : ∀ o type, data e h levels o (.leaf type) =
        onlyLeaves (data e h levels) o (.leaf type) := fun _ _ => rfl
    have hother : ∀ o type, data e' h levels o (.leaf type) =
        onlyLeaves (data e h levels) o (.leaf type) := data_leaf_congr hconfig levels
    have hleft : entriesVia e h (data e h levels) keySlot valueSlot keyType c.entries =
        entriesVia e h (onlyLeaves (data e h levels)) keySlot valueSlot keyType c.entries :=
      entriesVia_leaves rfl hk hv honly c.entries
    have hright : entriesVia e' h (data e' h levels) keySlot valueSlot keyType' c.entries =
        entriesVia e h (onlyLeaves (data e h levels)) keySlot valueSlot keyType' c.entries :=
      entriesVia_leaves hconfig hk hv hother c.entries
    rw [hleft, hright]
    refine pairs_entriesVia hs hs' ?_ (nestedPairs_onlyLeaves hdepth levels) c.entries
    rw [Scope.pushed_of_args_eq_nil hty, Scope.pushed_of_args_eq_nil hty']
    exact nestedPairs_onlyLeaves hdepth levels

/-- **Entries of leaves are read alike** by both engines, whatever their sides are known
    from. -/
theorem Reading.pairs_mapVia_leaves (levels : Nat) (c : ClassInfo)
    (factory : Option ContainerType) :
    InStepTo .strict (Pair sc sc') (fun _ => Pair sc.popped sc'.popped)
      (mapVia e (data e levels) c key value factory)
      (mapVia e' (data e' levels) c key' value' factory) := by
  have honly : ∀ c type id, data e levels c (.leaf type) id =
      onlyLeaves (data e levels) c (.leaf type) id := fun _ _ _ => rfl
  have hother : ∀ c type id, data e' levels c (.leaf type) id =
      onlyLeaves (data e levels) c (.leaf type) id := data_leaf_congr hconfig levels
  have hnested : NestedPairs sc sc' (onlyLeaves (data e levels)) :=
    nestedPairs_onlyLeaves hdepth levels
  refine InStepTo.bind (beside_newContainer scanning_eq c factory) fun o => ?_
  refine InStepTo.bind (beside_count scanning_eq) fun n => .get_bind fun s t hst =>
    .get_bind fun s₁ t₁ hst₁ => ?_
  have hargs : (declaredArgs s).getD [] = sc.args := congrArg Scope.args (pairing_pair.left hst)
  have hargs' : (declaredArgs t).getD [] = sc'.args := congrArg Scope.args (pairing_pair.right hst)
  have hleft : s₁.scope = sc := pairing_pair.left hst₁
  have hright : t₁.scope = sc' := pairing_pair.right hst₁
  rw [hargs, hargs', hleft, hright, hr, hr']
  simp only [attempt_ok, pure_bind]
  rw [entriesVia_leaves rfl hk hv honly, entriesVia_leaves hconfig hk hv hother]
  have hkeySide : InStep .strict (Pair sc sc')
      (declaring keyType (sideVia e (onlyLeaves (data e levels)) keySlot))
      (declaring keyType' (sideVia e (onlyLeaves (data e levels)) keySlot)) := by
    refine pairing_pair.declaring hs hs' ?_
    rw [Scope.pushed_of_args_eq_nil hty, Scope.pushed_of_args_eq_nil hty']
    exact hnested.side keySlot
  have hvalueSide := InStepTo.keeps (P := Pair) (hnested.side (e := e) valueSlot) hs hs'
  refine InStepTo.bind (beside_bindObject o) fun _ => ?_
  refine InStepTo.bind (beside_entries hkeySide hvalueSide o n) fun _ => ?_
  exact InStepTo.bind (.modify fun _ _ => pairing_pair.change Scope.popped Scope.popped)
    fun _ => .pure o

end

/-! ## Engines -/

/-- The scope in which the sides of a container are encoded that is declared in some way. -/
def Scope.inside (ty : Declared) : Scope := (Scope.start.pushed ty).deeper

theorem Scope.entered_inside (ty : Declared) : (Scope.inside ty).Entered :=
  Scope.orderly_start.entered.pushed_deeper ty

/-- Whether an engine encodes the containers of a class, declared so, with these slots on their
    sides.  The declaration does not name a final type, and says nothing below the keys. -/
structure Engine.Encodes (e : Engine) (ty : Declared) (c : ClassInfo) (keySlot valueSlot : Slot) :
    Prop where
  object : e.registry.classOfObject c.type = .ok c
  id : e.registry.classOfId c.id = .ok c
  not_final : ty.type?.filter e.registry.isFinal = none
  sides : ∃ key value keyType, e.registry.serializer c.type = .ok (.map key value none) ∧
    keyType.args = [] ∧ resolveSlots e.registry (Scope.inside ty).frames (Scope.inside ty).args
      key value = .ok (keySlot, valueSlot, keyType)

namespace Engine

theorem written_congr (hconfig : e'.config = e.config) (x : EStateM Error Output Unit) :
    e'.written x = e.written x := by
  unfold written
  rw [hconfig]

theorem writeStream_congr (hconfig : e'.config = e.config) (v : Value) (x : Writing Unit) :
    e'.writeStream v x = e.writeStream v x := by
  unfold writeStream
  rw [writeHeader_congr hconfig]

/-- How the stream of a container begins: behind the header stands the number of its class. -/
def opening (e : Engine) (c : ClassInfo) : Bytes :=
  [e.headerByte false] ++ countBytes e.config.native (c.id + 1)

theorem opening_congr (hconfig : e'.config = e.config) (c : ClassInfo) :
    e'.opening c = e.opening c := by
  unfold opening headerByte
  rw [header_congr hconfig, hconfig]

end Engine

/-- What is written of an object stands behind what was written before. -/
theorem Writing.appends_unlessWritten {s s' : WriteState} {levels : Nat} {tracked : Bool}
    {o : ObjId} {ser : Serializer}
    (hx : unlessWritten (data e h levels) tracked o ser s = .ok () s')
    (hs : s.scope.deeper.Entered) : s.out.bytes <+: s'.out.bytes := by
  have hn : NestedPairs s.out s.scope s.scope (data e h levels) :=
    nestedPairs_data (Scope.Grounds.serves _) levels hs (.refl _)
  have hrun := hn.unlessWritten tracked o ser s { s with out := .empty s.out.native }
    ⟨⟨(Output.append_nil s.out).symm, rfl⟩, rfl, rfl, rfl⟩
  rw [hx] at hrun
  generalize unlessWritten _ _ _ _ { s with out := _ } = r at hrun
  cases hrun with
  | ok _ hst =>
    obtain hst | hst := hst <;>
    · rw [hst.out.eq, Output.bytes_append]
      exact List.prefix_append _ _
  | early herr => exact herr.elim

namespace Engine.Encodes

variable {c : ClassInfo} (he : e.Encodes ty c keySlot valueSlot)
include he

theorem resolves {key value : SideSetup Serializer}
    (hser : e.registry.serializer c.type = .ok (.map key value none)) :
    ∃ keyType, keyType.args = [] ∧ resolveSlots e.registry (Scope.inside ty).frames
      (Scope.inside ty).args key value = .ok (keySlot, valueSlot, keyType) := by
  obtain ⟨_, _, keyType, hser₁, hty, hr⟩ := he.sides
  cases hser.symm.trans hser₁
  exact ⟨keyType, hty, hr⟩

/-- A container is written as its number and what its serializer writes. -/
theorem declared_apply {ser : Serializer} (hser : e.registry.serializer c.type = .ok ser)
    {o : ObjId} (ho : h.typeOf o = c.type) {s : WriteState} (hs : s.scope = .start) :
    Writing.declared e h ty (some o) s = declaring ty (do
      Writing.count (c.id + 1)
      Writing.unlessWritten (Writing.data e h e.config.maxDepth) (e.tracks c) o ser) s := by
  unfold Writing.declared Writing.withNested Writing.declaredVia Writing.anyVia
  dsimp only
  rw [hs, he.not_final, ho, he.object]
  dsimp only
  rw [attempt_ok, pure_bind, hser]
  rfl

theorem opening_prefix {o : ObjId} (ho : h.typeOf o = c.type) {bs : Bytes}
    (hs : e.serializeField h ty (some o) = .ok bs) : e.opening c <+: bs := by
  obtain ⟨key, value, keyType, hser, -⟩ := he.sides
  obtain ⟨out, hout, rfl⟩ := written_eq_ok.1 hs
  obtain ⟨s', hs', rfl⟩ := written_of_writeStream hout
  rw [he.declared_apply hser ho rfl] at hs'
  obtain ⟨s₁, hrun, rfl⟩ := declaring_eq_ok.1 hs'
  obtain ⟨_, s₂, h₂, hrest⟩ := bind_eq_ok.1 hrun
  cases h₂
  have hopening : (((Output.empty e.config.native).append [e.headerByte false]).append
      (countBytes e.config.native (c.id + 1))).bytes = e.opening c := by
    rw [Output.bytes_append, Output.bytes_append]
    rfl
  rw [← hopening]
  exact Writing.appends_unlessWritten hrest (Scope.entered_inside ty)

/-- Behind its opening a container is read as an object of its class. -/
theorem deserializeField_eq {ser : Serializer} (hser : e.registry.serializer c.type = .ok ser)
    (hid : c.id + 1 < 2 ^ 32) (h₀ : Heap) {bs : Bytes} (hbs : e.opening c <+: bs) :
    e.deserializeField h₀ ty bs = resultOf (reading h₀ (declaring ty (some <$>
        Reading.objectVia e (Reading.data e e.config.maxDepth) c ser)))
      ((((Input.ofBytes bs).withLayout e.config.native).advance 1).advance
        (countBytes e.config.native (c.id + 1)).length) := by
  let i := (Input.ofBytes bs).withLayout e.config.native
  have hi : e.opening c <+: i.unread := hbs
  have hhead := reads_header (e := e) e.config.native false i rfl rfl
    ((List.prefix_append _ _).trans hi)
  have hcount := Reading.takes_count hid
    (inScope (·.pushed ty) (ReadState.start (i.advance 1) h₀)) rfl rfl (Input.prefix_advance hi)
  have hany : Reading.declared e ty (.start (i.advance 1) h₀) = declaring ty (some <$>
      Reading.objectVia e (Reading.data e e.config.maxDepth) c ser)
        (.start ((i.advance 1).advance (countBytes e.config.native (c.id + 1)).length) h₀) := by
    unfold Reading.declared Reading.withNested Reading.declaredVia
    dsimp only
    rw [he.not_final, declaring_apply, declaring_apply]
    dsimp only
    unfold leaving Reading.anyVia
    rw [bind_of_ok hcount, if_neg (Nat.succ_ne_zero _), Nat.add_sub_cancel, he.id, attempt_ok,
      pure_bind, hser, attempt_ok, pure_bind, map_eq_pure_bind]
    rfl
  have hstream : e.readStream h₀ (Reading.declared e ty) i =
      reading h₀ (Reading.declared e ty) (i.advance 1) := bind_of_ok hhead
  unfold deserializeField resultOf
  rw [hstream]
  unfold reading
  rw [hany]

end Engine.Encodes

section
variable {c : ClassInfo} (hconfig : e'.config = e.config) (hk : keySlot.OfLeaves)
  (hv : valueSlot.OfLeaves) (he : e.Encodes ty c keySlot valueSlot)
  (he' : e'.Encodes ty' c keySlot valueSlot)
include hconfig hk hv he he'

section
variable {key value key' value' : SideSetup Serializer}
  (hser : e.registry.serializer c.type = .ok (.map key value none))
  (hser' : e'.registry.serializer c.type = .ok (.map key' value' none)) (levels : Nat)
include hser hser'

/-- What the serializers of both engines write of a container is the same. -/
theorem Writing.pairs_data_leaves (o : ObjId) :
    PairsTo p (Scope.start.pushed ty) (Scope.start.pushed ty')
      (Spent (Pair p) (Scope.start.pushed ty) (Scope.start.pushed ty'))
      (data e h levels o (.map key value none)) (data e' h levels o (.map key' value' none)) := by
  obtain ⟨keyType, hty, hr⟩ := he.resolves hser
  obtain ⟨keyType', hty', hr'⟩ := he'.resolves hser'
  have hdepth : (Scope.start.pushed ty').depth = (Scope.start.pushed ty).depth := rfl
  cases levels with
  | zero =>
    unfold data
    rw [hconfig]
    exact pairing_pair.tooDeep (fun _ => rfl) hdepth
  | succ levels =>
    unfold data
    rw [hconfig]
    exact pairing_pair.descend (fun _ => rfl) hdepth
      ((pairs_mapVia_leaves hconfig hk hv (Scope.entered_inside ty) (Scope.entered_inside ty')
        rfl hty hty' hr hr' levels o).post fun _ _ _ => Or.inr)

/-- And so is what they read. -/
theorem Reading.pairs_data_leaves (id : Option Nat) :
    InStepTo .strict (Pair (Scope.start.pushed ty) (Scope.start.pushed ty'))
      (fun _ => Spent Pair (Scope.start.pushed ty) (Scope.start.pushed ty'))
      (data e levels c (.map key value none) id) (data e' levels c (.map key' value' none) id) := by
  obtain ⟨keyType, hty, hr⟩ := he.resolves hser
  obtain ⟨keyType', hty', hr'⟩ := he'.resolves hser'
  have hdepth : (Scope.start.pushed ty').depth = (Scope.start.pushed ty).depth := rfl
  cases levels with
  | zero =>
    unfold data
    rw [hconfig]
    exact pairing_pair.tooDeep (fun _ => rfl) hdepth
  | succ levels =>
    unfold data
    rw [hconfig]
    exact pairs_level hdepth id
      ((pairs_mapVia_leaves hconfig hk hv (Scope.entered_inside ty) (Scope.entered_inside ty')
        rfl hty hty' hr hr' levels c none).post fun _ _ _ => Or.inr)

end

/-- A container is written alike by both engines. -/
theorem Writing.pairs_declared_leaves {o : ObjId} (ho : h.typeOf o = c.type) :
    PairsTo p .start .start (Pair p .start .start) (declared e h ty (some o))
      (declared e' h ty' (some o)) := by
  intro s t hst
  obtain ⟨key, value, -, hser, -⟩ := he.sides
  obtain ⟨key', value', -, hser', -⟩ := he'.sides
  have hstart := Scope.orderly_start.entered
  rw [he.declared_apply hser ho hst.left, he'.declared_apply hser' ho hst.right, hconfig,
    Engine.tracks_congr hconfig]
  refine pairing_pair.declaring hstart hstart ?_ s t hst
  exact (pairs_put _).bind fun _ =>
    pairs_unlessWritten _ (pairs_data_leaves hconfig hk hv he he' hser hser' _ o)

/-- A container is read alike by both engines, behind the number of its class. -/
theorem Reading.pairs_object_leaves {key value key' value' : SideSetup Serializer}
    (hser : e.registry.serializer c.type = .ok (.map key value none))
    (hser' : e'.registry.serializer c.type = .ok (.map key' value' none)) (levels : Nat) :
    InStep .strict (Pair .start .start)
      (declaring ty (some <$> objectVia e (data e levels) c (.map key value none)))
      (declaring ty' (some <$> objectVia e' (data e' levels) c (.map key' value' none))) := by
  have hstart := Scope.orderly_start.entered
  rw [map_eq_pure_bind, map_eq_pure_bind]
  exact pairing_pair.declaring hstart hstart ((pairs_objectVia hconfig fun id =>
    pairs_data_leaves hconfig hk hv he he' hser hser' levels id).bind fun _ => .pure _)

namespace Engine

/-- **A container with sides of leaves is written alike** by both engines, or fails with the
    same error. -/
theorem serializeField_leaves {o : ObjId} (ho : h.typeOf o = c.type) :
    e'.serializeField h ty' (some o) = e.serializeField h ty (some o) := by
  have hwriting := inStep_writing (O := Output.After (.empty e.config.native))
    (fun _ _ hout => ⟨hout, rfl, rfl, rfl⟩) (fun _ _ hst => hst.out)
    (Writing.pairs_declared_leaves hconfig hk hv he he' ho)
  unfold serializeField
  rw [written_congr hconfig, writeStream_congr hconfig]
  exact (written_eq (inStep_writeStream Output.joint_after rfl hwriting)
    (Output.after_empty.2 ⟨rfl, rfl⟩) fun _ _ hout => (Output.after_empty.1 hout).1).symm

/-- **What begins as such a container is read alike** by both engines, or fails with the same
    error. -/
theorem deserializeField_leaves (hid : c.id + 1 < 2 ^ 32) (h₀ : Heap) {bs : Bytes}
    (hbs : e.opening c <+: bs) :
    e'.deserializeField h₀ ty' bs = e.deserializeField h₀ ty bs := by
  obtain ⟨key, value, -, hser, -⟩ := he.sides
  obtain ⟨key', value', -, hser', -⟩ := he'.sides
  have hreading := beside_reading (S := fun a b => a = .start ∧ b = .start) ⟨rfl, rfl⟩ h₀
    (Reading.pairs_object_leaves hconfig hk hv he he' hser hser' e.config.maxDepth)
  rw [he.deserializeField_eq hser hid h₀ hbs,
    he'.deserializeField_eq hser' hid h₀ (opening_congr hconfig c ▸ hbs), hconfig]
  exact (hreading.resultOf_eq _).symm

end Engine

end

end GraphWire
