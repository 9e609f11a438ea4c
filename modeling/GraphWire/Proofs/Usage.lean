/-
  Engines that were used.

  Of what an engine writes, reads and copies its registry hears only which serializers are asked
  for.  So each operation is a dialogue with the registry, and an engine does what it did when
  it was new, whatever it was used for.

  * `Writing.asking_data`, `Reading.asking_data` and `Copying.asking_data`: one step for each way
    of writing, reading and copying, and all levels by induction;
  * `Engine.asked_perform`: every operation is a dialogue;
  * `Engine.perform_by_registrations`: it comes to the same with a registry that changes on the
    way, after all histories in which the same was registered.
-/
import GraphWire.Proofs.Asking
import GraphWire.Proofs.Calls

namespace GraphWire

variable {α : Type}

/-! ## Slots -/

variable {e : Engine}

theorem Slot.asked_resolve (frames : Frames) (declared : Option Declared) (side : Side)
    (setup : SideSetup Serializer) :
    e.Asked fun e' => resolve e'.registry frames declared side setup := by
  cases hfinal : (declared.bind frames.resolve).filter e.registry.isFinal with
  | none =>
    refine .same fun e' he => ?_
    unfold resolve
    simp only [he.classes.isFinal, hfinal]
  | some type =>
    have hknown : e.Asked fun e' => (do
        let cls ← e'.registry.classOf type
        let serializer ← e'.registry.serializer type
        return ⟨some (cls, serializer), setup.nullable, side⟩ : Except Error Slot) :=
      .except_bind (.classOf type) fun cls => .except_bind (.ask type) fun serializer => .pure _
    obtain ⟨cls, serializer, nullable⟩ := setup
    -- what is declared counts where the class or its serializer is not known
    cases cls with
    | none =>
      refine hknown.congr fun e' he => ?_
      unfold resolve
      simp only [he.classes.isFinal, hfinal]
    | some cls =>
      cases serializer with
      | none =>
        refine hknown.congr fun e' he => ?_
        unfold resolve
        simp only [he.classes.isFinal, hfinal]
      | some serializer => exact .pure _

theorem asked_resolveSlots (frames : Frames) (args : List Declared)
    (key value : SideSetup Serializer) :
    e.Asked fun e' => resolveSlots e'.registry frames args key value :=
  .except_bind (Slot.asked_resolve frames _ _ _) fun _ =>
    .except_bind (Slot.asked_resolve frames _ _ _) fun _ => .pure _

/-! ## Writing -/

namespace Writing

variable {h : Heap} {nested : Engine → ObjId → Serializer → Writing Unit}

section
variable (hn : ∀ o serializer, e.Asking fun e' => nested e' o serializer)
include hn

theorem asking_unlessWritten {tracked : Engine → Bool}
    (ht : ∀ e', e.Resembles e' → tracked e' = tracked e) (o : ObjId) (serializer : Serializer) :
    e.Asking fun e' => unlessWritten (nested e') (tracked e') o serializer := by
  refine .ite ht (.bind (.const _) fun again => ?_) (hn o serializer)
  cases again with
  | true => exact .const _
  | false => exact hn o serializer

theorem asking_nullableVia (v : Value) (c : ClassInfo) (serializer : Serializer) :
    e.Asking fun e' => nullableVia e' h (nested e') v c serializer := by
  cases v with
  | none => exact .const _
  | some o =>
    refine .bind (.const _) fun _ => .ite (fun _ he => Engine.tracks_congr he.config _) ?_ ?_
    · exact asking_unlessWritten hn (fun _ _ => rfl) o serializer
    · exact .bind (.const _) fun _ => hn o serializer

theorem asking_objectVia (v : Value) (c : ClassInfo) (serializer : Serializer) :
    e.Asking fun e' => objectVia e' h (nested e') v c serializer := by
  cases v with
  | none => exact .const _
  | some o =>
    exact .bind (.const _) fun _ =>
      asking_unlessWritten hn (fun _ he => Engine.tracks_congr he.config _) o serializer

theorem asking_anyVia (v : Value) : e.Asking fun e' => anyVia e' h (nested e') v := by
  cases v with
  | none => exact .const _
  | some o =>
    refine .bind (.attempt (.classOfObject _)) fun c => ?_
    refine .bind (.attempt (.ask c.type)) fun serializer => .bind (.const _) fun _ => ?_
    exact asking_unlessWritten hn (fun _ he => Engine.tracks_congr he.config _) o serializer

theorem asking_declaredVia (ty : Declared) (v : Value) :
    e.Asking fun e' => declaredVia e' h (nested e') ty v := by
  refine .declaring ty ?_
  cases hfinal : ty.type?.filter e.registry.isFinal with
  | none => exact (asking_anyVia hn v).congr fun e' he => by rw [he.classes.isFinal, hfinal]
  | some type =>
    have hknown : e.Asking fun e' => (do
        let c ← attempt (e'.registry.classOf type)
        let serializer ← attempt (e'.registry.serializer type)
        nullableVia e' h (nested e') v c serializer : Writing Unit) := by
      refine .bind (.attempt (.classOf type)) fun c => ?_
      exact .bind (.attempt (.ask type)) fun serializer => asking_nullableVia hn v c serializer
    exact hknown.congr fun e' he => by rw [he.classes.isFinal, hfinal]

theorem asking_sideVia (slot : Slot) (v : Value) :
    e.Asking fun e' => sideVia e' h (nested e') slot v := by
  unfold sideVia
  cases slot.target with
  | none => exact asking_anyVia hn v
  | some target =>
    by_cases hnull : slot.nullable = true
    · simp only [if_pos hnull]
      exact asking_nullableVia hn v _ _
    · simp only [if_neg hnull]
      exact asking_objectVia hn v _ _

theorem asking_entriesVia (keySlot valueSlot : Slot) (keyType : Declared) (entries : List Entry) :
    e.Asking fun e' => entriesVia e' h (nested e') keySlot valueSlot keyType entries := by
  induction entries with
  | nil => exact .const _
  | cons entry entries ih =>
    refine .bind (.const _) fun _ => .bind (.const _) fun _ => ?_
    refine .bind (.declaring keyType (asking_sideVia hn keySlot _)) fun _ => ?_
    exact .bind (asking_sideVia hn valueSlot _) fun _ => ih

theorem asking_mapVia (key value : SideSetup Serializer) (o : ObjId) :
    e.Asking fun e' => mapVia e' h (nested e') key value o := by
  unfold mapVia
  cases h.container? o with
  | none => exact .const _
  | some c =>
    refine .bind (.const _) fun _ => .get_bind fun _ => .get_bind fun _ => ?_
    refine .bind (.attempt (asked_resolveSlots _ _ key value)) fun slots => ?_
    exact .bind (asking_entriesVia hn _ _ _ c.entries) fun _ => .const _

theorem asking_fieldsVia (tys : List Declared) (vs : List Value) :
    e.Asking fun e' => fieldsVia e' h (nested e') tys vs := by
  induction tys generalizing vs with
  | nil => exact .const _
  | cons ty tys ih => exact .bind (asking_declaredVia hn ty _) fun _ => ih _

theorem asking_bodyVia (o : ObjId) (serializer : Serializer) :
    e.Asking fun e' => bodyVia e' h (nested e') o serializer := by
  cases serializer with
  | leaf type => exact .const _
  | octet => exact .const _
  | record fields binds =>
    unfold bodyVia
    cases h.node o with
    | record vs => exact asking_fieldsVia hn fields vs
    | leaf v => exact .const _
    | octet v => exact .const _
    | container c => exact .const _
  | map key value factory => exact asking_mapVia hn key value o

end

/-- **Objects are written by asking**, however deep. -/
theorem asking_data (levels : Nat) (o : ObjId) (serializer : Serializer) :
    e.Asking fun e' => data e' h levels o serializer := by
  induction levels generalizing o serializer with
  | zero => exact .same fun e' he => by rw [data, data, he.config]
  | succ levels ih =>
    exact .descend (fun e' he => by rw [he.config]) (asking_bodyVia ih o serializer)

theorem asking_withNested {x : Engine → (ObjId → Serializer → Writing Unit) → Writing α}
    (hx : ∀ levels, e.Asking fun e' => x e' (data e' h levels)) :
    e.Asking fun e' => withNested e' h (x e') := by
  intro s
  refine (hx (e.config.maxDepth - s.scope.depth) s).congr fun e' he => ?_
  show x e' (data e' h (e'.config.maxDepth - s.scope.depth)) s = _
  rw [he.config]

theorem asking_any (v : Value) : e.Asking fun e' => any e' h v :=
  asking_withNested fun levels => asking_anyVia (asking_data levels) v

theorem asking_declared (ty : Declared) (v : Value) : e.Asking fun e' => declared e' h ty v :=
  asking_withNested fun levels => asking_declaredVia (asking_data levels) ty v

end Writing

/-! ## Reading -/

namespace Reading

variable {nested : Engine → ClassInfo → Serializer → Option Nat → Reading ObjId}

section
variable (hn : ∀ c serializer id, e.Asking fun e' => nested e' c serializer id)
include hn

theorem asking_freshVia (c : ClassInfo) (serializer : Serializer) :
    e.Asking fun e' => freshVia (nested e') c serializer :=
  .bind (.const _) fun id => hn c serializer (some id)

theorem asking_nullableVia (c : ClassInfo) (serializer : Serializer) :
    e.Asking fun e' => nullableVia (nested e') c serializer := by
  refine .bind (.const _) fun m => ?_
  cases m with
  | null => exact .const _
  | back => exact .const _
  | plain => exact .bind (hn c serializer none) fun _ => .const _
  | fresh => exact .bind (asking_freshVia hn c serializer) fun _ => .const _

theorem asking_objectVia (c : ClassInfo) (serializer : Serializer) :
    e.Asking fun e' => objectVia e' (nested e') c serializer := by
  refine .ite (fun _ he => Engine.tracks_congr he.config _) ?_ (hn c serializer none)
  refine .bind (.const _) fun m => ?_
  cases m with
  | fresh => exact asking_freshVia hn c serializer
  | back => exact .const _
  | null => exact .const _
  | plain => exact .const _

theorem asking_anyVia : e.Asking fun e' => anyVia e' (nested e') := by
  refine .bind (.const _) fun id => ?_
  by_cases hid : id = 0
  · simp only [if_pos hid]
    exact .const _
  · simp only [if_neg hid]
    refine .bind (.attempt (.same fun e' he => by rw [he.classes.classOfId])) fun c => ?_
    refine .bind (.attempt (.ask c.type)) fun serializer => ?_
    exact .bind (asking_objectVia hn c serializer) fun _ => .const _

theorem asking_declaredVia (ty : Declared) : e.Asking fun e' => declaredVia e' (nested e') ty := by
  refine .declaring ty ?_
  cases hfinal : ty.type?.filter e.registry.isFinal with
  | none => exact (asking_anyVia hn).congr fun e' he => by rw [he.classes.isFinal, hfinal]
  | some type =>
    have hknown : e.Asking fun e' => (do
        let c ← attempt (e'.registry.classOf type)
        let serializer ← attempt (e'.registry.serializer type)
        nullableVia (nested e') c serializer : Reading Value) := by
      refine .bind (.attempt (.classOf type)) fun c => ?_
      exact .bind (.attempt (.ask type)) fun serializer => asking_nullableVia hn c serializer
    exact hknown.congr fun e' he => by rw [he.classes.isFinal, hfinal]

theorem asking_sideVia (slot : Slot) : e.Asking fun e' => sideVia e' (nested e') slot := by
  unfold sideVia
  cases slot.target with
  | none => exact asking_anyVia hn
  | some target =>
    by_cases hnull : slot.nullable = true
    · simp only [if_pos hnull]
      exact asking_nullableVia hn _ _
    · simp only [if_neg hnull]
      exact .map _ (asking_objectVia hn _ _)

theorem asking_entriesVia (keySlot valueSlot : Slot) (keyType : Declared) (o : ObjId) (n : Nat) :
    e.Asking fun e' => entriesVia e' (nested e') keySlot valueSlot keyType o n := by
  induction n with
  | zero => exact .const _
  | succ n ih =>
    refine .bind (.declaring keyType (asking_sideVia hn keySlot)) fun _ => ?_
    exact .bind (asking_sideVia hn valueSlot) fun _ => .bind (.const _) fun _ => ih

theorem asking_mapVia (c : ClassInfo) (key value : SideSetup Serializer)
    (factory : Option ContainerType) :
    e.Asking fun e' => mapVia e' (nested e') c key value factory := by
  refine .bind (.const _) fun o => .bind (.const _) fun n => ?_
  refine .get_bind fun _ => .get_bind fun _ => ?_
  refine .bind (.attempt (asked_resolveSlots _ _ key value)) fun slots => ?_
  exact .bind (.const _) fun _ => .bind (asking_entriesVia hn _ _ _ o n) fun _ => .const _

theorem asking_fieldsVia (o : ObjId) (tys : List Declared) :
    e.Asking fun e' => fieldsVia e' (nested e') o tys := by
  induction tys with
  | nil => exact .const _
  | cons ty tys ih =>
    exact .bind (asking_declaredVia hn ty) fun _ => .bind (.const _) fun _ => ih

theorem asking_bodyVia (c : ClassInfo) (serializer : Serializer) :
    e.Asking fun e' => bodyVia e' (nested e') c serializer := by
  cases serializer with
  | leaf type => exact .const _
  | octet => exact .const _
  | record fields binds =>
    refine .bind (.const _) fun o => .bind (.const _) fun _ => ?_
    exact .bind (asking_fieldsVia hn o fields) fun _ => .const _
  | map key value factory => exact asking_mapVia hn c key value factory

end

/-- **Objects are read by asking**, however deep. -/
theorem asking_data (levels : Nat) (c : ClassInfo) (serializer : Serializer) (id : Option Nat) :
    e.Asking fun e' => data e' levels c serializer id := by
  induction levels generalizing c serializer id with
  | zero => exact .same fun e' he => by rw [data, data, he.config]
  | succ levels ih =>
    refine .descend (fun e' he => by rw [he.config]) (.bind (.const _) fun _ => ?_)
    exact .completing (asking_bodyVia ih c serializer)

theorem asking_withNested
    {x : Engine → (ClassInfo → Serializer → Option Nat → Reading ObjId) → Reading α}
    (hx : ∀ levels, e.Asking fun e' => x e' (data e' levels)) :
    e.Asking fun e' => withNested e' (x e') := by
  intro s
  refine (hx (e.config.maxDepth - s.scope.depth) s).congr fun e' he => ?_
  show x e' (data e' (e'.config.maxDepth - s.scope.depth)) s = _
  rw [he.config]

theorem asking_any : e.Asking fun e' => any e' :=
  asking_withNested fun levels => asking_anyVia (asking_data levels)

theorem asking_declared (ty : Declared) : e.Asking fun e' => declared e' ty :=
  asking_withNested fun levels => asking_declaredVia (asking_data levels) ty

end Reading

/-! ## Copying -/

namespace Copying

variable {nested : Engine → ObjId → Serializer → Copying ObjId}

section
variable (hn : ∀ o serializer, e.Asking fun e' => nested e' o serializer)
include hn

theorem asking_objectVia (o : ObjId) : e.Asking fun e' => objectVia e' (nested e') o := by
  refine .get_bind fun s => ?_
  cases s.copies.get? o with
  | some copy => exact .const _
  | none =>
    refine .get_bind fun s => ?_
    refine .bind (.attempt (.classOfObject _)) fun c => ?_
    exact .bind (.attempt (.ask c.type)) fun serializer => hn o serializer

theorem asking_valueVia (v : Value) : e.Asking fun e' => valueVia e' (nested e') v := by
  cases v with
  | none => exact .const _
  | some o => exact .map _ (asking_objectVia hn o)

theorem asking_entriesVia (copy : ObjId) (entries : List Entry) :
    e.Asking fun e' => entriesVia e' (nested e') copy entries := by
  induction entries with
  | nil => exact .const _
  | cons entry entries ih =>
    refine .bind (asking_valueVia hn _) fun _ => .bind (asking_valueVia hn _) fun _ => ?_
    exact .bind (.const _) fun _ => ih

theorem asking_mapVia (factory : Option ContainerType) (o : ObjId) :
    e.Asking fun e' => mapVia e' (nested e') factory o := by
  refine .get_bind fun s => ?_
  dsimp only
  cases s.heap.container? o with
  | none => exact .const _
  | some container =>
    refine .bind (.attempt (.classOfObject _)) fun c => ?_
    refine .bind (.const _) fun copy => .bind (.const _) fun _ => ?_
    exact .bind (asking_entriesVia hn copy container.entries) fun _ => .const _

theorem asking_fieldsVia (copy : ObjId) (vs : List Value) :
    e.Asking fun e' => fieldsVia e' (nested e') copy vs := by
  induction vs with
  | nil => exact .const _
  | cons v vs ih => exact .bind (asking_valueVia hn v) fun _ => .bind (.const _) fun _ => ih

theorem asking_bodyVia (o : ObjId) (serializer : Serializer) :
    e.Asking fun e' => bodyVia e' (nested e') o serializer := by
  cases serializer with
  | leaf type => exact .const _
  | octet => exact .const _
  | record fields binds =>
    refine .get_bind fun s => ?_
    dsimp only
    cases s.heap.fields? o with
    | none => exact .const _
    | some vs =>
      refine .bind (.const _) fun copy => .bind (.const _) fun _ => ?_
      exact .bind (asking_fieldsVia hn copy vs) fun _ => .const _
  | map key value factory => exact asking_mapVia hn factory o

end

/-- **Objects are copied by asking**, however deep. -/
theorem asking_data (levels : Nat) (o : ObjId) (serializer : Serializer) :
    e.Asking fun e' => data e' levels o serializer := by
  induction levels generalizing o serializer with
  | zero => exact .same fun e' he => by rw [data, data, he.config]
  | succ levels ih =>
    refine .descend (fun e' he => by rw [he.config]) (.bind (.const _) fun _ => ?_)
    exact .completing (asking_bodyVia ih o serializer)

theorem asking_value (v : Value) : e.Asking fun e' => value e' v := by
  intro s
  refine (asking_valueVia (asking_data (e.config.maxDepth - s.scope.depth)) v s).congr
    fun e' he => ?_
  show valueVia e' (data e' (e'.config.maxDepth - s.scope.depth)) v s = _
  rw [he.config]

end Copying

/-! ## Operations -/

namespace Engine

/-- What an engine does with graphs. -/
inductive Operation where
  | serialize (h : Heap) (v : Value)
  | serializeField (h : Heap) (ty : Declared) (v : Value)
  | deserialize (h : Heap) (bs : Bytes)
  | deserializeFrom (h : Heap) (source : Source)
  | deserializeField (h : Heap) (ty : Declared) (bs : Bytes)
  | copy (h : Heap) (v : Value)

/-- What comes of an operation: a stream, or a value with the objects that there are then. -/
abbrev Outcome := Except Error (Bytes ⊕ Value × Heap)

/-- How an operation ends. -/
def perform (e : Engine) : Operation → Outcome
  | .serialize h v => .inl <$> e.serialize h v
  | .serializeField h ty v => .inl <$> e.serializeField h ty v
  | .deserialize h bs => .inr <$> e.deserialize h bs
  | .deserializeFrom h source => .inr <$> e.deserializeFrom h source
  | .deserializeField h ty bs => .inr <$> e.deserializeField h ty bs
  | .copy h v => .inr <$> e.copy h v

section
variable {h : Heap} {x : Engine → Writing Unit}

theorem asking_writing (hx : e.Asking x) : e.Asking fun e' => writing (x e') := by
  intro out
  refine ((hx (.start out)).map (ending (fun _ s => .ok () s.out)
    fun err s => .error err s.out)).congr fun e' _ => ?_
  show writing (x e') out = _
  unfold writing
  cases x e' (.start out) <;> rfl

theorem asking_writeStream (hx : e.Asking x) (v : Value) :
    e.Asking fun e' => e'.writeStream v (x e') := by
  have hheader : e.Asking fun e' =>
      (modify (e'.writeHeader v.isNone) : EStateM Error Output PUnit) :=
    .same fun e' he => by rw [writeHeader_congr he.config]
  refine hheader.bind fun _ => ?_
  cases v with
  | none => exact .const _
  | some o => exact asking_writing hx

theorem asking_serializeTo (v : Value) : e.Asking fun e' => e'.serializeTo h v :=
  .get_bind fun _ => .bind (.attempt (.same fun e' he => by rw [he.config])) fun _ =>
    asking_writeStream (Writing.asking_any v) v

theorem asked_written {x : Engine → EStateM Error Output Unit} (hx : e.Asking x) :
    e.Asked fun e' => e'.written (x e') := by
  refine ((hx (.empty e.config.native)).map (ending (fun _ out => .ok out.bytes)
    fun err _ => .error err)).congr fun e' he => ?_
  show e'.written (x e') = _
  rw [← he.config]
  unfold written
  cases x e' (.empty e'.config.native) <;> rfl

end

section
variable {x : Engine → Reading Value}

theorem asking_reading (hx : e.Asking x) (h : Heap) : e.Asking fun e' => reading h (x e') := by
  intro i
  refine ((hx (.start i h)).map (ending (fun v s => .ok (v, s.heap) s.input)
    fun err s => .error err s.input)).congr fun e' _ => ?_
  show reading h (x e') i = _
  unfold reading
  cases x e' (.start i h) <;> rfl

theorem asking_readStream (hx : e.Asking x) (h : Heap) :
    e.Asking fun e' => e'.readStream h (x e') := by
  refine .bind (.same fun _ he => readHeader_congr he.config) fun null => ?_
  cases null with
  | true => exact .const _
  | false => exact asking_reading hx h

theorem asking_deserializeWith (h : Heap) : e.Asking fun e' => e'.deserializeWith h :=
  .get_bind fun _ => .bind (.attempt (.same fun e' he => by rw [he.config])) fun _ =>
    asking_readStream Reading.asking_any h

theorem asked_resultOf {x : Engine → Scan α} (hx : e.Asking x) {i : Engine → Input}
    (hi : ∀ e', e.Resembles e' → i e' = i e) : e.Asked fun e' => resultOf (x e') (i e') := by
  refine ((hx (i e)).map (ending (fun a _ => .ok a) fun err _ => .error err)).congr
    fun e' he => ?_
  rw [hi e' he]
  unfold resultOf
  cases x e' (i e) <;> rfl

end

theorem asked_copy (h : Heap) (v : Value) : e.Asked fun e' => e'.copy h v := by
  refine ((Copying.asking_value v (.start h)).map (ending (fun copy s => .ok (copy, s.heap))
    fun err _ => .error err)).congr fun e' _ => ?_
  show e'.copy h v = ending _ _ (Copying.value e' v (.start h))
  unfold copy
  cases Copying.value e' v (.start h) <;> rfl

/-- **Every operation is a dialogue**, the same for all engines with the same classes. -/
theorem asked_perform (e : Engine) (op : Operation) : e.Asked fun e' => e'.perform op := by
  have hbytes : ∀ {f : Engine → Except Error Bytes}, e.Asked f →
      e.Asked fun e' => (.inl <$> f e' : Outcome) := fun hf => hf.map (Sum.inl <$> ·)
  have hvalue : ∀ {f : Engine → Except Error (Value × Heap)}, e.Asked f →
      e.Asked fun e' => (.inr <$> f e' : Outcome) := fun hf => hf.map (Sum.inr <$> ·)
  cases op with
  | serialize h v => exact hbytes (asked_written (asking_serializeTo v))
  | serializeField h ty v =>
    exact hbytes (asked_written (asking_writeStream (Writing.asking_declared ty v) v))
  | deserialize h bs =>
    exact hvalue (asked_resultOf (asking_deserializeWith h)
      (i := fun e' => (Input.ofBytes bs).withLayout e'.config.native)
      fun e' he => by rw [he.config])
  | deserializeFrom h source =>
    exact hvalue (asked_resultOf (asking_deserializeWith h)
      (i := fun e' => (Input.ofSource source e'.config.bufferSize).withLayout e'.config.native)
      fun e' he => by rw [he.config])
  | deserializeField h ty bs =>
    exact hvalue (asked_resultOf (asking_readStream (Reading.asking_declared ty) h)
      (i := fun e' => (Input.ofBytes bs).withLayout e'.config.native)
      fun e' he => by rw [he.config])
  | copy h v => exact hvalue (asked_copy h v)

/-! ## Histories -/

variable {config : Config} {history history' : List Call}

/-- After histories in which the same was registered engines have the same classes. -/
theorem resembles_of_perm (hnew : ∀ c ∈ history, c.New) (hnew' : ∀ c ∈ history', c.New)
    (hperm : ((calls config history).registry.registrations.map (·.said)).Perm
      ((calls config history').registry.registrations.map (·.said))) :
    (calls config history).Resembles (calls config history') where
  config := (config_calls config history').trans (config_calls config history).symm
  classes := (settled_calls hnew).sameClasses_of_perm (settled_calls hnew') hperm

/-- **An operation ends as if there had been no other.**  It is a dialogue with the registry,
    which changes while it goes on; but after all histories in which the same was registered,
    whatever else was done, it comes to the same: what the operation is on an engine that does
    not change. -/
theorem perform_by_registrations (hnew : ∀ c ∈ history, c.New) (op : Operation) :
    ∃ d : Dialogue Outcome, ∀ history', (∀ c ∈ history', c.New) →
      ((calls config history).registry.registrations.map (·.said)).Perm
        ((calls config history').registry.registrations.map (·.said)) →
      (d.hold (calls config history').registry).1 = (calls config history).perform op ∧
        (calls config history').perform op = (calls config history).perform op := by
  have he : (calls config history).registry.Settled := settled_calls hnew
  obtain ⟨d, hd⟩ := (calls config history).asked_perform op
  refine ⟨d, fun history' hnew' hperm => ?_⟩
  have he' : (calls config history').registry.Settled := settled_calls hnew'
  have hfirst : (calls config history).perform op = d.result _ :=
    hd _ (resembles_of_perm hnew hnew (.refl _))
  have hthen : (calls config history').perform op = d.result _ :=
    hd _ (resembles_of_perm hnew hnew' hperm)
  rw [he'.hold d, hthen, hfirst, he.serializer_of_perm he' hperm]
  exact ⟨rfl, rfl⟩

end Engine

end GraphWire
