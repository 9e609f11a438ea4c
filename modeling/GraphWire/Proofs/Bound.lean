/-
  Bound or declared.

  That the keys of a container are leaves of one type, and its values leaves of another, can be
  said in two ways.  The type of container may be bound to both types when it is registered; or
  it is not, and the container is declared with both types as its arguments.

  * `Registry.Furnished` says what a registry is between calls: settled, with the built-in types
    under their own ids;
  * `Engine.Binds` says that a type of containers was registered with a binding, among any calls;
  * `Engine.encodes_bound`, `Engine.encodes_declared`: both ways lead to the same sides;
  * `Engine.bound_or_declared`: so the containers are written alike and read alike, one way or
    the other.
-/
import GraphWire.Proofs.Calls
import GraphWire.Proofs.Sides

namespace GraphWire

/-- The registration of a built-in type of leaves. -/
def Registration.builtIn (type : LeafType) : Registration :=
  .ofLeaf type (LeafType.all.idxOf type + 1)

/-! ## What registries list -/

namespace Registry

variable {r r' : Registry} {reg reg' : Registration}

/-- Whether a registry has a type as it stands in a registration, whatever was built of it. -/
def Lists (r : Registry) (reg : Registration) : Prop :=
  (r.find? reg.type).map (·.said) = some reg.said

namespace Lists

theorem found (h : r.Lists reg) : ∃ reg', r.find? reg.type = some reg' ∧
    reg'.toClassInfo = reg.toClassInfo ∧ reg'.recipe = reg.recipe := by
  obtain ⟨reg', hfind, hsaid⟩ := Option.map_eq_some_iff.1 h
  exact ⟨reg', hfind, congrArg Prod.fst hsaid, congrArg Prod.snd hsaid⟩

theorem classOf (h : r.Lists reg) : r.classOf reg.type = .ok reg.toClassInfo := by
  obtain ⟨reg', hfind, hclass, -⟩ := h.found
  exact classOf_eq_ok.2 ⟨reg', hfind, hclass⟩

theorem classOfObject (h : r.Lists reg) : r.classOfObject reg.type = .ok reg.toClassInfo := by
  obtain ⟨reg', hfind, hclass, -⟩ := h.found
  exact classOfObject_eq_ok.2 ⟨reg', hfind, hclass⟩

theorem isFinal (h : r.Lists reg) : r.isFinal reg.type = reg.isFinal := by
  obtain ⟨reg', hfind, hclass, -⟩ := h.found
  unfold Registry.isFinal
  rw [hfind]
  exact congrArg ClassInfo.isFinal hclass

/-- Asking for serializers changes nothing of what is listed. -/
theorem of_stage (h : r.Lists reg) (hstage : r.Stage [] r') : r'.Lists reg :=
  (hstage.alike reg.type).trans h

theorem register (h : r.Lists reg) (hr : r.register reg' = .ok r') : r'.Lists reg := by
  obtain ⟨found, hfind, hsaid⟩ := Option.map_eq_some_iff.1 h
  unfold Lists
  rw [find?_of_register hr hfind]
  exact congrArg some hsaid

end Lists

/-- What was registered is listed. -/
theorem lists_of_register (hr : r.register reg = .ok r') : r'.Lists reg := by
  obtain ⟨rfl, htype, -⟩ := register_eq_ok hr
  have hnone : r.find? reg.type = none := find?_eq_none_iff.2 htype
  unfold find? at hnone
  unfold Lists find?
  rw [List.find?_append, hnone, Option.none_or]
  simp

/-- What a registry is between calls: settled, with the built-in types as they were. -/
structure Furnished (r : Registry) : Prop extends r.Settled where
  builtIns : ∀ reg ∈ builtins.registrations, r.Lists reg

theorem furnished_builtins : builtins.Furnished where
  toSettled := sound_builtins.settled
  builtIns reg hm := by
    unfold Lists
    rw [sound_builtins.find?_of_mem hm]
    rfl

namespace Furnished

theorem of_stage (h : r.Furnished) (hstage : r.Stage [] r') : r'.Furnished where
  toSettled := h.toSettled.of_stage hstage
  builtIns reg hm := (h.builtIns reg hm).of_stage hstage

theorem register (h : r.Furnished) (hreg : reg.Unbuilt) (hr : r.register reg = .ok r') :
    r'.Furnished where
  toSettled := h.toSettled.register hreg hr
  builtIns reg' hm := (h.builtIns reg' hm).register hr

theorem classOfId (h : r.Furnished) (hs : r.Lists reg) :
    r.classOfId reg.id = .ok reg.toClassInfo := by
  obtain ⟨reg', hfind, hclass, -⟩ := hs.found
  have hid : r.findId? reg'.id = some reg' := by
    unfold findId?
    rw [h.stage.tables]
    exact find?_of_nodup h.ids (mem_of_find? hfind)
  exact classOfId_eq_ok.2 ⟨reg', congrArg ClassInfo.id hclass ▸ hid, hclass⟩

/-- What is new beside the built-in types and more was new beside the built-in types. -/
theorem admits_builtins (h : r.Furnished) (hreg : r.Admits reg) (hid : firstFreeId ≤ reg.id) :
    builtins.Admits reg where
  type := by
    refine find?_eq_none_iff.2 fun reg' hm htype => ?_
    obtain ⟨found, hfind, -⟩ := (h.builtIns reg' hm).found
    rw [htype, hreg.type] at hfind
    cases hfind
  id := by
    have hkept : ∀ reg' ∈ builtins.byId, reg'.id < firstFreeId := by decide
    exact findId?_eq_none_iff.2 fun reg' hm => ((hkept reg' hm).trans_le hid).ne

/-! ## Leaves -/

theorem lists_leaf (h : r.Furnished) (type : LeafType) : r.Lists (.builtIn type) := by
  have hfind : builtins.find? (.leaf type) = some (.builtIn type) := by cases type <;> rfl
  exact h.builtIns _ (mem_of_find? hfind)

theorem outcome_leaf (h : r.Furnished) (type : LeafType) {depth : Nat} {path : List ObjectType} :
    r.outcome (depth + 1) path (.leaf type) = .ok (.leaf type) := by
  obtain ⟨reg', hfind, -, hrecipe⟩ := (h.lists_leaf type).found
  exact outcome_of_ready hfind hrecipe

theorem serializer_leaf (h : r.Furnished) (type : LeafType) :
    r.serializer (.leaf type) = .ok (.leaf type) :=
  (h.stage.demand _).2.trans (h.outcome_leaf type)

/-! ## Containers -/

/-- The serializer of containers that are bound so, where all is found that the binding names. -/
theorem serializer_bound (h : r.Furnished) {type : ContainerType} {id : Nat} {b : MapBinding}
    (hs : r.Lists (.ofBinding type id b)) {key value : SideSetup Serializer}
    (hkey : ∀ depth path, r.sideOutcome (r.outcome (depth + 1) path) .key b.key = .ok key)
    (hvalue : ∀ depth path, r.sideOutcome (r.outcome (depth + 1) path) .value b.value = .ok value) :
    r.serializer (.container type) = .ok (.map key value none) := by
  obtain ⟨reg, hfind, -, hrecipe⟩ := hs.found
  obtain ⟨n, hn⟩ := Nat.exists_eq_add_of_lt (List.length_pos_of_mem (mem_of_find? hfind))
  refine ((h.stage.demand _).2.trans (outcome_of_binding hfind hrecipe)).trans ?_
  rw [if_neg List.not_mem_nil, hn, Nat.zero_add]
  unfold mapOutcome
  rw [hkey, hvalue]
  rfl

theorem sideOutcome_leaf (h : r.Furnished) (type : LeafType) (nullable : Bool) (side : Side)
    {depth : Nat} {path : List ObjectType} :
    r.sideOutcome (r.outcome (depth + 1) path) side { type := some (.leaf type), nullable } =
      .ok ⟨some (Registration.builtIn type).toClassInfo, some (.leaf type), nullable⟩ := by
  have hclass : r.classOf (.leaf type) = .ok (Registration.builtIn type).toClassInfo :=
    (h.lists_leaf type).classOf
  unfold sideOutcome
  dsimp only
  rw [hclass, Option.elim_none, h.outcome_leaf]
  rfl

end Furnished

end Registry

/-! ## Two ways -/

/-- The binding of both sides to types of leaves. -/
def MapBinding.ofLeaves (k v : LeafType) (nk nv : Bool) : MapBinding :=
  ⟨{ type := some (.leaf k), nullable := nk }, { type := some (.leaf v), nullable := nv }⟩

/-- The binding that says of both sides only whether they may be null. -/
def MapBinding.ofFlags (nk nv : Bool) : MapBinding := ⟨{ nullable := nk }, { nullable := nv }⟩

/-- The declaration of a container with leaves of two types on its sides. -/
def Declared.ofLeaves (type : ContainerType) (k v : LeafType) : Declared :=
  .concrete (.container type) [.concrete (.leaf k) [], .concrete (.leaf v) []]

/-- The slot of a side of leaves. -/
def Slot.ofLeaf (type : LeafType) (nullable : Bool) (side : Side) : Slot :=
  ⟨some ((Registration.builtIn type).toClassInfo, .leaf type), nullable, side⟩

theorem Slot.ofLeaves_ofLeaf {type : LeafType} {nullable : Bool} {side : Side} :
    (ofLeaf type nullable side).OfLeaves :=
  ⟨_, _, rfl⟩

/-- An argument that names a type of leaves is found on its side. -/
theorem Slot.resolve_leaf {r : Registry} (h : r.Furnished) (type : LeafType) (nullable : Bool)
    (side : Side) {frames : Frames} (hframes : frames.stack ≠ []) :
    resolve r frames (some (.concrete (.leaf type) [])) side { nullable } =
      .ok (ofLeaf type nullable side) := by
  obtain ⟨frame, below, hstack⟩ := List.exists_cons_of_ne_nil hframes
  have hclass : r.classOf (.leaf type) = .ok (Registration.builtIn type).toClassInfo :=
    (h.lists_leaf type).classOf
  have hfinal : r.isFinal (.leaf type) = true := (h.lists_leaf type).isFinal
  have htype : ((some (.concrete (.leaf type) [])).bind frames.resolve).filter r.isFinal =
      some (.leaf type) := by
    simp [Frames.resolve, hstack, Frames.lookUp_concrete, Option.filter, hfinal]
  unfold resolve
  dsimp only
  rw [htype]
  dsimp only
  rw [hclass, h.serializer_leaf]
  rfl

namespace Engine

variable {e e' : Engine} {config : Config} {type : ContainerType} {id : Nat} {k v : LeafType}
  {nk nv : Bool}

section
variable (h : e.registry.Furnished)
include h

/-- A container of a type that is bound to leaves, declared in no way. -/
theorem encodes_bound (hs : e.registry.Lists (.ofBinding type id (.ofLeaves k v nk nv))) :
    e.Encodes .unknown (Registration.ofContainer type id).toClassInfo (.ofLeaf k nk .key)
      (.ofLeaf v nv .value) where
  object := hs.classOfObject
  id := (h.classOfId hs :)
  not_final := rfl
  sides := ⟨_, _, .unknown, h.serializer_bound hs (fun _ _ => h.sideOutcome_leaf k nk .key)
    fun _ _ => h.sideOutcome_leaf v nv .value, rfl, rfl⟩

/-- A container of a type that is bound to nothing, declared with leaves. -/
theorem encodes_declared (hs : e.registry.Lists (.ofBinding type id (.ofFlags nk nv))) :
    e.Encodes (.ofLeaves type k v) (Registration.ofContainer type id).toClassInfo
      (.ofLeaf k nk .key) (.ofLeaf v nv .value) where
  object := hs.classOfObject
  id := (h.classOfId hs :)
  not_final := by
    have hfinal : e.registry.isFinal (.container type) = false := hs.isFinal
    simp [Declared.ofLeaves, Declared.type?, Option.filter, hfinal]
  sides := by
    refine ⟨_, _, .concrete (.leaf k) [], h.serializer_bound hs (fun _ _ => rfl) fun _ _ => rfl,
      rfl, ?_⟩
    have hframes : (Scope.inside (.ofLeaves type k v)).frames.stack ≠ [] := List.cons_ne_nil _ _
    exact resolveSlots_eq_ok.2 ⟨Slot.resolve_leaf h k nk .key hframes,
      Slot.resolve_leaf h v nv .value hframes, rfl⟩

end

/-! ## Calls -/

theorem furnished_call (he : e.registry.Furnished) {c : Call} (hc : c.New) :
    (e.call c).registry.Furnished := by
  obtain hcall | ⟨_, d, -, hcall⟩ | ⟨reg, rfl, hr⟩ := call_cases e c
  · rwa [hcall]
  · rw [hcall]
    exact he.of_stage (he.stage.hold d).2
  · exact he.register hc (registry_of_register hr)

theorem lists_call (he : e.registry.Furnished) {reg : Registration} (hs : e.registry.Lists reg)
    (c : Call) : (e.call c).registry.Lists reg := by
  obtain hcall | ⟨_, d, -, hcall⟩ | ⟨reg', -, hr⟩ := call_cases e c
  · rwa [hcall]
  · rw [hcall]
    exact hs.of_stage (he.stage.hold d).2
  · exact hs.register (registry_of_register hr)

theorem furnished_calls {history : List Call} (hnew : ∀ c ∈ history, c.New) :
    (calls config history).registry.Furnished :=
  List.foldlRecOn (motive := fun e => e.registry.Furnished) history call
    Registry.furnished_builtins fun _ he c hc => furnished_call he (hnew c hc)

/-- Whether an engine has come from a new one of a configuration by calls, by one of which a
    type of containers was registered with a binding. -/
def Binds (config : Config) (type : ContainerType) (id : Nat) (b : MapBinding) (e : Engine) :
    Prop :=
  ∃ (before after : List Call) (registered : Engine), (∀ c ∈ before, c.New) ∧ (∀ c ∈ after, c.New) ∧
    (calls config before).registerMapWith id type b = .ok registered ∧
    e = after.foldl call registered

namespace Binds

variable {b : MapBinding} (h : e.Binds config type id b)
include h

/-- What was registered before the last calls is listed after them. -/
theorem lists : e.config = config ∧ e.registry.Furnished ∧
    e.registry.Lists (.ofBinding type id b) := by
  obtain ⟨before, after, e₁, hbefore, hafter, hr, rfl⟩ := h
  have hfurnished := @furnished_calls config before hbefore
  have hregister := registry_of_register hr
  let P (e : Engine) : Prop :=
    e.config = config ∧ e.registry.Furnished ∧ e.registry.Lists (.ofBinding type id b)
  have hstart : P e₁ := ⟨(register_eq_ok hr).1.trans (config_calls config before),
    hfurnished.register ⟨rfl, rfl⟩ hregister, Registry.lists_of_register hregister⟩
  exact List.foldlRecOn (motive := P) after call hstart fun e he c hc =>
    ⟨(config_call e c).trans he.1, furnished_call he.2.1 (hafter c hc), lists_call he.2.1 he.2.2 c⟩

/-- A new engine takes the same registration. -/
theorem exists_new : ∃ e₀, ({ config } : Engine).registerMapWith id type b = .ok e₀ := by
  obtain ⟨before, -, e₁, hbefore, -, hr, -⟩ := h
  obtain ⟨-, hid, hnew⟩ := register_eq_ok hr
  have hadmits := (@furnished_calls config before hbefore).admits_builtins hnew hid
  obtain ⟨-, hrefused⟩ | ⟨r, hadd, -⟩ := add_cases { config } (.ofBinding type id b)
  · exact absurd ⟨hid, hadmits⟩ hrefused
  · refine ⟨{ config, registry := r }, ?_⟩
    show stateOf (add _) _ = _
    unfold stateOf
    rw [hadd]

end Binds

/-! ## Bound or declared -/

section
variable {ty : Declared} {h : Heap} {o : ObjId} {bs : Bytes}
  (he : e.Binds config type id (.ofLeaves k v nk nv)) (ho : h.typeOf o = .container type)
include he ho

section
variable (hconfig : e'.config = config)
  (he' : e'.Encodes ty (Registration.ofContainer type id).toClassInfo (.ofLeaf k nk .key)
    (.ofLeaf v nv .value))
include hconfig he'

/-- A container of a bound type is written as on any engine that encodes its sides so. -/
theorem Binds.serializeField_eq :
    e'.serializeField h ty (some o) = e.serialize h (some o) := by
  obtain ⟨hsame, hfurnished, hlists⟩ := he.lists
  rw [← serializeField_of_mute h Declared.mute_unknown]
  exact serializeField_leaves (hconfig.trans hsame.symm) Slot.ofLeaves_ofLeaf Slot.ofLeaves_ofLeaf
    (encodes_bound hfurnished hlists) he' ho

/-- And so it is read. -/
theorem Binds.deserializeField_eq (hid : id + 1 < 2 ^ 32)
    (hs : e.serialize h (some o) = .ok bs) (h₀ : Heap) :
    e'.deserializeField h₀ ty bs = e.deserialize h₀ bs := by
  obtain ⟨hsame, hfurnished, hlists⟩ := he.lists
  have hbound := encodes_bound hfurnished hlists
  rw [← serializeField_of_mute h Declared.mute_unknown] at hs
  rw [← deserializeField_of_mute h₀ Declared.mute_unknown]
  exact deserializeField_leaves (hconfig.trans hsame.symm) Slot.ofLeaves_ofLeaf
    Slot.ofLeaves_ofLeaf hbound he' hid h₀ (hbound.opening_prefix ho hs)

end

/-- What is written of a container of a bound type is read, whatever else is registered: a new
    engine with this type alone would read it. -/
theorem Binds.exists_deserialize (hid : id + 1 < 2 ^ 32) (hs : e.serialize h (some o) = .ok bs)
    (hfit : e.Fits h (some o)) (h₀ : Heap) : ∃ w h', e.deserialize h₀ bs = .ok (w, h') := by
  obtain ⟨e₀, hr⟩ := he.exists_new
  have hassembled : e₀.Assembled := .registerMapWith (.start config) hid ⟨rfl, rfl⟩ hr
  have hnone : ∀ c ∈ ([] : List Call), c.New := List.forall_mem_nil _
  have he₀ : e₀.Binds config type id (.ofLeaves k v nk nv) := ⟨[], [], e₀, hnone, hnone, hr, rfl⟩
  obtain ⟨hsame, hfurnished, hlists⟩ := he₀.lists
  have hfit₀ : e₀.Fits h (some o) := ⟨hfit.small, by rw [hsame, ← he.lists.1]; exact hfit.few⟩
  have hencodes := encodes_bound hfurnished hlists
  have hwritten := he.serializeField_eq ho hsame hencodes
  have hread := he.deserializeField_eq ho hsame hencodes hid hs h₀
  rw [serializeField_of_mute h Declared.mute_unknown, hs] at hwritten
  rw [deserializeField_of_mute h₀ Declared.mute_unknown] at hread
  obtain ⟨w, d, -, hd⟩ := deserialize_of_serialize hassembled.sound hwritten hfit₀ h₀
  exact ⟨w, d.heap, hread.symm.trans hd⟩

end

/-- **Bound or declared, the encoding is the same.**  On the one engine a type of containers was
    registered with a binding to leaves, on another of the same configuration under the same id
    with a binding that names no types; whatever else was called on either.  A container of the
    type, with any entries, is written by the one to the same bytes as by the other when it is
    declared with the leaves, or both fail with the same error.  What was written both read to
    the same value in the same heap, and they do not fail unless it is beyond what 32 bits can
    count. -/
theorem bound_or_declared (he : e.Binds config type id (.ofLeaves k v nk nv))
    (he' : e'.Binds config type id (.ofFlags nk nv)) (hid : id + 1 < 2 ^ 32) {h : Heap} {o : ObjId}
    (ho : h.typeOf o = .container type) :
    e'.serializeField h (.ofLeaves type k v) (some o) = e.serialize h (some o) ∧
    ∀ bs, e.serialize h (some o) = .ok bs → ∀ h₀,
      e'.deserializeField h₀ (.ofLeaves type k v) bs = e.deserialize h₀ bs ∧
      (e.Fits h (some o) → ∃ w h', e.deserialize h₀ bs = .ok (w, h') ∧
        e'.deserializeField h₀ (.ofLeaves type k v) bs = .ok (w, h')) := by
  obtain ⟨hconfig, hfurnished, hlists⟩ := he'.lists
  have hencodes : e'.Encodes (.ofLeaves type k v) _ _ _ := encodes_declared hfurnished hlists
  refine ⟨he.serializeField_eq ho hconfig hencodes, fun bs hs h₀ => ?_⟩
  have hread := he.deserializeField_eq ho hconfig hencodes hid hs h₀
  refine ⟨hread, fun hfit => ?_⟩
  obtain ⟨w, h', hok⟩ := he.exists_deserialize ho hid hs hfit h₀
  exact ⟨w, h', hok, hread.trans hok⟩

/-- A container of an application's own type that maps a number, and null, to one text. -/
def labels : Heap :=
  let h := (Heap.empty.alloc (.container (.empty (.named 0)))).2
  let h := (h.alloc (.leaf (.i32 7))).2
  let h := (h.alloc (.leaf (.string "a"))).2
  ((h.insert 0 (some 1) (some 2)).2.insert 0 none (some 2)).2

/-- An engine with the type bound, whose serializer was asked for since. -/
def bindsLabels : Engine :=
  calls { trackRef := true }
    [.register (.ofBinding (.named 0) 40 (.ofLeaves .i32 .string true false)),
      .ask (.container (.named 0))]

/-- An engine with the type not bound, registered after another. -/
def flagsLabels : Engine :=
  calls { trackRef := true }
    [.register (.ofContainer (.named 1) 41),
      .register (.ofBinding (.named 0) 40 (.ofFlags true false))]

theorem bound_or_declared_labels :
    bindsLabels.Binds { trackRef := true } (.named 0) 40 (.ofLeaves .i32 .string true false) ∧
    flagsLabels.Binds { trackRef := true } (.named 0) 40 (.ofFlags true false) ∧
    labels.typeOf 0 = .container (.named 0) ∧
    flagsLabels.serializeField labels (.ofLeaves (.named 0) .i32 .string) (some 0) =
      .ok [10, 41, 0, 2, 255, 14, 1, 97, 253, 1, 97] ∧
    ∀ h₀, ∃ w h', bindsLabels.deserialize h₀ [10, 41, 0, 2, 255, 14, 1, 97, 253, 1, 97] =
        .ok (w, h') ∧
      flagsLabels.deserializeField h₀ (.ofLeaves (.named 0) .i32 .string)
        [10, 41, 0, 2, 255, 14, 1, 97, 253, 1, 97] = .ok (w, h') := by
  have hbinds : bindsLabels.Binds { trackRef := true } (.named 0) 40
      (.ofLeaves .i32 .string true false) :=
    ⟨[], [.ask (.container (.named 0))], _, List.forall_mem_nil _, by simp [Call.ask, Call.New],
      rfl, rfl⟩
  have hflags : flagsLabels.Binds { trackRef := true } (.named 0) 40 (.ofFlags true false) :=
    ⟨[.register (.ofContainer (.named 1) 41)], [], _,
      List.forall_mem_singleton.2 ⟨rfl, rfl⟩, List.forall_mem_nil _, rfl, rfl⟩
  have ho : labels.typeOf 0 = .container (.named 0) := rfl
  have hs : bindsLabels.serialize labels (some 0) =
      .ok [10, 41, 0, 2, 255, 14, 1, 97, 253, 1, 97] := by decide +kernel
  obtain ⟨hwritten, hread⟩ := bound_or_declared hbinds hflags (by decide) ho
  exact ⟨hbinds, hflags, ho, hwritten.trans hs, fun h₀ =>
    (hread _ hs h₀).2 (fits_of_nodes _ (by decide +kernel) (by decide) _)⟩

end Engine

end GraphWire
