/-
  Registries of leaves and containers.

  An application adds containers to the built-in types, with or without bindings
  of their sides to classes (`Engine.Assembled`).  In its registry every type and
  every id stands once, and each registration is of one of three shapes
  (`Registry.Sound`).

  * `Registry.Gives` says which class and serializer a type has: those of a
    container know the classes of its sides exactly as it was bound;
  * `Registry.Shape` says what classes are like.
-/
import GraphWire.Engine.Basic
import GraphWire.Proofs.Runs
import Mathlib.Algebra.Group.Nat.Defs
import Mathlib.Data.List.Forall2

namespace GraphWire

/-! ## The registrations of an application -/

namespace SideBinding

/-- What a serializer knows of a side that is bound so, where the class that is
    named is found with its serializer. -/
def setup (b : SideBinding) (target : Option (ClassInfo × Serializer)) : SideSetup Serializer :=
  ⟨target.map Prod.fst, target.map Prod.snd, b.nullable⟩

end SideBinding

/-- Whether a binding names classes only; their serializers are those that they
    are registered with. -/
def MapBinding.OfClasses (b : MapBinding) : Prop :=
  b.key.serializer = none ∧ b.value.serializer = none

namespace Registration

/-- What is said of the entries of a type of containers. -/
def binding (reg : Registration) : MapBinding :=
  match reg.recipe with
  | .binding b => b
  | _ => {}

/-- The registrations of leaves and of containers.  An id leaves room in 32 bits
    for the number that stands for null. -/
inductive Standard : Registration → Prop
  | leaf (type : LeafType) {id : Nat} : id + 1 < 2 ^ 32 → Standard (ofLeaf type id)
  | container (type : ContainerType) {id : Nat} :
      id + 1 < 2 ^ 32 → Standard (ofContainer type id)
  | bound (type : ContainerType) {id : Nat} {b : MapBinding} : id + 1 < 2 ^ 32 → b.OfClasses →
      Standard (ofBinding type id b)

theorem Standard.id_lt {reg : Registration} (h : reg.Standard) : reg.id + 1 < 2 ^ 32 := by
  cases h <;> assumption

theorem Standard.not_built {reg : Registration} (h : reg.Standard) :
    reg.built = none ∧ reg.building = false := by
  cases h <;> exact ⟨rfl, rfl⟩

theorem Standard.recipe_leaf {reg : Registration} (h : reg.Standard) {type : LeafType}
    (ht : reg.type = .leaf type) : reg.recipe = .ready (.leaf type) ∧ reg.binding = {} := by
  cases h with
  | leaf =>
    cases ht
    exact ⟨rfl, rfl⟩
  | container => cases ht
  | bound => cases ht

end Registration

/-- Whether a registry holds leaves and containers only, each type and each id
    once, and the same in both tables. -/
structure Registry.Sound (r : Registry) : Prop where
  tables : r.byId = r.registrations
  standard : ∀ reg ∈ r.registrations, reg.Standard
  types : (r.registrations.map (·.type)).Nodup
  ids : (r.registrations.map (·.id)).Nodup

/-- What is new is entered last. -/
theorem Registration.enter_of_new {κ : Type} [BEq κ] [LawfulBEq κ] {key : Registration → κ}
    {reg : Registration} {table : List Registration} (h : ∀ reg' ∈ table, key reg' ≠ key reg) :
    reg.enter key table = table ++ [reg] := by
  induction table with
  | nil => rfl
  | cons reg' table ih =>
    obtain ⟨hne, h⟩ := List.forall_mem_cons.1 h
    rw [enter, if_neg (by simpa using hne), ih h, List.cons_append]

namespace Registry

variable {r : Registry}

theorem registrations_builtins : builtins.registrations = [.ofLeaf .bool 1, .ofLeaf .i8 2,
    .ofLeaf .i16 3, .ofLeaf .i32 4, .ofLeaf .i64 5, .ofLeaf .f32 6, .ofLeaf .f64 7,
    .ofLeaf .string 8, .ofContainer .hash 9, .ofContainer .linked 10] := rfl

theorem sound_builtins : builtins.Sound where
  tables := rfl
  standard := by
    rw [registrations_builtins]
    simp only [List.forall_mem_cons]
    exact ⟨.leaf _ (by decide), .leaf _ (by decide), .leaf _ (by decide), .leaf _ (by decide),
      .leaf _ (by decide), .leaf _ (by decide), .leaf _ (by decide), .leaf _ (by decide),
      .container _ (by decide), .container _ (by decide), by simp⟩
  types := by decide
  ids := by decide

theorem find?_eq_none_iff {type : ObjectType} :
    r.find? type = none ↔ ∀ reg ∈ r.registrations, reg.type ≠ type := by
  simp [find?]

theorem findId?_eq_none_iff {id : Nat} : r.findId? id = none ↔ ∀ reg ∈ r.byId, reg.id ≠ id := by
  simp [findId?]

/-- Whether neither the type nor the id of a registration is taken. -/
structure Admits (r : Registry) (reg : Registration) : Prop where
  type : r.find? reg.type = none
  id : r.findId? reg.id = none

/-- **A registration is refused and nothing is changed, or it is admitted** and stands last in
    both tables. -/
theorem add_cases (r : Registry) (reg : Registration) :
    (∃ err, add reg r = .error err r) ∧ ¬r.Admits reg ∨
      add reg r = .ok () ⟨r.registrations ++ [reg], r.byId ++ [reg]⟩ ∧ r.Admits reg := by
  unfold add
  rw [get_bind]
  cases hid : r.findId? reg.id with
  | some holder =>
    refine Or.inl ⟨⟨_, rfl⟩, fun hadmits => ?_⟩
    cases hid.symm.trans hadmits.id
  | none =>
    dsimp only
    rw [get_bind]
    cases htype : r.find? reg.type with
    | some holder =>
      refine Or.inl ⟨⟨_, rfl⟩, fun hadmits => ?_⟩
      cases htype.symm.trans hadmits.type
    | none =>
      refine Or.inr ⟨?_, htype, hid⟩
      show EStateM.Result.ok () (r.insert reg) = _
      rw [insert, Registration.enter_of_new (find?_eq_none_iff.1 htype),
        Registration.enter_of_new (findId?_eq_none_iff.1 hid)]

theorem register_eq_ok {reg : Registration} {r' : Registry} (h : r.register reg = .ok r') :
    r' = ⟨r.registrations ++ [reg], r.byId ++ [reg]⟩ ∧
      (∀ reg' ∈ r.registrations, reg'.type ≠ reg.type) ∧
      ∀ reg' ∈ r.byId, reg'.id ≠ reg.id := by
  unfold register stateOf at h
  obtain ⟨⟨err, hadd⟩, -⟩ | ⟨hadd, htype, hid⟩ := add_cases r reg
  · rw [hadd] at h
    cases h
  · rw [hadd] at h
    cases h
    exact ⟨rfl, find?_eq_none_iff.1 htype, findId?_eq_none_iff.1 hid⟩

/-- What is new stands once. -/
theorem nodup_concat {α : Type} {key : Registration → α} {table : List Registration}
    (h : (table.map key).Nodup) {reg : Registration} (hnew : ∀ reg' ∈ table, key reg' ≠ key reg) :
    ((table ++ [reg]).map key).Nodup := by
  rw [List.map_append, List.nodup_append]
  refine ⟨h, by simp, ?_⟩
  rintro k hk k' hk' rfl
  obtain ⟨reg', hm, rfl⟩ := List.mem_map.1 hk
  exact hnew reg' hm (by simpa using hk')

/-- A registration that is accepted leaves the registry sound. -/
theorem Sound.register (hr : r.Sound) {reg : Registration} (hreg : reg.Standard) {r' : Registry}
    (h : r.register reg = .ok r') : r'.Sound := by
  obtain ⟨rfl, htype, hid⟩ := register_eq_ok h
  rw [hr.tables] at hid
  constructor
  · exact congrArg (· ++ [reg]) hr.tables
  · intro reg' hm
    rw [List.mem_append, List.mem_singleton] at hm
    rcases hm with hm | rfl
    · exact hr.standard reg' hm
    · exact hreg
  · exact nodup_concat hr.types htype
  · exact nodup_concat hr.ids hid

end Registry

/-- The engines that an application assembles: the built-in types and containers
    of its own, registered with or without classes for their sides. -/
inductive Engine.Assembled : Engine → Prop
  | start (config : Config) : Assembled { config }
  | registerMap {e e' : Engine} {id : Nat} {type : ContainerType} : Assembled e →
      id + 1 < 2 ^ 32 → e.registerMap id type = .ok e' → Assembled e'
  | registerMapWith {e e' : Engine} {id : Nat} {type : ContainerType} {b : MapBinding} :
      Assembled e → id + 1 < 2 ^ 32 → b.OfClasses → e.registerMapWith id type b = .ok e' →
      Assembled e'

namespace Engine

/-- What an application adds is refused and nothing is changed, or its id is not kept for the
    built-in types and the registry admits it. -/
theorem add_cases (e : Engine) (reg : Registration) :
    (∃ err, add reg e = .error err e) ∧
        ¬(Registry.firstFreeId ≤ reg.id ∧ e.registry.Admits reg) ∨
      ∃ r, add reg e = .ok () { e with registry := r } ∧ Registry.add reg e.registry = .ok () r ∧
        Registry.firstFreeId ≤ reg.id ∧ e.registry.Admits reg := by
  unfold add
  by_cases hid : reg.id < Registry.firstFreeId
  · rw [if_pos hid]
    exact Or.inl ⟨⟨_, rfl⟩, fun hfree => Nat.not_le_of_lt hid hfree.1⟩
  · rw [if_neg hid]
    unfold addAny
    dsimp only
    obtain ⟨⟨err, hadd⟩, hrefused⟩ | ⟨hadd, hadmits⟩ := Registry.add_cases e.registry reg
    · rw [hadd]
      exact Or.inl ⟨⟨err, rfl⟩, fun hfree => hrefused hfree.2⟩
    · rw [hadd]
      exact Or.inr ⟨_, rfl, rfl, Nat.le_of_not_lt hid, hadmits⟩

theorem registry_of_register {e e' : Engine} {reg : Registration} (h : e.register reg = .ok e') :
    e.registry.register reg = .ok e'.registry := by
  unfold register stateOf at h
  unfold Registry.register stateOf
  obtain ⟨⟨err, hadd⟩, -⟩ | ⟨r, hadd, hr, -⟩ := add_cases e reg
  · rw [hadd] at h
    cases h
  · rw [hadd] at h
    cases h
    rw [hr]

theorem Assembled.sound {e : Engine} (h : e.Assembled) : e.registry.Sound := by
  induction h with
  | start config => exact Registry.sound_builtins
  | registerMap _ hid h ih => exact ih.register (.container _ hid) (registry_of_register h)
  | registerMapWith _ hid hb h ih => exact ih.register (.bound _ hid hb) (registry_of_register h)

end Engine

/-! ## Finding registrations -/

namespace Registry

variable {r : Registry}

theorem type_of_find? {type : ObjectType} {reg : Registration} (h : r.find? type = some reg) :
    reg.type = type := by
  simpa using List.find?_some h

theorem mem_of_find? {type : ObjectType} {reg : Registration} (h : r.find? type = some reg) :
    reg ∈ r.registrations :=
  List.mem_of_find?_eq_some h

/-- What stands once is found by its key. -/
theorem find?_of_nodup {κ : Type} [BEq κ] [LawfulBEq κ] {key : Registration → κ}
    {table : List Registration} (hn : (table.map key).Nodup) {reg : Registration}
    (h : reg ∈ table) : table.find? (key · == key reg) = some reg := by
  induction table with
  | nil => cases h
  | cons reg' table ih =>
    rw [List.map_cons, List.nodup_cons] at hn
    rcases List.mem_cons.1 h with rfl | h
    · simp
    · have hne : key reg' ≠ key reg := fun he => hn.1 (he ▸ List.mem_map_of_mem h)
      simp [hne, ih hn.2 h]

theorem Sound.find?_of_mem (hr : r.Sound) {reg : Registration} (h : reg ∈ r.registrations) :
    r.find? reg.type = some reg :=
  find?_of_nodup hr.types h

theorem Sound.findId?_of_mem (hr : r.Sound) {reg : Registration} (h : reg ∈ r.registrations) :
    r.findId? reg.id = some reg := by
  unfold findId?
  rw [hr.tables]
  exact find?_of_nodup hr.ids h

/-- What is found stays found when another type is added. -/
theorem find?_of_register {reg : Registration} {r' : Registry} (h : r.register reg = .ok r')
    {type : ObjectType} {reg' : Registration} (hfind : r.find? type = some reg') :
    r'.find? type = some reg' := by
  obtain ⟨rfl, -⟩ := register_eq_ok h
  unfold find? at hfind ⊢
  rw [List.find?_append, hfind, Option.some_or]

theorem classOf_eq_ok {type : ObjectType} {c : ClassInfo} :
    r.classOf type = .ok c ↔ ∃ reg, r.find? type = some reg ∧ reg.toClassInfo = c := by
  unfold classOf
  cases r.find? type <;> simp

theorem classOfObject_eq_ok {type : ObjectType} {c : ClassInfo} :
    r.classOfObject type = .ok c ↔ ∃ reg, r.find? type = some reg ∧ reg.toClassInfo = c := by
  unfold classOfObject
  cases r.find? type <;> simp

theorem classOfId_eq_ok {id : Nat} {c : ClassInfo} :
    r.classOfId id = .ok c ↔ ∃ reg, r.findId? id = some reg ∧ reg.toClassInfo = c := by
  unfold classOfId
  cases r.findId? id <;> simp

theorem id_of_classOfId {id : Nat} {c : ClassInfo} (h : r.classOfId id = .ok c) : c.id = id := by
  obtain ⟨reg, hreg, rfl⟩ := classOfId_eq_ok.1 h
  simpa using List.find?_some hreg

/-! ## Classes and their serializers -/

/-- The class and the serializer that a type has in a registry.  Those of the
    sides of a container are those that its binding names. -/
inductive Gives (r : Registry) : ClassInfo → Serializer → Prop
  | leaf {type : LeafType} {reg : Registration} : r.find? (.leaf type) = some reg →
      Gives r reg.toClassInfo (.leaf type)
  | map {type : ContainerType} {reg : Registration}
      {key value : Option (ClassInfo × Serializer)} : r.find? (.container type) = some reg →
      reg.binding.key.type = key.map (·.1.type) → reg.binding.value.type = value.map (·.1.type) →
      (∀ c s, key = some (c, s) → Gives r c s) → (∀ c s, value = some (c, s) → Gives r c s) →
      Gives r reg.toClassInfo (.map (reg.binding.key.setup key) (reg.binding.value.setup value) none)

theorem Gives.classOf {c : ClassInfo} {s : Serializer} (h : r.Gives c s) :
    ∃ reg, r.find? c.type = some reg ∧ reg.toClassInfo = c := by
  cases h with
  | leaf h => exact ⟨_, by rw [type_of_find? h, h], rfl⟩
  | map h => exact ⟨_, by rw [type_of_find? h, h], rfl⟩

theorem Gives.classOfObject {c : ClassInfo} {s : Serializer} (h : r.Gives c s) :
    r.classOfObject c.type = .ok c :=
  classOfObject_eq_ok.2 h.classOf

/-- The serializer of a container knows the classes that its binding names. -/
theorem Gives.of_container {type : ContainerType} {reg : Registration} {s : Serializer}
    (hreg : r.find? (.container type) = some reg) (h : r.Gives reg.toClassInfo s) :
    ∃ key value : Option (ClassInfo × Serializer),
      s = .map (reg.binding.key.setup key) (reg.binding.value.setup value) none ∧
        reg.binding.key.type = key.map (·.1.type) ∧ reg.binding.value.type = value.map (·.1.type) ∧
          (∀ c s, key = some (c, s) → r.Gives c s) ∧ ∀ c s, value = some (c, s) → r.Gives c s := by
  generalize hc : reg.toClassInfo = c at h
  have ht : c.type = .container type := hc ▸ type_of_find? hreg
  cases h with
  | leaf hleaf => cases (type_of_find? hleaf).symm.trans ht
  | @map _ _ key value hmap hkt hvt hk hv =>
    cases (type_of_find? hmap).symm.trans ht
    cases hreg.symm.trans hmap
    exact ⟨key, value, rfl, hkt, hvt, hk, hv⟩

/-! ## What classes are like -/

/-- Whether what a side is known by is a class with its serializer. -/
def SideGives (r : Registry) (side : SideSetup Serializer) : Prop :=
  ∀ c s, side.cls = some c → side.serializer = some s → r.Gives c s

theorem Sound.of_find? (hr : r.Sound) {type : ObjectType} {reg : Registration}
    (h : r.find? type = some reg) : reg.Standard :=
  hr.standard reg (mem_of_find? h)

/-- A class is one of leaves, which are not tracked, or one of containers, which
    are. -/
inductive Shape (r : Registry) (c : ClassInfo) (s : Serializer) : Prop
  | leaf {type : LeafType} : c.type = .leaf type → s = .leaf type → c.tracked = false →
      Shape r c s
  | map {type : ContainerType} {key value : SideSetup Serializer} : c.type = .container type →
      s = .map key value none → c.tracked = true → c.factory = some type → r.SideGives key →
      r.SideGives value → Shape r c s

theorem sideGives_setup {b : SideBinding} {target : Option (ClassInfo × Serializer)}
    (ht : ∀ c s, target = some (c, s) → r.Gives c s) : r.SideGives (b.setup target) := by
  intro c s hc hs
  cases target with
  | none => cases hc
  | some t =>
    cases hc
    cases hs
    exact ht _ _ rfl

theorem Sound.shape (hr : r.Sound) {c : ClassInfo} {s : Serializer} (h : r.Gives c s) :
    r.Shape c s := by
  cases h with
  | leaf h =>
    have ht := type_of_find? h
    have hst := hr.of_find? h
    cases hst with
    | leaf => exact .leaf ht rfl rfl
    | container => cases ht
    | bound => cases ht
  | map h _ _ hk hv =>
    have ht := type_of_find? h
    have hst := hr.of_find? h
    cases hst with
    | leaf => cases ht
    | container =>
      cases ht
      exact .map rfl rfl rfl rfl (sideGives_setup hk) (sideGives_setup hv)
    | bound =>
      cases ht
      exact .map rfl rfl rfl rfl (sideGives_setup hk) (sideGives_setup hv)

theorem Sound.containerType_eq_ok (hr : r.Sound) {c : ClassInfo} {s : Serializer}
    (hc : r.Gives c s) {type : ContainerType} (ht : c.type = .container type) :
    c.containerType none = .ok type := by
  cases hr.shape hc with
  | leaf hleaf => cases ht.symm.trans hleaf
  | map hmap _ _ hfac =>
    cases ht.symm.trans hmap
    unfold ClassInfo.containerType
    rw [hfac]
    rfl

end Registry

end GraphWire
