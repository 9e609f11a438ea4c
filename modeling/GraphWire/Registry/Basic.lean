/-
  The registry: the types that there are serializers for.

  A registration gives a type an id and says how its serializer comes about: it
  is ready, or it is built when it is first asked for.  It is entered into two
  tables, one by type and one by id.  Types and ids are each registered once.

  * `Registry.add` adds a registration or refuses it, and `Registry.register`
    is the registry in which it was added;
  * `Registry.builtins` is the registry that every engine begins with.
-/
import GraphWire.Computation
import GraphWire.Registry.Serializer

namespace GraphWire

/-- How the serializer of a type comes about. -/
inductive Recipe where
  | ready (serializer : Serializer)
  /-- A serializer of containers, built when all that it names is known. -/
  | binding (binding : MapBinding)
  /-- No serializer can be built. -/
  | failing (error : Error)

/-- The registration of a type. -/
structure Registration extends ClassInfo where
  recipe : Recipe
  /-- The serializer that was built. -/
  built : Option Serializer := none
  /-- Whether the serializer is being built. -/
  building : Bool := false

namespace Registration

/-- The registration of a type of leaves: final and not tracked. -/
def ofLeaf (type : LeafType) (id : Nat) : Registration :=
  { id, type := .leaf type, isFinal := true, tracked := false, recipe := .ready (.leaf type) }

/-- The registration of a type of containers of which nothing more is said. -/
def ofContainer (type : ContainerType) (id : Nat) : Registration :=
  { id, type := .container type, factory := some type, recipe := .ready .plainMap }

/-- The registration of a type of containers with what is said of their entries. -/
def ofBinding (type : ContainerType) (id : Nat) (binding : MapBinding) : Registration :=
  { ofContainer type id with recipe := .binding binding }

/-- The registration of a final, tracked type with its serializer. -/
def ofSerializer (type : ObjectType) (id : Nat) (serializer : Serializer) : Registration :=
  { id, type, isFinal := true, recipe := .ready serializer }

section
variable {κ : Type} [BEq κ] (key : Registration → κ)

/-- Enters a registration into a table by its key, in place of one that has the
    same key. -/
def enter (reg : Registration) : List Registration → List Registration
  | [] => [reg]
  | reg' :: table => if key reg' == key reg then reg :: table else reg' :: enter reg table

end

end Registration

/-- The types that there are serializers for.  Their registrations stand in two
    tables, both in the order of registration. -/
structure Registry where
  /-- The table by type. -/
  registrations : List Registration
  /-- The table by id. -/
  byId : List Registration

namespace Registry

/-- No types. -/
def empty : Registry := ⟨[], []⟩

/-- The registration of a type. -/
def find? (r : Registry) (type : ObjectType) : Option Registration :=
  r.registrations.find? (·.type == type)

/-- The registration with an id. -/
def findId? (r : Registry) (id : Nat) : Option Registration :=
  r.byId.find? (·.id == id)

/-- The class of a type that a declaration names. -/
def classOf (r : Registry) (type : ObjectType) : Except Error ClassInfo :=
  match r.find? type with
  | some reg => .ok reg.toClassInfo
  | none => .error (.unregisteredType type)

/-- The class of an object of the type. -/
def classOfObject (r : Registry) (type : ObjectType) : Except Error ClassInfo :=
  match r.find? type with
  | some reg => .ok reg.toClassInfo
  | none => .error (.unregisteredObject type)

/-- The class with an id. -/
def classOfId (r : Registry) (id : Nat) : Except Error ClassInfo :=
  match r.findId? id with
  | some reg => .ok reg.toClassInfo
  | none => .error (.unregisteredId id)

/-- Whether a type is registered as final. -/
def isFinal (r : Registry) (type : ObjectType) : Bool :=
  match r.find? type with
  | some reg => reg.isFinal
  | none => false

/-- Enters a registration into both tables, whatever they hold. -/
def insert (r : Registry) (reg : Registration) : Registry where
  registrations := reg.enter (·.type) r.registrations
  byId := reg.enter (·.id) r.byId

/-- Adds a registration; its id and its type must be new. -/
def add (reg : Registration) : EStateM Error Registry Unit := do
  match (← get).findId? reg.id with
  | some holder => throw (.takenId reg.id reg.type holder.type)
  | none =>
    if ((← get).find? reg.type).isSome then throw (.takenType reg.type)
    else modify (·.insert reg)

/-- The registry in which a registration was added. -/
def register (r : Registry) (reg : Registration) : Except Error Registry := stateOf (add reg) r

/-- The first id that is not kept for the built-in types. -/
def firstFreeId : Nat := 32

/-- The registry that every engine begins with: the leaves and the two built-in
    types of containers, under the ids from 1 on. -/
def builtins : Registry :=
  ((LeafType.all.map Registration.ofLeaf ++
      [Registration.ofContainer .hash, Registration.ofContainer .linked]).mapIdx
    fun i registration => registration (i + 1)).foldl insert empty

end Registry

end GraphWire
