/-
  Engines: what all operations of one kind share.

  An engine has a configuration and a registry, which begins with the built-in
  types.  An application adds types of its own under ids from
  `Registry.firstFreeId` on.
-/
import GraphWire.Registry.Resolution

namespace GraphWire

/-- The configuration of an engine. -/
structure Config where
  /-- Whether shared objects and cycles keep their shape. -/
  trackRef : Bool := false
  /-- Whether numbers are laid out at full width. -/
  native : Bool := false
  /-- How deep objects may nest. -/
  maxDepth : Nat := 128
  /-- The capacity of the buffer of an input with a source. -/
  bufferSize : Nat := 4096
  deriving DecidableEq, Repr

/-- A configuration and the types that there are serializers for. -/
structure Engine where
  config : Config := {}
  registry : Registry := .builtins

namespace Engine

/-- Whether the identity of the objects of a class is kept. -/
def tracks (e : Engine) (c : ClassInfo) : Bool := e.config.trackRef && c.tracked

theorem tracks_congr {e e' : Engine} (hconfig : e'.config = e.config) (c : ClassInfo) :
    e'.tracks c = e.tracks c := by
  unfold tracks
  rw [hconfig]

/-! ## Adding types -/

/-- Adds a registration to the registry as it is. -/
def addAny (reg : Registration) : EStateM Error Engine Unit := fun e =>
  match Registry.add reg e.registry with
  | .ok _ registry => .ok () { e with registry }
  | .error err registry => .error err { e with registry }

/-- Adds a registration of an application. -/
def add (reg : Registration) : EStateM Error Engine Unit := do
  if reg.id < Registry.firstFreeId then
    throw (.reservedId reg.id reg.type Registry.firstFreeId)
  addAny reg

/-- Adds a final, tracked type with its serializer. -/
def addSerializer (id : Nat) (type : ObjectType) (serializer : Serializer) :
    EStateM Error Engine Unit :=
  add (.ofSerializer type id serializer)

/-- Adds a type of container that knows nothing of its entries. -/
def addMap (id : Nat) (type : ContainerType) : EStateM Error Engine Unit :=
  add (.ofContainer type id)

/-- Adds a type of container with what is said of its entries. -/
def addMapWith (id : Nat) (type : ContainerType) (binding : MapBinding) :
    EStateM Error Engine Unit :=
  add (.ofBinding type id binding)

/-! ## Engines with the types added -/

/-- The engine to whose registry a registration was added as it is. -/
def registerAny (e : Engine) (reg : Registration) : Except Error Engine := stateOf (addAny reg) e

/-- The engine to which a registration was added. -/
def register (e : Engine) (reg : Registration) : Except Error Engine := stateOf (add reg) e

/-- The engine to which a type with its serializer was added. -/
def registerSerializer (e : Engine) (id : Nat) (type : ObjectType) (serializer : Serializer) :
    Except Error Engine :=
  stateOf (addSerializer id type serializer) e

/-- The engine to which a type of container was added. -/
def registerMap (e : Engine) (id : Nat) (type : ContainerType) : Except Error Engine :=
  stateOf (addMap id type) e

/-- The engine to which a type of container was added with what is said of its
    entries. -/
def registerMapWith (e : Engine) (id : Nat) (type : ContainerType) (binding : MapBinding) :
    Except Error Engine :=
  stateOf (addMapWith id type binding) e

end Engine

end GraphWire
