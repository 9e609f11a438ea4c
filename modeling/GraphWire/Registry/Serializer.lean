/-
  Serializers: how the objects of a type are written, read and copied.

  A serializer of containers may know the class of the keys, or of the values,
  and the serializer to use for them; a side without both is written with the
  type of each object.  A binding says the same by naming types, before all of
  them are known.
-/
import GraphWire.Error
import GraphWire.Generics.Declared

namespace GraphWire

/-- What is known of a type that is registered. -/
structure ClassInfo where
  id : Nat
  type : ObjectType
  /-- No other type stands behind a declaration of this one. -/
  isFinal : Bool := false
  /-- Whether the identity of the objects is kept when references are tracked. -/
  tracked : Bool := true
  /-- The container that an object of the type is made from. -/
  factory : Option ContainerType := none
  deriving DecidableEq, Repr

/-- A short text on a class, given what types are called. -/
def ClassInfo.describe (name : ObjectType → String) (c : ClassInfo) : String :=
  s!"TypeInfo \x7b id: {c.id}, name: \"{name c.type}\", is_final: {c.isFinal}, " ++
    s!"track_ref: {c.tracked} \x7d"

/-- The type of container that an object of a class is made from, where a
    serializer may name another. -/
def ClassInfo.containerType (c : ClassInfo) (factory : Option ContainerType) :
    Except Error ContainerType :=
  match factory <|> c.factory with
  | some type => .ok type
  | none => .error (.noFactory c.type)

/-- What is known of one side of the entries, given what a serializer is. -/
structure SideSetup (σ : Type) where
  cls : Option ClassInfo := none
  serializer : Option σ := none
  nullable : Bool := true

/-- How the objects of a type are written, read and copied. -/
inductive Serializer where
  | leaf (type : LeafType)
  | octet
  /-- Records of declared fields; a record that is read or copied is bound so
      many times. -/
  | record (fields : List Declared) (binds : Nat)
  /-- Containers, made from another container if one is given. -/
  | map (key value : SideSetup Serializer) (factory : Option ContainerType)
  deriving Inhabited

/-- The serializer of containers that knows nothing of their entries. -/
def Serializer.plainMap : Serializer := .map {} {} none

/-- Sets what is known of a side; a serializer needs a class. -/
def SideSetup.withClass {σ : Type} (s : SideSetup σ) (side : Side) (cls : Option ClassInfo)
    (serializer : Option σ) : Except Error (SideSetup σ) :=
  if cls.isNone && serializer.isSome then .error (.classMissing side)
  else .ok { s with cls, serializer }

/-- What is said of one side of the entries before all types are known. -/
structure SideBinding where
  type : Option ObjectType := none
  serializer : Option Serializer := none
  nullable : Bool := true

/-- What is said of the entries of a container type before all types are known. -/
structure MapBinding where
  key : SideBinding := {}
  value : SideBinding := {}

end GraphWire
