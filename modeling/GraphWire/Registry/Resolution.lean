/-
  Building serializers.

  A serializer that is built when it is first asked for may need those of other
  types, which are then built on the way.  While it is being built its
  registration is marked, so that one that needs itself is found out; when it is
  built it is kept.

  * `Registry.demand` asks for the serializer of a type and keeps what was
    built; the marks are gone when it ends, on failure too;
  * `Registry.serializer` is what is asked for, without the change.
-/
import GraphWire.Registry.Basic

namespace GraphWire

/-- Computations that build serializers. -/
abbrev Resolving (α : Type) := EStateM Error Registry α

namespace Registry

/-- Changes the registration of a type in both tables. -/
def update (r : Registry) (type : ObjectType) (change : Registration → Registration) :
    Registry where
  registrations := r.registrations.map fun reg => if reg.type == type then change reg else reg
  byId := r.byId.map fun reg => if reg.type == type then change reg else reg

/-- Marks a type as being built or not. -/
def mark (building : Bool) (type : ObjectType) (r : Registry) : Registry :=
  r.update type fun reg => { reg with building }

/-- Keeps the serializer that was built for a type. -/
def keep (serializer : Serializer) (type : ObjectType) (r : Registry) : Registry :=
  r.update type fun reg => { reg with built := some serializer }

/-- What is known of a side, given how the serializers of other types come
    about.  A class without a serializer has the one it is registered with. -/
def bindSide (demand : ObjectType → Resolving Serializer) (side : Side) (b : SideBinding) :
    Resolving (SideSetup Serializer) :=
  match b.type, b.serializer with
  | none, none => return { nullable := b.nullable }
  | none, some _ => throw (.classMissing side)
  | some type, given => do
    let cls ← attempt ((← get).classOf type)
    let serializer ←
      match given with
      | some serializer => pure serializer
      | none => demand type
    return { cls := some cls, serializer := some serializer, nullable := b.nullable }

/-- Builds a serializer, given how those of other types come about. -/
def build (demand : ObjectType → Resolving Serializer) : Recipe → Resolving Serializer
  | .ready serializer => pure serializer
  | .failing e => throw e
  | .binding b => do
    let key ← bindSide demand .key b.key
    let value ← bindSide demand .value b.value
    return .map key value none

/-- Asks for the serializer of a type, building at most `depth` of them inside
    one another. -/
def demandWithin : (depth : Nat) → ObjectType → Resolving Serializer
  | 0, type => throw (.selfDependent type)
  | depth + 1, type => do
    match (← get).find? type with
    | none => throw (.unregisteredType type)
    | some reg =>
      match reg.built, reg.recipe with
      | some serializer, _ | none, .ready serializer => pure serializer
      | none, recipe =>
        if reg.building then throw (.selfDependent type)
        else do
          modify (mark true type)
          let serializer ← leaving (mark false type) (build (demandWithin depth) recipe)
          modify (keep serializer type)
          pure serializer

/-- Asks for the serializer of a type.  Every one that is built inside another
    has a mark of its own, so there are no more of them than registrations. -/
def demand (type : ObjectType) : Resolving Serializer := fun r =>
  demandWithin (r.registrations.length + 1) type r

/-- The serializer of a type. -/
def serializer (r : Registry) (type : ObjectType) : Except Error Serializer :=
  resultOf (demand type) r

/-- The serializer that is kept for a type, so that asking for it again gives
    the same one. -/
def kept? (r : Registry) (type : ObjectType) : Option Serializer :=
  (r.find? type).bind fun reg =>
    match reg.built, reg.recipe with
    | some serializer, _ | none, .ready serializer => some serializer
    | none, _ => none

end Registry

end GraphWire
