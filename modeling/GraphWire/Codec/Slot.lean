/-
  Slots: how one side of the entries is encoded.

  A side whose class and serializer are known is written through them; so is one
  whose declared type stands for a final type.  Any other side is written with
  the type of each object.
-/
import GraphWire.Engine.Basic
import GraphWire.Generics.Frames
import GraphWire.Graph.Table

namespace GraphWire

/-- How one side of the entries is encoded. -/
structure Slot where
  /-- The class of all objects on the side and the serializer for them. -/
  target : Option (ClassInfo × Serializer)
  nullable : Bool
  side : Side

namespace Slot

/-- How a side is encoded, where the declaration around it may say what stands
    on it. -/
def resolve (r : Registry) (frames : Frames) (declared : Option Declared) (side : Side)
    (setup : SideSetup Serializer) : Except Error Slot :=
  match setup.cls, setup.serializer with
  | some cls, some serializer => .ok ⟨some (cls, serializer), setup.nullable, side⟩
  | _, _ =>
    match (declared.bind frames.resolve).filter r.isFinal with
    | none => .ok ⟨none, setup.nullable, side⟩
    | some type => do
      let cls ← r.classOf type
      let serializer ← r.serializer type
      return ⟨some (cls, serializer), setup.nullable, side⟩

/-- Refuses null on a side that is never null. -/
def check (s : Slot) (v : Value) : Except Error Unit :=
  ensure (v.isSome || s.nullable) (.nullEntry s.side)

end Slot

/-- How both sides of the entries are encoded, and the declared type of the
    keys, given the arguments of the declaration around them. -/
def resolveSlots (r : Registry) (frames : Frames) (args : List Declared)
    (key value : SideSetup Serializer) : Except Error (Slot × Slot × Declared) := do
  let keySlot ← Slot.resolve r frames args[0]? .key key
  let valueSlot ← Slot.resolve r frames args[1]? .value value
  return (keySlot, valueSlot, args[0]?.getD .unknown)

end GraphWire
