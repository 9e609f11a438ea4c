/-
  The objects written so far.

  An object is numbered when it is first written; what is written for it later
  is its number.
-/
import GraphWire.Bytes.Output
import GraphWire.Graph.Table
import GraphWire.Reference.Marker

namespace GraphWire

/-- The objects written so far, the `i`-th first. -/
structure Written where
  objects : List ObjId
  deriving DecidableEq, Repr

namespace Written

/-- Nothing is written yet. -/
def empty : Written := ⟨[]⟩

/-- Forgets all objects. -/
def clear (_ : Written) : Written := empty

/-- How many objects are written. -/
def length (w : Written) : Nat := w.objects.length

/-- The number of an object, if it is written. -/
def number? (w : Written) (o : ObjId) : Option Nat := w.objects.idxOf? o

/-- What stands before an object: its number after a marker if it was written
    before, or a marker only. -/
def announcement : Option Nat → List Item
  | some id => [.i8 Marker.back.code, .var .u32 (BitVec.ofNat _ id)]
  | none => [.i8 Marker.fresh.code]

/-- Writes what stands before an object and numbers it if it is new; whether it
    was written before, so that nothing more is to be written. -/
def announce (w : Written) (out : Output) (o : ObjId) : Bool × Written × Output :=
  let id := w.number? o
  (id.isSome, if id.isSome then w else ⟨w.objects ++ [o]⟩, (announcement id).foldl Output.put out)

end Written

end GraphWire
