/-
  Walks: the objects that can be reached from a value.

  A walk goes to an object, then to its parts one after the other, and passes by
  what it has met already.  On the way down it meets a new object at each step,
  so it never has to go deeper than there are objects.

  `Heap.walk` are the objects met, `Heap.walkBy` those of a walk that takes the
  parts in an order of its own.
-/
import GraphWire.Graph.Heap

namespace GraphWire

/-- The parts of an object: the keys and the values of a container, the fields
    of a record. -/
def Node.parts : Node → List Value
  | leaf _ | octet _ => []
  | container c => c.entries.flatMap fun (k, v) => [k, v]
  | record fields => fields

namespace Heap

variable (parts : ObjId → List Value)

/-- What is met when a walk that has met some objects goes on to a value, at most
    so many objects deep. -/
def visit : (depth : Nat) → (met : List ObjId) → Value → List ObjId
  | _, met, none | 0, met, some _ => met
  | depth + 1, met, some o =>
    if met.contains o then met else (parts o).foldl (visit depth) (met ++ [o])

/-- The objects that can be reached from a value, in the order in which a walk
    meets them that takes the parts of every object in the given order. -/
def walkBy (h : Heap) (v : Value) : List ObjId := visit parts h.size [] v

/-- The objects that can be reached from a value. -/
def walk (h : Heap) (v : Value) : List ObjId := h.walkBy (fun o => (h.node o).parts) v

end Heap

end GraphWire
