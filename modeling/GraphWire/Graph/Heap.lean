/-
  Heaps: the objects there are.

  An object is what its name stands for in the heap.  Objects are added and
  changed but never removed, so a name once given keeps standing for its object.
-/
import GraphWire.Graph.Container
import GraphWire.Graph.Leaf

namespace GraphWire

/-- An object. -/
inductive Node where
  | leaf (v : Leaf)
  | octet (v : BitVec 8)
  | container (c : Container)
  | record (fields : List Value)
  deriving DecidableEq, Repr

/-- The type of an object. -/
def Node.type : Node → ObjectType
  | leaf v => .leaf v.type
  | octet _ => .octet
  | container c => .container c.type
  | record _ => .record

/-- The objects there are; the `i`-th is named `i`. -/
structure Heap where
  nodes : Array Node
  deriving DecidableEq, Repr

namespace Heap

/-- The heap without objects. -/
def empty : Heap := ⟨#[]⟩

/-- How many objects there are. -/
def size (h : Heap) : Nat := h.nodes.size

/-- The object of a name.  A name without an object is taken for a leaf. -/
def node (h : Heap) (o : ObjId) : Node := h.nodes.getD o (.leaf (.bool false))

/-- The type of an object. -/
def typeOf (h : Heap) (o : ObjId) : ObjectType := (h.node o).type

/-- A new object and the heap with it. -/
def alloc (h : Heap) (n : Node) : ObjId × Heap := (h.size, ⟨h.nodes.push n⟩)

/-- Another state of an object. -/
def set (h : Heap) (o : ObjId) (n : Node) : Heap := ⟨h.nodes.setIfInBounds o n⟩

/-- The container of a name, if it is one. -/
def container? (h : Heap) (o : ObjId) : Option Container :=
  match h.node o with
  | .container c => some c
  | _ => none

/-- The fields of a record, if the name is of one. -/
def fields? (h : Heap) (o : ObjId) : Option (List Value) :=
  match h.node o with
  | .record fields => some fields
  | _ => none

/-- Gives a record one more field. -/
def addField (h : Heap) (o : ObjId) (v : Value) : Heap :=
  match h.node o with
  | .record fields => h.set o (.record (fields ++ [v]))
  | _ => h

/-- Changes a field of a record; nothing if there is no such field. -/
def setField? (h : Heap) (o : ObjId) (i : Nat) (v : Value) : Option Heap :=
  match h.node o with
  | .record fields => if i < fields.length then some (h.set o (.record (fields.set i v))) else none
  | _ => none

@[simp] theorem size_alloc (h : Heap) (n : Node) : (h.alloc n).2.size = h.size + 1 := by
  simp [alloc, size]

@[simp] theorem size_set (h : Heap) (o : ObjId) (n : Node) : (h.set o n).size = h.size := by
  simp [set, size]

@[simp] theorem node_alloc_new (h : Heap) (n : Node) : (h.alloc n).2.node h.size = n := by
  simp [alloc, node, size]

theorem node_alloc_of_lt {h : Heap} {o : ObjId} (n : Node) (ho : o < h.size) :
    (h.alloc n).2.node o = h.node o := by
  have ho' : o < h.nodes.size := ho
  simp [alloc, node, Array.getD_eq_getD_getElem?, Array.getElem?_push, Nat.ne_of_lt ho']

@[simp] theorem node_set_self {h : Heap} {o : ObjId} (n : Node) (ho : o < h.size) :
    (h.set o n).node o = n := by
  have ho' : o < h.nodes.size := ho
  simp [set, node, Array.getD_eq_getD_getElem?, ho']

theorem node_set_of_ne {h : Heap} {o p : ObjId} (n : Node) (hp : p ≠ o) :
    (h.set o n).node p = h.node p := by
  simp [set, node, Array.getD_eq_getD_getElem?, hp.symm]

end Heap

end GraphWire
