/-
  Computations that build objects.

  Reading and copying add objects to a heap and bind them: what is being built
  waits until there is an object to bind it to, the innermost first.  What
  builds a container binds it before its entries are there, so that they can
  lead back to it; `completing` binds whatever was not bound on the way.
-/
import GraphWire.Computation
import GraphWire.Graph.Equality
import GraphWire.Registry.Serializer

namespace GraphWire

/-- States of computations that build objects. -/
class Building (σ : Type) where
  heap : σ → Heap
  setHeap : σ → Heap → σ
  /-- How many objects are being built. -/
  waiting : σ → Nat
  /-- Binds an object to the innermost of those being built. -/
  bind : ObjId → σ → σ

variable {σ : Type} [Building σ]

/-- Adds an object. -/
def newObject (n : Node) : EStateM Error σ ObjId := modifyGet fun s =>
  let (o, heap) := (Building.heap s).alloc n
  (o, Building.setHeap s heap)

/-- Adds an empty container for a class, which a serializer may make from
    another than the class does. -/
def newContainer (c : ClassInfo) (factory : Option ContainerType) : EStateM Error σ ObjId := do
  newObject (.container (.empty (← attempt (c.containerType factory))))

/-- Maps a key to a value in a container. -/
def insertEntry (o : ObjId) (k v : Value) : EStateM Error σ Unit :=
  modify fun s => Building.setHeap s ((Building.heap s).insert o k v).2

/-- Gives a record one more field. -/
def addField (o : ObjId) (v : Value) : EStateM Error σ Unit :=
  modify fun s => Building.setHeap s ((Building.heap s).addField o v)

/-- Binds an object to the innermost of those being built. -/
def bindObject (o : ObjId) : EStateM Error σ Unit := modify (Building.bind o)

/-- Binds an object to so many of those being built, the innermost first. -/
def bindTimes : (n : Nat) → ObjId → EStateM Error σ Unit
  | 0, _ => pure ()
  | n + 1, o => do
    bindObject o
    bindTimes n o

/-- Binds what a computation builds, unless it is no longer waited for. -/
def completing (x : EStateM Error σ ObjId) : EStateM Error σ ObjId := do
  let before := Building.waiting (← get)
  let o ← x
  if Building.waiting (← get) = before then bindObject o
  return o

end GraphWire
