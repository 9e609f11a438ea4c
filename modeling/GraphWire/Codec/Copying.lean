/-
  Copying a graph.

  Every object is copied once: what is met again, or from inside itself, is the
  copy that there is.  An object is bound to its copy before its parts are
  copied.  Leaves have no parts that could change and are their own copies.

  * `Copying.value` copies a value, `Copying.object` an object;
  * the functions of the first section are given how a nested object is copied;
    `Copying.data` ties the knot, as deep as the limit allows.
-/
import GraphWire.Codec.Building
import GraphWire.Engine.Basic
import GraphWire.Generics.Scope
import GraphWire.Reference.Copies

namespace GraphWire

/-- The state of a copying. -/
structure CopyState where
  heap : Heap
  copies : Copies
  /-- Copies are made without declarations, so there are no frames. -/
  scope : Scope

instance : Scoped CopyState where
  scope s := s.scope
  setScope s scope := { s with scope }

instance : Building CopyState where
  heap s := s.heap
  setHeap s heap := { s with heap }
  waiting s := s.copies.waiting
  bind o s := { s with copies := s.copies.bind o }

/-- Computations that copy. -/
abbrev Copying (α : Type) := EStateM Error CopyState α

/-- The state in which a copying begins. -/
def CopyState.start (heap : Heap) : CopyState := ⟨heap, .empty, .start⟩

namespace Copying

/-- Begins to copy an object. -/
def expect (o : ObjId) : Copying Unit := modify fun s => { s with copies := s.copies.expect o }

variable (e : Engine)

/-! ## One level -/

section
variable (nested : ObjId → Serializer → Copying ObjId)

/-- Copies an object that is not copied yet, or finds its copy. -/
def objectVia (o : ObjId) : Copying ObjId := do
  match (← get).copies.get? o with
  | some copy => return copy
  | none =>
    let c ← attempt (e.registry.classOfObject ((← get).heap.typeOf o))
    let serializer ← attempt (e.registry.serializer c.type)
    nested o serializer

/-- Copies a value. -/
def valueVia : Value → Copying Value
  | none => return none
  | some o => some <$> objectVia e nested o

/-- Copies entries into a container. -/
def entriesVia (copy : ObjId) : List Entry → Copying Unit
  | [] => pure ()
  | (k, v) :: entries => do
    let k ← valueVia e nested k
    let v ← valueVia e nested v
    insertEntry copy k v
    entriesVia copy entries

/-- Copies the entries that a container has into a new one. -/
def mapVia (factory : Option ContainerType) (o : ObjId) : Copying ObjId := do
  let h := (← get).heap
  match h.container? o with
  | none => throw (.notContainer (h.typeOf o))
  | some container =>
    let c ← attempt (e.registry.classOfObject (h.typeOf o))
    let copy ← newContainer c factory
    bindObject copy
    entriesVia e nested copy container.entries
    return copy

/-- Copies fields into a record. -/
def fieldsVia (copy : ObjId) : List Value → Copying Unit
  | [] => pure ()
  | v :: vs => do
    addField copy (← valueVia e nested v)
    fieldsVia copy vs

/-- Copies an object as a serializer copies it. -/
def bodyVia (o : ObjId) : Serializer → Copying ObjId
  | .leaf _ | .octet => return o
  | .record _ binds => do
    let h := (← get).heap
    match h.fields? o with
    | none => throw (.typeMismatch .record (h.typeOf o))
    | some fields =>
      let copy ← newObject (.record [])
      bindTimes binds copy
      fieldsVia e nested copy fields
      return copy
  | .map _ _ factory => mapVia e nested factory o

end

/-! ## All levels -/

/-- Copies an object one level deeper, where at most so many levels are left. -/
def data : (levels : Nat) → ObjId → Serializer → Copying ObjId
  | 0, _, _ => tooDeep e.config.maxDepth
  | levels + 1, o, serializer =>
    descend e.config.maxDepth do
      expect o
      completing (bodyVia e (data levels) o serializer)

/-- Gives a computation how nested objects are copied from here on. -/
def withNested {α : Type} (x : (ObjId → Serializer → Copying ObjId) → Copying α) : Copying α :=
  fun s => x (data e (e.config.maxDepth - s.scope.depth)) s

/-- Copies an object, unless there is a copy of it. -/
def object (o : ObjId) : Copying ObjId := withNested e fun nested => objectVia e nested o

/-- Copies a value. -/
def value (v : Value) : Copying Value := withNested e fun nested => valueVia e nested v

end Copying

end GraphWire
