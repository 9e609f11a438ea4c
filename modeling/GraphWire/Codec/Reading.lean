/-
  Reading a graph.

  What `Writing` puts before an object says here what is to be done: the id of
  its type tells its class, a marker tells whether there is an object at all,
  whether it gets a number, or which object met earlier it is.  An object is
  bound to its number before its parts are read, so that they can refer to it.

  * `Reading.any` reads an object with its type, `Reading.nullable` and
    `Reading.object` one of a known class, and `Reading.declared` one that is
    declared;
  * the functions of the first section are given how a nested object is read;
    `Reading.data` ties the knot, as deep as the limit allows.
-/
import GraphWire.Bytes.Input
import GraphWire.Codec.Building
import GraphWire.Codec.Slot
import GraphWire.Generics.Scope
import GraphWire.Reference.Bindings

namespace GraphWire

/-- The state of a reading. -/
structure ReadState where
  input : Input
  heap : Heap
  bindings : Bindings
  scope : Scope
  /-- How many entries were put into containers so far, whether their keys were
      new or not. -/
  inserted : Nat

instance : Scoped ReadState where
  scope s := s.scope
  setScope s scope := { s with scope }

instance : Building ReadState where
  heap s := s.heap
  setHeap s heap := { s with heap }
  waiting s := s.bindings.waiting
  bind o s := { s with bindings := s.bindings.bind o }

/-- Computations that read. -/
abbrev Reading (α : Type) := EStateM Error ReadState α

/-- The state in which a reading of an input begins, with the objects there are
    already. -/
def ReadState.start (input : Input) (heap : Heap) : ReadState := ⟨input, heap, .empty, .start, 0⟩

namespace Reading

/-- Reads the input. -/
def scan {α : Type} (x : Scan α) : Reading α := fun s =>
  match x s.input with
  | .ok a input => .ok a { s with input }
  | .error e input => .error e { s with input }

/-- Reads the value of a leaf. -/
def leaf : LeafType → Scan Leaf
  | .bool => .bool <$> Input.bool
  | .i8 => .i8 <$> Input.octet
  | .i16 => .i16 <$> Input.scalar .i16
  | .i32 => .i32 <$> Input.var .i32
  | .i64 => .i64 <$> Input.var .i64
  | .f32 => .f32 <$> Input.scalar .f32
  | .f64 => .f64 <$> Input.scalar .f64
  | .string => .string <$> Input.string

/-- Reads a number that is an id or a count. -/
def count : Reading Nat := return (← scan (Input.var .u32)).toNat

/-- Reads a marker. -/
def marker : Reading Marker := do
  let code ← scan Input.octet
  match Marker.ofCode? code with
  | some m => pure m
  | none => throw (.unknownMarker code)

/-- Reads the number of an object met earlier; the object it is bound to. -/
def earlier : Reading ObjId := do
  let id ← count
  attempt ((← get).bindings.get id)

/-- Reserves the next number. -/
def reserve : Reading Nat := modifyGet fun s =>
  let (id, bindings) := s.bindings.reserve
  (id, { s with bindings })

/-- Begins to read an object with or without a number. -/
def expect (id : Option Nat) : Reading Unit :=
  modify fun s => { s with bindings := s.bindings.expect id }

/-- Puts an entry into a container. -/
def putEntry (o : ObjId) (k v : Value) : Reading Unit := do
  insertEntry o k v
  modify fun s => { s with inserted := s.inserted + 1 }

variable (e : Engine)

/-! ## One level -/

section
variable (nested : ClassInfo → Serializer → Option Nat → Reading ObjId)

/-- Reads a tracked object that is met for the first time. -/
def freshVia (c : ClassInfo) (serializer : Serializer) : Reading ObjId := do
  let id ← reserve
  nested c serializer (some id)

/-- Reads a value of a known class that may be null. -/
def nullableVia (c : ClassInfo) (serializer : Serializer) : Reading Value := do
  match ← marker with
  | .null => return none
  | .back => return some (← earlier)
  | .plain => return some (← nested c serializer none)
  | .fresh => return some (← freshVia nested c serializer)

/-- Reads an object of a known class. -/
def objectVia (c : ClassInfo) (serializer : Serializer) : Reading ObjId := do
  if e.tracks c then
    match ← marker with
    | .back => earlier
    | .fresh => freshVia nested c serializer
    | m => throw (.unexpectedMarker m c.type)
  else nested c serializer none

/-- Reads a value with the id of its type, 0 being that of null. -/
def anyVia : Reading Value := do
  let id ← count
  if id = 0 then return none
  else
    let c ← attempt (e.registry.classOfId (id - 1))
    let serializer ← attempt (e.registry.serializer c.type)
    return some (← objectVia e nested c serializer)

/-- Reads a value that is declared. -/
def declaredVia (ty : Declared) : Reading Value :=
  declaring ty
    (match ty.type?.filter e.registry.isFinal with
    | some type => do
      let c ← attempt (e.registry.classOf type)
      let serializer ← attempt (e.registry.serializer type)
      nullableVia nested c serializer
    | none => anyVia e nested)

/-- Reads a value on one side of an entry. -/
def sideVia (slot : Slot) : Reading Value :=
  match slot.target with
  | some (c, serializer) =>
    if slot.nullable then nullableVia nested c serializer
    else some <$> objectVia e nested c serializer
  | none => anyVia e nested

/-- Reads so many entries into a container; the key is read under the frame of
    its declaration. -/
def entriesVia (keySlot valueSlot : Slot) (keyType : Declared) (o : ObjId) : Nat → Reading Unit
  | 0 => pure ()
  | n + 1 => do
    let k ← declaring keyType (sideVia e nested keySlot)
    let v ← sideVia e nested valueSlot
    putEntry o k v
    entriesVia keySlot valueSlot keyType o n

/-- Reads a container: how many entries it has, then the entries. -/
def mapVia (c : ClassInfo) (key value : SideSetup Serializer) (factory : Option ContainerType) :
    Reading ObjId := do
  let o ← newContainer c factory
  let n ← count
  let args := (declaredArgs (← get)).getD []
  let (keySlot, valueSlot, keyType) ←
    attempt (resolveSlots e.registry (← get).scope.frames args key value)
  bindObject o
  entriesVia e nested keySlot valueSlot keyType o n
  modify popFrame
  return o

/-- Reads the declared fields of a record. -/
def fieldsVia (o : ObjId) : List Declared → Reading Unit
  | [] => pure ()
  | ty :: tys => do
    addField o (← declaredVia e nested ty)
    fieldsVia o tys

/-- Reads what a serializer reads of an object of a class. -/
def bodyVia (c : ClassInfo) : Serializer → Reading ObjId
  | .leaf type => do newObject (.leaf (← scan (leaf type)))
  | .octet => do newObject (.octet (← scan Input.octet))
  | .record fields binds => do
    let o ← newObject (.record [])
    bindTimes binds o
    fieldsVia e nested o fields
    return o
  | .map key value factory => mapVia e nested c key value factory

end

/-! ## All levels -/

/-- Reads an object with or without a number, one level deeper, where at most so
    many levels are left. -/
def data : (levels : Nat) → ClassInfo → Serializer → Option Nat → Reading ObjId
  | 0, _, _, _ => tooDeep e.config.maxDepth
  | levels + 1, c, serializer, id =>
    descend e.config.maxDepth do
      expect id
      completing (bodyVia e (data levels) c serializer)

/-- Gives a computation how nested objects are read from here on. -/
def withNested {α : Type}
    (x : (ClassInfo → Serializer → Option Nat → Reading ObjId) → Reading α) : Reading α :=
  fun s => x (data e (e.config.maxDepth - s.scope.depth)) s

/-- Reads a value with the id of its type. -/
def any : Reading Value := withNested e fun nested => anyVia e nested

/-- Reads a value that is declared. -/
def declared (ty : Declared) : Reading Value :=
  withNested e fun nested => declaredVia e nested ty

/-- Reads a value of a known class that may be null. -/
def nullable (c : ClassInfo) (serializer : Serializer) : Reading Value :=
  withNested e fun nested => nullableVia nested c serializer

/-- Reads an object of a known class. -/
def object (c : ClassInfo) (serializer : Serializer) : Reading ObjId :=
  withNested e fun nested => objectVia e nested c serializer

end Reading

end GraphWire
