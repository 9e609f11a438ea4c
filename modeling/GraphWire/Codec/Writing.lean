/-
  Writing a graph.

  An object is written by its serializer, one level deeper than what it is
  written for.  Before it stands what its reader needs to know: the id of its
  type, unless a declaration tells it; a marker, if it may be null or is
  tracked.  A tracked object that is met again is written as its number.

  * `Writing.any` writes an object with its type, `Writing.nullable` and
    `Writing.object` one whose class its reader knows, and `Writing.declared`
    one that is declared;
  * the functions of the first section are given how a nested object is written;
    `Writing.data` ties the knot, as deep as the limit allows.
-/
import GraphWire.Bytes.Output
import GraphWire.Codec.Slot
import GraphWire.Generics.Scope
import GraphWire.Graph.Equality
import GraphWire.Reference.Written

namespace GraphWire

/-- The state of a writing. -/
structure WriteState where
  out : Output
  written : Written
  scope : Scope

instance : Scoped WriteState where
  scope s := s.scope
  setScope s scope := { s with scope }

/-- Computations that write. -/
abbrev Writing (α : Type) := EStateM Error WriteState α

/-- The state in which a writing to an output begins. -/
def WriteState.start (out : Output) : WriteState := ⟨out, .empty, .start⟩

/-- Refuses an object of another class. -/
def Heap.checkClass (h : Heap) (o : ObjId) (c : ClassInfo) : Except Error Unit :=
  ensure (h.typeOf o == c.type) (.typeMismatch c.type (h.typeOf o))

/-- The item of a leaf. -/
def Leaf.toItem : Leaf → Item
  | .bool b => .bool b
  | .i8 v => .i8 v
  | .i16 v => .scalar .i16 v
  | .i32 v => .var .i32 v
  | .i64 v => .var .i64 v
  | .f32 v => .scalar .f32 v
  | .f64 v => .scalar .f64 v
  | .string s => .string s

namespace Writing

/-- Appends an item. -/
def put (i : Item) : Writing Unit := modify fun s => { s with out := s.out.put i }

/-- Appends a marker. -/
def marker (m : Marker) : Writing Unit := put (.i8 m.code)

/-- Appends a number that is an id or a count. -/
def count (n : Nat) : Writing Unit := put (.var .u32 (BitVec.ofNat _ n))

/-- Writes what stands before a tracked object; whether it was written before. -/
def announce (o : ObjId) : Writing Bool := modifyGet fun s =>
  let (again, written, out) := s.written.announce s.out o
  (again, { s with written, out })

variable (e : Engine) (h : Heap)

/-! ## One level -/

section
variable (nested : ObjId → Serializer → Writing Unit)

/-- Writes an object, unless it is tracked and was written before. -/
def unlessWritten (tracked : Bool) (o : ObjId) (serializer : Serializer) : Writing Unit := do
  if tracked then
    if ← announce o then pure () else nested o serializer
  else nested o serializer

/-- Writes a value of a known class that may be null. -/
def nullableVia (v : Value) (c : ClassInfo) (serializer : Serializer) : Writing Unit :=
  match v with
  | none => marker .null
  | some o => do
    attempt (h.checkClass o c)
    if e.tracks c then unlessWritten nested true o serializer
    else do
      marker .plain
      nested o serializer

/-- Writes an object of a known class. -/
def objectVia (v : Value) (c : ClassInfo) (serializer : Serializer) : Writing Unit :=
  match v with
  | none => throw (.nullObject c.type)
  | some o => do
    attempt (h.checkClass o c)
    unlessWritten nested (e.tracks c) o serializer

/-- Writes a value with the id of its type, 0 being that of null. -/
def anyVia (v : Value) : Writing Unit :=
  match v with
  | none => count 0
  | some o => do
    let c ← attempt (e.registry.classOfObject (h.typeOf o))
    let serializer ← attempt (e.registry.serializer c.type)
    count (c.id + 1)
    unlessWritten nested (e.tracks c) o serializer

/-- Writes a value that is declared.  One that is declared with a final type is
    written without the id of its type. -/
def declaredVia (ty : Declared) (v : Value) : Writing Unit :=
  declaring ty
    (match ty.type?.filter e.registry.isFinal with
    | some type => do
      let c ← attempt (e.registry.classOf type)
      let serializer ← attempt (e.registry.serializer type)
      nullableVia e h nested v c serializer
    | none => anyVia e h nested v)

/-- Writes a value on one side of an entry. -/
def sideVia (slot : Slot) (v : Value) : Writing Unit :=
  match slot.target with
  | some (c, serializer) =>
    if slot.nullable then nullableVia e h nested v c serializer
    else objectVia e h nested v c serializer
  | none => anyVia e h nested v

/-- Writes entries.  Both sides of an entry are checked before either is
    written; the key is written under the frame of its declaration. -/
def entriesVia (keySlot valueSlot : Slot) (keyType : Declared) : List Entry → Writing Unit
  | [] => pure ()
  | (k, v) :: entries => do
    attempt (keySlot.check k)
    attempt (valueSlot.check v)
    declaring keyType (sideVia e h nested keySlot k)
    sideVia e h nested valueSlot v
    entriesVia keySlot valueSlot keyType entries

/-- Writes a container: how many entries it has, then the entries. -/
def mapVia (key value : SideSetup Serializer) (o : ObjId) : Writing Unit :=
  match h.container? o with
  | none => throw (.notContainer (h.typeOf o))
  | some c => do
    count c.entries.length
    let args := (declaredArgs (← get)).getD []
    let (keySlot, valueSlot, keyType) ←
      attempt (resolveSlots e.registry (← get).scope.frames args key value)
    entriesVia e h nested keySlot valueSlot keyType c.entries
    modify popFrame

/-- Writes the declared fields of a record; a field that is not there is null. -/
def fieldsVia : List Declared → List Value → Writing Unit
  | [], _ => pure ()
  | ty :: tys, vs => do
    declaredVia e h nested ty (vs.headD none)
    fieldsVia tys vs.tail

/-- Writes what a serializer writes of an object. -/
def bodyVia (o : ObjId) : Serializer → Writing Unit
  | .leaf type =>
    match h.node o with
    | .leaf v =>
      if v.type = type then put v.toItem else throw (.typeMismatch (.leaf type) (h.typeOf o))
    | _ => throw (.typeMismatch (.leaf type) (h.typeOf o))
  | .octet =>
    match h.node o with
    | .octet v => put (.u8 v)
    | _ => throw (.typeMismatch .octet (h.typeOf o))
  | .record fields _ =>
    match h.node o with
    | .record vs => fieldsVia e h nested fields vs
    | _ => throw (.typeMismatch .record (h.typeOf o))
  | .map key value _ => mapVia e h nested key value o

end

/-! ## All levels -/

/-- Writes what a serializer writes of an object, one level deeper, where at most
    so many levels are left. -/
def data : (levels : Nat) → ObjId → Serializer → Writing Unit
  | 0, _, _ => tooDeep e.config.maxDepth
  | levels + 1, o, serializer =>
    descend e.config.maxDepth (bodyVia e h (data levels) o serializer)

/-- Gives a computation how nested objects are written from here on. -/
def withNested {α : Type} (x : (ObjId → Serializer → Writing Unit) → Writing α) : Writing α :=
  fun s => x (data e h (e.config.maxDepth - s.scope.depth)) s

/-- Writes a value with the id of its type. -/
def any (v : Value) : Writing Unit := withNested e h fun nested => anyVia e h nested v

/-- Writes a value that is declared. -/
def declared (ty : Declared) (v : Value) : Writing Unit :=
  withNested e h fun nested => declaredVia e h nested ty v

/-- Writes a value of a known class that may be null. -/
def nullable (v : Value) (c : ClassInfo) (serializer : Serializer) : Writing Unit :=
  withNested e h fun nested => nullableVia e h nested v c serializer

/-- Writes an object of a known class. -/
def object (v : Value) (c : ClassInfo) (serializer : Serializer) : Writing Unit :=
  withNested e h fun nested => objectVia e h nested v c serializer

end Writing

end GraphWire
