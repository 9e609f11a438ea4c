/-
  Reading by roll.

  A reading that keeps a roll puts on it every object that is marked as new, at once
  when it is created; the number of an object is its place on the roll.  Nothing is
  reserved, waits or is bound later, so that a number stands for nothing else: it is
  that of an object on the roll, or out of range.

  * `Rolling.any` and `Rolling.declared` read as `Reading.any` and `Reading.declared` do
    otherwise;
  * `holder` is the object with a number, which has 32 bits; `holder_eq_getElem?`: it is the
    one at that place of the roll as long as there are not more objects than that.
-/
import GraphWire.Engine.Operations
import Mathlib.Algebra.Group.Nat.Defs
import Mathlib.Data.List.Induction

namespace GraphWire

/-! ## Rolls -/

/-- The object on a roll that has a number.  Numbers have 32 bits: of objects whose places
    differ by so much, the last has it. -/
def holder (roll : List ObjId) (number : Nat) : Option ObjId :=
  (roll.zipIdx.filter fun (_, place) => place % 2 ^ 32 == number).getLast?.map Prod.fst

section
variable {roll : List ObjId} {number : Nat}

theorem holder_concat (roll : List ObjId) (o : ObjId) (number : Nat) :
    holder (roll ++ [o]) number =
      if roll.length % 2 ^ 32 = number then some o else holder roll number := by
  let numbered : ObjId × Nat → Bool := fun (_, place) => place % 2 ^ 32 == number
  have hholder : holder (roll ++ [o]) number = (roll.zipIdx.filter numbered ++
      [(o, roll.length)].filter numbered).getLast?.map Prod.fst := by
    unfold holder
    rw [List.zipIdx_append, List.zipIdx_singleton, Nat.zero_add, List.filter_append]
  rw [hholder]
  split
  · next h =>
    have hlast : numbered (o, roll.length) = true := beq_iff_eq.2 h
    rw [List.filter_cons_of_pos hlast, List.filter_nil, List.getLast?_concat]
    rfl
  · next h =>
    have hlast : ¬numbered (o, roll.length) = true := fun heq => h (beq_iff_eq.1 heq)
    rw [List.filter_cons_of_neg hlast, List.filter_nil, List.append_nil]
    rfl

/-- A number is nobody's if there are not so many objects. -/
theorem holder_eq_none_iff (hn : number < 2 ^ 32) :
    holder roll number = none ↔ roll.length ≤ number := by
  induction roll using List.reverseRecOn with
  | nil => simp [holder]
  | append_singleton roll o ih =>
    rw [holder_concat, List.length_append, List.length_singleton]
    split
    · next h =>
      have hle := Nat.mod_le roll.length (2 ^ 32)
      simp only [reduceCtorEq, false_iff]
      omega
    · next h =>
      rw [ih]
      constructor
      · intro hle
        have hne : roll.length ≠ number := fun heq => h (by rw [heq, Nat.mod_eq_of_lt hn])
        omega
      · omega

/-- **A number is a place on the roll** as long as there are no more objects than numbers. -/
theorem holder_eq_getElem? (hfew : roll.length ≤ 2 ^ 32) : holder roll number = roll[number]? := by
  induction roll using List.reverseRecOn with
  | nil => rfl
  | append_singleton roll o ih =>
    rw [List.length_append, List.length_singleton] at hfew
    rw [holder_concat, Nat.mod_eq_of_lt (by omega), ih (by omega)]
    split
    · next h => rw [← h, List.getElem?_concat_length]
    · next h =>
      rcases Nat.lt_or_gt_of_ne h with hlt | hlt
      · rw [List.getElem?_eq_none (by omega), List.getElem?_eq_none (by simp; omega)]
      · rw [List.getElem?_append_left hlt]

end

/-! ## Readings -/

/-- The state of a reading that keeps a roll. -/
structure RollState where
  input : Input
  heap : Heap
  /-- The objects that were marked as new, the `i`-th first. -/
  roll : List ObjId
  scope : Scope

instance : Scoped RollState where
  scope s := s.scope
  setScope s scope := { s with scope }

/-- Computations that read and keep a roll. -/
abbrev Rolling (α : Type) := EStateM Error RollState α

/-- The state in which a reading of an input begins, with the objects there are
    already. -/
def RollState.start (input : Input) (heap : Heap) : RollState := ⟨input, heap, [], .start⟩

namespace Rolling

/-- Reads the input. -/
def scan {α : Type} (x : Scan α) : Rolling α := fun s =>
  match x s.input with
  | .ok a input => .ok a { s with input }
  | .error e input => .error e { s with input }

/-- Reads a number that is an id or a count. -/
def count : Rolling Nat := return (← scan (Input.var .u32)).toNat

/-- Reads a marker. -/
def marker : Rolling Marker := do
  let code ← scan Input.octet
  match Marker.ofCode? code with
  | some m => pure m
  | none => throw (.unknownMarker code)

/-- Reads a number and looks it up on the roll. -/
def earlier : Rolling ObjId := do
  let i ← count
  let roll := (← get).roll
  match holder roll i with
  | some o => pure o
  | none => throw (.refOutOfRange i roll.length)

/-- Adds an object, which goes on the roll if it is marked as new. -/
def create (fresh : Bool) (n : Node) : Rolling ObjId := modifyGet fun s =>
  let (o, heap) := s.heap.alloc n
  (o, { s with heap, roll := if fresh then s.roll ++ [o] else s.roll })

/-- Adds an empty container for a class. -/
def createContainer (c : ClassInfo) (fresh : Bool) (factory : Option ContainerType) :
    Rolling ObjId := do
  create fresh (.container (.empty (← attempt (c.containerType factory))))

/-- Puts an entry into a container. -/
def putEntry (o : ObjId) (k v : Value) : Rolling Unit :=
  modify fun s => { s with heap := (s.heap.insert o k v).2 }

/-- Gives a record one more field. -/
def addField (o : ObjId) (v : Value) : Rolling Unit :=
  modify fun s => { s with heap := s.heap.addField o v }

variable (e : Engine)

section
variable (nested : ClassInfo → Serializer → Bool → Rolling ObjId)

/-- Reads a value of a known class that may be null. -/
def nullableVia (c : ClassInfo) (serializer : Serializer) : Rolling Value := do
  match ← marker with
  | .null => return none
  | .back => return some (← earlier)
  | .plain => return some (← nested c serializer false)
  | .fresh => return some (← nested c serializer true)

/-- Reads an object of a known class. -/
def objectVia (c : ClassInfo) (serializer : Serializer) : Rolling ObjId := do
  if e.tracks c then
    match ← marker with
    | .back => earlier
    | .fresh => nested c serializer true
    | m => throw (.unexpectedMarker m c.type)
  else nested c serializer false

/-- Reads a value with the id of its type, 0 being that of null. -/
def anyVia : Rolling Value := do
  let id ← count
  if id = 0 then return none
  else
    let c ← attempt (e.registry.classOfId (id - 1))
    let serializer ← attempt (e.registry.serializer c.type)
    return some (← objectVia e nested c serializer)

/-- Reads a value that is declared. -/
def declaredVia (ty : Declared) : Rolling Value :=
  declaring ty
    (match ty.type?.filter e.registry.isFinal with
    | some type => do
      let c ← attempt (e.registry.classOf type)
      let serializer ← attempt (e.registry.serializer type)
      nullableVia nested c serializer
    | none => anyVia e nested)

/-- Reads a value on one side of an entry. -/
def sideVia (slot : Slot) : Rolling Value :=
  match slot.target with
  | some (c, serializer) =>
    if slot.nullable then nullableVia nested c serializer
    else some <$> objectVia e nested c serializer
  | none => anyVia e nested

/-- Reads so many entries into a container. -/
def entriesVia (keySlot valueSlot : Slot) (keyType : Declared) (o : ObjId) : Nat → Rolling Unit
  | 0 => pure ()
  | n + 1 => do
    let k ← declaring keyType (sideVia e nested keySlot)
    let v ← sideVia e nested valueSlot
    putEntry o k v
    entriesVia keySlot valueSlot keyType o n

/-- Reads a container, which goes on the roll before how many entries it has is read. -/
def mapVia (c : ClassInfo) (fresh : Bool) (key value : SideSetup Serializer)
    (factory : Option ContainerType) : Rolling ObjId := do
  let o ← createContainer c fresh factory
  let n ← count
  let args := (declaredArgs (← get)).getD []
  let (keySlot, valueSlot, keyType) ←
    attempt (resolveSlots e.registry (← get).scope.frames args key value)
  entriesVia e nested keySlot valueSlot keyType o n
  modify popFrame
  return o

/-- Reads the declared fields of a record. -/
def fieldsVia (o : ObjId) : List Declared → Rolling Unit
  | [] => pure ()
  | ty :: tys => do
    addField o (← declaredVia e nested ty)
    fieldsVia o tys

/-- Reads what a serializer reads of an object of a class, which goes on the roll
    before its parts do. -/
def bodyVia (c : ClassInfo) (fresh : Bool) : Serializer → Rolling ObjId
  | .leaf type => do create fresh (.leaf (← scan (Reading.leaf type)))
  | .octet => do create fresh (.octet (← scan Input.octet))
  | .record fields _ => do
    let o ← create fresh (.record [])
    fieldsVia e nested o fields
    return o
  | .map key value factory => mapVia e nested c fresh key value factory

end

/-- Reads an object one level deeper, where at most so many levels are left. -/
def data : (levels : Nat) → ClassInfo → Serializer → Bool → Rolling ObjId
  | 0, _, _, _ => tooDeep e.config.maxDepth
  | levels + 1, c, serializer, fresh =>
    descend e.config.maxDepth (bodyVia e (data levels) c fresh serializer)

/-- Reads a value with the id of its type. -/
def any : Rolling Value := fun s => anyVia e (data e (e.config.maxDepth - s.scope.depth)) s

/-- Reads a value that is declared. -/
def declared (ty : Declared) : Rolling Value := fun s =>
  declaredVia e (data e (e.config.maxDepth - s.scope.depth)) ty s

end Rolling

namespace Engine

variable (e : Engine) (h : Heap)

/-- Reads an input by roll. -/
def rolling (x : Rolling Value) : Scan (Value × Heap) := fun i =>
  match x (.start i h) with
  | .ok v s => .ok (v, s.heap) s.input
  | .error e s => .error e s.input

/-- Reads a stream by roll. -/
def rollStream (x : Rolling Value) (bs : Bytes) : Except Error (Value × Heap) :=
  resultOf (do if ← e.readHeader then return (none, h) else rolling h x)
    ((Input.ofBytes bs).withLayout e.config.native)

end Engine

end GraphWire
