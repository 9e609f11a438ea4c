/-
  The objects read so far.

  A number is reserved for an object when its marker is read, and bound when
  there is an object to bind it to: by what reads the object, before its parts
  are read, or else when it is finished.  Objects being read are pending, the
  innermost first; those that are not tracked have no number.
-/
import GraphWire.Error
import GraphWire.Graph.Table

namespace GraphWire

/-- The objects that numbers are bound to, and the numbers of the objects being
    read, the innermost first. -/
structure Bindings where
  bound : Array (Option ObjId)
  pending : List (Option Nat)
  deriving DecidableEq, Repr

namespace Bindings

/-- Nothing is read yet. -/
def empty : Bindings := ⟨#[], []⟩

/-- Reserves the next number.  Numbers have 32 bits: after so many they begin anew. -/
def reserve (b : Bindings) : Nat × Bindings :=
  ((BitVec.ofNat 32 b.bound.size).toNat, { b with bound := b.bound.push none })

/-- Begins to read an object with or without a number. -/
def expect (b : Bindings) (id : Option Nat) : Bindings := { b with pending := id :: b.pending }

/-- How many objects are being read. -/
def waiting (b : Bindings) : Nat := b.pending.length

/-- Binds the number of the innermost object being read, if it has one. -/
def bind (b : Bindings) (o : ObjId) : Bindings :=
  match b.pending with
  | [] => b
  | none :: pending => { b with pending }
  | some id :: pending => { bound := b.bound.setIfInBounds id (some o), pending }

/-- The object that a number is bound to. -/
def get (b : Bindings) (id : Nat) : Except Error ObjId :=
  match b.bound[id]? with
  | some (some o) => .ok o
  | some none => .error (.refUnfinished id)
  | none => .error (.refOutOfRange id b.bound.size)

end Bindings

end GraphWire
