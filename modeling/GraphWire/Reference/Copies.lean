/-
  The objects copied so far.

  An object is bound to its copy by what copies it, before its parts are copied,
  or else when the copy is finished.  Objects being copied are pending, the
  innermost first.
-/
import GraphWire.Graph.Table

namespace GraphWire

/-- The objects and their copies, the last bound first, and the objects being
    copied, the innermost first. -/
structure Copies where
  pairs : List (ObjId × ObjId)
  pending : List ObjId
  deriving DecidableEq, Repr

namespace Copies

/-- Nothing is copied yet. -/
def empty : Copies := ⟨[], []⟩

/-- The copy of an object. -/
def get? (c : Copies) (o : ObjId) : Option ObjId := c.pairs.lookup o

/-- Begins to copy an object. -/
def expect (c : Copies) (o : ObjId) : Copies := { c with pending := o :: c.pending }

/-- How many objects are being copied. -/
def waiting (c : Copies) : Nat := c.pending.length

/-- Binds a copy to the innermost object being copied. -/
def bind (c : Copies) (copy : ObjId) : Copies :=
  match c.pending with
  | [] => c
  | o :: pending => { pairs := (o, copy) :: c.pairs, pending }

end Copies

end GraphWire
