/-
  Equality and hashing of values, and the containers' look-ups.

  * `Heap.equal`: two values are equal if both are null, if they are one object
    or if their objects have equal contents.  Containers have equal contents if
    they have one type, equally many entries, and every key of the first is found
    in the second with an equal value; records if their fields are pairwise
    equal;
  * `Heap.hashInput` is what enters the hash of a key: of a container only its
    type, so that a key can be found however its container changes;
  * a stored key is the same as a given one if their hash inputs agree and they
    are equal (`Heap.sameKey`); `Heap.insert` and `Heap.find?` go by that.

  While a container is being inserted into, its entries are out of reach: it is
  then equal to nothing but itself.  Comparing two different graphs that both
  have a cycle has no answer; such a comparison ends in an inequality once more
  pairs of objects have been compared than there are.
-/
import GraphWire.Graph.Heap

namespace GraphWire

/-- What enters the hash of a key. -/
inductive HashInput where
  | bytes (bs : Bytes)
  /-- A mark of a type of container. -/
  | ofContainer (type : ContainerType)
  /-- The mark of all records. -/
  | ofRecord
  deriving DecidableEq, Repr

namespace Heap

variable (h : Heap)

/-- What enters the hash of a key.  All ordered containers share a mark. -/
def hashInput : Value → HashInput
  | none => .bytes [0]
  | some o =>
    match h.node o with
    | .leaf v => .bytes (1 :: v.hashBytes)
    | .octet v => .bytes [1, UInt8.ofBitVec v]
    | .container (.hash _) => .ofContainer .hash
    | .container _ => .ofContainer .linked
    | .record _ => .ofRecord

/-- Whether two containers have equal contents, given how values compare. -/
def equalContainers (equal : Value → Value → Bool) (c d : Container) : Bool :=
  c.type == d.type && c.entries.length == d.entries.length &&
    c.entries.all fun (k, v) =>
      match d.find? fun k' => equal k k' && h.hashInput k == h.hashInput k' with
      | some w => equal v w
      | none => false

/-- Whether two objects have equal contents, given how values compare and which
    container is being inserted into. -/
def equalObjects (busy : Option ObjId) (equal : Value → Value → Bool) (o p : ObjId) : Bool :=
  match h.node o, h.node p with
  | .leaf a, .leaf b => a.equal b
  | .octet a, .octet b => a == b
  | .container c, .container d =>
    busy != some o && busy != some p && h.equalContainers equal c d
  | .record fs, .record gs =>
    fs.length == gs.length && (fs.zip gs).all fun (v, w) => equal v w
  | _, _ => false

/-- Whether two values are equal, looking at most `depth` objects deep. -/
def equalTo (busy : Option ObjId) : (depth : Nat) → Value → Value → Bool
  | _, none, none => true
  | 0, some o, some p => o == p
  | depth + 1, some o, some p => o == p || h.equalObjects busy (equalTo busy depth) o p
  | _, _, _ => false

/-- Enough depth for every comparison that has an answer: no pair of objects
    is compared inside its own comparison. -/
def depthBound : Nat := (h.size + 1) * (h.size + 1)

/-- Whether two values are equal, where the container `busy` is being inserted
    into. -/
def equal (busy : Option ObjId) (v w : Value) : Bool := h.equalTo busy h.depthBound v w

/-- Whether a key is the same as a stored key. -/
def sameKey (busy : Option ObjId) (k k' : Value) : Bool :=
  h.equal busy k k' && h.hashInput k == h.hashInput k'

/-- What a key maps to in a container, if the object is one. -/
def find? (o : ObjId) (k : Value) : Option Value :=
  (h.container? o).bind fun c => c.find? (h.sameKey none k)

/-- Maps a key to a value in a container; what it mapped to before. -/
def insert (o : ObjId) (k v : Value) : Option Value × Heap :=
  match h.node o with
  | .container c =>
    let (old, c) := c.insert (h.sameKey (some o) k) k v
    (old, h.set o (.container c))
  | _ => (none, h)

end Heap

end GraphWire
