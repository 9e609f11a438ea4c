/-
  Outputs: the bytes written so far, in one of the two layouts.

  `Output.put` appends the bytes of an item (`Output.bytes_put`).
-/
import GraphWire.Bytes.Item

namespace GraphWire

/-- The bytes written so far and the layout they are written in. -/
structure Output where
  written : Array UInt8
  native : Bool
  deriving DecidableEq, Repr

namespace Output

/-- The output that nothing is written to yet. -/
def empty (native : Bool) : Output := ⟨#[], native⟩

/-- How many bytes are written. -/
def length (o : Output) : Nat := o.written.size

/-- The bytes written, first to last. -/
def bytes (o : Output) : Bytes := o.written.toList

/-- Appends bytes as they are. -/
def append (o : Output) (bs : Bytes) : Output := { o with written := o.written ++ bs }

/-- Appends an item in the layout of the output. -/
def put (o : Output) (i : Item) : Output := o.append (i.encode o.native)

@[simp] theorem bytes_empty (native : Bool) : (empty native).bytes = [] := rfl

@[simp] theorem bytes_append (o : Output) (bs : Bytes) : (o.append bs).bytes = o.bytes ++ bs := by
  simp [bytes, append]

@[simp] theorem native_append (o : Output) (bs : Bytes) : (o.append bs).native = o.native := rfl

@[simp] theorem bytes_put (o : Output) (i : Item) :
    (o.put i).bytes = o.bytes ++ i.encode o.native := bytes_append _ _

@[simp] theorem native_put (o : Output) (i : Item) : (o.put i).native = o.native := rfl

theorem length_eq (o : Output) : o.length = o.bytes.length := by simp [length, bytes]

end Output

end GraphWire
