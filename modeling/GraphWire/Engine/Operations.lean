/-
  What an engine does with graphs: it writes, reads and copies them.

  A stream is a header and, unless it holds null, a value: with the ids of all
  types, or as something that its writer and its reader have declared alike.

  * `Engine.serialize` and `Engine.serializeField` write a stream,
    `Engine.serializeTo` appends one to an output;
  * `Engine.deserialize` and `Engine.deserializeField` read one from bytes,
    `Engine.deserializeFrom` from a source and `Engine.deserializeWith` from an
    input that may hold more;
  * `Engine.copy` makes a deep copy.

  The objects are those of a heap.  Reading and copying add objects to it and
  leave those that are there as they are.
-/
import GraphWire.Codec.Copying
import GraphWire.Codec.Reading
import GraphWire.Codec.Writing
import GraphWire.Engine.Header

namespace GraphWire

namespace Engine

variable (e : Engine) (h : Heap)

/-! ## Writing -/

/-- Writes to an output. -/
def writing (x : Writing Unit) : EStateM Error Output Unit := fun out =>
  match x (.start out) with
  | .ok _ s => .ok () s.out
  | .error e s => .error e s.out

/-- Appends a stream, whose value is written so unless it is null. -/
def writeStream (v : Value) (x : Writing Unit) : EStateM Error Output Unit := do
  modify (e.writeHeader v.isNone)
  if v.isSome then writing x

/-- Appends the stream of a value to an output of the layout of the engine. -/
def serializeTo (v : Value) : EStateM Error Output Unit := do
  attempt (ensure ((← get).native == e.config.native) .outputLayout)
  e.writeStream v (Writing.any e h v)

/-- What is written to an output that is empty before. -/
def written (x : EStateM Error Output Unit) : Except Error Bytes :=
  match x (.empty e.config.native) with
  | .ok _ out => .ok out.bytes
  | .error e _ => .error e

/-- The stream of a value. -/
def serialize (v : Value) : Except Error Bytes := e.written (e.serializeTo h v)

/-- The stream of a value that is declared. -/
def serializeField (ty : Declared) (v : Value) : Except Error Bytes :=
  e.written (e.writeStream v (Writing.declared e h ty v))

/-! ## Reading -/

/-- Reads an input; what was read and the heap with it. -/
def reading (x : Reading Value) : Scan (Value × Heap) := fun i =>
  match x (.start i h) with
  | .ok v s => .ok (v, s.heap) s.input
  | .error e s => .error e s.input

/-- Reads a stream, whose value is read so unless it is null. -/
def readStream (x : Reading Value) : Scan (Value × Heap) := do
  if ← e.readHeader then return (none, h) else reading h x

/-- Reads the stream of a value from an input of the layout of the engine. -/
def deserializeWith : Scan (Value × Heap) := do
  attempt (ensure ((← get).native == e.config.native) .inputLayout)
  e.readStream h (Reading.any e)

/-- The value in a stream. -/
def deserialize (bs : Bytes) : Except Error (Value × Heap) :=
  resultOf (e.deserializeWith h) ((Input.ofBytes bs).withLayout e.config.native)

/-- The value in a stream that comes from a source. -/
def deserializeFrom (source : Source) : Except Error (Value × Heap) :=
  resultOf (e.deserializeWith h)
    ((Input.ofSource source e.config.bufferSize).withLayout e.config.native)

/-- The value in the stream of a value that is declared. -/
def deserializeField (ty : Declared) (bs : Bytes) : Except Error (Value × Heap) :=
  resultOf (e.readStream h (Reading.declared e ty))
    ((Input.ofBytes bs).withLayout e.config.native)

/-! ## Copying -/

/-- A deep copy of a value: shared objects and cycles keep their shape, whether
    references are tracked or not. -/
def copy (v : Value) : Except Error (Value × Heap) :=
  match Copying.value e v (.start h) with
  | .ok copy s => .ok (copy, s.heap)
  | .error e _ => .error e

end Engine

end GraphWire
