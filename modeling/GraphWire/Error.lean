/-
  What can go wrong.

  An error is a cause with the facts that its message tells.  `Error.kind` sorts
  the causes, `Error.message` words them; a message that names types takes their
  names from its reader.
-/
import GraphWire.Bytes.Utf8
import GraphWire.Graph.Types
import GraphWire.Reference.Marker

namespace GraphWire

/-- The sorts of errors. -/
inductive ErrorKind where
  | bufferUnderflow | unresolvedType | invalidArgument | nullNotAllowed | containerConstruction
  | invalidData | invalidRef | depthExceed | typeError | io
  deriving DecidableEq, Repr

namespace ErrorKind

/-- All sorts of errors. -/
def all : List ErrorKind :=
  [bufferUnderflow, unresolvedType, invalidArgument, nullNotAllowed, containerConstruction,
    invalidData, invalidRef, depthExceed, typeError, io]

/-- What a sort of errors is called. -/
def name : ErrorKind → String
  | bufferUnderflow => "BufferUnderflow"
  | unresolvedType => "UnresolvedType"
  | invalidArgument => "InvalidArgument"
  | nullNotAllowed => "NullNotAllowed"
  | containerConstruction => "ContainerConstruction"
  | invalidData => "InvalidData"
  | invalidRef => "InvalidRef"
  | depthExceed => "DepthExceed"
  | typeError => "TypeError"
  | io => "Io"

end ErrorKind

/-- The causes of errors. -/
inductive Error where
  /-- The input ended before the bytes asked for. -/
  | underflow (required available : Nat)
  /-- More bytes asked for at once than a refilled buffer holds. -/
  | bufferTooSmall (capacity required : Nat)
  /-- The source of the input failed. -/
  | sourceFailed (text : String)
  /-- A variable-length number does not fit its width. -/
  | varintOverflow (bits : Nat)
  /-- A variable-length number does not end. -/
  | varintTooLong (bytes : Nat)
  /-- Bytes that spell no text. -/
  | notText (fault : Utf8.Fault)
  /-- A bulk read into something that holds no numbers. -/
  | notNumeric
  /-- A byte that is no marker. -/
  | unknownMarker (code : BitVec 8)
  /-- A marker that cannot stand before a value that is never null. -/
  | unexpectedMarker (marker : Marker) (type : ObjectType)
  /-- A back reference past the objects read so far. -/
  | refOutOfRange (id read : Nat)
  /-- A back reference to an object that is not there yet. -/
  | refUnfinished (id : Nat)
  /-- Null where an object of the type has to be. -/
  | nullObject (type : ObjectType)
  /-- Null on a side of an entry that is never null. -/
  | nullEntry (side : Side)
  /-- Nesting past the limit. -/
  | depthExceeded (limit depth : Nat)
  /-- An object of another type than the one expected. -/
  | typeMismatch (expected found : ObjectType)
  /-- An object without entries where a container is expected. -/
  | notContainer (type : ObjectType)
  /-- A type of which no empty container can be made. -/
  | noFactory (type : ObjectType)
  /-- A declared type that is not registered. -/
  | unregisteredType (type : ObjectType)
  /-- An object whose type is not registered. -/
  | unregisteredObject (type : ObjectType)
  /-- An id that no type is registered with. -/
  | unregisteredId (id : Nat)
  /-- An id kept for the built-in types. -/
  | reservedId (id : Nat) (type : ObjectType) (first : Nat)
  /-- An id that another registration has. -/
  | takenId (id : Nat) (type holder : ObjectType)
  /-- A type that has a registration already. -/
  | takenType (type : ObjectType)
  /-- A serializer that is needed to build itself. -/
  | selfDependent (type : ObjectType)
  /-- A side of entries that has a serializer but no class. -/
  | classMissing (side : Side)
  /-- A stream of the other layout. -/
  | layoutMismatch (stream configured : Bool)
  /-- A full-width stream of the other byte order. -/
  | byteOrderMismatch
  /-- A stream that tracks references and a reader that does not, or the other way round. -/
  | trackingMismatch
  /-- An output of the other layout. -/
  | outputLayout
  /-- An input of the other layout. -/
  | inputLayout
  /-- An error that the application raises, with its own words. -/
  | raised (kind : ErrorKind) (text : String)
  deriving DecidableEq, Inhabited, Repr

namespace Error

/-- The sort of an error. -/
def kind : Error → ErrorKind
  | underflow .. => .bufferUnderflow
  | bufferTooSmall .. | notNumeric | outputLayout | inputLayout => .invalidArgument
  | sourceFailed _ => .io
  | varintOverflow _ | varintTooLong _ | notText _ | unknownMarker _ | unexpectedMarker ..
  | layoutMismatch .. | byteOrderMismatch | trackingMismatch => .invalidData
  | refOutOfRange .. | refUnfinished _ => .invalidRef
  | nullObject _ | nullEntry _ => .nullNotAllowed
  | depthExceeded .. => .depthExceed
  | typeMismatch .. | notContainer _ | reservedId .. | takenId .. | takenType _ | selfDependent _
  | classMissing _ => .typeError
  | noFactory _ => .containerConstruction
  | unregisteredType _ | unregisteredObject _ | unregisteredId _ => .unresolvedType
  | raised kind _ => kind

/-- The words of an error, given what types are called. -/
def message (name : ObjectType → String) : Error → String
  | underflow required available =>
    s!"Buffer underflow: required {required} bytes, only {available} available"
  | bufferTooSmall capacity required =>
    s!"Buffer too small: capacity {capacity}, required {required}"
  | sourceFailed text => s!"I/O error: {text}"
  | varintOverflow bits => s!"Variable-length integer overflows {bits} bits"
  | varintTooLong bytes => s!"Variable-length integer longer than {bytes} bytes"
  | notText ⟨start, some length⟩ =>
    s!"Invalid UTF-8: invalid utf-8 sequence of {length} bytes from index {start}"
  | notText ⟨start, none⟩ => s!"Invalid UTF-8: incomplete utf-8 byte sequence from index {start}"
  | notNumeric => "Bulk read target must be a vector of numeric scalars"
  | unknownMarker code => s!"unknown reference flag {code.toInt}"
  | unexpectedMarker marker type =>
    s!"unexpected {marker.name} flag before a non-null {name type}"
  | refOutOfRange id read => s!"reference {id} out of range, {read} objects read"
  | refUnfinished id => s!"reference {id} points at an object that is still being read"
  | nullObject type => s!"null {name type} in a non-nullable slot"
  | nullEntry side => s!"null map {side.name} is not allowed"
  | depthExceeded limit depth =>
    s!"Maximum nesting depth ({limit}) exceeded. Current depth: {depth}. " ++
      "This may indicate a cycle written with reference tracking disabled, " ++
      "or an overly deep object graph."
  | typeMismatch expected found => s!"expected {name expected}, found {name found}"
  | notContainer type => s!"{name type} is not an associative container"
  | noFactory type => s!"no container factory registered for {name type}"
  | unregisteredType type | unregisteredObject type => s!"type {name type} is not registered"
  | unregisteredId id => s!"no type registered with id {id}"
  | reservedId id type first =>
    s!"type id {id} of {name type} is reserved, user ids start at {first}"
  | takenId id type holder => s!"type id {id} of {name type} is already taken by {name holder}"
  | takenType type => s!"{name type} is already registered"
  | selfDependent type => s!"serializer of {name type} depends on itself"
  | classMissing side => s!"a {side.name} serializer needs a {side.name} class"
  | layoutMismatch stream configured =>
    s!"header bitmap mismatch at native bit: stream native={stream}, " ++
      s!"configured native={configured}"
  | byteOrderMismatch => "native stream was written on a host with a different byte order"
  | trackingMismatch => "header bitmap mismatch at reference tracking bit"
  | outputLayout => "writer mode does not match the native setting"
  | inputLayout => "reader mode does not match the native setting"
  | raised _ text => text

end Error

/-- Goes on if the condition holds and fails with the error otherwise. -/
def ensure (condition : Bool) (error : Error) : Except Error Unit :=
  if condition then .ok () else .error error

end GraphWire
