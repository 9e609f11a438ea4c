/-
  The types of objects.

  An object is a leaf, a container of entries or one of the two kinds of object
  that an application adds of its own: a single byte or a record of fields.
  Containers come in an unordered type, an ordered type and any number of
  further ordered types of the application, told apart by a number.
-/

namespace GraphWire

/-- The types of leaves. -/
inductive LeafType where
  | bool | i8 | i16 | i32 | i64 | f32 | f64 | string
  deriving DecidableEq, Repr

namespace LeafType

/-- All types of leaves. -/
def all : List LeafType := [bool, i8, i16, i32, i64, f32, f64, string]

/-- What a type of leaves is called. -/
def name : LeafType → String
  | bool => "bool"
  | i8 => "i8"
  | i16 => "i16"
  | i32 => "i32"
  | i64 => "i64"
  | f32 => "f32"
  | f64 => "f64"
  | string => "string"

end LeafType

/-- The types of containers. -/
inductive ContainerType where
  /-- Entries in no order. -/
  | hash
  /-- Entries in the order of their first insertion. -/
  | linked
  /-- An application's own type of container, ordered as `linked`. -/
  | named (tag : Nat)
  deriving DecidableEq, Repr

/-- The types that a declaration may name. -/
inductive ObjectType where
  | leaf (type : LeafType)
  | container (type : ContainerType)
  /-- An application's own leaf of one byte. -/
  | octet
  /-- An application's own record of fields. -/
  | record
  /-- A type without objects: declarations may name it. -/
  | foreign
  deriving DecidableEq, Repr

/-- The two sides of an entry. -/
inductive Side where
  | key | value
  deriving DecidableEq, Repr

/-- What messages call a side. -/
def Side.name : Side → String
  | .key => "key"
  | .value => "value"

end GraphWire
