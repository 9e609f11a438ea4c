/-
  Items: what an output is made of.

  * `Item` are the things written, `ItemType` says what is to be read, and
    `Item.type` is the type that reads an item back;
  * `Item.encode` are the bytes of an item in one of the two layouts.  The
    compact layout writes variable-length numbers in groups of seven bits; the
    full-width layout writes them as numbers of a fixed width, and copies rows
    from memory.
-/
import GraphWire.Bytes.Scalar
import GraphWire.Bytes.Utf8

namespace GraphWire

/-- A thing written: a number of one of the formats, a text or a row of numbers. -/
inductive Item where
  | bool (b : Bool)
  | u8 (v : BitVec 8)
  | i8 (v : BitVec 8)
  | scalar (s : Scalar) (v : s.Value)
  | var (t : VarNumber) (v : t.Value)
  | string (s : String)
  | scalars (s : Scalar) (vs : List s.Value)
  | vars (t : VarNumber) (vs : List t.Value)

/-- What is to be read; the length of a row is known to its reader. -/
inductive ItemType where
  | bool | u8 | i8
  | scalar (s : Scalar)
  | var (t : VarNumber)
  | string
  | scalars (s : Scalar) (n : Nat)
  | vars (t : VarNumber) (n : Nat)
  deriving DecidableEq, Repr

/-- The bytes of a variable-length number: at full width, or in groups. -/
def VarNumber.encode (native : Bool) (t : VarNumber) (v : t.Value) : Bytes :=
  if native then t.scalar.encode v else Varint.encode t.bits (t.fold v)

namespace Item

/-- The type that reads the item back. -/
def type : Item → ItemType
  | bool _ => .bool
  | u8 _ => .u8
  | i8 _ => .i8
  | scalar s _ => .scalar s
  | var t _ => .var t
  | string _ => .string
  | scalars s vs => .scalars s vs.length
  | vars t vs => .vars t vs.length

/-- The bytes of an item.  A text follows its length in bytes; the length of a
    row is not written. -/
def encode (native : Bool) : Item → Bytes
  | bool b => [if b then 1 else 0]
  | u8 v | i8 v => [UInt8.ofBitVec v]
  | scalar s v => s.encode v
  | var t v => t.encode native v
  | string s =>
    let text := Utf8.encode s
    VarNumber.encode native .u32 (BitVec.ofNat _ text.length) ++ text
  | scalars s vs => if native then s.stored vs else vs.flatMap s.encode
  | vars t vs => if native then t.scalar.stored vs else vs.flatMap (t.encode native)

end Item

end GraphWire
