/-
  Leaves: the values that objects carry.

  Numbers are held as their bits.  Leaves are equal (`Leaf.equal`) if they have
  one type and equal values; floats compare as numbers do, so that a NaN equals
  nothing and the two zeros are equal, but they are told apart by
  `Leaf.hashBytes`.
-/
import GraphWire.Bytes.Utf8
import GraphWire.Graph.Types

namespace GraphWire

/-- A value without parts. -/
inductive Leaf where
  | bool (b : Bool)
  | i8 (v : BitVec 8)
  | i16 (v : BitVec 16)
  | i32 (v : BitVec 32)
  | i64 (v : BitVec 64)
  | f32 (v : BitVec 32)
  | f64 (v : BitVec 64)
  | string (s : String)
  deriving DecidableEq, Repr

/-- Whether two floats are equal as numbers, given the bits of infinity.  Past
    those of infinity, the magnitude of a float is that of a NaN. -/
def equalFloats {w : Nat} (infinity : Nat) (a b : BitVec w) : Bool :=
  let magnitude (v : BitVec w) := (v.setWidth (w - 1)).toNat
  magnitude a ≤ infinity && magnitude b ≤ infinity &&
    (a == b || magnitude a == 0 && magnitude b == 0)

namespace Leaf

/-- The type of a leaf. -/
def type : Leaf → LeafType
  | bool _ => .bool
  | i8 _ => .i8
  | i16 _ => .i16
  | i32 _ => .i32
  | i64 _ => .i64
  | f32 _ => .f32
  | f64 _ => .f64
  | string _ => .string

/-- Whether two leaves have one type and equal values. -/
def equal : Leaf → Leaf → Bool
  | f32 a, f32 b => equalFloats 0x7f800000 a b
  | f64 a, f64 b => equalFloats 0x7ff0000000000000 a b
  | a, b => a == b

/-- What of a leaf enters a hash: the bytes of its value, without its type. -/
def hashBytes : Leaf → Bytes
  | bool b => [if b then 1 else 0]
  | i8 v => Bytes.ofNat 1 v.toNat
  | i16 v => Bytes.ofNat 2 v.toNat
  | i32 v | f32 v => Bytes.ofNat 4 v.toNat
  | i64 v | f64 v => Bytes.ofNat 8 v.toNat
  | string s => Utf8.encode s ++ [0xff]

end Leaf

end GraphWire
