/-
  Fixed-width and variable-length number formats.

  A number is held as its bits; whether they are read as signed, unsigned or as
  a float is up to the reader of the bits, so that every value, every payload of
  a NaN included, passes unchanged.

  * `Scalar` are the formats of a fixed width, `Scalar.encode` and
    `Scalar.decode` their little-endian bytes, and `Scalar.stored` is a row of
    numbers as it lies in memory;
  * `VarNumber` are the variable-length formats, each with the fixed-width
    format that stands in for it in the full-width layout.
-/
import GraphWire.Bytes.Varint

namespace GraphWire

/-- The number formats of a fixed width. -/
inductive Scalar where
  | i16 | u16 | i32 | u32 | i64 | u64 | f32 | f64
  deriving DecidableEq, Repr

namespace Scalar

/-- The bytes that a number of the format takes. -/
def width : Scalar → Nat
  | .i16 | .u16 => 2
  | .i32 | .u32 | .f32 => 4
  | .i64 | .u64 | .f64 => 8

/-- A number of the format, as its bits. -/
abbrev Value (s : Scalar) := BitVec (8 * s.width)

/-- The bytes of a number, least significant first. -/
def encode (s : Scalar) (v : s.Value) : Bytes := Bytes.ofNat s.width v.toNat

/-- The memory of a little-endian host that holds a row of numbers, byte by byte. -/
def stored (s : Scalar) (vs : List s.Value) : Bytes :=
  let row := vs.toArray
  (List.range (row.size * s.width)).map fun i =>
    UInt8.ofBitVec ((row.getD (i / s.width) 0).extractLsb' (8 * (i % s.width)) 8)

/-- The number that the bytes spell. -/
def decode (s : Scalar) (bs : Bytes) : s.Value := BitVec.ofNat _ (Bytes.toNat bs)

/-- The `n` numbers that the bytes spell one after the other. -/
def decodeMany (s : Scalar) : (n : Nat) → Bytes → List s.Value
  | 0, _ => []
  | n + 1, bs => s.decode (bs.take s.width) :: decodeMany s n (bs.drop s.width)

theorem width_pos (s : Scalar) : 0 < s.width := by cases s <;> decide

@[simp] theorem length_encode (s : Scalar) (v : s.Value) : (s.encode v).length = s.width := by
  simp [encode]

end Scalar

/-- The number formats of variable length. -/
inductive VarNumber where
  | u32 | i32 | u64 | i64
  deriving DecidableEq, Repr

namespace VarNumber

/-- The fixed-width format with the same numbers. -/
def scalar : VarNumber → Scalar
  | .u32 => .u32
  | .i32 => .i32
  | .u64 => .u64
  | .i64 => .i64

/-- Whether the numbers of the format have a sign. -/
def signed : VarNumber → Bool
  | .i32 | .i64 => true
  | .u32 | .u64 => false

/-- The bits of a number of the format. -/
def bits (t : VarNumber) : Nat := 8 * t.scalar.width

/-- A number of the format, as its bits. -/
abbrev Value (t : VarNumber) := t.scalar.Value

/-- The natural number whose seven-bit groups are written for a number. -/
def fold (t : VarNumber) (v : t.Value) : Nat :=
  if t.signed then Varint.zigzag v.toInt else v.toNat

/-- The number that a natural number stands for. -/
def unfold (t : VarNumber) (n : Nat) : t.Value :=
  if t.signed then BitVec.ofInt _ (Varint.unzigzag n) else BitVec.ofNat _ n

@[simp] theorem unfold_fold (t : VarNumber) (v : t.Value) : t.unfold (t.fold v) = v := by
  unfold VarNumber.unfold VarNumber.fold
  split <;> simp

end VarNumber

end GraphWire
