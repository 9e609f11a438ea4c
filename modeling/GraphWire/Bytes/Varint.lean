/-
  Variable-length numbers.

  A number is cut into groups of seven bits, least significant first; every
  byte but the last has its high bit set.  Signed numbers are first folded onto
  the natural numbers, small magnitudes first (zig-zag).

  * `Varint.groups` writes the groups, `Varint.maxBytes` is the greatest number
    of groups of a width, `Varint.lastBits` the bits left for the last of them;
  * `Varint.zigzag` and `Varint.unzigzag` fold and unfold the sign;
    `unzigzag_zigzag` and `zigzag_unzigzag`: they are inverse.
-/
import GraphWire.Bytes.LittleEndian

namespace GraphWire

namespace Varint

/-- The seven-bit groups of a number, in at most `n + 1` bytes. -/
def groups : (n : Nat) → Nat → Bytes
  | 0, v => [UInt8.ofNat v]
  | n + 1, v =>
    if v < 128 then [UInt8.ofNat v] else UInt8.ofNat (v % 128 + 128) :: groups n (v / 128)

/-- The most bytes that a number of `bits` bits takes. -/
def maxBytes (bits : Nat) : Nat := (bits + 6) / 7

/-- The bits that the last possible byte of a number of `bits` bits may hold. -/
def lastBits (bits : Nat) : Nat := bits - 7 * (maxBytes bits - 1)

/-- The written form of a number of `bits` bits. -/
def encode (bits v : Nat) : Bytes := groups (maxBytes bits - 1) v

/-- Folds the integers onto the natural numbers: `0, -1, 1, -2, 2, …`. -/
def zigzag (v : Int) : Nat := if 0 ≤ v then 2 * v.toNat else 2 * (-v).toNat - 1

/-- Unfolds a natural number to the integer it stands for. -/
def unzigzag (n : Nat) : Int := if n % 2 = 0 then (n / 2 : Nat) else -((n / 2 : Nat) + 1 : Int)

@[simp] theorem unzigzag_zigzag (v : Int) : unzigzag (zigzag v) = v := by
  unfold zigzag unzigzag
  split <;> split <;> omega

@[simp] theorem zigzag_unzigzag (n : Nat) : zigzag (unzigzag n) = n := by
  unfold zigzag unzigzag
  split <;> split <;> omega

end Varint

end GraphWire
