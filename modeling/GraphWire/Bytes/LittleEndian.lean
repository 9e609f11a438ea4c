/-
  Numbers as little-endian bytes.

  * `Bytes.ofNat w v` are the `w` low bytes of `v`, least significant first,
    and `Bytes.toNat` reads a sequence of bytes back as a number;
  * `Bytes.ofNat_toNat`: writing back what was read keeps the bytes.
-/

namespace GraphWire

/-- A sequence of bytes, in stream order. -/
abbrev Bytes := List UInt8

namespace Bytes

/-- The `w` low bytes of a number, least significant first. -/
def ofNat : (w : Nat) → Nat → Bytes
  | 0, _ => []
  | w + 1, v => UInt8.ofNat v :: ofNat w (v / 256)

/-- The number whose base-256 digits are the bytes, least significant first. -/
def toNat : Bytes → Nat
  | [] => 0
  | b :: bs => b.toNat + 256 * toNat bs

@[simp] theorem length_ofNat (w v : Nat) : (ofNat w v).length = w := by
  induction w generalizing v with
  | zero => rfl
  | succ w ih => simp [ofNat, ih]

/-- **Writing back what was read** keeps the bytes. -/
theorem ofNat_toNat (bs : Bytes) : ofNat bs.length (toNat bs) = bs := by
  induction bs with
  | nil => rfl
  | cons b bs ih =>
    have hb : b.toNat < 256 := b.toNat_lt
    have hdiv : (b.toNat + 256 * toNat bs) / 256 = toNat bs := by omega
    have hmod : UInt8.ofNat (b.toNat + 256 * toNat bs) = b := by
      apply UInt8.toNat_inj.1
      rw [UInt8.toNat_ofNat']
      omega
    simp only [List.length_cons, toNat, ofNat, hdiv, ih, hmod]

end Bytes

end GraphWire
