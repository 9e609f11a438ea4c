/-
  Numbers survive being written and read.

  * `Bytes.toNat_ofNat`: reading back what was written keeps a number modulo
    `256 ^ w`, so every number that fits survives;
  * `Scalar.decode_encode`: the bytes of a number of a fixed width spell it;
    `Scalar.stored_eq`: a row lies in memory as its numbers one behind the other;
  * `VarNumber.fold_lt`: a number of variable length folds into its own width;
    `VarNumber.fold_unfold`: and every number of the width is one that is folded.
-/
import GraphWire.Bytes.Scalar
import Mathlib.Algebra.Group.Int.Defs
import Mathlib.Algebra.Group.Nat.Defs

namespace GraphWire

/-! ## Fixed width -/

namespace Bytes

/-- **Reading back what was written** keeps the number modulo `256 ^ w`. -/
theorem toNat_ofNat (w v : Nat) : toNat (ofNat w v) = v % 256 ^ w := by
  induction w generalizing v with
  | zero => simp [ofNat, toNat, Nat.mod_one]
  | succ w ih =>
    rw [ofNat, toNat, ih, Nat.pow_succ, Nat.mul_comm (256 ^ w) 256, Nat.mod_mul]
    simp

/-- The bytes of a number are its bits, eight at a time. -/
theorem ofNat_eq (w v : Nat) :
    ofNat w v = (List.range w).map fun i => UInt8.ofNat (v >>> (8 * i)) := by
  induction w generalizing v with
  | zero => rfl
  | succ w ih =>
    rw [ofNat, ih, List.range_succ_eq_map, List.map_cons, List.map_map]
    congr 1
    refine List.map_congr_left fun i _ => ?_
    have hbyte : v / 256 = v >>> 8 := by simp [Nat.shiftRight_eq_div_pow]
    rw [hbyte, ← Nat.shiftRight_add, Function.comp_apply, Nat.mul_succ, Nat.add_comm]

end Bytes

namespace Scalar

theorem encode_eq (s : Scalar) (v : s.Value) :
    s.encode v = (List.range s.width).map fun i => UInt8.ofBitVec (v.extractLsb' (8 * i) 8) :=
  Bytes.ofNat_eq s.width v.toNat

/-- **A row lies in memory** as the bytes of its numbers, one behind the other. -/
theorem stored_eq (s : Scalar) (vs : List s.Value) : s.stored vs = vs.flatMap s.encode := by
  induction vs with
  | nil => simp [stored]
  | cons v vs ih =>
    have hw := s.width_pos
    have hrange : List.range ((vs.length + 1) * s.width) =
        List.range s.width ++ (List.range (vs.length * s.width)).map (s.width + ·) := by
      rw [Nat.succ_mul, Nat.add_comm, List.range_add]
    rw [List.flatMap_cons, ← ih, encode_eq, stored, stored]
    simp only [List.size_toArray, List.length_cons]
    rw [hrange, List.map_append, List.map_map]
    congr 1
    · refine List.map_congr_left fun i hi => ?_
      have hi : i < s.width := List.mem_range.1 hi
      simp [Nat.div_eq_of_lt hi, Nat.mod_eq_of_lt hi]
    · refine List.map_congr_left fun i _ => ?_
      simp [Nat.add_div_left i hw]

@[simp] theorem length_stored (s : Scalar) (vs : List s.Value) :
    (s.stored vs).length = vs.length * s.width := by
  simp [stored]

/-- **The bytes of a number spell it.** -/
@[simp] theorem decode_encode (s : Scalar) (v : s.Value) : s.decode (s.encode v) = v := by
  apply BitVec.eq_of_toNat_eq
  have h : v.toNat < 256 ^ s.width := by
    have := v.isLt
    rwa [Nat.pow_mul] at this
  simp [decode, encode, Bytes.toNat_ofNat, Nat.mod_eq_of_lt h]

/-- The bytes of a row of numbers spell the row. -/
theorem decodeMany_encode (s : Scalar) (vs : List s.Value) :
    s.decodeMany vs.length (vs.flatMap s.encode) = vs := by
  induction vs with
  | nil => rfl
  | cons v vs ih =>
    rw [List.flatMap_cons, List.length_cons, decodeMany, List.take_left' (length_encode s v),
      List.drop_left' (length_encode s v), decode_encode, ih]

end Scalar

/-! ## Variable length -/

/-- A number of a width folds into the same width. -/
theorem Varint.zigzag_lt {w : Nat} {v : Int} (hlo : -2 ^ w ≤ v) (hhi : v < 2 ^ w) :
    zigzag v < 2 ^ (w + 1) := by
  have hp : ((2 ^ w : Nat) : Int) = 2 ^ w := by norm_cast
  unfold zigzag
  rw [Nat.pow_succ]
  split <;> omega

/-- What is folded into a width unfolds into the same width. -/
theorem Varint.unzigzag_range {w n : Nat} (hw : 0 < w) (h : n < 2 ^ w) :
    -2 ^ (w - 1) ≤ unzigzag n ∧ unzigzag n < 2 ^ (w - 1) := by
  obtain ⟨m, rfl⟩ : ∃ m, w = m + 1 := ⟨w - 1, by omega⟩
  have hp : ((2 ^ m : Nat) : Int) = 2 ^ m := by norm_cast
  rw [Nat.add_sub_cancel]
  rw [Nat.pow_succ] at h
  unfold unzigzag
  split <;> omega

namespace VarNumber

theorem maxBytes_pos (t : VarNumber) : 0 < Varint.maxBytes t.bits := by cases t <;> decide

theorem lastBits_le (t : VarNumber) : Varint.lastBits t.bits ≤ 7 := by cases t <;> decide

/-- All groups but the last are full. -/
theorem bits_eq (t : VarNumber) :
    t.bits = 7 * (Varint.maxBytes t.bits - 1) + Varint.lastBits t.bits := by
  cases t <;> decide

theorem fold_lt (t : VarNumber) (v : t.Value) : t.fold v < 2 ^ t.bits := by
  have h : ∀ n, 0 < n → ∀ v : BitVec n, Varint.zigzag v.toInt < 2 ^ n := by
    intro n hn v
    obtain ⟨m, rfl⟩ : ∃ m, n = m + 1 := ⟨n - 1, by omega⟩
    have hlo := v.le_toInt
    have hhi := v.toInt_lt
    exact Varint.zigzag_lt (by simpa using hlo) (by simpa using hhi)
  unfold fold
  split
  · exact h _ (by cases t <;> decide) v
  · exact v.isLt

/-- What a number of the width is unfolded to folds to it. -/
theorem fold_unfold (t : VarNumber) {n : Nat} (hn : n < 2 ^ t.bits) : t.fold (t.unfold n) = n := by
  unfold fold unfold
  split
  · have hw : 0 < 8 * t.scalar.width := by have := t.scalar.width_pos; omega
    obtain ⟨hlo, hhi⟩ := Varint.unzigzag_range hw hn
    rw [BitVec.toInt_ofInt_eq_self hw hlo hhi, Varint.zigzag_unzigzag]
  · exact (BitVec.toNat_ofNat _ _).trans (Nat.mod_eq_of_lt hn)

end VarNumber

end GraphWire
