/-
  Text survives being written and read.

  * `Utf8.chars_encodeChar`: the bytes of a character are read as that character,
    whatever follows them;
  * `Utf8.decode_encode`: the bytes of a text spell it.
-/
import GraphWire.Bytes.Utf8

namespace GraphWire

namespace Utf8

/-! ## Characters by their width -/

section
variable {start : Nat} {b₀ b₁ b₂ b₃ : UInt8} (rest : Bytes)

theorem chars_of_width_one (hw : width b₀.toNat = 1) :
    chars start (b₀ :: rest) = (chars (start + 1) rest).map (Char.ofNat b₀.toNat :: ·) := by
  rw [chars.eq_def]
  simp [hw]

theorem chars_of_width_two (hw : width b₀.toNat = 2) (hs : isSecond b₀.toNat b₁.toNat = true) :
    chars start (b₀ :: b₁ :: rest) = (chars (start + 2) rest).map
      (Char.ofNat (b₀.toNat % 0x20 * 0x40 + b₁.toNat % 0x40) :: ·) := by
  rw [chars.eq_def]
  simp [hw, hs]

theorem chars_of_width_three (hw : width b₀.toNat = 3) (hs : isSecond b₀.toNat b₁.toNat = true)
    (ht : isTail b₂.toNat = true) :
    chars start (b₀ :: b₁ :: b₂ :: rest) = (chars (start + 3) rest).map
      (Char.ofNat (b₀.toNat % 0x10 * 0x1000 + b₁.toNat % 0x40 * 0x40 + b₂.toNat % 0x40) :: ·) := by
  rw [chars.eq_def]
  simp [hw, hs, ht]

theorem chars_of_width_four (hw : width b₀.toNat = 4) (hs : isSecond b₀.toNat b₁.toNat = true)
    (ht₂ : isTail b₂.toNat = true) (ht₃ : isTail b₃.toNat = true) :
    chars start (b₀ :: b₁ :: b₂ :: b₃ :: rest) = (chars (start + 4) rest).map
      (Char.ofNat (b₀.toNat % 0x08 * 0x40000 + b₁.toNat % 0x40 * 0x1000 + b₂.toNat % 0x40 * 0x40 +
        b₃.toNat % 0x40) :: ·) := by
  rw [chars.eq_def]
  simp [hw, hs, ht₂, ht₃]

end

/-! ## The bytes of a character -/

theorem toNat_ofNat_of_lt {n : Nat} (h : n < 256) : (UInt8.ofNat n).toNat = n := by
  rw [UInt8.toNat_ofNat']
  exact Nat.mod_eq_of_lt h

theorem isTail_add {n : Nat} (h : n < 0x40) : isTail (n + 0x80) = true := by
  simp [isTail]
  omega

/-- The bytes of a character are read as that character, whatever follows. -/
theorem chars_encodeChar (start : Nat) (c : Char) (rest : Bytes) :
    ∃ n, chars start (String.utf8EncodeChar c ++ rest) = (chars (start + n) rest).map (c :: ·) := by
  -- the number of a character is not that of a surrogate
  have hc : c.val.toNat < 0xD800 ∨ 0xDFFF < c.val.toNat ∧ c.val.toNat < 0x110000 := c.valid
  have hv : Char.ofNat c.val.toNat = c := Char.ofNat_toNat c
  unfold String.utf8EncodeChar
  simp only
  generalize c.val.toNat = v at hc hv
  subst hv
  split
  · next h₁ =>
    have h₀ := toNat_ofNat_of_lt (n := v) (by omega)
    have hw : width v = 1 := by
      unfold width
      rw [if_pos (by omega)]
    refine ⟨1, ?_⟩
    rw [List.singleton_append, chars_of_width_one rest (by rw [h₀, hw]), h₀]
  split
  · next h₂ =>
    have h₀ := toNat_ofNat_of_lt (n := v / 64 % 0x20 + 0xc0) (by omega)
    have h₁ := toNat_ofNat_of_lt (n := v % 0x40 + 0x80) (by omega)
    have hw : width (v / 64 % 0x20 + 0xc0) = 2 := by
      unfold width
      rw [if_neg (by omega), if_neg (by omega), if_pos (by omega)]
    have hs : isSecond (v / 64 % 0x20 + 0xc0) (v % 0x40 + 0x80) = true := by
      simp [isSecond, isTail]
      omega
    have hn : (v / 64 % 0x20 + 0xc0) % 0x20 * 0x40 + (v % 0x40 + 0x80) % 0x40 = v := by omega
    refine ⟨2, ?_⟩
    rw [List.cons_append, List.singleton_append,
      chars_of_width_two rest (by rw [h₀, hw]) (by rw [h₀, h₁, hs]), h₀, h₁, hn]
  split
  · next h₃ =>
    have h₀ := toNat_ofNat_of_lt (n := v / 4096 % 0x10 + 0xe0) (by omega)
    have h₁ := toNat_ofNat_of_lt (n := v / 64 % 0x40 + 0x80) (by omega)
    have h₂ := toNat_ofNat_of_lt (n := v % 0x40 + 0x80) (by omega)
    have hw : width (v / 4096 % 0x10 + 0xe0) = 3 := by
      unfold width
      rw [if_neg (by omega), if_neg (by omega), if_neg (by omega), if_pos (by omega)]
    have hs : isSecond (v / 4096 % 0x10 + 0xe0) (v / 64 % 0x40 + 0x80) = true := by
      simp [isSecond, isTail]
      omega
    have hn : (v / 4096 % 0x10 + 0xe0) % 0x10 * 0x1000 + (v / 64 % 0x40 + 0x80) % 0x40 * 0x40 +
        (v % 0x40 + 0x80) % 0x40 = v := by omega
    refine ⟨3, ?_⟩
    rw [List.cons_append, List.cons_append, List.singleton_append,
      chars_of_width_three rest (by rw [h₀, hw]) (by rw [h₀, h₁, hs])
        (by rw [h₂, isTail_add (by omega)]), h₀, h₁, h₂, hn]
  · have h₀ := toNat_ofNat_of_lt (n := v / 262144 % 0x08 + 0xf0) (by omega)
    have h₁ := toNat_ofNat_of_lt (n := v / 4096 % 0x40 + 0x80) (by omega)
    have h₂ := toNat_ofNat_of_lt (n := v / 64 % 0x40 + 0x80) (by omega)
    have h₃ := toNat_ofNat_of_lt (n := v % 0x40 + 0x80) (by omega)
    have hw : width (v / 262144 % 0x08 + 0xf0) = 4 := by
      unfold width
      rw [if_neg (by omega), if_neg (by omega), if_neg (by omega), if_neg (by omega),
        if_pos (by omega)]
    have hs : isSecond (v / 262144 % 0x08 + 0xf0) (v / 4096 % 0x40 + 0x80) = true := by
      simp [isSecond, isTail]
      omega
    have hn : (v / 262144 % 0x08 + 0xf0) % 0x08 * 0x40000 +
        (v / 4096 % 0x40 + 0x80) % 0x40 * 0x1000 + (v / 64 % 0x40 + 0x80) % 0x40 * 0x40 +
        (v % 0x40 + 0x80) % 0x40 = v := by omega
    refine ⟨4, ?_⟩
    rw [List.cons_append, List.cons_append, List.cons_append, List.singleton_append,
      chars_of_width_four rest (by rw [h₀, hw]) (by rw [h₀, h₁, hs])
        (by rw [h₂, isTail_add (by omega)]) (by rw [h₃, isTail_add (by omega)]), h₀, h₁, h₂, h₃, hn]

theorem chars_encode (start : Nat) (cs : List Char) :
    chars start (cs.flatMap String.utf8EncodeChar) = .ok cs := by
  induction cs generalizing start with
  | nil => rfl
  | cons c cs ih =>
    obtain ⟨n, hn⟩ := chars_encodeChar start c (cs.flatMap String.utf8EncodeChar)
    rw [List.flatMap_cons, hn, ih]
    rfl

/-- **The bytes of a text spell it.** -/
theorem decode_encode (s : String) : decode (encode s) = .ok s := by
  unfold decode encode
  rw [chars_encode]
  simp [Except.map]

end Utf8

end GraphWire
