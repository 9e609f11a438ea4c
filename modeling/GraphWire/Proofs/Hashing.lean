/-
  Equal keys and their hashes.

  What enters the hash of a value agrees with equality in all but one case: floats compare as
  numbers and are hashed by their bits, so the two zeros of a float type are equal and hash
  apart.

  * `Leaf.hashBytes_eq_or`: leaves that are equal hash alike, or are opposite zeros;
  * `Heap.exists_equalObjects`: values that are equal are one, or their objects compare equal,
    whatever leads into cycles or is being inserted into;
  * `Heap.hashInput_of_equal`: so this case is the only one in which equal keys hash apart, and
    the only one in which a stored key is missed.
-/
import GraphWire.Proofs.Equality
import Mathlib.Algebra.Group.Nat.Defs

namespace GraphWire

/-! ## Zeros -/

/-- Whether two leaves are the two zeros of a float type. -/
inductive Leaf.OppositeZeros : Leaf → Leaf → Prop
  | f32 : OppositeZeros (.f32 0) (.f32 0x80000000)
  | f32_neg : OppositeZeros (.f32 0x80000000) (.f32 0)
  | f64 : OppositeZeros (.f64 0) (.f64 0x8000000000000000)
  | f64_neg : OppositeZeros (.f64 0x8000000000000000) (.f64 0)

/-- Without a magnitude there are two floats, one of either sign. -/
theorem eq_or_of_magnitude {w : Nat} {a : BitVec (w + 1)} (h : (a.setWidth w).toNat = 0) :
    a = 0 ∨ a = BitVec.ofNat (w + 1) (2 ^ w) := by
  obtain ⟨n, hn⟩ : 2 ^ w ∣ a.toNat := Nat.dvd_of_mod_eq_zero (by rwa [← BitVec.toNat_setWidth])
  have htwo : n < 2 := by
    have hlt := a.isLt
    rw [hn, Nat.pow_succ] at hlt
    exact Nat.lt_of_mul_lt_mul_left hlt
  rcases Nat.le_one_iff_eq_zero_or_eq_one.1 (Nat.le_of_lt_succ htwo) with rfl | rfl
  · exact Or.inl (BitVec.eq_of_toNat_eq (by simpa using hn))
  · refine Or.inr (BitVec.eq_of_toNat_eq ?_)
    rw [hn, BitVec.toNat_ofNat, Nat.mul_one, Nat.mod_eq_of_lt (Nat.pow_lt_pow_succ (by decide))]

/-- Floats that are equal have the same bits, or are the two without a magnitude. -/
theorem eq_or_of_equalFloats {w infinity : Nat} {a b : BitVec (w + 1)}
    (h : equalFloats infinity a b = true) : a = b ∨
      (a = 0 ∧ b = BitVec.ofNat (w + 1) (2 ^ w)) ∨ (a = BitVec.ofNat (w + 1) (2 ^ w) ∧ b = 0) := by
  simp only [equalFloats, Bool.and_eq_true, Bool.or_eq_true, beq_iff_eq] at h
  rcases h.2 with heq | ⟨ha, hb⟩
  · exact Or.inl heq
  rcases eq_or_of_magnitude ha with rfl | rfl <;> rcases eq_or_of_magnitude hb with rfl | rfl
  · exact Or.inl rfl
  · exact Or.inr (Or.inl ⟨rfl, rfl⟩)
  · exact Or.inr (Or.inr ⟨rfl, rfl⟩)
  · exact Or.inl rfl

namespace Leaf

variable {a b : Leaf}

theorem OppositeZeros.equal (h : a.OppositeZeros b) : a.equal b = true := by
  cases h <;> decide

theorem OppositeZeros.hashBytes_ne (h : a.OppositeZeros b) : a.hashBytes ≠ b.hashBytes := by
  cases h <;> decide

/-- **Leaves that are equal hash alike**, or are opposite zeros. -/
theorem hashBytes_eq_or (h : a.equal b = true) : a.hashBytes = b.hashBytes ∨ a.OppositeZeros b := by
  rcases eq_or_of_equal h with rfl | ⟨x, y, rfl, rfl, he⟩ | ⟨x, y, rfl, rfl, he⟩
  · exact Or.inl rfl
  · rcases eq_or_of_equalFloats he with rfl | ⟨rfl, rfl⟩ | ⟨rfl, rfl⟩
    · exact Or.inl rfl
    · exact Or.inr .f32
    · exact Or.inr .f32_neg
  · rcases eq_or_of_equalFloats he with rfl | ⟨rfl, rfl⟩ | ⟨rfl, rfl⟩
    · exact Or.inl rfl
    · exact Or.inr .f64
    · exact Or.inr .f64_neg

end Leaf

/-! ## Keys -/

namespace Heap

variable {h : Heap} {busy : Option ObjId} {v w : Value} {o p : ObjId}

/-- Whether two values are the two zeros of a float type. -/
inductive OppositeZeros (h : Heap) : Value → Value → Prop
  | mk {o p : ObjId} {a b : Leaf} : h.node o = .leaf a → h.node p = .leaf b →
      a.OppositeZeros b → OppositeZeros h (some o) (some p)

/-- Objects that are equal are one, or compare equal however deep their parts are looked at. -/
theorem exists_equalObjects (he : h.equal busy (some o) (some p) = true) :
    o = p ∨ ∃ eq, h.equalObjects busy eq o p = true := by
  obtain ⟨n, hn⟩ := h.depthBound_pos
  rw [equal, hn, equalTo, Bool.or_eq_true, beq_iff_eq] at he
  exact he.imp_right fun he => ⟨_, he⟩

theorem OppositeZeros.equal (hz : h.OppositeZeros v w) : h.equal busy v w = true := by
  obtain ⟨ha, hb, hz⟩ := hz
  rw [equal_some (heightLe_of_leaf ha), Bool.or_eq_true]
  refine Or.inr ?_
  unfold equalObjects
  rw [ha, hb]
  exact hz.equal

theorem OppositeZeros.hashInput_ne (hz : h.OppositeZeros v w) : h.hashInput v ≠ h.hashInput w := by
  obtain ⟨ha, hb, hz⟩ := hz
  simpa [hashInput, ha, hb] using hz.hashBytes_ne

/-- Objects that compare equal hash alike, or are opposite zeros. -/
theorem hashInput_eq_or_of_equalObjects {eq : Value → Value → Bool}
    (he : h.equalObjects busy eq o p = true) :
    h.hashInput (some o) = h.hashInput (some p) ∨ h.OppositeZeros (some o) (some p) := by
  unfold equalObjects at he
  split at he
  · next a b ha hb =>
    refine (Leaf.hashBytes_eq_or he).imp (fun he => ?_) fun hz => .mk ha hb hz
    simp only [hashInput, ha, hb, he]
  · next a b ha hb =>
    refine Or.inl ?_
    simp only [hashInput, ha, hb, beq_iff_eq.1 he]
  · next c d hc hd =>
    rw [Bool.and_eq_true] at he
    exact Or.inl (hashInput_eq_of_type hc hd (equalContainers_iff.1 he.2).1)
  · next fs gs hf hg =>
    refine Or.inl ?_
    simp only [hashInput, hf, hg]
  · cases he

/-- **Values that are equal hash alike**, or are opposite zeros. -/
theorem hashInput_eq_or (he : h.equal busy v w = true) :
    h.hashInput v = h.hashInput w ∨ h.OppositeZeros v w := by
  cases v with
  | none =>
    rw [equal_none_left.1 he]
    exact Or.inl rfl
  | some o =>
    cases w with
    | none => cases equal_none_right.1 he
    | some p =>
      rcases exists_equalObjects he with rfl | ⟨eq, he⟩
      · exact Or.inl rfl
      · exact hashInput_eq_or_of_equalObjects he

theorem sameKey_eq_false_iff : h.sameKey busy v w = false ↔
    (h.equal busy v w = true → h.OppositeZeros v w) := by
  rw [← Bool.not_eq_true, sameKey_iff]
  constructor
  · intro hne he
    exact (hashInput_eq_or he).resolve_left fun hh => hne ⟨he, hh⟩
  · rintro hz ⟨he, hh⟩
    exact (hz he).hashInput_ne hh

/-- Keys are missed in a list that are equal to none, opposite zeros apart. -/
theorem entriesFind?_eq_none_iff {α : Type} {l : List (Value × α)} :
    Entries.find? (h.sameKey busy v) l = none ↔
      ∀ e ∈ l, h.equal busy v e.1 = true → h.OppositeZeros v e.1 := by
  rw [Entries.find?_eq_none_iff]
  exact forall₂_congr fun e _ => sameKey_eq_false_iff

theorem find?_eq_none_iff : h.find? o v = none ↔
    ∀ e ∈ h.entries o, h.equal none v e.1 = true → h.OppositeZeros v e.1 := by
  unfold find? container? entries
  cases h.node o with
  | container c =>
    show c.find? (h.sameKey none v) = none ↔ _
    rw [Container.find?_eq, entriesFind?_eq_none_iff]
  | leaf | octet | record => exact iff_of_true rfl (by simp)

theorem fst_insert_eq_none_iff : (h.insert o v w).1 = none ↔
    ∀ e ∈ h.entries o, h.equal (some o) v e.1 = true → h.OppositeZeros v e.1 := by
  unfold insert entries
  cases h.node o with
  | container c =>
    show (c.insert (h.sameKey (some o) v) v w).1 = none ↔ _
    rw [Container.fst_insert, Container.find?_eq, entriesFind?_eq_none_iff]
  | leaf | octet | record => exact iff_of_true rfl (by simp)

/-- **Equal keys hash alike unless they are opposite zeros**, and these are equal and hash apart,
    whatever container is being inserted into.  So a look-up misses the keys of a container iff
    none is equal but opposite zeros, and an insertion replaces no value iff none is. -/
theorem hashInput_of_equal (h : Heap) (busy : Option ObjId) (v w : Value) :
    (h.equal busy v w = true → (h.hashInput v = h.hashInput w ↔ ¬h.OppositeZeros v w)) ∧
    (h.OppositeZeros v w → h.equal busy v w = true ∧ h.hashInput v ≠ h.hashInput w) ∧
    ∀ o, (h.find? o v = none ↔
        ∀ e ∈ h.entries o, h.equal none v e.1 = true → h.OppositeZeros v e.1) ∧
      ((h.insert o v w).1 = none ↔
        ∀ e ∈ h.entries o, h.equal (some o) v e.1 = true → h.OppositeZeros v e.1) :=
  ⟨fun he => ⟨fun hh hz => hz.hashInput_ne hh, (hashInput_eq_or he).resolve_right⟩,
    fun hz => ⟨hz.equal, hz.hashInput_ne⟩, fun _ => ⟨find?_eq_none_iff, fst_insert_eq_none_iff⟩⟩

/-- The zeros of a float type, and a container with the positive one as its key. -/
def zeros : Heap := ⟨#[.leaf (.f32 0), .leaf (.f32 0x80000000),
  .container (.linked { order := [(some 0, none)], index := ⟨[(some 0, 0)]⟩ })]⟩

/-- The container is asked for the negative zero, which is equal to its key, and misses it. -/
theorem hashInput_of_equal_zeros : zeros.equal none (some 1) (some 0) = true ∧
    zeros.hashInput (some 1) ≠ zeros.hashInput (some 0) ∧ zeros.find? 2 (some 1) = none := by
  have hzeros : zeros.OppositeZeros (some 1) (some 0) := .mk rfl rfl .f32_neg
  obtain ⟨-, hequal, hfind⟩ := hashInput_of_equal zeros none (some 1) (some 0)
  obtain ⟨hequal, hhash⟩ := hequal hzeros
  refine ⟨hequal, hhash, (hfind 2).1.2 fun e he _ => ?_⟩
  obtain rfl : e = (some 0, none) := List.mem_singleton.1 he
  exact hzeros

/-- Values may be equal without hashing alike. -/
theorem hashInput_ne_of_zeros : ¬∀ (h : Heap) (busy : Option ObjId) (v w : Value),
    h.equal busy v w = true → h.hashInput v = h.hashInput w := by
  intro hall
  have hsame := hall zeros none (some 0) (some 1) (by decide +kernel)
  revert hsame
  decide

end Heap

end GraphWire
