/-
  The shortest form of what is read.

  A number of variable length may be read from more bytes than are written for it, and a
  truth value from any byte.  No item is read from fewer bytes than are written for it, nor
  than are written for a smaller number.

  * `Scan.Pays` says that a reading takes at least as many bytes as its result is worth, with
    a rule for each way to compose readings;
  * `Input.pays_var`, `Reading.pays_count`, `Reading.pays_leaf`: numbers, counts and leaves are
    worth the bytes that are written for them.
-/
import GraphWire.Proofs.Mirroring

namespace GraphWire

variable {α β : Type}

/-! ## Texts -/

namespace Utf8

/-- A number that is read as a character is not written longer than it is. -/
theorem length_encodeChar_ofNat_le (v : Nat) : (String.utf8EncodeChar (Char.ofNat v)).length ≤
    if v < 0x80 then 1 else if v < 0x800 then 2 else if v < 0x10000 then 3 else 4 := by
  have hv : (Char.ofNat v).toNat ≤ v := by
    unfold Char.ofNat
    by_cases hvalid : v.isValidChar
    · rw [dif_pos hvalid]
      exact le_rfl
    · rw [dif_neg hvalid]
      exact Nat.zero_le v
  change (Char.ofNat v).val.toNat ≤ v at hv
  unfold String.utf8EncodeChar
  simp only
  split_ifs <;> simp only [List.length_cons, List.length_nil] <;> omega

/-- The bytes of a character and what follows, if both are not longer than what they are
    read from. -/
theorem length_cons_chars {start w v : Nat} {rest : Bytes} {cs : List Char}
    (ih : ∀ cs, chars start rest = .ok cs → (cs.flatMap String.utf8EncodeChar).length ≤ rest.length)
    (hw : (String.utf8EncodeChar (Char.ofNat v)).length ≤ w)
    (h : (chars start rest).map (Char.ofNat v :: ·) = .ok cs) :
    (cs.flatMap String.utf8EncodeChar).length ≤ rest.length + w := by
  cases hc : chars start rest with
  | error fault =>
    rw [hc] at h
    cases h
  | ok cs' =>
    rw [hc] at h
    cases h
    have := ih cs' hc
    rw [List.flatMap_cons, List.length_append]
    omega

theorem length_chars_le (start : Nat) (bs : Bytes) : ∀ cs, chars start bs = .ok cs →
    (cs.flatMap String.utf8EncodeChar).length ≤ bs.length := by
  fun_induction chars start bs with
  | case1 start =>
    rintro _ ⟨⟩
    exact le_rfl
  | case2 start b₀ r₀ a hw ih =>
    intro cs h
    refine length_cons_chars ih (w := 1) ?_ h
    have ha : a < 0x80 := by
      unfold width at hw
      split_ifs at hw <;> omega
    simpa [ha] using length_encodeChar_ofNat_le a
  | case6 start b₀ a _ _ b₁ r₁ b _ hw ih =>
    intro cs h
    refine length_cons_chars ih (w := 2) ?_ h
    have := length_encodeChar_ofNat_le (a % 0x20 * 0x40 + b % 0x40)
    split_ifs at this <;> omega
  | case9 start b₀ a _ _ b₁ b _ _ b₂ r₂ c _ hw ih =>
    intro cs h
    refine length_cons_chars ih (w := 3) ?_ h
    have := length_encodeChar_ofNat_le (a % 0x10 * 0x1000 + b % 0x40 * 0x40 + c % 0x40)
    split_ifs at this <;> omega
  | case12 start b₀ a _ _ b₁ b _ _ b₂ c _ _ b₃ r₃ d _ ih =>
    intro cs h
    refine length_cons_chars ih (w := 4) ?_ h
    refine (length_encodeChar_ofNat_le _).trans ?_
    split_ifs <;> omega
  | _ => rintro _ ⟨⟩

/-- **A text is not written longer than it is read.** -/
theorem length_encode_le {bs : Bytes} {s : String} (h : decode bs = .ok s) :
    (encode s).length ≤ bs.length := by
  unfold decode at h
  cases hc : chars 0 bs with
  | error fault =>
    rw [hc] at h
    cases h
  | ok cs =>
    rw [hc] at h
    cases h
    simpa [encode] using length_chars_le 0 bs cs hc

end Utf8

/-! ## Numbers -/

namespace Varint

theorem length_groups_mono (n : Nat) {v w : Nat} (h : v ≤ w) :
    (groups n v).length ≤ (groups n w).length := by
  induction n generalizing v w with
  | zero => exact le_rfl
  | succ n ih =>
    unfold groups
    split_ifs with hv hw
    · exact le_rfl
    · simp
    · omega
    · simpa using ih (Nat.div_le_div_right h)

theorem length_groups_succ_le (n v : Nat) :
    (groups (n + 1) v).length ≤ 1 + (groups n (v / 128)).length := by
  rw [groups]
  split
  · simp
  · rw [List.length_cons, Nat.add_comm]

end Varint

namespace VarNumber

/-- What a natural number is unfolded to does not fold to a greater one. -/
theorem fold_unfold_le (t : VarNumber) (n : Nat) : t.fold (t.unfold n) ≤ n := by
  by_cases hn : n < 2 ^ t.bits
  · exact (t.fold_unfold hn).le
  · exact (t.fold_lt _).le.trans (Nat.le_of_not_lt hn)

/-- A number that folds to a smaller one is not written longer. -/
theorem length_encode_mono (native : Bool) (t : VarNumber) {v w : t.Value}
    (h : t.fold v ≤ t.fold w) : (t.encode native v).length ≤ (t.encode native w).length := by
  unfold encode
  split
  · simp
  · exact Varint.length_groups_mono _ h

end VarNumber

theorem countBytes_toNat (native : Bool) (v : VarNumber.u32.Value) :
    countBytes native v.toNat = VarNumber.encode native .u32 v := by
  show VarNumber.encode native .u32 (BitVec.ofNat _ v.toNat) = _
  rw [BitVec.ofNat_toNat, BitVec.setWidth_eq]

theorem length_countBytes_mono (native : Bool) {m n : Nat} (h : m ≤ n) (hn : n < 2 ^ 32) :
    (countBytes native m).length ≤ (countBytes native n).length := by
  refine VarNumber.length_encode_mono native .u32 ?_
  show (BitVec.ofNat 32 m).toNat ≤ (BitVec.ofNat 32 n).toNat
  rw [BitVec.toNat_ofNat, BitVec.toNat_ofNat, Nat.mod_eq_of_lt hn]
  exact (Nat.mod_le _ _).trans h

/-! ## Readings that pay -/

/-- Whether an input is all in memory, in a layout. -/
structure Input.Held (native : Bool) (i : Input) : Prop where
  source : i.source = none
  layout : i.native = native

/-- Whether an input is left without the first so many of the bytes that it had. -/
structure Input.Spends (i : Input) (n : Nat) (i' : Input) : Prop where
  le : n ≤ i.unread.length
  eq : i' = i.advance n

namespace Input

variable {i i₁ i' : Input} {m n : Nat}

theorem held_ofBytes (bs : Bytes) (native : Bool) :
    Held native ((ofBytes bs).withLayout native) := ⟨rfl, rfl⟩

theorem Held.spends {native : Bool} (hi : i.Held native) (hs : i.Spends n i') :
    i'.Held native := by
  rw [hs.eq]
  exact ⟨hi.source, hi.layout⟩

theorem Spends.refl (i : Input) : i.Spends 0 i := ⟨Nat.zero_le _, rfl⟩

theorem Spends.trans (h₁ : i.Spends m i₁) (h₂ : i₁.Spends n i') : i.Spends (m + n) i' := by
  obtain ⟨hm, rfl⟩ := h₁
  obtain ⟨hn, rfl⟩ := h₂
  rw [advance, List.length_drop] at hn
  exact ⟨by omega, advance_advance i m n⟩

end Input

/-- Whether a reading takes at least as many bytes as its result is worth. -/
def Scan.Pays (native : Bool) (x : Scan α) (worth : α → Nat) : Prop :=
  ∀ (i : Input) (a : α) (i' : Input), i.Held native → x i = .ok a i' →
    ∃ n, worth a ≤ n ∧ i.Spends n i'

namespace Scan

variable {native : Bool} {x : Scan α} {worth : α → Nat} {worth' : β → Nat}

theorem Pays.pure {a : α} (h : worth a = 0) : Pays native (pure a) worth := by
  intro i a' i' _ hx
  cases hx
  exact ⟨0, h.le, .refl i⟩

theorem Pays.throw (e : Error) : Pays native (throw e : Scan α) worth := by
  intro i a i' _ hx
  cases hx

theorem Pays.bind {f : α → Scan β} (hx : Pays native x worth)
    (hf : ∀ a, Pays native (f a) fun b => worth' b - worth a) :
    Pays native (x >>= f) worth' := by
  intro i b i' hi h
  obtain ⟨a, i₁, h₁, h₂⟩ := bind_eq_ok.1 h
  obtain ⟨m, hm, hspent⟩ := hx i a i₁ hi h₁
  obtain ⟨n, hn, hspent'⟩ := hf a i₁ b i' (hi.spends hspent) h₂
  exact ⟨m + n, (Nat.sub_le_iff_le_add'.1 hn).trans (Nat.add_le_add_right hm n),
    hspent.trans hspent'⟩

theorem Pays.map (f : α → β) (hx : Pays native x fun a => worth' (f a)) :
    Pays native (f <$> x) worth' := by
  intro i b i' hi h
  obtain ⟨a, h₁, rfl⟩ := map_eq_ok.1 h
  exact hx i a i' hi h₁

theorem Pays.attempt {y : Except Error α} (h : ∀ a, worth a = 0) :
    Pays native (attempt y) worth := by
  cases y with
  | ok a => exact .pure (h a)
  | error err => exact .throw err

/-- A reading that looks at the layout first. -/
theorem Pays.layout {f : Input → Scan α} {y : Scan α} (h : ∀ i : Input, i.native = native → f i = y)
    (hy : Pays native y worth) : Pays native (get >>= f) worth := by
  intro i a i' hi hx
  rw [get_bind, h i hi.layout] at hx
  exact hy i a i' hi hx

end Scan

namespace Input

open Scan

variable {native : Bool}

theorem pays_take (n : Nat) : Pays native (take n) fun _ => n := by
  intro i bs i' hi h
  obtain ⟨_, i₁, h₁, h₂⟩ := bind_eq_ok.1 h
  obtain ⟨hle, rfl⟩ := ensureBuffered_eq_ok hi.source h₁
  cases h₂
  exact ⟨n, le_rfl, hle, rfl⟩

theorem pays_byte : Pays native byte fun _ => 1 :=
  (pays_take 1).bind fun _ => .pure rfl

theorem pays_bool : Pays native bool fun _ => 1 := pays_byte.bind fun _ => .pure rfl

theorem pays_octet : Pays native octet fun _ => 1 := pays_byte.bind fun _ => .pure rfl

theorem pays_scalar (s : Scalar) : Pays native (scalar s) fun v => (s.encode v).length :=
  (pays_take s.width).bind fun _ => .pure (by simp)

/-- Groups that are read are at least as many as are written. -/
theorem pays_varGroups (bits n : Nat) :
    Pays native (varGroups bits (n + 1)) fun v => (Varint.groups n v).length := by
  induction n with
  | zero =>
    unfold varGroups
    refine pays_byte.bind fun b => ?_
    split
    · exact .throw _
    split
    · exact .pure rfl
    · exact (Pays.throw _ : Pays native _ fun _ => 0).bind fun _ => .pure rfl
  | succ n ih =>
    unfold varGroups
    refine pays_byte.bind fun b => ?_
    split
    · exact .throw _
    split
    · next hb => exact .pure (by simp [Varint.groups, hb])
    refine ih.bind fun v => .pure ?_
    have hle := Varint.length_groups_succ_le n (b.toNat % 128 + 128 * v)
    rw [show (b.toNat % 128 + 128 * v) / 128 = v by omega] at hle
    omega

/-- **A number is worth the bytes that are written for it.** -/
theorem pays_var (t : VarNumber) : Pays native (var t) fun v => (t.encode native v).length := by
  cases native with
  | true => exact .layout (y := scalar t.scalar) (fun i hi => by simp [hi]) (pays_scalar _)
  | false =>
    refine .layout (y := varGroups t.bits (Varint.maxBytes t.bits) >>= fun n =>
      pure (t.unfold n)) (fun i hi => by simp [hi]) ?_
    have hg := @pays_varGroups false t.bits (Varint.maxBytes t.bits - 1)
    rw [Nat.sub_add_cancel t.maxBytes_pos] at hg
    refine hg.bind fun n => .pure (Nat.sub_eq_zero_of_le ?_)
    exact Varint.length_groups_mono _ (t.fold_unfold_le n)

/-- A text is read after its length, which is no less than that of what is written for it. -/
theorem string_eq_ok {i i' : Input} {s : String} (hi : i.Held native)
    (h : string i = .ok s i') : ∃ n i₁, var .u32 i = .ok n i₁ ∧
      (Utf8.encode s).length ≤ n.toNat ∧ i₁.Spends n.toNat i' := by
  obtain ⟨n, i₁, h₁, h⟩ := bind_eq_ok.1 h
  obtain ⟨bs, i₂, h₂, h⟩ := bind_eq_ok.1 h
  obtain ⟨k, -, hspent⟩ := pays_var .u32 i n i₁ hi h₁
  have hle := bytes_eq_ok (hi.spends hspent).source h₂
  unfold bytes at h₂
  rw [transfer_of_le hle] at h₂
  cases h₂
  cases hd : Utf8.decode (i₁.unread.take n.toNat) with
  | error fault =>
    rw [hd] at h
    cases h
  | ok t =>
    rw [hd] at h
    cases h
    exact ⟨n, i₁, h₁, (Utf8.length_encode_le hd).trans (List.length_take_le _ _), hle, rfl⟩

theorem pays_string : Pays native string fun s => ((Item.string s).encode native).length := by
  intro i s i' hi h
  obtain ⟨n, i₁, h₁, hlen, hspent'⟩ := string_eq_ok hi h
  obtain ⟨k, hk, hspent⟩ := pays_var .u32 i n i₁ hi h₁
  refine ⟨k + n.toNat, ?_, hspent.trans hspent'⟩
  have hcount : (countBytes native (Utf8.encode s).length).length ≤
      (countBytes native n.toNat).length := length_countBytes_mono native hlen n.isLt
  rw [countBytes_toNat] at hcount
  show (countBytes native (Utf8.encode s).length ++ Utf8.encode s).length ≤ _
  rw [List.length_append]
  exact Nat.add_le_add (hcount.trans hk) hlen

end Input

namespace Reading

open Scan

variable {native : Bool} {i i' : Input}

/-- **A count is worth the bytes that are written for it.** -/
theorem pays_count : Pays native (BitVec.toNat <$> Input.var .u32) fun m =>
    (countBytes native m).length := by
  refine .map _ ?_
  simp only [countBytes_toNat]
  exact Input.pays_var .u32

theorem lt_of_count {m : Nat} (h : (BitVec.toNat <$> Input.var .u32) i = .ok m i') :
    m < 2 ^ 32 := by
  obtain ⟨v, -, rfl⟩ := map_eq_ok.1 h
  exact v.isLt

/-- **A leaf is worth the bytes that are written for it.** -/
theorem pays_leaf (type : LeafType) :
    Pays native (leaf type) fun a => (a.toItem.encode native).length := by
  cases type with
  | bool => exact .map Leaf.bool Input.pays_bool
  | i8 => exact .map Leaf.i8 Input.pays_octet
  | i16 => exact .map Leaf.i16 (Input.pays_scalar .i16)
  | i32 => exact .map Leaf.i32 (Input.pays_var .i32)
  | i64 => exact .map Leaf.i64 (Input.pays_var .i64)
  | f32 => exact .map Leaf.f32 (Input.pays_scalar .f32)
  | f64 => exact .map Leaf.f64 (Input.pays_scalar .f64)
  | string => exact .map Leaf.string Input.pays_string

/-- The length of a text that is read has 32 bits. -/
theorem small_of_leaf {type : LeafType} {a : Leaf} (hi : i.Held native)
    (h : leaf type i = .ok a i') : (Node.leaf a).Small := by
  rintro t rfl
  obtain rfl : type = .string := (type_of_leaf h).symm
  obtain ⟨s, h₁, hst⟩ := map_eq_ok.1 h
  cases hst
  obtain ⟨n, _, -, hlen, -⟩ := Input.string_eq_ok hi h₁
  exact hlen.trans_lt n.isLt

end Reading

end GraphWire
