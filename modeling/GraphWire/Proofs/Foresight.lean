/-
  Foresight: whether a number can be read from what is buffered.

  The test looks for a closed group among as many buffered bytes as the width takes, or counts
  the bytes of a fixed width.  It is made apart from the reading, and yet tells what the
  reading will do before its source is asked.

  * `Input.varGroups_of_closed`: up to a closed group, groups are read from the buffer,
    whatever the source;
  * `Input.varGroups_ne_ok_of_open`: and without a source they are read up to one only;
  * `Input.canReadVar_foretells`: so the test foretells the reading.
-/
import GraphWire.Proofs.Words

namespace GraphWire

namespace Varint

/-- Among the bytes that may be groups one is closed, or none is. -/
theorem closed_or_open (n : Nat) (bs : Bytes) :
    (∃ front last rest, bs = front ++ last :: rest ∧ Open front ∧ last.toNat < 128 ∧
      front.length ≤ n) ∨ Open (bs.take (n + 1)) := by
  rcases parts_or (Nat.le_refl 7) n bs with
    ⟨front, last, rest, hbs, hopen, hlast, hlen, -⟩ | ⟨hopen, -⟩ |
    ⟨front, last, rest, rfl, hopen, rfl, hlast⟩
  · exact Or.inl ⟨front, last, rest, hbs, hopen, hlast, hlen⟩
  · exact Or.inr fun b hb => hopen b (List.mem_of_mem_take hb)
  · refine Or.inr fun b hb => ?_
    have htake : (front ++ last :: rest).take (front.length + 1) = front ++ [last] := by
      rw [List.take_length_add_append, List.take_succ_cons, List.take_zero]
    rw [htake, List.mem_append, List.mem_singleton] at hb
    rcases hb with hb | rfl
    · exact hopen b hb
    · exact hlast

theorem any_closed_iff (bs : Bytes) : bs.any (·.toNat < 128) = true ↔ ¬Open bs := by
  simp [Open]

end Varint

namespace Input

open Varint

variable {i i' : Input} {n bits : Nat} {b last : UInt8} {bs front rest : Bytes}

/-! ## From the buffer -/

/-- The source is not asked for bytes that are buffered. -/
theorem take_of_le (h : n ≤ i.unread.length) : take n i = .ok (i.unread.take n) (i.advance n) := by
  unfold take
  rw [bind_of_ok (ensureBuffered_of_le h)]
  rfl

theorem byte_of_cons (h : i.unread = b :: bs) : byte i = .ok b (i.advance 1) := by
  have htake := take_of_le (i := i) (n := 1) (by simp [h])
  rw [h] at htake
  unfold byte
  rw [bind_of_ok htake]
  rfl

/-- Without a source a byte is read only if it is buffered. -/
theorem byte_eq_ok (hs : i.source = none) (h : byte i = .ok b i') :
    ∃ bs, i.unread = b :: bs ∧ i' = i.advance 1 := by
  obtain ⟨taken, i₁, htake, hpure⟩ := bind_eq_ok.1 h
  obtain ⟨_, i₂, hbuffered, -⟩ := bind_eq_ok.1 htake
  have hlen := (ensureBuffered_eq_ok hs hbuffered).1
  cases hu : i.unread with
  | nil => simp [hu] at hlen
  | cons c bs =>
    rw [byte_of_cons hu] at h
    cases h
    exact ⟨bs, rfl, rfl⟩

/-! ## Groups -/

/-- After an open group the others are read from behind it. -/
theorem varGroups_cons (hu : i.unread = b :: bs) (hb : 128 ≤ b.toNat) (bits n : Nat) :
    varGroups bits (n + 2) i =
      ((fun v => b.toNat % 128 + 128 * v) <$> varGroups bits (n + 1)) (i.advance 1) := by
  rw [varGroups, bind_of_ok (byte_of_cons hu), if_neg (by simp), if_neg (by omega),
    map_eq_pure_bind]

/-- **Up to a closed group** all groups are read from the buffer; only what the last of them
    holds may be too much. -/
theorem varGroups_of_closed (bits : Nat) (hu : i.unread = front ++ last :: rest)
    (hopen : Open front) (hlast : last.toNat < 128) (hlen : front.length ≤ n) :
    varGroups bits (n + 1) i =
      if front.length = n ∧ last.toNat >>> lastBits bits ≠ 0 then
        .error (.varintOverflow bits) (i.advance (front.length + 1))
      else .ok (value (front ++ [last])) (i.advance (front.length + 1)) := by
  induction front generalizing i n with
  | nil =>
    rw [varGroups, bind_of_ok (byte_of_cons hu), if_pos hlast]
    simp only [List.length_nil, @eq_comm Nat 0 n]
    split
    · rfl
    · simp [value, Nat.mod_eq_of_lt hlast]
  | cons b front ih =>
    obtain ⟨hb, hopen⟩ := open_cons.1 hopen
    obtain ⟨n, rfl⟩ : ∃ m, n = m + 1 := ⟨n - 1, by simp at hlen; omega⟩
    have hrest : (i.advance 1).unread = front ++ last :: rest := by simp [advance, hu]
    have hmore := ih hrest hopen (Nat.le_of_succ_le_succ hlen)
    rw [advance_advance, Nat.add_comm 1] at hmore
    rw [varGroups_cons hu hb, List.length_cons]
    simp only [Nat.succ_inj]
    split at hmore
    · next hover => rw [if_pos hover, map_eq_error.2 hmore]
    · next hfit => rw [if_neg hfit, map_of_ok hmore, List.cons_append, value_cons]

/-- **Where no group is closed** among those that may follow, no number is read. -/
theorem varGroups_ne_ok_of_open (hs : i.source = none) (ho : Open (i.unread.take n)) (v : Nat) :
    varGroups bits n i ≠ .ok v i' := by
  induction n generalizing i i' v with
  | zero => nofun
  | succ n ih =>
    intro h
    rw [varGroups] at h
    obtain ⟨b, i₁, hbyte, h⟩ := bind_eq_ok.1 h
    obtain ⟨bs, hu, rfl⟩ := byte_eq_ok hs hbyte
    rw [hu, List.take_succ_cons] at ho
    obtain ⟨hb, ho⟩ := open_cons.1 ho
    have hrest : (i.advance 1).unread = bs := by simp [advance, hu]
    split at h
    · cases h
    rw [if_neg (by omega)] at h
    obtain ⟨w, i₂, hmore, -⟩ := bind_eq_ok.1 h
    rw [← hrest] at ho
    exact ih (i := i.advance 1) hs ho w hmore

/-! ## Numbers -/

theorem var_eq_scalar {t : VarNumber} (hn : i.native = true) : var t i = scalar t.scalar i := by
  unfold var
  rw [get_bind, hn]
  rfl

theorem scalar_of_le {s : Scalar} (h : s.width ≤ i.unread.length) :
    scalar s i = .ok (s.decode (i.unread.take s.width)) (i.advance s.width) := by
  unfold scalar
  rw [bind_of_ok (take_of_le h)]
  rfl

theorem le_of_scalar {s : Scalar} {v : s.Value} (hs : i.source = none)
    (h : scalar s i = .ok v i') : s.width ≤ i.unread.length := by
  obtain ⟨bs, i₁, htake, -⟩ := bind_eq_ok.1 h
  obtain ⟨_, i₂, hbuffered, -⟩ := bind_eq_ok.1 htake
  exact (ensureBuffered_eq_ok hs hbuffered).1

/-! ## The test -/

variable {t u : VarNumber}

theorem canReadVar_of_native (hn : i.native = true) :
    i.canReadVar t = true ↔ t.scalar.width ≤ i.unread.length := by
  rw [canReadVar, if_pos hn, holds, hasLength_iff]

theorem canReadVar_of_compact (hn : i.native = false) :
    i.canReadVar t = true ↔ ¬Open (i.unread.take (maxBytes t.bits)) := by
  rw [canReadVar, if_neg (by simp [hn]), any_closed_iff]

/-- The test looks at the width only, not at the sign. -/
theorem canReadVar_congr (h : u.bits = t.bits) : i.canReadVar u = i.canReadVar t := by
  have hwidth : u.scalar.width = t.scalar.width := by
    unfold VarNumber.bits at h
    omega
  rw [canReadVar, canReadVar, hwidth, h]

/-- The same input with another source, or with none. -/
def withSource (i : Input) (source : Option Source) : Input := { i with source }

@[simp] theorem unread_withSource (source : Option Source) :
    (i.withSource source).unread = i.unread := rfl

/-- Where the test succeeds, the source makes no difference to the reading, and none is made
    to it. -/
theorem var_of_canReadVar (h : i.canReadVar t = true) : ∃ k ≤ i.unread.length,
    (∃ v, ∀ source, var t (i.withSource source) = .ok v ((i.withSource source).advance k)) ∨
    i.native = false ∧ ∀ source, var t (i.withSource source) =
      .error (.varintOverflow t.bits) ((i.withSource source).advance k) := by
  by_cases hn : i.native = true
  · have hlen := (canReadVar_of_native hn).1 h
    refine ⟨t.scalar.width, hlen, Or.inl ⟨t.scalar.decode (i.unread.take t.scalar.width), ?_⟩⟩
    exact fun source => (var_eq_scalar (i := i.withSource source) hn).trans (scalar_of_le hlen)
  have hn : i.native = false := Bool.eq_false_of_not_eq_true hn
  have hmax := Nat.sub_add_cancel t.maxBytes_pos
  have hclosed := (canReadVar_of_compact hn).1 h
  rw [← hmax] at hclosed
  obtain ⟨front, last, rest, hu, hopen, hlast, hlen⟩ :=
    (closed_or_open _ i.unread).resolve_right hclosed
  have hvar := fun source => var_eq_map (t := t) (i := i.withSource source) hn
  have hread := fun source =>
    varGroups_of_closed (i := i.withSource source) t.bits hu hopen hlast hlen
  rw [hmax] at hread
  refine ⟨front.length + 1, by simp [hu], ?_⟩
  by_cases hover : front.length = maxBytes t.bits - 1 ∧ last.toNat >>> lastBits t.bits ≠ 0
  · simp only [if_pos hover] at hread
    exact Or.inr ⟨hn, fun source => (hvar source).trans (map_eq_error.2 (hread source))⟩
  · simp only [if_neg hover] at hread
    exact Or.inl ⟨_, fun source => (hvar source).trans (map_of_ok (hread source))⟩

/-- Where a number is read without a source, the test succeeds. -/
theorem canReadVar_of_var {v : t.Value} (hs : i.source = none) (h : var t i = .ok v i') :
    i.canReadVar t = true := by
  by_cases hn : i.native = true
  · rw [var_eq_scalar hn] at h
    exact (canReadVar_of_native hn).2 (le_of_scalar hs h)
  have hn : i.native = false := Bool.eq_false_of_not_eq_true hn
  rw [var_eq_map hn] at h
  obtain ⟨n, hgroups, -⟩ := map_eq_ok.1 h
  exact (canReadVar_of_compact hn).2 fun hopen => varGroups_ne_ok_of_open hs hopen n hgroups

/-- **The test foretells the reading.**  If it says that a number of a width can be read, then
    reading one, with a sign or without, consumes buffered bytes only, whatever the source may
    be, and leaves this as it was; what comes of it is a number, or in the compact layout that
    one overflows the width.  And the test says so wherever a number can be read from what is
    buffered with no source at all. -/
theorem canReadVar_foretells (i : Input) {t u : VarNumber} (h : u.bits = t.bits) :
    (i.canReadVar t = true → ∃ k ≤ i.unread.length,
      (∃ v, ∀ source, var u (i.withSource source) = .ok v ((i.withSource source).advance k)) ∨
      i.native = false ∧ ∀ source, var u (i.withSource source) =
        .error (.varintOverflow t.bits) ((i.withSource source).advance k)) ∧
    ∀ v i', var u (i.withSource none) = .ok v i' → i.canReadVar t = true := by
  rw [← canReadVar_congr h, ← h]
  exact ⟨var_of_canReadVar, fun v i' hread => canReadVar_of_var (i := i.withSource none) rfl hread⟩

/-- Four bytes that are left of a full buffer, of which the third closes a number, in front of a
    source that fails. -/
def poised : Input := ⟨[0xac, 0x82, 0x00, 0xff], 4, 8, 0, false, some ⟨[], [.failing "reset"]⟩⟩

/-- The test says that it can be read, signed as well, and so it can. -/
theorem canReadVar_foretells_poised :
    VarNumber.i32.bits = VarNumber.u32.bits ∧ poised.canReadVar .u32 = true ∧
      ∃ v i', var .i32 poised = .ok v i' ∧ i'.source = poised.source := by
  have hbits : VarNumber.i32.bits = VarNumber.u32.bits := rfl
  have htest : poised.canReadVar .u32 = true := by decide
  obtain ⟨k, -, ⟨v, hread⟩ | ⟨-, hread⟩⟩ := (canReadVar_foretells poised hbits).1 htest
  · exact ⟨hbits, htest, v, _, hread poised.source, rfl⟩
  · have hvalue : var .i32 poised = .ok 150#32 (poised.advance 3) := rfl
    cases (hread poised.source).symm.trans hvalue

end Input

end GraphWire
