/-
  Words: what numbers of variable length are read from.

  A word is a row of groups of seven bits, least significant first, of which the last only is
  closed by a clear high bit.  A width accepts a word if it has no more groups than the width
  takes and denotes a number of the width; it need not be the shortest for its number.

  * `Varint.accepted_or`: a stream starts with an accepted word, is broken off inside one
    (`Varint.Broken`), or runs over the width in the last group that may follow
    (`Varint.Overrun`);
  * `Input.Supplied.varGroups_of_word`, `Input.Supplied.varGroups_of_broken`,
    `Input.Supplied.varGroups_of_overrun`: what comes of reading each of these;
  * `Input.var_of_words`: so numbers are read from the accepted words and from nothing else,
    and every failure tells which of the two others it met.
-/
import GraphWire.Proofs.Cursors
import Mathlib.Data.Nat.Digits.Lemmas

namespace GraphWire

/-! ## Words -/

namespace Varint

/-- The number that the groups of a row of bytes denote, least significant first. -/
def value (bs : Bytes) : Nat := Nat.ofDigits 128 (bs.map fun b => b.toNat % 128)

/-- Whether the high bit of every byte is set: each says that more groups follow. -/
def Open (bs : Bytes) : Prop := ∀ b ∈ bs, 128 ≤ b.toNat

/-- Whether a row of bytes is closed by its last byte, and by no other. -/
def IsWord (bs : Bytes) : Prop :=
  ∃ front last, bs = front ++ [last] ∧ Open front ∧ last.toNat < 128

/-- Whether a row of bytes is a word that a width accepts. -/
structure Accepted (bits : Nat) (word : Bytes) : Prop where
  isWord : IsWord word
  length_le : word.length ≤ maxBytes bits
  value_lt : value word < 2 ^ bits

/-- Whether a stream ends before a word of a width is closed. -/
structure Broken (bits : Nat) (bs : Bytes) : Prop where
  length_lt : bs.length < maxBytes bits
  isOpen : Open bs

/-- Whether the last byte that may follow in a word of a width is there and holds more than
    the width leaves for it. -/
def Overrun (bits : Nat) (bs : Bytes) : Prop :=
  ∃ front last rest, bs = front ++ last :: rest ∧ Open front ∧
    front.length + 1 = maxBytes bits ∧ 2 ^ lastBits bits ≤ last.toNat

variable {bits n : Nat} {b last : UInt8} {bs front : Bytes}

theorem open_nil : Open [] := by simp [Open]

theorem open_cons : Open (b :: bs) ↔ 128 ≤ b.toNat ∧ Open bs := List.forall_mem_cons

theorem value_cons (b : UInt8) (bs : Bytes) :
    value (b :: bs) = b.toNat % 128 + 128 * value bs := by
  simp [value, Nat.ofDigits_cons]

theorem value_lt (bs : Bytes) : value bs < 128 ^ bs.length := by
  have h := Nat.ofDigits_lt_base_pow_length (b := 128) (l := bs.map fun b => b.toNat % 128)
    (by decide) (by simp; omega)
  rwa [List.length_map] at h

/-- The last group counts most. -/
theorem value_concat (hlast : last.toNat < 128) :
    value (front ++ [last]) = value front + 128 ^ front.length * last.toNat := by
  simp [value, Nat.ofDigits_append, Nat.mod_eq_of_lt hlast]

/-- A word of as many groups as may be denotes a number of the width iff its last group
    holds no more than is left for it. -/
theorem value_lt_iff (hlast : last.toNat < 128) (hbits : bits = 7 * front.length + n) :
    value (front ++ [last]) < 2 ^ bits ↔ last.toNat < 2 ^ n := by
  have hfront := value_lt front
  have hpow : 2 ^ bits = 128 ^ front.length * 2 ^ n := by
    rw [hbits, Nat.pow_add, Nat.pow_mul]
  rw [value_concat hlast, hpow]
  constructor
  · intro h
    have : 128 ^ front.length * last.toNat < 128 ^ front.length * 2 ^ n := by omega
    exact Nat.lt_of_mul_lt_mul_left this
  · intro h
    calc value front + 128 ^ front.length * last.toNat
        < 128 ^ front.length * (last.toNat + 1) := by rw [Nat.mul_succ]; omega
      _ ≤ 128 ^ front.length * 2 ^ n := Nat.mul_le_mul_left _ h

/-- What a stream of groups is, if only so many may follow and the last of them has only so
    much room: closed in time, open to its end, or too large in the last one. -/
theorem parts_or {k : Nat} (hk : k ≤ 7) (n : Nat) (bs : Bytes) :
    (∃ front last rest, bs = front ++ last :: rest ∧ Open front ∧ last.toNat < 128 ∧
      front.length ≤ n ∧ (front.length = n → last.toNat < 2 ^ k)) ∨
    (Open bs ∧ bs.length ≤ n) ∨
    ∃ front last rest, bs = front ++ last :: rest ∧ Open front ∧ front.length = n ∧
      2 ^ k ≤ last.toNat := by
  have hpow : 2 ^ k ≤ 2 ^ 7 := Nat.pow_le_pow_right (by decide) hk
  induction n generalizing bs with
  | zero =>
    cases bs with
    | nil => exact Or.inr (Or.inl ⟨open_nil, le_rfl⟩)
    | cons b bs =>
      by_cases hb : b.toNat < 2 ^ k
      · exact Or.inl ⟨[], b, bs, rfl, open_nil, by omega, le_rfl, fun _ => hb⟩
      · exact Or.inr (Or.inr ⟨[], b, bs, rfl, open_nil, rfl, Nat.le_of_not_lt hb⟩)
  | succ n ih =>
    cases bs with
    | nil => exact Or.inr (Or.inl ⟨open_nil, Nat.zero_le _⟩)
    | cons b bs =>
      by_cases hb : b.toNat < 128
      · exact Or.inl ⟨[], b, bs, rfl, open_nil, hb, Nat.zero_le _, by simp⟩
      have hb : 128 ≤ b.toNat := Nat.le_of_not_lt hb
      rcases ih bs with ⟨front, last, rest, rfl, hopen, hlast, hlen, hfit⟩ | ⟨hopen, hlen⟩ |
        ⟨front, last, rest, rfl, hopen, hlen, hlast⟩
      · exact Or.inl ⟨b :: front, last, rest, rfl, open_cons.2 ⟨hb, hopen⟩, hlast,
          Nat.succ_le_succ hlen, fun h => hfit (Nat.succ.inj h)⟩
      · exact Or.inr (Or.inl ⟨open_cons.2 ⟨hb, hopen⟩, Nat.succ_le_succ hlen⟩)
      · exact Or.inr (Or.inr ⟨b :: front, last, rest, rfl, open_cons.2 ⟨hb, hopen⟩,
          congrArg Nat.succ hlen, hlast⟩)

/-- A width accepts a word of no more groups than may be, if the last group, where it comes
    last of all, holds no more than is left for it. -/
theorem accepted_iff (t : VarNumber) (hopen : Open front) (hlast : last.toNat < 128) :
    Accepted t.bits (front ++ [last]) ↔ front.length ≤ maxBytes t.bits - 1 ∧
      (front.length = maxBytes t.bits - 1 → last.toNat < 2 ^ lastBits t.bits) := by
  have hmax := t.maxBytes_pos
  have hbits := t.bits_eq
  have hlen : (front ++ [last]).length = front.length + 1 := List.length_append
  constructor
  · rintro ⟨-, hle, hvalue⟩
    refine ⟨by omega, fun h => ?_⟩
    rwa [value_lt_iff hlast (by rw [h]; exact hbits)] at hvalue
  · rintro ⟨hle, hfit⟩
    refine ⟨⟨front, last, rfl, hopen, hlast⟩, by omega, ?_⟩
    rcases Nat.lt_or_eq_of_le hle with hlt | heq
    · calc value (front ++ [last]) < 128 ^ (front ++ [last]).length := value_lt _
        _ = 2 ^ (7 * (front.length + 1)) := by rw [hlen, Nat.pow_mul]
        _ ≤ 2 ^ t.bits := Nat.pow_le_pow_right (by decide) (by omega)
    · exact (value_lt_iff hlast (by rw [heq]; exact hbits)).2 (hfit heq)

/-- **Every stream** starts with a word that the width accepts, is broken off inside one, or
    runs over the width. -/
theorem accepted_or (t : VarNumber) (bs : Bytes) :
    (∃ word, word <+: bs ∧ Accepted t.bits word) ∨ Broken t.bits bs ∨ Overrun t.bits bs := by
  have hmax := t.maxBytes_pos
  rcases parts_or t.lastBits_le (maxBytes t.bits - 1) bs with
    ⟨front, last, rest, rfl, hopen, hlast, hlen, hfit⟩ | ⟨hopen, hlen⟩ |
    ⟨front, last, rest, hbs, hopen, hlen, hlast⟩
  · refine Or.inl ⟨front ++ [last], ⟨rest, ?_⟩, (accepted_iff t hopen hlast).2 ⟨hlen, hfit⟩⟩
    rw [List.append_assoc, List.singleton_append]
  · exact Or.inr (Or.inl ⟨by omega, hopen⟩)
  · exact Or.inr (Or.inr ⟨front, last, rest, hbs, hopen, by omega, hlast⟩)

end Varint

/-! ## Reading words -/

namespace Input

open Varint

variable {room bits n : Nat} {i : Input} {b last : UInt8} {bs front rest : Bytes}

theorem Supplied.byte_cons (hi : i.Supplied room) (hroom : 0 < room) (ha : i.ahead = b :: bs) :
    ∃ i', byte i = .ok b i' ∧ i'.Supplied room ∧ i'.ahead = bs ∧ Moves 1 i i' := by
  have hconsumes := hi.take (hi.enough hroom)
  have hmoves := moves_take (n := 1) hi.fits
  cases h : Input.take 1 i with
  | ok taken i' =>
    rw [h] at hconsumes hmoves
    obtain ⟨-, rfl, hsupplied, hahead, -⟩ := hconsumes
    refine ⟨i', ?_, hsupplied, by rw [hahead, ha]; rfl, hmoves.1⟩
    unfold Input.byte
    rw [bind_of_ok h, ha]
    rfl
  | error e i' =>
    rw [h] at hconsumes
    have hshort := hconsumes.1
    simp [ha] at hshort

theorem Supplied.byte_nil (hi : i.Supplied room) (hroom : 0 < room) (ha : i.ahead = []) :
    ∃ required available i', byte i = .error (.underflow required available) i' := by
  have hconsumes := hi.take (hi.enough hroom)
  cases h : Input.take 1 i with
  | ok taken i' =>
    rw [h] at hconsumes
    have hlong := hconsumes.1
    simp [ha] at hlong
  | error e i' =>
    rw [h] at hconsumes
    obtain ⟨-, required, available, rfl⟩ := hconsumes
    exact ⟨required, available, i', bind_eq_error.2 (Or.inl h)⟩

/-- After an open group the others are read, one fewer of them. -/
theorem Supplied.varGroups_cons (hi : i.Supplied room) (hroom : 0 < room)
    (ha : i.ahead = b :: bs) (hb : 128 ≤ b.toNat) (bits n : Nat) :
    ∃ i₁, i₁.Supplied room ∧ i₁.ahead = bs ∧ Moves 1 i i₁ ∧ varGroups bits (n + 2) i =
      ((fun v => b.toNat % 128 + 128 * v) <$> varGroups bits (n + 1)) i₁ := by
  obtain ⟨i₁, hbyte, hsupplied, hahead, hmoves⟩ := hi.byte_cons hroom ha
  refine ⟨i₁, hsupplied, hahead, hmoves, ?_⟩
  rw [varGroups, bind_of_ok hbyte, if_neg (by simp), if_neg (by omega), map_eq_pure_bind]

/-- **A word is read as the number that it denotes**, and nothing else is consumed. -/
theorem Supplied.varGroups_of_word (hi : i.Supplied room) (hroom : 0 < room)
    (ha : i.ahead = front ++ last :: rest) (hopen : Open front) (hlast : last.toNat < 128)
    (hlen : front.length ≤ n) (hfit : front.length = n → last.toNat < 2 ^ lastBits bits) :
    ∃ i', varGroups bits (n + 1) i = .ok (value (front ++ [last])) i' ∧
      Moves (front.length + 1) i i' := by
  induction front generalizing i n with
  | nil =>
    obtain ⟨i', hbyte, -, -, hmoves⟩ := hi.byte_cons hroom ha
    refine ⟨i', ?_, hmoves⟩
    have hspare : ¬(n = 0 ∧ last.toNat >>> lastBits bits ≠ 0) := by
      rintro ⟨rfl, hover⟩
      exact hover (by rw [Nat.shiftRight_eq_div_pow, Nat.div_eq_of_lt (hfit rfl)])
    rw [varGroups, bind_of_ok hbyte, if_neg hspare, if_pos hlast]
    simp [value, Nat.mod_eq_of_lt hlast]
  | cons b front ih =>
    obtain ⟨hb, hopen⟩ := open_cons.1 hopen
    obtain ⟨n, rfl⟩ : ∃ m, n = m + 1 := ⟨n - 1, by simp at hlen; omega⟩
    obtain ⟨i₁, hsupplied, hahead, hmoves, hread⟩ := hi.varGroups_cons hroom ha hb bits n
    obtain ⟨i', hrest, hmoves'⟩ := ih hsupplied hahead hopen (Nat.le_of_succ_le_succ hlen)
      fun h => hfit (congrArg Nat.succ h)
    refine ⟨i', ?_, ?_⟩
    · rw [hread, map_of_ok hrest, List.cons_append, value_cons]
    · rw [List.length_cons, Nat.add_comm]
      exact hmoves.trans hmoves'

/-- **Where no group is closed and no more come**, there is nothing to read. -/
theorem Supplied.varGroups_of_broken (hi : i.Supplied room) (hroom : 0 < room)
    (ha : i.ahead = bs) (hopen : Open bs) (hlen : bs.length ≤ n) (bits : Nat) :
    ∃ required available i',
      varGroups bits (n + 1) i = .error (.underflow required available) i' := by
  induction bs generalizing i n with
  | nil =>
    obtain ⟨required, available, i', hbyte⟩ := hi.byte_nil hroom ha
    exact ⟨required, available, i', bind_eq_error.2 (Or.inl hbyte)⟩
  | cons b bs ih =>
    obtain ⟨hb, hopen⟩ := open_cons.1 hopen
    obtain ⟨n, rfl⟩ : ∃ m, n = m + 1 := ⟨n - 1, by simp at hlen; omega⟩
    obtain ⟨i₁, hsupplied, hahead, -, hread⟩ := hi.varGroups_cons hroom ha hb bits n
    obtain ⟨required, available, i', hrest⟩ :=
      ih hsupplied hahead hopen (Nat.le_of_succ_le_succ hlen)
    exact ⟨required, available, i', hread.trans (map_eq_error.2 hrest)⟩

/-- **Where the last group that may follow holds too much**, the width is overrun. -/
theorem Supplied.varGroups_of_overrun (hi : i.Supplied room) (hroom : 0 < room)
    (ha : i.ahead = front ++ last :: rest) (hopen : Open front)
    (hlast : 2 ^ lastBits bits ≤ last.toNat) :
    ∃ i', varGroups bits (front.length + 1) i = .error (.varintOverflow bits) i' := by
  induction front generalizing i with
  | nil =>
    obtain ⟨i', hbyte, -⟩ := hi.byte_cons hroom ha
    have hover : last.toNat >>> lastBits bits ≠ 0 := by
      rw [Nat.shiftRight_eq_div_pow]
      exact Nat.ne_of_gt (Nat.div_pos hlast (Nat.two_pow_pos _))
    refine ⟨i', ?_⟩
    rw [varGroups, bind_of_ok hbyte, if_pos ⟨rfl, hover⟩]
    rfl
  | cons b front ih =>
    obtain ⟨hb, hopen⟩ := open_cons.1 hopen
    obtain ⟨i₁, hsupplied, hahead, -, hread⟩ := hi.varGroups_cons hroom ha hb bits front.length
    obtain ⟨i', hrest⟩ := ih hsupplied hahead hopen
    exact ⟨i', hread.trans (map_eq_error.2 hrest)⟩

/-! ## Numbers -/

variable {t : VarNumber}

theorem var_eq_map (hn : i.native = false) :
    var t i = (t.unfold <$> varGroups t.bits (maxBytes t.bits)) i := by
  unfold var
  rw [get_bind, hn, map_eq_pure_bind]
  rfl

theorem Supplied.var_of_accepted {word : Bytes} (hi : i.Supplied room) (hroom : 0 < room)
    (hn : i.native = false) (hp : word <+: i.ahead) (hw : Accepted t.bits word) :
    ∃ v i', var t i = .ok v i' ∧ t.fold v = value word ∧ Moves word.length i i' := by
  obtain ⟨rest, hrest⟩ := hp
  obtain ⟨front, last, rfl, hopen, hlast⟩ := hw.isWord
  have ha : i.ahead = front ++ last :: rest := by simp [← hrest]
  obtain ⟨hlen, hfit⟩ := (accepted_iff t hopen hlast).1 hw
  obtain ⟨i', hread, hmoves⟩ := hi.varGroups_of_word hroom ha hopen hlast hlen hfit
  rw [Nat.sub_add_cancel t.maxBytes_pos] at hread
  refine ⟨_, i', (var_eq_map hn).trans (map_of_ok hread), t.fold_unfold hw.value_lt, ?_⟩
  rwa [List.length_append]

theorem Supplied.var_of_broken (hi : i.Supplied room) (hroom : 0 < room) (hn : i.native = false)
    (hb : Broken t.bits i.ahead) :
    ∃ required available i', var t i = .error (.underflow required available) i' := by
  obtain ⟨required, available, i', hread⟩ := hi.varGroups_of_broken hroom rfl
    hb.isOpen (Nat.le_sub_one_of_lt hb.length_lt) t.bits
  rw [Nat.sub_add_cancel t.maxBytes_pos] at hread
  exact ⟨required, available, i', (var_eq_map hn).trans (map_eq_error.2 hread)⟩

theorem Supplied.var_of_overrun (hi : i.Supplied room) (hroom : 0 < room) (hn : i.native = false)
    (ho : Overrun t.bits i.ahead) : ∃ i', var t i = .error (.varintOverflow t.bits) i' := by
  obtain ⟨front, last, rest, ha, hopen, hlen, hlast⟩ := ho
  obtain ⟨i', hread⟩ := hi.varGroups_of_overrun hroom ha hopen hlast
  rw [hlen] at hread
  exact ⟨i', (var_eq_map hn).trans (map_eq_error.2 hread)⟩

/-- **Numbers are read from the words that their width accepts**, and from nothing else.
    Through any buffer with room for a byte, what is read is the number, or the one that is
    folded to it, that the first bytes denote as such a word, and these are consumed; where a
    stream starts with such a word, it is read.  Bytes run out iff no word is closed and more
    groups might follow; whatever else fails overruns the width, so there are never too many
    groups.  The numbers of a width fail alike, signed or not. -/
theorem var_of_words (t : VarNumber) {i : Input} (hi : i.Supplied 1) (hn : i.native = false) :
    (∀ v i', var t i = .ok v i' → ∃ word, word <+: i.ahead ∧ Accepted t.bits word ∧
      t.fold v = value word ∧ Moves word.length i i') ∧
    (∀ word, word <+: i.ahead → Accepted t.bits word → ∃ v i', var t i = .ok v i' ∧
      t.fold v = value word ∧ Moves word.length i i') ∧
    ((∃ required available i', var t i = .error (.underflow required available) i') ↔
      Broken t.bits i.ahead) ∧
    (∀ e i', var t i = .error e i' →
      (∃ required available, e = .underflow required available) ∨ e = .varintOverflow t.bits) ∧
    ∀ u : VarNumber, u.bits = t.bits → ∀ e i', var u i = .error e i' ↔ var t i = .error e i' := by
  have hsame : ∀ u : VarNumber, u.bits = t.bits → ∀ e i', var u i = .error e i' ↔
      var t i = .error e i' := by
    intro u hu e i'
    rw [var_eq_map hn, var_eq_map hn, hu, map_eq_error, map_eq_error]
  have haccepted := fun word (hp : word <+: i.ahead) (hw : Accepted t.bits word) =>
    hi.var_of_accepted Nat.one_pos hn hp hw
  have hbroken := hi.var_of_broken (t := t) Nat.one_pos hn
  have hoverrun := hi.var_of_overrun (t := t) Nat.one_pos hn
  rcases accepted_or t i.ahead with ⟨word, hp, hw⟩ | hb | ho
  · obtain ⟨v, i', hread, hv, hmoves⟩ := haccepted word hp hw
    refine ⟨?_, haccepted, ⟨?_, hbroken⟩, ?_, hsame⟩
    · intro v' i'' hread'
      cases hread.symm.trans hread'
      exact ⟨word, hp, hw, hv, hmoves⟩
    · rintro ⟨_, _, _, hread'⟩
      cases hread.symm.trans hread'
    · intro e i'' hread'
      cases hread.symm.trans hread'
  · obtain ⟨required, available, i', hread⟩ := hbroken hb
    refine ⟨?_, haccepted, ⟨fun _ => hb, hbroken⟩, ?_, hsame⟩
    · intro v i'' hread'
      cases hread.symm.trans hread'
    · intro e i'' hread'
      cases hread.symm.trans hread'
      exact Or.inl ⟨required, available, rfl⟩
  · obtain ⟨i', hread⟩ := hoverrun ho
    refine ⟨?_, haccepted, ⟨?_, hbroken⟩, ?_, hsame⟩
    · intro v i'' hread'
      cases hread.symm.trans hread'
    · rintro ⟨_, _, _, hread'⟩
      cases hread.symm.trans hread'
    · intro e i'' hread'
      cases hread.symm.trans hread'
      exact Or.inr rfl

/-- The number 300 in one group more than it needs, and a byte that follows, which come one
    at a time. -/
def padded : Source := ⟨[0xac, 0x82, 0x00, 0x07], [.interrupted, .upTo 1]⟩

/-- Through a buffer of one byte the three groups are read, as the number that folds to 300. -/
theorem var_of_words_padded :
    let i := (ofSource padded 1).withLayout false
    padded.Steady ∧ i.Supplied 1 ∧ Accepted 32 [0xac, 0x82, 0x00] ∧
      ∃ i', var .i32 i = .ok 150#32 i' ∧ i'.total = 3 ∧ i'.ahead = [0x07] := by
  intro i
  have hs : padded.Steady := by decide
  have hi : i.Supplied 1 := supplied_ofSource hs le_rfl false
  have hw : Accepted 32 [0xac, 0x82, 0x00] :=
    ⟨⟨[0xac, 0x82], 0x00, rfl, by simp [Open], by decide⟩, by decide, by decide⟩
  obtain ⟨v, i', hread, hv, hmoves⟩ := (var_of_words .i32 hi rfl).2.1 _ ⟨[0x07], rfl⟩ hw
  have hv : v = 150#32 := by
    rw [← VarNumber.unfold_fold .i32 v, hv]
    rfl
  exact ⟨hs, hi, hw, i', hv ▸ hread, hmoves.total, hmoves.ahead⟩

end Input

end GraphWire
