/-
  Readings of an input that is all in memory.

  What a reading of such an input takes from it does not depend on what lies
  behind: `Scan.Reads` says that a reading takes some bytes for a value wherever
  they stand.

  * `reads_scalar`, `reads_var`, `reads_string`, `reads_leaf`: every number and every
    text is read back from the bytes it is written as.
-/
import GraphWire.Engine.Operations
import GraphWire.Proofs.Numbers
import GraphWire.Proofs.Runs
import GraphWire.Proofs.Text

namespace GraphWire

variable {α β : Type}

namespace Input

theorem advance_advance (i : Input) (m n : Nat) : (i.advance m).advance n = i.advance (m + n) := by
  simp [advance, List.drop_drop, Nat.add_assoc]

@[simp] theorem source_advance (i : Input) (n : Nat) : (i.advance n).source = i.source := rfl

@[simp] theorem native_advance (i : Input) (n : Nat) : (i.advance n).native = i.native := rfl

/-- Bytes that follow on others lie ahead once these are passed. -/
theorem prefix_advance {i : Input} {bs cs : Bytes} (h : bs ++ cs <+: i.unread) :
    cs <+: (i.advance bs.length).unread := by
  obtain ⟨rest, hr⟩ := h
  refine ⟨rest, ?_⟩
  simp [advance, ← hr]

theorem take_of_ahead {i : Input} {bs : Bytes} (h : bs <+: i.unread) :
    i.unread.take bs.length = bs :=
  (List.prefix_iff_eq_take.1 h).symm

theorem ensureBuffered_of_le {i : Input} {n : Nat} (h : n ≤ i.unread.length) :
    ensureBuffered n i = .ok () i := by
  unfold ensureBuffered
  rw [get_bind]
  simp [holds, h]

/-- Without a source there is no other way to get at bytes. -/
theorem ensureBuffered_eq_ok {i i' : Input} {n : Nat} (hs : i.source = none)
    (h : ensureBuffered n i = .ok () i') : n ≤ i.unread.length ∧ i' = i := by
  by_cases hl : n ≤ i.unread.length
  · rw [ensureBuffered_of_le hl] at h
    cases h
    exact ⟨hl, rfl⟩
  exfalso
  have hfill : ∀ (space : Nat) (j : Input), j.source = none → fill space j = .ok false j := by
    intro space j hj
    simp [fill, hj]
  have hh : i.holds n = false := by
    rw [← Bool.not_eq_true, holds, hasLength_iff]
    exact hl
  unfold ensureBuffered at h
  rw [get_bind] at h
  simp only [hh, Bool.false_eq_true, if_false] at h
  split at h
  · cases h
  split at h
  · unfold refill at h
    rw [modify_bind] at h
    obtain ⟨_, i₂, h₂, h₃⟩ := bind_eq_ok.1 h
    obtain ⟨n, rfl⟩ : ∃ m, n = m + 1 := ⟨n - 1, by omega⟩
    have hc : i.compact.holds (n + 1) = false := hh
    have hcs : i.compact.source = none := hs
    simp only [gather, get_bind, hc, Bool.false_eq_true, if_false,
      bind_of_ok (hfill _ _ hcs), pure_apply] at h₂
    cases h₂
    rw [get_bind] at h₃
    simp [hc] at h₃
  · rw [bind_of_ok (hfill _ _ hs)] at h
    simp at h

end Input

/-- Whether a reading takes the bytes for the value, wherever they stand in an
    input that is all in memory. -/
def Scan.Reads (native : Bool) (x : Scan α) (bs : Bytes) (a : α) : Prop :=
  ∀ i : Input, i.source = none → i.native = native → bs <+: i.unread →
    x i = .ok a (i.advance bs.length)

namespace Scan

variable {native : Bool} {x : Scan α} {bs cs : Bytes} {a : α}

theorem Reads.pure (a : α) : Reads native (pure a) [] a := fun _ _ _ _ => rfl

theorem Reads.bind {f : α → Scan β} {b : β} (hx : Reads native x bs a)
    (hf : Reads native (f a) cs b) : Reads native (x >>= f) (bs ++ cs) b := by
  intro i hs hn hp
  rw [bind_of_ok (hx i hs hn ((List.prefix_append bs cs).trans hp)),
    hf (i.advance bs.length) hs hn (Input.prefix_advance hp), Input.advance_advance, List.length_append]

/-- What takes nothing more may follow. -/
theorem Reads.bind_nil {f : α → Scan β} {b : β} (hx : Reads native x bs a)
    (hf : Reads native (f a) [] b) : Reads native (x >>= f) bs b := by
  have h := hx.bind hf
  rwa [List.append_nil] at h

theorem Reads.map (f : α → β) (hx : Reads native x bs a) : Reads native (f <$> x) bs (f a) :=
  fun i hs hn hp => map_of_ok (hx i hs hn hp)

/-- A reading that looks at the layout first. -/
theorem Reads.layout {f : Input → Scan α}
    (h : ∀ i : Input, i.native = native → Reads native (f i) bs a) :
    Reads native (get >>= f) bs a :=
  fun i hs hn hp => h i hn i hs hn hp

end Scan

namespace Input

open Scan

variable {native : Bool}

/-! ## Bytes -/

theorem reads_take (bs : Bytes) : Reads native (take bs.length) bs bs := by
  intro i _ _ hp
  unfold take
  rw [bind_of_ok (ensureBuffered_of_le hp.length_le)]
  show EStateM.Result.ok (i.unread.take bs.length) (i.advance bs.length) = _
  rw [take_of_ahead hp]

theorem reads_byte (b : UInt8) : Reads native byte [b] b :=
  (@reads_take native [b]).bind (Reads.pure _)

theorem reads_octet (v : BitVec 8) : Reads native octet [UInt8.ofBitVec v] v :=
  (reads_byte (UInt8.ofBitVec v)).bind (Reads.pure _)

theorem reads_bool (b : Bool) : Reads native bool [if b then 1 else 0] b := by
  have h := (@reads_byte native (if b then 1 else 0)).bind
    (f := fun c => pure (c != 0)) (Reads.pure _)
  cases b <;> exact h

/-! ## Numbers -/

theorem reads_scalar (s : Scalar) (v : s.Value) : Reads native (scalar s) (s.encode v) v := by
  have h := @reads_take native (s.encode v)
  rw [Scalar.length_encode] at h
  have := h.bind (f := fun bs => pure (s.decode bs)) (Reads.pure _)
  rwa [List.append_nil, Scalar.decode_encode] at this

/-- The groups of a number are read back if the last of them is within what the
    width leaves for it. -/
theorem reads_varGroups {bits : Nat} (hb : Varint.lastBits bits ≤ 7) (n v : Nat)
    (hv : v < 2 ^ (7 * n + Varint.lastBits bits)) :
    Reads native (varGroups bits (n + 1)) (Varint.groups n v) v := by
  induction n generalizing v with
  | zero =>
    have hp : 2 ^ Varint.lastBits bits ≤ 2 ^ 7 := Nat.pow_le_pow_right (by omega) hb
    have hv' : v < 2 ^ Varint.lastBits bits := by simpa using hv
    have hz : v >>> Varint.lastBits bits = 0 := by
      rw [Nat.shiftRight_eq_div_pow]
      exact Nat.div_eq_of_lt hv'
    have hu : (UInt8.ofNat v).toNat = v := Utf8.toNat_ofNat_of_lt (by omega)
    unfold varGroups Varint.groups
    refine (reads_byte (UInt8.ofNat v)).bind_nil ?_
    rw [hu, if_neg (by simp [hz]), if_pos (by omega)]
    exact Reads.pure v
  | succ n ih =>
    unfold varGroups Varint.groups
    split
    · next h =>
      have hu : (UInt8.ofNat v).toNat = v := Utf8.toNat_ofNat_of_lt (by omega)
      refine (reads_byte (UInt8.ofNat v)).bind_nil ?_
      rw [hu, if_neg (by omega), if_pos h]
      exact Reads.pure v
    · next h =>
      have hu : (UInt8.ofNat (v % 128 + 128)).toNat = v % 128 + 128 :=
        Utf8.toNat_ofNat_of_lt (by omega)
      have hd : v / 128 < 2 ^ (7 * n + Varint.lastBits bits) := by
        rw [Nat.div_lt_iff_lt_mul (by omega)]
        calc v < 2 ^ (7 * (n + 1) + Varint.lastBits bits) := hv
          _ = 2 ^ (7 * n + Varint.lastBits bits) * 128 := by
            rw [show 7 * (n + 1) + Varint.lastBits bits = 7 * n + Varint.lastBits bits + 7 by omega,
              Nat.pow_add]
      refine (reads_byte (UInt8.ofNat (v % 128 + 128))).bind ?_
      rw [hu, if_neg (by omega), if_neg (by omega)]
      have hrest := (ih (v / 128) hd).bind
        (f := fun r => pure ((v % 128 + 128) % 128 + 128 * r)) (Reads.pure _)
      rw [List.append_nil, show (v % 128 + 128) % 128 + 128 * (v / 128) = v by omega] at hrest
      exact hrest

theorem reads_var (t : VarNumber) (v : t.Value) : Reads native (var t) (t.encode native v) v := by
  refine Reads.layout fun i hi => ?_
  rw [hi]
  cases native with
  | true => exact reads_scalar t.scalar v
  | false =>
    have h := @reads_varGroups false _ t.lastBits_le (Varint.maxBytes t.bits - 1) (t.fold v)
      (by rw [← t.bits_eq]; exact t.fold_lt v)
    rw [Nat.sub_add_cancel t.maxBytes_pos] at h
    have := h.bind (f := fun n => pure (t.unfold n)) (Reads.pure _)
    rwa [List.append_nil, VarNumber.unfold_fold] at this

/-! ## Texts and leaves -/

theorem transfer_of_le {i : Input} {n : Nat} (h : n ≤ i.unread.length) :
    transfer n i = ⟨i.unread.take n, none, i.advance n⟩ := by
  have hl : (i.unread.take n).length = n := by simp [h]
  simp [transfer, hl, pull]

theorem reads_bytes (bs : Bytes) : Reads native (bytes bs.length) bs bs := by
  intro i _ _ hp
  unfold bytes
  rw [transfer_of_le hp.length_le]
  simp [take_of_ahead hp]

/-- An empty input without a source has nothing to deliver. -/
theorem failure_pull {i : Input} (hs : i.source = none) (hu : i.unread = []) (rounds n : Nat) :
    (pull (rounds + 1) (n + 1) i).failure ≠ none := by
  unfold pull
  simp only [Nat.add_one_ne_zero, if_false]
  split
  · simp
  · next hc =>
    cases h : ensureBuffered (min (n + 1) i.capacity) i with
    | error e i' => simp
    | ok u i' =>
      have hl := (ensureBuffered_eq_ok hs h).1
      rw [hu, List.length_nil] at hl
      omega

theorem bytes_eq_ok {i i' : Input} {n : Nat} {bs : Bytes} (hs : i.source = none)
    (h : bytes n i = .ok bs i') : n ≤ i.unread.length := by
  by_cases hl : n ≤ i.unread.length
  · exact hl
  exfalso
  obtain ⟨m, hm⟩ : ∃ m, n - i.unread.length = m + 1 := ⟨n - i.unread.length - 1, by omega⟩
  have hf : (transfer n i).failure ≠ none := by
    have hlen : (i.unread.take n).length = i.unread.length := by simp; omega
    simp only [transfer, hlen, hm]
    exact failure_pull (by exact hs) (by simp [advance]) m m
  unfold bytes at h
  generalize transfer n i = t at h hf
  obtain ⟨d, f, r⟩ := t
  cases f with
  | none => exact hf rfl
  | some e => cases h

theorem reads_string {s : String} (h : (Utf8.encode s).length < 2 ^ 32) :
    Reads native string ((Item.string s).encode native) s := by
  have hn : (BitVec.ofNat (8 * VarNumber.u32.scalar.width) (Utf8.encode s).length).toNat =
      (Utf8.encode s).length := by
    rw [BitVec.toNat_ofNat]
    exact Nat.mod_eq_of_lt h
  refine (reads_var .u32 (BitVec.ofNat _ (Utf8.encode s).length)).bind ?_
  rw [hn]
  refine (reads_bytes (Utf8.encode s)).bind_nil ?_
  rw [Utf8.decode_encode]
  exact Reads.pure s

end Input

namespace Reading

open Scan

variable {native : Bool}

/-- **A leaf is read back from what it is written as.** -/
theorem reads_leaf (v : Leaf) (h : ∀ s, v = .string s → (Utf8.encode s).length < 2 ^ 32) :
    Reads native (leaf v.type) (v.toItem.encode native) v := by
  cases v with
  | bool b => exact (Input.reads_bool b).map _
  | i8 v => exact (Input.reads_octet v).map _
  | i16 v => exact (Input.reads_scalar .i16 v).map _
  | i32 v => exact (Input.reads_var .i32 v).map _
  | i64 v => exact (Input.reads_var .i64 v).map _
  | f32 v => exact (Input.reads_scalar .f32 v).map _
  | f64 v => exact (Input.reads_scalar .f64 v).map _
  | string s => exact (Input.reads_string (h s rfl)).map _

/-- What is read as a leaf of a type is of that type. -/
theorem type_of_leaf {type : LeafType} {i i' : Input} {v : Leaf} (h : leaf type i = .ok v i') :
    v.type = type := by
  cases type <;> (obtain ⟨_, _, rfl⟩ := map_eq_ok.1 h; rfl)

end Reading

/-! ## Streams -/

namespace Engine

variable (e : Engine) (h₀ : Heap) (bs : Bytes)

/-- The layout of bytes that are all in memory is that of the engine. -/
theorem deserializeWith_ofBytes :
    e.deserializeWith h₀ ((Input.ofBytes bs).withLayout e.config.native) =
      e.readStream h₀ (Reading.any e) ((Input.ofBytes bs).withLayout e.config.native) := by
  unfold deserializeWith
  rw [get_bind]
  simp [ensure, Input.withLayout, bind, EStateM.bind, pure, EStateM.pure]

theorem deserialize_eq_readStream : e.deserialize h₀ bs =
    resultOf (e.readStream h₀ (Reading.any e)) ((Input.ofBytes bs).withLayout e.config.native) := by
  unfold deserialize resultOf
  rw [deserializeWith_ofBytes]

end Engine

end GraphWire
