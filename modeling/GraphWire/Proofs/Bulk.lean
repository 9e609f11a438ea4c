/-
  Rows copied in bulk.

  In the full-width layout a row of numbers is copied between memory and the stream as raw
  bytes, a buffer at a time, so that a number may come in pieces.  This is no more than to
  write or read its numbers one by one.

  * `Scalar.bulk_elementwise`: both layouts write the same bytes for a row, and read the same
    row from a stream that can be had to its end;
  * `Input.clean_prefix`: a bulk reading that fails has delivered the next bytes of the stream,
    as many as it has consumed, and has left the rest of its target alone.
-/
import GraphWire.Proofs.Items
import GraphWire.Proofs.Requests

namespace GraphWire

variable {α β : Type}

/-! ## Rows -/

/-- A row is spelled by the bytes that it takes, whatever follows. -/
theorem Scalar.decodeMany_take (s : Scalar) (n : Nat) (bs : Bytes) :
    s.decodeMany n (bs.take (n * s.width)) = s.decodeMany n bs := by
  induction n generalizing bs with
  | zero => rfl
  | succ n ih =>
    have hwidth : s.width ≤ (n + 1) * s.width := Nat.le_mul_of_pos_left _ n.succ_pos
    have hrest : (n + 1) * s.width - s.width = n * s.width := by
      rw [Nat.succ_mul, Nat.add_sub_cancel]
    rw [decodeMany, decodeMany, List.take_take, Nat.min_eq_left hwidth, List.drop_take, hrest, ih]

namespace Input

variable {room n : Nat} {i : Input} {s : Scalar}

/-- What comes of reading `n` numbers: those that the bytes ahead spell, or there are not
    enough bytes for so many. -/
abbrev Spells (s : Scalar) (n : Nat) (i : Input) :
    EStateM.Result Error Input (List s.Value) → Prop :=
  Leads
    (fun vs i' => n * s.width ≤ i.ahead.length ∧ vs = s.decodeMany n i.ahead ∧
      i'.Supplied s.width ∧ i'.ahead = i.ahead.drop (n * s.width))
    fun _ => i.ahead.length < n * s.width

theorem Consumes.leads {r : EStateM.Result Error Input Bytes} (h : Consumes room n i r) :
    Leads (fun bs i' => n ≤ i.ahead.length ∧ bs = i.ahead.take n ∧ i'.Supplied room ∧
      i'.ahead = i.ahead.drop n) (fun _ => i.ahead.length < n) r := by
  cases r with
  | ok bs i' => exact ⟨h.1, h.2.1, h.2.2.1, h.2.2.2.1⟩
  | error e i' => exact h.1

/-- Number by number, each has to be buffered as a whole. -/
theorem Supplied.times_scalar (hi : i.Supplied s.width) (n : Nat) :
    Spells s n i (times (scalar s) n i) := by
  induction n generalizing i with
  | zero => exact ⟨by simp, rfl, hi, by simp⟩
  | succ n ih =>
    have hsplit : (n + 1) * s.width = s.width + n * s.width := by
      rw [Nat.succ_mul, Nat.add_comm]
    have hfirst : Leads
        (fun v i' => s.width ≤ i.ahead.length ∧ v = s.decode (i.ahead.take s.width) ∧
          i'.Supplied s.width ∧ i'.ahead = i.ahead.drop s.width)
        (fun _ => i.ahead.length < (n + 1) * s.width) (scalar s i) := by
      refine ((hi.take (hi.enough (Nat.le_refl _))).leads.mono (fun _ _ h => h)
        fun _ h => ?_).bind fun bs i' h => ⟨h.1, congrArg s.decode h.2.1, h.2.2⟩
      omega
    refine hfirst.bind ?_
    rintro v i₁ ⟨hlen, rfl, hi₁, hahead⟩
    refine ((ih hi₁).mono (fun _ _ h => h) fun _ h => ?_).bind ?_
    · rw [hahead, List.length_drop] at h
      omega
    rintro vs i' ⟨hmore, rfl, hi', hrest⟩
    rw [hahead, List.length_drop] at hmore
    refine ⟨by omega, by rw [Scalar.decodeMany, hahead], hi', ?_⟩
    rw [hrest, hahead, List.drop_drop, hsplit]

/-- In bulk, all bytes are delivered before they are looked at as numbers. -/
theorem Supplied.scalarsOver (hi : i.Supplied s.width) (vs : List s.Value) (native : Bool) :
    Spells s vs.length i (scalarsOver s vs native i) := by
  cases native with
  | false => exact hi.times_scalar vs.length
  | true =>
    have hbytes := (hi.bytes (n := vs.length * s.width) s.width_pos).leads
    rw [← s.length_stored] at hbytes
    unfold Input.scalarsOver
    rw [if_pos rfl, map_eq_pure_bind]
    refine (hbytes.mono (fun _ _ h => h) fun _ h => ?_).bind ?_
    · rwa [s.length_stored] at h
    rw [s.length_stored]
    rintro bs i' ⟨hlen, rfl, hi', hrest⟩
    refine ⟨hlen, ?_, hi', hrest⟩
    rw [List.length_take_of_le hlen, List.drop_eq_nil_of_le (s.length_stored vs).le,
      List.append_nil, s.decodeMany_take]

/-- Reading over numbers, in either layout: the next numbers are read, and their bytes are
    consumed, iff there are enough. -/
theorem Supplied.fillScalars (hi : i.Supplied s.width) (vs : List s.Value) (native : Bool) :
    let filled := fillScalars s vs (i.withLayout native)
    (filled.2.1 = none ↔ vs.length * s.width ≤ i.ahead.length) ∧
    (filled.2.1 = none → filled.1 = s.decodeMany vs.length i.ahead ∧
      filled.2.2.total = i.total + vs.length * s.width ∧
      filled.2.2.ahead = i.ahead.drop (vs.length * s.width)) := by
  have hlayout : (i.withLayout native).Supplied s.width := ⟨hi.fits, hi.steady⟩
  have hspells := hlayout.scalarsOver vs native
  have hfill : resultOfBulk (Input.fillScalars s vs (i.withLayout native)) =
      Input.scalarsOver s vs native (i.withLayout native) := fillScalars_eq s vs _
  rw [← hfill] at hspells
  have hmoves := advancing_of_composed (composed_fillScalars s vs) _ hlayout.fits
  generalize Input.fillScalars s vs (i.withLayout native) = filled at hspells hmoves
  obtain ⟨ws, failure, i'⟩ := filled
  cases failure with
  | some e => exact ⟨iff_of_false nofun (Nat.not_le_of_lt hspells), nofun⟩
  | none =>
    obtain ⟨hlen, hws, -, hahead⟩ := hspells
    refine ⟨iff_of_true rfl hlen, fun _ => ⟨hws, ?_, hahead⟩⟩
    have htotal : i'.total + i'.ahead.length = i.total + i.ahead.length := hmoves.total_add
    have hrest : i'.ahead.length = i.ahead.length - vs.length * s.width :=
      (congrArg List.length hahead).trans List.length_drop
    have hlen : vs.length * s.width ≤ i.ahead.length := hlen
    show i'.total = _
    omega

end Input

/-- **To copy a row in bulk is to copy it number by number.**  In both layouts an output holds
    the same bytes after a row, wherever it ends before.  And from an input whose source gives
    something until its end, through a buffer with room for one number, a row is read in the
    one layout iff it is in the other, namely iff there are enough bytes ahead, and then both
    bring the same numbers and consume as many bytes. -/
theorem Scalar.bulk_elementwise (s : Scalar) :
    (∀ (written : Array UInt8) (vs : List s.Value),
      (Output.put ⟨written, true⟩ (.scalars s vs)).bytes =
        (Output.put ⟨written, false⟩ (.scalars s vs)).bytes) ∧
    ∀ (i : Input) (vs : List s.Value), i.Supplied s.width →
      let bulk := Input.fillScalars s vs (i.withLayout true)
      let elementwise := Input.fillScalars s vs (i.withLayout false)
      (bulk.2.1 = none ↔ elementwise.2.1 = none) ∧
      (bulk.2.1 = none ↔ vs.length * s.width ≤ i.ahead.length) ∧
      (bulk.2.1 = none → bulk.1 = elementwise.1 ∧
        bulk.2.2.total = elementwise.2.2.total ∧ bulk.2.2.ahead = elementwise.2.2.ahead) := by
  refine ⟨fun written vs => ?_, fun i vs hi => ?_⟩
  · rw [Output.bytes_put, Output.bytes_put, Item.encode_scalars, Item.encode_scalars]
    rfl
  · obtain ⟨hbulk, hnumbers⟩ := hi.fillScalars vs true
    obtain ⟨helementwise, hnumbers'⟩ := hi.fillScalars vs false
    refine ⟨hbulk.trans helementwise.symm, hbulk, fun hnone => ?_⟩
    obtain ⟨hws, htotal, hahead⟩ := hnumbers hnone
    obtain ⟨hws', htotal', hahead'⟩ := hnumbers' (helementwise.2 (hbulk.1 hnone))
    exact ⟨hws.trans hws'.symm, htotal.trans htotal'.symm, hahead.trans hahead'.symm⟩

/-- Three bytes at a time from a source that gives a byte, nothing for now, three bytes and then
    what it is asked for. -/
def Input.crumbling : Input :=
  .ofSource ⟨[1, 2, 3, 4, 5, 6, 7, 8, 9], [.upTo 1, .interrupted, .upTo 3]⟩ 3

/-- The second of four numbers comes in two pieces. -/
theorem Scalar.bulk_elementwise_crumbling :
    Input.crumbling.Supplied Scalar.u16.width ∧
      (Input.fillScalars .u16 [0, 0, 0, 0] (Input.crumbling.withLayout true)).2.1 = none ∧
      (Input.fillScalars .u16 [0, 0, 0, 0] (Input.crumbling.withLayout true)).1 =
        (Input.fillScalars .u16 [0, 0, 0, 0] (Input.crumbling.withLayout false)).1 ∧
      (Input.fillScalars .u16 [0, 0, 0, 0] (Input.crumbling.withLayout false)).1 =
        [0x0201, 0x0403, 0x0605, 0x0807] := by
  have hi : Input.crumbling.Supplied Scalar.u16.width :=
    Input.supplied_ofSource (by decide) (by decide) false
  obtain ⟨-, henough, hsame⟩ :=
    (Scalar.bulk_elementwise .u16).2 Input.crumbling [0, 0, 0, 0] hi
  have hread := henough.2 (by decide)
  exact ⟨hi, hread, (hsame hread).1, by decide +kernel⟩

/-! ## Failures half way -/

namespace Input

variable {m n : Nat} {i i' : Input} {t : Transfer}

/-- Whether a bulk reading of `n` bytes fails iff it delivers fewer. -/
structure Transfer.FailsShort (n : Nat) (t : Transfer) : Prop where
  le : t.delivered.length ≤ n
  failure_eq_none_iff : t.failure = none ↔ t.delivered.length = n

theorem failsShort_failure (e : Error) (hn : 0 < n) : Transfer.FailsShort n ⟨[], some e, i⟩ :=
  ⟨Nat.zero_le n, iff_of_false nofun (Nat.ne_of_lt hn)⟩

/-- Bytes in front of what is delivered are asked for in addition. -/
theorem Transfer.FailsShort.more {bs : Bytes} (ht : t.FailsShort n) (hbs : bs.length + n = m) :
    Transfer.FailsShort m { t with delivered := bs ++ t.delivered } := by
  have hle := ht.le
  have hlen : (bs ++ t.delivered).length = bs.length + t.delivered.length := List.length_append
  refine ⟨by dsimp only; omega, ht.failure_eq_none_iff.trans ?_⟩
  dsimp only
  omega

theorem failsShort_pull (rounds : Nat) (hn : n ≤ rounds) (hi : i.limit ≤ i.capacity) :
    (pull rounds n i).FailsShort n := by
  induction rounds generalizing n i with
  | zero => exact ⟨Nat.zero_le n, iff_of_true rfl (Nat.le_zero.1 hn).symm⟩
  | succ rounds ih =>
    unfold pull
    dsimp only
    split
    · next hzero => exact ⟨Nat.zero_le n, iff_of_true rfl hzero.symm⟩
    next hpos =>
    have hpos : 0 < n := Nat.pos_of_ne_zero hpos
    split
    · exact failsShort_failure _ hpos
    next hchunk =>
    have hbuffers := stays_ensureBuffered (n := min n i.capacity) hi
    cases hr : ensureBuffered (min n i.capacity) i with
    | error e i' => exact failsShort_failure e hpos
    | ok _ i' =>
      rw [hr] at hbuffers
      obtain ⟨hstays, hbuffered⟩ := hbuffers
      have hrest : n - min n i.capacity ≤ rounds := by omega
      refine (ih hrest (moves_advance hstays.fits hbuffered).fits).more ?_
      rw [List.length_take_of_le hbuffered]
      omega

theorem failsShort_transfer (hi : i.limit ≤ i.capacity) : (transfer n i).FailsShort n := by
  have hfirst : (i.unread.take n).length ≤ i.unread.length := List.length_take_le' _ _
  have hn : (i.unread.take n).length ≤ n := List.length_take_le _ _
  exact (failsShort_pull _ (Nat.le_refl _) (moves_advance hi hfirst).fits).more
    (Nat.add_sub_cancel' hn)

/-- All bytes that are ahead can be had, and no more. -/
theorem Supplied.failure_transfer (hi : i.Supplied 1) :
    (transfer n i).failure = none ↔ n ≤ i.ahead.length := by
  have hbytes := (hi.bytes (n := n) (by decide)).leads
  unfold Input.bytes at hbytes
  generalize transfer n i = t at hbytes
  obtain ⟨bs, failure, i'⟩ := t
  cases failure with
  | none => exact iff_of_true rfl hbytes.1
  | some e => exact iff_of_false nofun (Nat.not_le_of_lt hbytes)

/-- **A bulk reading that fails has delivered a clean prefix.**  Whatever a source does, a
    target of bytes is filled with the next bytes of the stream, as many as are consumed, and
    keeps the rest of its own; the reading fails iff these are fewer than the target holds.  If
    the source gives something until its end, it fails iff so few bytes are ahead. -/
theorem clean_prefix {i : Input} (hi : i.limit ≤ i.capacity) (target : Bytes) :
    ∃ k failure i', fillTarget (.bytes target) i =
        (.bytes (i.ahead.take k ++ target.drop k), failure, i') ∧
      k ≤ target.length ∧ k ≤ i.ahead.length ∧ (failure.isSome ↔ k < target.length) ∧
      i'.total = i.total + k ∧ i'.ahead = i.ahead.drop k ∧
      (i.Supplied 1 → (failure.isSome ↔ i.ahead.length < target.length)) := by
  obtain ⟨hmoves, hdelivered⟩ := delivers_transfer (n := target.length) hi
  obtain ⟨hle, hfailure⟩ := failsShort_transfer (n := target.length) hi
  have hsupplied := Supplied.failure_transfer (n := target.length) (i := i)
  have hfill : fillTarget (.bytes target) i =
      (.bytes ((transfer target.length i).delivered ++
        target.drop (transfer target.length i).delivered.length),
      (transfer target.length i).failure, (transfer target.length i).rest) := rfl
  rw [hfill]
  generalize transfer target.length i = t at hmoves hdelivered hle hfailure hsupplied ⊢
  obtain ⟨bs, failure, i'⟩ := t
  dsimp only at hmoves hdelivered hle hfailure hsupplied
  have hsome : failure.isSome ↔ ¬failure = none := Option.isSome_iff_ne_none
  refine ⟨bs.length, failure, i', ?_, hle, hmoves.le, ?_, hmoves.total, hmoves.ahead,
    fun hi => ?_⟩
  · rw [← hdelivered]
  · rw [hsome, hfailure]
    omega
  · rw [hsome, hsupplied hi, Nat.not_le]

/-- Through a buffer of two bytes a target of five gets two, then the source breaks off; what it
    gives later is still to come. -/
theorem clean_prefix_halting :
    let i := ofSource halting 2
    i.limit ≤ i.capacity ∧ ∃ failure i',
      fillTarget (.bytes [9, 9, 9, 9, 9]) i = (.bytes [1, 2, 9, 9, 9], failure, i') ∧
      failure.isSome ∧ i'.total = 2 ∧ i'.ahead = [3, 4, 5, 6, 7] := by
  intro i
  have hi : i.limit ≤ i.capacity := by decide
  obtain ⟨k, failure, i', hfill, -, -, hfails, htotal, hahead, -⟩ :=
    clean_prefix hi [9, 9, 9, 9, 9]
  have htwo : (fillTarget (.bytes [9, 9, 9, 9, 9]) i).2.2.total = 2 := by decide +kernel
  obtain rfl : 2 = k := by
    rw [hfill, htotal] at htwo
    exact htwo.symm.trans (Nat.zero_add k)
  exact ⟨hi, failure, i', hfill, hfails.2 (by decide), htotal, hahead⟩

end Input

end GraphWire
