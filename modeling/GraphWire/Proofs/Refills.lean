/-
  Inputs that are refilled.

  A source is steady if it fails never and is interrupted only for a while
  (`Source.Steady`).  What is ahead of an input (`Input.ahead`) is what is buffered
  and what its source has still to hand out; how much of it is buffered makes no
  difference to a reading.

  * `Input.Supplied.ensureBuffered`: what is asked for is buffered if it is ahead at all,
    whatever the pieces it comes in and wherever the buffer ends;
  * `Input.Consumes` says what comes of consuming bytes in terms of what is ahead:
    `Input.Supplied.take` for at most a buffer, `Input.Supplied.bytes` for any number;
  * `Input.steady_of_composed`: readings do the same on two inputs with the same bytes
    ahead, and on one with fewer of them until these run out (`Input.Outruns`).
-/
import GraphWire.Proofs.Comparing
import GraphWire.Proofs.Composition

namespace GraphWire

variable {α : Type}

/-! ## Steady sources -/

/-- Whether a source hands out something whenever it is asked and has something,
    but for interruptions, of which there are only so many. -/
structure Source.Steady (s : Source) : Prop where
  turns : ∀ t ∈ s.turns, t = .interrupted ∨ ∃ n, 0 < n ∧ t = .upTo n
  last : s.turns.getLast? ≠ some .interrupted

/-- Whether a turn brings something, at once or when it is asked for again. -/
def Turn.brings : Turn → Bool
  | .interrupted => true
  | .upTo n => 0 < n
  | .failing _ => false

theorem Turn.brings_iff (t : Turn) :
    t.brings = true ↔ t = .interrupted ∨ ∃ n, 0 < n ∧ t = .upTo n := by
  cases t <;> simp [brings]

instance (s : Source) : Decidable s.Steady :=
  decidable_of_iff ((∀ t ∈ s.turns, t.brings = true) ∧ s.turns.getLast? ≠ some .interrupted)
    ⟨fun h => ⟨fun t ht => t.brings_iff.1 (h.1 t ht), h.2⟩,
      fun h => ⟨fun t ht => t.brings_iff.2 (h.turns t ht), h.last⟩⟩

namespace Source

theorem Steady.tail {data data' : Bytes} {t u : Turn} {turns : List Turn}
    (hs : Steady ⟨data, t :: u :: turns⟩) : Steady ⟨data', u :: turns⟩ where
  turns v hv := hs.turns v (List.mem_cons_of_mem t hv)
  last := by simpa using hs.last

theorem Steady.of_turns {data data' : Bytes} {turns : List Turn} (hs : Steady ⟨data, turns⟩) :
    Steady ⟨data', turns⟩ := ⟨hs.turns, hs.last⟩

theorem give_eq_nil {data : Bytes} {n : Nat} (hn : 0 < n) (h : data.take n = []) : data = [] := by
  rcases List.take_eq_nil_iff.1 h with rfl | hdata
  · omega
  · exact hdata

/-- **A steady source hands out something as long as it has something.** -/
theorem Steady.supply {s : Source} {space : Nat} (hs : s.Steady) (hspace : 0 < space) :
    ∃ bs s', s.supply space = (.bytes bs, s') ∧ s'.Steady ∧ (bs = [] → s.data = []) := by
  obtain ⟨data, turns⟩ := s
  simp only [Source.supply]
  fun_induction ask data space turns with
  | case1 => exact ⟨_, _, rfl, hs.of_turns, give_eq_nil hspace⟩
  | case2 n =>
    obtain h | ⟨m, hm, h⟩ := hs.turns (.upTo n) (by simp)
    · cases h
    · cases h
      exact ⟨_, _, rfl, hs.of_turns, give_eq_nil (by omega)⟩
  | case3 => exact absurd rfl hs.last
  | case4 text =>
    obtain h | ⟨m, hm, h⟩ := hs.turns (.failing text) (by simp) <;> cases h
  | case5 n turns hturns =>
    obtain ⟨u, turns, rfl⟩ := List.exists_cons_of_ne_nil hturns
    obtain h | ⟨m, hm, h⟩ := hs.turns (.upTo n) (by simp)
    · cases h
    · cases h
      exact ⟨_, _, rfl, hs.tail, give_eq_nil (by omega)⟩
  | case6 turns hturns ih =>
    obtain ⟨u, turns, rfl⟩ := List.exists_cons_of_ne_nil hturns
    exact ih hs.tail
  | case7 text turns hturns =>
    obtain h | ⟨m, hm, h⟩ := hs.turns (.failing text) (by simp) <;> cases h

end Source

/-! ## What is ahead of an input -/

/-- Errors that are the same, but for the numbers of an underflow. -/
inductive Error.Alike : Error → Error → Prop where
  | refl (e : Error) : Alike e e
  | underflow (required available required' available' : Nat) :
    Alike (.underflow required available) (.underflow required' available')

namespace Input

/-- The bytes that are buffered and those that the source has still to hand out. -/
def ahead (i : Input) : Bytes := i.unread ++ i.source.elim [] Source.data

/-- Whether all that is ahead of an input can be had, so many bytes at a time: the buffered
    bytes fit into the buffer, and a source is steady and has a buffer with so much room. -/
structure Supplied (room : Nat) (i : Input) : Prop where
  fits : i.limit ≤ i.capacity
  steady : ∀ source, i.source = some source → source.Steady ∧ room ≤ i.capacity

/-- Whether all that is ahead of an input can be had, with room for every number. -/
abbrev Ready (i : Input) : Prop := i.Supplied 8

variable {room : Nat}

/-- Whether an input is what another has become by refills. -/
structure Refilled (room : Nat) (i i' : Input) : Prop where
  supplied : i'.Supplied room
  ahead : i'.ahead = i.ahead
  native : i'.native = i.native
  capacity : i'.capacity = i.capacity

theorem Supplied.refilled {i : Input} (hi : i.Supplied room) : Refilled room i i :=
  ⟨hi, rfl, rfl, rfl⟩

theorem Refilled.trans {i i₁ i₂ : Input} (h : Refilled room i i₁) (h' : Refilled room i₁ i₂) :
    Refilled room i i₂ :=
  ⟨h'.supplied, h'.ahead.trans h.ahead, h'.native.trans h.native, h'.capacity.trans h.capacity⟩

theorem length_unread_le (i : Input) : i.unread.length ≤ i.ahead.length := by
  simp [ahead]

/-- What comes of asking for bytes: a source that has some brings some. -/
theorem Supplied.fill {i : Input} (hi : i.Supplied room) (space : Nat) (hspace : 0 < space)
    (hroom : i.limit + space ≤ i.capacity) :
    ∃ more i', fill space i = .ok more i' ∧ Refilled room i i' ∧ i'.position = i.position ∧
      (more = true → i.unread.length < i'.unread.length) ∧ (more = false → i.unread = i.ahead) := by
  unfold Input.fill
  cases hsource : i.source with
  | none =>
    refine ⟨false, i, rfl, hi.refilled, rfl, by simp, fun _ => ?_⟩
    simp [ahead, hsource]
  | some source =>
    obtain ⟨hsteady, hcapacity⟩ := hi.steady source hsource
    obtain ⟨bs, source', hsupply, hsteady', hnil⟩ := hsteady.supply hspace
    have hdata := source.handed_append_data space
    simp only [hsupply, Supply.handed] at hdata ⊢
    have hlimit : i.limit = i.position + i.unread.length := rfl
    refine ⟨_, _, rfl, ⟨⟨?_, ?_⟩, ?_, rfl, rfl⟩, rfl, ?_, ?_⟩
    · show i.position + (i.unread ++ bs).length ≤ i.capacity
      rw [List.length_append]
      omega
    · rintro _ ⟨⟩
      exact ⟨hsteady', hcapacity⟩
    · simp [ahead, hsource, ← hdata.1]
    · intro hmore
      have hbs : bs ≠ [] := by simpa using hmore
      simpa using List.length_pos_iff.2 hbs
    · intro hmore
      have hbs : bs = [] := by simpa using hmore
      simp [ahead, hsource, hnil hbs]

/-- Refilling goes on until there is enough or nothing more. -/
theorem Supplied.gather {n : Nat} (rounds : Nat) {i : Input} (hi : i.Supplied room)
    (hfront : i.position = 0) (hn : n ≤ i.capacity) (hrounds : n ≤ rounds + i.unread.length) :
    ∃ i', gather rounds n i = .ok () i' ∧ Refilled room i i' ∧
      (n ≤ i.ahead.length → n ≤ i'.unread.length) := by
  induction rounds generalizing i with
  | zero => exact ⟨i, rfl, hi.refilled, fun _ => by omega⟩
  | succ rounds ih =>
    unfold Input.gather
    rw [get_bind]
    by_cases hl : n ≤ i.unread.length
    · have hh : i.holds n = true := (hasLength_iff n i.unread).2 hl
      rw [if_pos hh]
      exact ⟨i, rfl, hi.refilled, fun _ => hl⟩
    · have hh : ¬i.holds n = true := fun h => hl ((hasLength_iff n i.unread).1 h)
      rw [if_neg hh]
      have hlimit : i.limit = i.unread.length := by simp [limit, hfront]
      obtain ⟨more, i₁, hfill, hi₁, hfront₁, hmore, hend⟩ :=
        hi.fill (i.capacity - i.unread.length) (by omega) (by omega)
      rw [bind_of_ok hfill]
      cases more with
      | true =>
        obtain ⟨i', hgather, hi', hl'⟩ := ih hi₁.supplied (hfront₁.trans hfront)
          (hi₁.capacity ▸ hn) (by have := hmore rfl; omega)
        rw [hi₁.ahead] at hl'
        exact ⟨i', hgather, hi₁.trans hi', hl'⟩
      | false => exact ⟨i₁, rfl, hi₁, fun h => absurd (hend rfl ▸ h) hl⟩

/-- What comes of asking that `n` bytes be buffered: they are, or there are not so
    many ahead. -/
def Reaches (room n : Nat) (i : Input) : EStateM.Result Error Input Unit → Prop
  | .ok _ i' => Refilled room i i' ∧ n ≤ i'.unread.length
  | .error e _ => i.ahead.length < n ∧ ∃ available, e = .underflow n available

theorem Supplied.refill {n : Nat} {i : Input} (hi : i.Supplied room) (hn : n ≤ i.capacity) :
    Reaches room n i (refill n i) := by
  have hfits : i.compact.limit ≤ i.limit := by simp [compact, limit]
  have hcompact : i.compact.Supplied room := ⟨Nat.le_trans hfits hi.fits, hi.steady⟩
  obtain ⟨i', hgather, hi', hl⟩ := hcompact.gather n rfl hn (Nat.le_add_right n _)
  unfold Input.refill
  rw [modify_bind, bind_of_ok hgather, get_bind]
  by_cases hh : i'.holds n = true
  · rw [if_pos hh]
    exact ⟨⟨hi'.supplied, hi'.ahead, hi'.native, hi'.capacity⟩, (hasLength_iff n i'.unread).1 hh⟩
  · rw [if_neg hh]
    have hshort : ¬n ≤ i'.unread.length := fun h => hh ((hasLength_iff n i'.unread).2 h)
    exact ⟨Nat.lt_of_not_le fun h => hshort (hl h), _, rfl⟩

/-- **What is ahead can be buffered**, as far as it fits into the buffer. -/
theorem Supplied.ensureBuffered {n : Nat} {i : Input} (hi : i.Supplied room)
    (hn : n ≤ i.capacity ∨ i.source = none) : Reaches room n i (ensureBuffered n i) := by
  unfold Input.ensureBuffered
  rw [get_bind]
  by_cases hh : i.holds n = true
  · rw [if_pos hh]
    exact ⟨hi.refilled, (hasLength_iff n i.unread).1 hh⟩
  rw [if_neg hh]
  have hshort : ¬n ≤ i.unread.length := fun h => hh ((hasLength_iff n i.unread).2 h)
  by_cases hcapacity : i.capacity < n
  · have hnone : i.source = none := hn.resolve_left (Nat.not_le_of_lt hcapacity)
    have hahead : i.ahead = i.unread := by simp [ahead, hnone]
    rw [if_pos hcapacity, hnone]
    exact ⟨hahead ▸ Nat.lt_of_not_le hshort, _, rfl⟩
  rw [if_neg hcapacity]
  have hfit : n ≤ i.capacity := Nat.le_of_not_lt hcapacity
  by_cases hfull : (i.unread.isEmpty || decide (i.capacity ≤ i.limit)) = true
  · rw [if_pos hfull]
    exact hi.refill hfit
  rw [if_neg hfull]
  have hroom : ¬i.capacity ≤ i.limit := by
    intro h
    exact hfull (by simp [h])
  obtain ⟨more, i₁, hfill, hi₁, -, -, hend⟩ :=
    hi.fill (i.capacity - i.limit) (by omega) (by omega)
  rw [bind_of_ok hfill]
  cases more with
  | true =>
    simp only [if_true, get_bind]
    by_cases hh₁ : i₁.holds n = true
    · rw [if_pos hh₁]
      exact ⟨hi₁, (hasLength_iff n i₁.unread).1 hh₁⟩
    · rw [if_neg hh₁]
      have hrefill := hi₁.supplied.refill (hi₁.capacity ▸ hfit)
      cases hr : Input.refill n i₁ with
      | ok u i' =>
        rw [hr] at hrefill
        exact ⟨hi₁.trans hrefill.1, hrefill.2⟩
      | error e i' =>
        rw [hr] at hrefill
        exact ⟨hi₁.ahead ▸ hrefill.1, hrefill.2⟩
  | false => exact ⟨hend rfl ▸ Nat.lt_of_not_le hshort, _, rfl⟩

/-- What comes of consuming `n` bytes: those that are ahead, or there are not so
    many. -/
def Consumes (room n : Nat) (i : Input) : EStateM.Result Error Input Bytes → Prop
  | .ok bs i' => n ≤ i.ahead.length ∧ bs = i.ahead.take n ∧ i'.Supplied room ∧
      i'.ahead = i.ahead.drop n ∧ i'.native = i.native
  | .error e _ => i.ahead.length < n ∧ ∃ required available, e = .underflow required available

/-- What is buffered is the beginning of what is ahead. -/
theorem take_ahead {i : Input} {n : Nat} (h : n ≤ i.unread.length) :
    i.ahead.take n = i.unread.take n := by
  unfold ahead
  exact List.take_append_of_le_length h

theorem ahead_advance {i : Input} {n : Nat} (h : n ≤ i.unread.length) :
    (i.advance n).ahead = i.ahead.drop n := by
  unfold ahead
  exact (List.drop_append_of_le_length h).symm

theorem Supplied.advance {i : Input} (hi : i.Supplied room) {n : Nat} (h : n ≤ i.unread.length) :
    (i.advance n).Supplied room := by
  refine ⟨?_, hi.steady⟩
  have hlimit : (i.advance n).limit = i.limit := by
    simp only [limit, Input.advance, List.length_drop]
    omega
  rw [hlimit]
  exact hi.fits

/-- Bytes that are buffered are consumed. -/
theorem Refilled.consumes {i i' : Input} {n : Nat} (hi : Refilled room i i')
    (hn : n ≤ i'.unread.length) : Consumes room n i (.ok (i'.unread.take n) (i'.advance n)) := by
  refine ⟨hi.ahead ▸ Nat.le_trans hn i'.length_unread_le, ?_, hi.supplied.advance hn, ?_,
    hi.native⟩
  · rw [← hi.ahead, take_ahead hn]
  · rw [ahead_advance hn, hi.ahead]

theorem Supplied.consumes_nothing {i : Input} (hi : i.Supplied room) :
    Consumes room 0 i (.ok [] i) :=
  ⟨Nat.zero_le _, rfl, hi, rfl, rfl⟩

theorem Supplied.enough {n : Nat} {i : Input} (hi : i.Supplied room) (hn : n ≤ room) :
    n ≤ i.capacity ∨ i.source = none := by
  cases hsource : i.source with
  | none => exact Or.inr rfl
  | some source => exact Or.inl (Nat.le_trans hn (hi.steady source hsource).2)

theorem Supplied.take {n : Nat} {i : Input} (hi : i.Supplied room)
    (hroom : n ≤ i.capacity ∨ i.source = none) : Consumes room n i (take n i) := by
  have hreach := hi.ensureBuffered hroom
  show Consumes room n i (EStateM.bind (Input.ensureBuffered n) _ i)
  unfold EStateM.bind
  cases hr : Input.ensureBuffered n i with
  | ok u i' =>
    rw [hr] at hreach
    exact hreach.1.consumes hreach.2
  | error e i' =>
    rw [hr] at hreach
    exact ⟨hreach.1, n, hreach.2⟩

/-! ## Bulk reading -/

/-- The result of a bulk reading. -/
def Transfer.result (t : Transfer) : EStateM.Result Error Input Bytes :=
  match t.failure with
  | none => .ok t.delivered t.rest
  | some e => .error e t.rest

/-- Bytes that are buffered are delivered in front of the rest. -/
theorem Refilled.consumes_more {i i' : Input} {m n : Nat} {t : Transfer}
    (hi : Refilled room i i') (hm : m ≤ i'.unread.length) (hmn : m ≤ n)
    (ht : Consumes room (n - m) (i'.advance m) t.result) :
    Consumes room n i (Transfer.result { t with delivered := i'.unread.take m ++ t.delivered }) := by
  obtain ⟨bs, failure, rest⟩ := t
  have hdrop : (i'.advance m).ahead = i.ahead.drop m := by rw [ahead_advance hm, hi.ahead]
  have htake : i'.unread.take m = i.ahead.take m := by rw [← take_ahead hm, hi.ahead]
  have hlen : m ≤ i.ahead.length := hi.ahead ▸ Nat.le_trans hm i'.length_unread_le
  cases failure with
  | none =>
    obtain ⟨hn, rfl, hsupplied, hahead, hnative⟩ := ht
    rw [hdrop] at hn hahead
    rw [List.length_drop] at hn
    refine ⟨by omega, ?_, hsupplied, ?_, hnative.trans hi.native⟩
    · rw [hdrop, htake, ← List.take_add, Nat.add_sub_cancel' hmn]
    · rw [hahead, List.drop_drop, Nat.add_sub_cancel' hmn]
  | some e =>
    obtain ⟨hn, he⟩ := ht
    rw [hdrop, List.length_drop] at hn
    exact ⟨by omega, he⟩

theorem Supplied.pull {n : Nat} (rounds : Nat) {i : Input} (hi : i.Supplied room)
    (hroom : 0 < room) (hn : n ≤ rounds) : Consumes room n i (pull rounds n i).result := by
  induction rounds generalizing n i with
  | zero =>
    obtain rfl : n = 0 := by omega
    exact hi.consumes_nothing
  | succ rounds ih =>
    unfold Input.pull
    by_cases hzero : n = 0
    · subst hzero
      exact hi.consumes_nothing
    rw [if_neg hzero]
    by_cases hchunk : min n i.capacity = 0
    · simp only [if_pos hchunk]
      have hcapacity : i.capacity = 0 := by omega
      have hlimit := hi.fits
      cases hsource : i.source with
      | none =>
        have hunread : i.unread.length = 0 := by unfold limit at hlimit; omega
        refine ⟨?_, n, 0, rfl⟩
        simp [ahead, hsource, hunread]
        omega
      | some source =>
        have := (hi.steady source hsource).2
        omega
    · simp only [if_neg hchunk]
      have hreach := hi.ensureBuffered (n := min n i.capacity) (Or.inl (Nat.min_le_right _ _))
      cases hr : Input.ensureBuffered (min n i.capacity) i with
      | ok u i' =>
        rw [hr] at hreach
        obtain ⟨hi', hl⟩ := hreach
        have hmore := ih (n := n - min n i.capacity) (hi'.supplied.advance hl) (by omega)
        exact hi'.consumes_more hl (Nat.min_le_left _ _) hmore
      | error e i' =>
        rw [hr] at hreach
        obtain ⟨hshort, available, rfl⟩ := hreach
        exact ⟨by omega, _, _, rfl⟩

/-- **All bytes that are ahead can be had**, however small the buffer. -/
theorem Supplied.bytes {n : Nat} {i : Input} (hi : i.Supplied room) (hroom : 0 < room) :
    Consumes room n i (bytes n i) := by
  have hlen : (i.unread.take n).length = min n i.unread.length := List.length_take
  have hfirst : (i.unread.take n).length ≤ i.unread.length := by omega
  have htake : i.unread.take (i.unread.take n).length = i.unread.take n :=
    (List.prefix_iff_eq_take.1 (List.take_prefix n i.unread)).symm
  have hresult : Input.bytes n i = (transfer n i).result := by
    unfold Input.bytes Transfer.result
    split <;> simp_all
  rw [hresult]
  have hpull := (hi.advance hfirst).pull (n := n - (i.unread.take n).length) _ hroom
    (Nat.le_refl _)
  have hmore := hi.refilled.consumes_more hfirst (by omega) hpull
  rwa [htake] at hmore

/-! ## The end of an input -/

theorem supplied_ofBytes (bs : Bytes) (native : Bool) :
    ((ofBytes bs).withLayout native).Supplied room :=
  ⟨Nat.le_of_eq (Nat.zero_add _), by rintro _ ⟨⟩⟩

theorem supplied_ofSource {source : Source} (hs : source.Steady) {capacity : Nat}
    (hroom : room ≤ capacity) (native : Bool) :
    ((ofSource source capacity).withLayout native).Supplied room :=
  ⟨Nat.zero_le _, by rintro _ ⟨⟩; exact ⟨hs, hroom⟩⟩

theorem ahead_ofBytes (bs : Bytes) (native : Bool) :
    ((ofBytes bs).withLayout native).ahead = bs := by
  simp [ahead, ofBytes, withLayout]

/-- A byte can be buffered iff one is ahead. -/
theorem Ready.optional_one {i : Input} (hi : i.Ready) :
    ∃ i', optional 1 i = .ok (min i.ahead.length 1) i' ∧ Refilled 8 i i' := by
  unfold Input.optional
  rw [get_bind]
  by_cases hh : i.holds (min 1 i.capacity) = true
  · simp only [if_pos hh]
    refine ⟨i, congrArg (EStateM.Result.ok · i) ?_, hi.refilled⟩
    have hbuffered := (hasLength_iff _ i.unread).1 hh
    have hle := i.length_unread_le
    cases hc : i.capacity with
    | succ c => omega
    | zero =>
      -- a buffer without room has no source
      have hfits := hi.fits
      have hnone : i.source = none := by
        cases hs : i.source with
        | none => rfl
        | some source => have := (hi.steady source hs).2; omega
      have hlen : i.ahead.length = i.unread.length := by simp [ahead, hnone]
      unfold limit at hfits
      omega
  · have hc : min 1 i.capacity = 1 := by
      have hne : min 1 i.capacity ≠ 0 := fun hzero =>
        hh ((hasLength_iff _ _).2 (hzero ▸ Nat.zero_le _))
      omega
    have hcompact : i.compact.Ready :=
      ⟨Nat.le_trans (by simp [compact, limit]) hi.fits, hi.steady⟩
    obtain ⟨i', hgather, hi', hl⟩ := hcompact.gather (n := 1) 1 rfl
      (show 1 ≤ i.capacity by omega) (Nat.le_add_right _ _)
    rw [if_neg hh, hc, modify_bind, bind_of_ok hgather, get_bind]
    refine ⟨i', congrArg (EStateM.Result.ok · i') ?_,
      ⟨hi'.supplied, hi'.ahead, hi'.native, hi'.capacity⟩⟩
    have hahead : i'.ahead.length = i.ahead.length := congrArg List.length hi'.ahead
    have hle := i'.length_unread_le
    have hl : 1 ≤ i.ahead.length → 1 ≤ i'.unread.length := hl
    omega

/-- **An input is at its end iff nothing is ahead.** -/
theorem Ready.atEnd {i : Input} (hi : i.Ready) :
    ∃ i', atEnd i = .ok i.ahead.isEmpty i' ∧ Refilled 8 i i' := by
  unfold Input.atEnd
  rw [get_bind]
  by_cases hu : i.unread.isEmpty
  · obtain ⟨i', h', hr⟩ := hi.optional_one
    rw [if_pos hu, bind_of_ok h']
    refine ⟨i', congrArg (EStateM.Result.ok · i') ?_, hr⟩
    cases i.ahead <;> simp
  · rw [if_neg hu]
    refine ⟨i, congrArg (EStateM.Result.ok · i) ?_, hi.refilled⟩
    cases hl : i.unread with
    | nil => simp [hl] at hu
    | cons b bs => simp [ahead, hl]

end Input

/-! ## Readings in step -/

/-- What a reading may differ in where only the last bytes are not ahead: underflows
    count as the same, and it may end early with one if there are such bytes. -/
def Tolerance.without (rest : Bytes) : Tolerance where
  same := Error.Alike
  early e := rest ≠ [] ∧ ∃ required available, e = .underflow required available

/-- The same for a reading of items, which has errors of its own only. -/
def Tolerance.scanning (rest : Bytes) : Tolerance :=
  { Tolerance.without rest with same := fun e e' => e.OfItem ∧ e.Alike e' }

/-- Whether the first of two inputs has some bytes more ahead than the second, and
    both can be had to the end. -/
structure Input.Outruns (rest : Bytes) (i j : Input) : Prop where
  left : i.Ready
  right : j.Ready
  ahead : i.ahead = j.ahead ++ rest
  native : i.native = j.native

/-- Whether a reading of items does the same on all inputs with the same bytes ahead,
    and where the last of them are not. -/
abbrev Scan.Steady (rest : Bytes) (x : Scan α) : Prop :=
  InStep (.scanning rest) (Input.Outruns rest) x x

namespace Input

variable {rest : Bytes}

/-- Consuming does the same wherever the same bytes are ahead, as long as they last. -/
theorem Outruns.consumes {i j : Input} (hij : i.Outruns rest j) {n : Nat}
    {r r' : EStateM.Result Error Input Bytes} (hr : Consumes 8 n i r) (hr' : Consumes 8 n j r') :
    EndsAlike (.scanning rest) (fun _ => Outruns rest) r r' := by
  have hahead := hij.ahead
  have hlen : i.ahead.length = j.ahead.length + rest.length := by
    rw [hahead, List.length_append]
  cases r with
  | ok bs i' =>
    obtain ⟨hn, hbs, hready, hrest, hnative⟩ := hr
    cases r' with
    | ok bs' j' =>
      obtain ⟨hn', hbs', hready', hrest', hnative'⟩ := hr'
      obtain rfl : bs = bs' := by rw [hbs, hbs', hahead, List.take_append_of_le_length hn']
      refine .ok bs ⟨hready, hready', ?_, by rw [hnative, hnative', hij.native]⟩
      rw [hrest, hrest', hahead, List.drop_append_of_le_length hn']
    | error e j' =>
      obtain ⟨hshort, he⟩ := hr'
      refine .early ⟨?_, he⟩
      rintro rfl
      rw [List.length_nil] at hlen
      omega
  | error e i' =>
    obtain ⟨hshort, _, _, rfl⟩ := hr
    cases r' with
    | ok bs' j' =>
      have hn := hr'.1
      omega
    | error e' j' =>
      obtain ⟨-, _, _, rfl⟩ := hr'
      exact .error ⟨.underflow _ _, .underflow _ _ _ _⟩

theorem steady_take {n : Nat} (hn : n ≤ 8) : Scan.Steady rest (take n) :=
  fun _ _ hij =>
    hij.consumes (hij.left.take (hij.left.enough hn)) (hij.right.take (hij.right.enough hn))

theorem steady_bytes (n : Nat) : Scan.Steady rest (bytes n) :=
  fun _ _ hij => hij.consumes (hij.left.bytes (by decide)) (hij.right.bytes (by decide))

/-- **What is made of consuming bytes does the same** wherever the same bytes are ahead. -/
theorem steady_of_composed {x : Scan α} (hx : x.Composed) : Scan.Steady rest x := by
  induction hx with
  | pure a => exact .pure a
  | throw he => exact .throw ⟨he, .refl _⟩
  | bind _ _ ihx ihf => exact ihx.bind ihf
  | layout f _ ih => exact .get_bind fun i j hij => hij.native ▸ ih i.native
  | take hn => exact steady_take hn
  | bytes n => exact steady_bytes n

end Input

end GraphWire
