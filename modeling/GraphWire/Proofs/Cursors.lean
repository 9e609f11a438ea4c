/-
  Inputs as cursors over a stream.

  A source may hand out little, nothing for now, or fail whenever it is asked, and operations
  may fail half way.  Yet an input stands at one place of the stream that it is made of, and
  moves forward only (`Input.Moves`): what is ahead of it is the stream from there on.

  * `Input.moves_ensureBuffered`: to buffer bytes is to stay in place, whether it succeeds or
    fails, and in whichever of its rounds;
  * `Input.moves_take`, `Input.moves_pull`: consuming moves by the bytes that it brings, and
    consuming few bytes does not move if it fails;
  * `Input.Advancing`: so every operation moves forward, by some number of bytes;
  * `Input.cursor_after`: what is buffered is always what was handed out and not yet consumed.
-/
import GraphWire.Proofs.Refills
import GraphWire.Proofs.Scans

namespace GraphWire

variable {α β : Type}

/-- Whether a result is one of two kinds: of a success with such a value and state, or of a
    failure with such a state. -/
def Leads {σ : Type} (done : α → σ → Prop) (failed : σ → Prop) :
    EStateM.Result Error σ α → Prop
  | .ok a s => done a s
  | .error _ s => failed s

namespace Leads

variable {σ : Type} {done done' : α → σ → Prop} {next : β → σ → Prop} {failed failed' : σ → Prop}

theorem mono {r : EStateM.Result Error σ α} (hr : Leads done failed r)
    (hdone : ∀ a s, done a s → done' a s) (hfailed : ∀ s, failed s → failed' s) :
    Leads done' failed' r := by
  cases r with
  | ok a s => exact hdone a s hr
  | error e s => exact hfailed s hr

protected theorem bind {x : EStateM Error σ α} {f : α → EStateM Error σ β} {s : σ}
    (hx : Leads done failed (x s)) (hf : ∀ a s', done a s' → Leads next failed (f a s')) :
    Leads next failed ((x >>= f) s) := by
  show Leads next failed (EStateM.bind x f s)
  unfold EStateM.bind
  cases h : x s with
  | ok a s' =>
    rw [h] at hx
    exact hf a s' hx
  | error e s' =>
    rw [h] at hx
    exact hx

theorem stateAfter {x : EStateM Error σ α} {s : σ} {P : σ → Prop}
    (hx : Leads (fun _ => P) P (x s)) : P (stateAfter x s) := by
  unfold GraphWire.stateAfter
  cases h : x s with
  | ok a s' =>
    rw [h] at hx
    exact hx
  | error e s' =>
    rw [h] at hx
    exact hx

end Leads

namespace Input

variable {i i₁ i' : Input} {m n k : Nat}

/-! ## Moving forward -/

/-- Whether the second input is the first so many bytes further on: it has consumed so many
    more of the bytes that were ahead, and what it buffers fits into its buffer. -/
structure Moves (n : Nat) (i i' : Input) : Prop where
  fits : i'.limit ≤ i'.capacity
  le : n ≤ i.ahead.length
  total : i'.total = i.total + n
  ahead : i'.ahead = i.ahead.drop n

/-- Whether the second input is the first in the same place. -/
abbrev Stays (i i' : Input) : Prop := Moves 0 i i'

/-- Whether the second input is the first somewhere further on. -/
def Proceeds (i i' : Input) : Prop := ∃ n, Moves n i i'

theorem Stays.refl (hi : i.limit ≤ i.capacity) : Stays i i := ⟨hi, Nat.zero_le _, rfl, rfl⟩

theorem Moves.trans (h : Moves m i i₁) (h' : Moves n i₁ i') : Moves (m + n) i i' := by
  have hle := h'.le
  rw [h.ahead, List.length_drop] at hle
  refine ⟨h'.fits, ?_, ?_, ?_⟩
  · have := h.le
    omega
  · rw [h'.total, h.total, Nat.add_assoc]
  · rw [h'.ahead, h.ahead, List.drop_drop]

theorem Stays.trans (h : Stays i i₁) (h' : Moves n i₁ i') : Moves n i i' :=
  Nat.zero_add n ▸ Moves.trans h h'

theorem Moves.proceeds (h : Moves n i i') : Proceeds i i' := ⟨n, h⟩

theorem Proceeds.trans (h : Proceeds i i₁) (h' : Proceeds i₁ i') : Proceeds i i' := by
  obtain ⟨m, hm⟩ := h
  obtain ⟨n, hn⟩ := h'
  exact ⟨m + n, hm.trans hn⟩

theorem Proceeds.fits (h : Proceeds i i') : i'.limit ≤ i'.capacity := by
  obtain ⟨n, hn⟩ := h
  exact hn.fits

/-- Bytes that are buffered can be consumed. -/
theorem moves_advance (hi : i.limit ≤ i.capacity) (hn : n ≤ i.unread.length) :
    Moves n i (i.advance n) := by
  have hlimit : (i.advance n).limit = i.limit := by
    simp only [limit, advance, List.length_drop]
    omega
  refine ⟨hlimit ▸ hi, Nat.le_trans hn i.length_unread_le, ?_, ahead_advance hn⟩
  show i.passed + (i.position + n) = i.passed + i.position + n
  omega

theorem stays_compact (hi : i.limit ≤ i.capacity) : Stays i i.compact := by
  refine ⟨Nat.le_trans ?_ hi, Nat.zero_le _, rfl, rfl⟩
  simp [compact, limit]

/-! ## Buffering -/

/-- Whatever a source does when it is asked, its bytes are appended to what is buffered. -/
theorem stays_fill (space : Nat) (hroom : i.limit + space ≤ i.capacity) :
    Leads (fun _ i' => Stays i i' ∧ i'.position = i.position) (Stays i) (fill space i) := by
  unfold fill
  cases hsource : i.source with
  | none => exact ⟨.refl (by omega), rfl⟩
  | some source =>
    have hdata := source.handed_append_data space
    have hlimit : i.limit = i.position + i.unread.length := rfl
    have hahead : i.ahead = i.unread ++ source.data := by simp [ahead, hsource]
    dsimp only
    generalize source.supply space = supplied at hdata ⊢
    obtain ⟨supply, source'⟩ := supplied
    cases supply with
    | failure text =>
      refine ⟨show i.limit ≤ i.capacity by omega, Nat.zero_le _, rfl, ?_⟩
      rw [hahead, ← hdata.1]
      rfl
    | bytes bs =>
      refine ⟨⟨?_, Nat.zero_le _, rfl, ?_⟩, rfl⟩
      · show i.position + (i.unread ++ bs).length ≤ i.capacity
        rw [List.length_append]
        have : bs.length ≤ space := hdata.2
        omega
      · rw [hahead, ← hdata.1]
        exact List.append_assoc _ _ _

theorem stays_gather (rounds n : Nat) (hi : i.limit ≤ i.capacity) (hfront : i.position = 0) :
    Leads (fun _ => Stays i) (Stays i) (gather rounds n i) := by
  induction rounds generalizing i with
  | zero => exact Stays.refl hi
  | succ rounds ih =>
    unfold gather
    rw [get_bind]
    split
    · exact Stays.refl hi
    have hlimit : i.limit = i.unread.length := by simp [limit, hfront]
    refine (stays_fill (i.capacity - i.unread.length) (by omega)).bind ?_
    rintro more i₁ ⟨h₁, hfront₁⟩
    cases more with
    | true => exact (ih h₁.fits (hfront₁.trans hfront)).mono (fun _ _ => h₁.trans) fun _ => h₁.trans
    | false => exact h₁

/-- What an operation that buffers so many bytes does: it stays in place, and they are there
    if it succeeds. -/
abbrev Buffers (n : Nat) (i : Input) : EStateM.Result Error Input Unit → Prop :=
  Leads (fun _ i' => Stays i i' ∧ n ≤ i'.unread.length) (Stays i)

theorem stays_refill (hi : i.limit ≤ i.capacity) : Buffers n i (refill n i) := by
  have hcompact := stays_compact hi
  unfold refill
  rw [modify_bind]
  refine ((stays_gather n n hcompact.fits rfl).mono (fun _ _ => hcompact.trans)
    fun _ => hcompact.trans).bind fun _ i' h => ?_
  rw [get_bind]
  by_cases hh : i'.holds n = true
  · rw [if_pos hh]
    exact ⟨h, (hasLength_iff n i'.unread).1 hh⟩
  · rw [if_neg hh]
    exact h

/-- **To buffer bytes is to stay in place**, however it ends. -/
theorem stays_ensureBuffered (hi : i.limit ≤ i.capacity) :
    Buffers n i (ensureBuffered n i) := by
  unfold ensureBuffered
  rw [get_bind]
  by_cases hh : i.holds n = true
  · rw [if_pos hh]
    exact ⟨.refl hi, (hasLength_iff n i.unread).1 hh⟩
  rw [if_neg hh]
  split
  · exact Stays.refl hi
  split
  · exact stays_refill hi
  refine (stays_fill (i.capacity - i.limit) (by omega)).bind ?_
  rintro more i₁ ⟨h₁, -⟩
  cases more with
  | false => exact h₁
  | true =>
    simp only [if_true, get_bind]
    by_cases hh₁ : i₁.holds n = true
    · rw [if_pos hh₁]
      exact ⟨h₁, (hasLength_iff n i₁.unread).1 hh₁⟩
    · rw [if_neg hh₁]
      exact (stays_refill h₁.fits).mono (fun _ _ h => ⟨h₁.trans h.1, h.2⟩) fun _ => h₁.trans

theorem stays_require (hi : i.limit ≤ i.capacity) :
    Leads (fun _ => Stays i) (Stays i) (require n i) :=
  (stays_ensureBuffered hi).bind fun _ _ h => h.1

theorem stays_optional (hi : i.limit ≤ i.capacity) :
    Leads (fun _ => Stays i) (Stays i) (optional n i) := by
  have hcompact := stays_compact hi
  unfold optional
  rw [get_bind]
  split
  · exact Stays.refl hi
  rw [modify_bind]
  exact ((stays_gather _ _ hcompact.fits rfl).mono (fun _ _ => hcompact.trans)
    fun _ => hcompact.trans).bind fun _ _ h => h

theorem stays_atEnd (hi : i.limit ≤ i.capacity) :
    Leads (fun _ => Stays i) (Stays i) (atEnd i) := by
  unfold atEnd
  rw [get_bind]
  split
  · exact (stays_optional hi).bind fun _ _ h => h
  · exact Stays.refl hi

/-! ## Consuming -/

/-- **Bytes are consumed all or not at all.** -/
theorem moves_take (hi : i.limit ≤ i.capacity) :
    Leads (fun bs i' => Moves n i i' ∧ bs = i.ahead.take n) (Stays i) (take n i) := by
  refine (stays_ensureBuffered hi).bind ?_
  rintro _ i' ⟨h, hn⟩
  refine ⟨h.trans (moves_advance h.fits hn), ?_⟩
  rw [← take_ahead hn, h.ahead]
  rfl

theorem proceeds_skipSteps (steps : Nat) (hi : i.limit ≤ i.capacity) :
    Leads (fun _ => Proceeds i) (Proceeds i) (skipSteps steps n i) := by
  induction steps generalizing n i with
  | zero => exact (Stays.refl hi).proceeds
  | succ steps ih =>
    unfold skipSteps
    split
    · exact (Stays.refl hi).proceeds
    rw [get_bind]
    refine ((moves_take hi).mono (fun _ _ h => h.1) fun _ h => h.proceeds).bind ?_
    intro _ i₁ h₁
    exact (ih h₁.fits).mono (fun _ _ => h₁.proceeds.trans) fun _ => h₁.proceeds.trans

/-- What a bulk reading delivers are the bytes that it moves over. -/
def Delivers (i : Input) (t : Transfer) : Prop :=
  Moves t.delivered.length i t.rest ∧ t.delivered = i.ahead.take t.delivered.length

theorem delivers_nothing (failure : Option Error) (h : Stays i i') :
    Delivers i ⟨[], failure, i'⟩ := ⟨h, rfl⟩

/-- Bytes that are buffered are delivered in front of the rest. -/
theorem delivers_more {t : Transfer} (h : Stays i i') (hm : m ≤ i'.unread.length)
    (ht : Delivers (i'.advance m) t) :
    Delivers i { t with delivered := i'.unread.take m ++ t.delivered } := by
  have hadvance := h.trans (moves_advance h.fits hm)
  have hlen : (i'.unread.take m ++ t.delivered).length = m + t.delivered.length := by
    rw [List.length_append, List.length_take_of_le hm]
  unfold Delivers
  dsimp only
  rw [hlen]
  refine ⟨hadvance.trans ht.1, ?_⟩
  rw [List.take_add, ← hadvance.ahead, ← ht.2, ← take_ahead hm, h.ahead]
  rfl

theorem delivers_pull (rounds : Nat) (hi : i.limit ≤ i.capacity) :
    Delivers i (pull rounds n i) := by
  induction rounds generalizing n i with
  | zero => exact delivers_nothing _ (.refl hi)
  | succ rounds ih =>
    unfold pull
    dsimp only
    split
    · exact delivers_nothing _ (.refl hi)
    split
    · exact delivers_nothing _ (.refl hi)
    have hbuffers := stays_ensureBuffered (n := min n i.capacity) hi
    cases hr : ensureBuffered (min n i.capacity) i with
    | error e i' =>
      rw [hr] at hbuffers
      exact delivers_nothing _ hbuffers
    | ok _ i' =>
      rw [hr] at hbuffers
      obtain ⟨h, hl⟩ := hbuffers
      exact delivers_more h hl (ih (moves_advance h.fits hl).fits)

/-- **What bulk reading delivers before it fails is not lost**, and is what comes next. -/
theorem delivers_transfer (hi : i.limit ≤ i.capacity) : Delivers i (transfer n i) := by
  have hfirst : (i.unread.take n).length ≤ i.unread.length := List.length_take_le' _ _
  have htake : i.unread.take (i.unread.take n).length = i.unread.take n :=
    (List.prefix_iff_eq_take.1 (List.take_prefix n i.unread)).symm
  have hpull := delivers_pull (n := n - (i.unread.take n).length)
    (n - (i.unread.take n).length) (moves_advance hi hfirst).fits
  have hmore := delivers_more (.refl hi) hfirst hpull
  rwa [htake] at hmore

/-! ## All operations -/

/-- Whether a reading moves forward only, also when it fails. -/
def Advancing (x : Scan α) : Prop :=
  ∀ i : Input, i.limit ≤ i.capacity → Leads (fun _ => Proceeds i) (Proceeds i) (x i)

theorem Advancing.bind {x : Scan α} {f : α → Scan β} (hx : Advancing x)
    (hf : ∀ a, Advancing (f a)) : Advancing (x >>= f) := fun i hi =>
  (hx i hi).bind fun a i₁ h₁ =>
    (hf a i₁ h₁.fits).mono (fun _ _ => h₁.trans) fun _ => h₁.trans

theorem Advancing.map {x : Scan α} (hx : Advancing x) (f : α → β) : Advancing (f <$> x) := by
  rw [map_eq_pure_bind]
  exact hx.bind fun a i hi => (Stays.refl hi).proceeds

theorem advancing_of_composed {x : Scan α} (hx : x.Composed) : Advancing x := by
  induction hx with
  | pure a => exact fun i hi => (Stays.refl hi).proceeds
  | throw he => exact fun i hi => (Stays.refl hi).proceeds
  | bind _ _ ihx ihf => exact ihx.bind ihf
  | layout f _ ih => exact fun i hi => ih i.native i hi
  | take hn =>
    exact fun i hi => (moves_take hi).mono (fun _ _ h => h.1.proceeds) fun _ => Moves.proceeds
  | bytes n =>
    intro i hi
    have hdelivers := (delivers_transfer (n := n) hi).1.proceeds
    unfold bytes
    split
    all_goals
      rename_i h
      rwa [h] at hdelivers

theorem advancing_answer (r : Request) : Advancing (answer r) := by
  cases r with
  | item type => exact (advancing_of_composed (composed_item type)).map _
  | bytes n => exact (advancing_of_composed (.bytes n)).map _
  | into target =>
    refine Advancing.map ?_ _
    rcases composed_into target with hc | hnone
    · exact advancing_of_composed hc
    · rw [hnone]
      exact fun i hi => (Stays.refl hi).proceeds
  | skip n => exact Advancing.map (fun i hi => proceeds_skipSteps n hi) _
  | atEnd =>
    exact Advancing.map (fun i hi => (stays_atEnd hi).mono (fun _ _ => Moves.proceeds)
      fun _ => Moves.proceeds) _

/-- **Every operation moves forward only.** -/
theorem advancing_perform (o : Operation) : Advancing (perform o) := by
  cases o with
  | request r => exact (advancing_answer r).map _
  | require n =>
    exact Advancing.map (fun i hi => (stays_require hi).mono (fun _ _ => Moves.proceeds)
      fun _ => Moves.proceeds) _
  | optional n =>
    exact Advancing.map (fun i hi => (stays_optional hi).mono (fun _ _ => Moves.proceeds)
      fun _ => Moves.proceeds) _
  | canReadVar t => exact fun i hi => (Stays.refl hi).proceeds
  | setLayout native => exact fun i hi => ⟨0, hi, Nat.zero_le _, rfl, rfl⟩

theorem proceeds_after (operations : List Operation) (hi : i.limit ≤ i.capacity) :
    Proceeds i (i.after operations) := by
  induction operations generalizing i with
  | nil => exact (Stays.refl hi).proceeds
  | cons o operations ih =>
    have h₁ := (advancing_perform o i hi).stateAfter
    exact h₁.trans (ih h₁.fits)

end Input

/-! ## The cursor -/

/-- How many bytes an item takes, if this is the same for all items of its type. -/
def ItemType.width? (native : Bool) : ItemType → Option Nat
  | .bool | .u8 | .i8 => some 1
  | .scalar s => some s.width
  | .var t => if native then some t.scalar.width else none
  | .string | .scalars .. | .vars .. => none

namespace Input

/-- An item of a fixed width is read by consuming its bytes at once. -/
theorem item_of_width? {native : Bool} {type : ItemType} {k : Nat}
    (hk : type.width? native = some k) :
    ∃ f : Bytes → Item, ∀ i : Input, i.native = native → item type i = (f <$> take k) i := by
  cases type with
  | bool =>
    cases hk
    exact ⟨fun bs => .bool (bs.headD 0 != 0), fun i _ => by simp [item, bool, byte]⟩
  | u8 =>
    cases hk
    exact ⟨fun bs => .u8 (bs.headD 0).toBitVec, fun i _ => by simp [item, octet, byte]⟩
  | i8 =>
    cases hk
    exact ⟨fun bs => .i8 (bs.headD 0).toBitVec, fun i _ => by simp [item, octet, byte]⟩
  | scalar s =>
    cases hk
    exact ⟨fun bs => .scalar s (s.decode bs), fun i _ => by simp [item, scalar]⟩
  | var t =>
    cases native with
    | false => cases hk
    | true =>
      cases hk
      refine ⟨fun bs => .var t (t.scalar.decode bs), fun i hn => ?_⟩
      have hvar : var t i = scalar t.scalar i := by
        unfold var
        rw [get_bind, if_pos hn]
      show EStateM.map _ _ i = _
      rw [EStateM.map, hvar]
      exact congrFun (by simp [scalar] : Item.var t <$> scalar t.scalar = _) i
  | string | scalars | vars => cases hk

theorem fits_start (origin : Origin) : origin.start.limit ≤ origin.start.capacity := by
  cases origin with
  | bytes bs => exact Nat.le_of_eq (Nat.zero_add _)
  | source s capacity => exact Nat.zero_le _

theorem ahead_start (origin : Origin) : origin.start.ahead = origin.stream := by
  cases origin with
  | bytes bs => exact List.append_nil _
  | source s capacity => rfl

/-- Whether an input is a cursor over a stream: what was handed out of the stream so far and
    is not consumed is buffered. -/
structure Cursor (stream : Bytes) (i : Input) : Prop where
  position_le : i.position ≤ i.limit
  limit_le : i.limit ≤ i.capacity
  buffered : ∃ handed, stream = handed ++ i.withheld ∧ i.total ≤ handed.length ∧
    i.unread = handed.drop i.total

/-- An input that came forward over a stream is a cursor over it. -/
theorem Proceeds.cursor {origin : Origin} (h : Proceeds origin.start i) :
    Cursor origin.stream i ∧ i.ahead = origin.stream.drop i.total := by
  obtain ⟨n, hfits, hle, htotal, hahead⟩ := h
  have hstart : origin.start.total = 0 := by cases origin <;> rfl
  rw [hstart, Nat.zero_add] at htotal
  rw [ahead_start] at hle hahead
  subst htotal
  refine ⟨⟨Nat.le_add_right _ _, hfits, origin.stream.take i.total ++ i.unread, ?_, ?_, ?_⟩, hahead⟩
  · rw [List.append_assoc]
    exact (hahead ▸ List.take_append_drop i.total origin.stream).symm
  · rw [List.length_append, List.length_take_of_le hle]
    exact Nat.le_add_right _ _
  · rw [List.drop_append, List.drop_of_length_le (List.length_take_le _ _),
      List.length_take_of_le hle, Nat.sub_self]
    rfl

/-- **No byte is lost, repeated or reordered**, whatever the source does and whatever fails:
    after any operations what is buffered is what was handed out, from the bytes consumed on.
    Asking for bytes to be buffered consumes none, nor does an item of a fixed width that
    cannot be read; when it can, at once or later, it is the one that the stream has there. -/
theorem cursor_after (origin : Origin) (operations : List Operation) :
    let i := origin.start.after operations
    Cursor origin.stream i ∧
      (∀ n, (stateAfter (require n) i).total = i.total) ∧
      (∀ n, (stateAfter (optional n) i).total = i.total) ∧
      (stateAfter atEnd i).total = i.total ∧
      ∀ type k, type.width? i.native = some k →
        Leads (fun a i' => i'.total = i.total + k ∧
            Scan.Reads i.native (item type) ((origin.stream.drop i.total).take k) a)
          (fun i' => i'.total = i.total ∧ i'.ahead = i.ahead) (item type i) := by
  intro i
  have hi : Proceeds origin.start i := proceeds_after operations (fits_start origin)
  have hstays : ∀ i', Stays i i' → i'.total = i.total := fun i' h => h.total
  obtain ⟨hcursor, hahead⟩ := hi.cursor
  refine ⟨hcursor, fun n => ?_, fun n => ?_, ?_, fun type k hk => ?_⟩
  · exact hstays _ (stays_require hi.fits).stateAfter
  · exact hstays _ (stays_optional hi.fits).stateAfter
  · exact hstays _ (stays_atEnd hi.fits).stateAfter
  obtain ⟨f, hf⟩ := item_of_width? hk
  rw [hf i rfl, map_eq_pure_bind]
  refine ((moves_take hi.fits).mono (fun _ _ h => h) fun i' h => ⟨h.total, h.ahead⟩).bind ?_
  rintro bs i' ⟨hmoves, rfl⟩
  refine ⟨hmoves.total, fun j hs hn hp => (hf j hn).trans ?_⟩
  have htake := (@Input.reads_take i.native (i.ahead.take k)).map f
  rw [List.length_take_of_le hmoves.le, hahead] at htake
  rw [hahead]
  exact htake j hs hn hp

/-- A source that gives three bytes, breaks off, has nothing for now, and then goes on. -/
def halting : Source := ⟨[1, 2, 3, 4, 5, 6, 7], [.upTo 3, .failing "reset", .upTo 0, .upTo 9]⟩

/-- A number of four bytes is asked for, in vain, and its bytes once more, in vain. -/
def asking : List Operation :=
  [.request (.item .u8), .request (.item (.scalar .u32)), .require 4]

/-- With a buffer of four bytes the number is there in the end. -/
theorem cursor_after_halting :
    let i := (Origin.source halting 4).start.after asking
    Cursor halting.data i ∧ i.total = 1 ∧ i.unread = [2, 3] ∧
      Scan.Reads i.native (item (.scalar .u32)) [2, 3, 4, 5] (.scalar .u32 0x05040302#32) ∧
      ∃ i', item (.scalar .u32) i = .ok (.scalar .u32 0x05040302#32) i' ∧ i'.total = 5 := by
  intro i
  obtain ⟨hcursor, -, -, -, hfixed⟩ := cursor_after (.source halting 4) asking
  have htotal : i.total = 1 := by decide +kernel
  have hbytes : (halting.data.drop 1).take 4 = [2, 3, 4, 5] := by decide
  have hscalar : resultOf (scalar .u32) ((Origin.source halting 4).start.after asking) =
      .ok 0x05040302#32 := rfl
  obtain ⟨i', hread⟩ := resultOf_eq_ok.1 hscalar
  have hitem : item (.scalar .u32) i = .ok (.scalar .u32 0x05040302#32) i' := map_of_ok hread
  have hat := hfixed (.scalar .u32) 4 rfl
  change Leads (fun a i' => i'.total = i.total + 4 ∧
    Scan.Reads i.native _ ((halting.data.drop i.total).take 4) a) _ (item (.scalar .u32) i) at hat
  rw [hitem, htotal, hbytes] at hat
  exact ⟨hcursor, htotal, by decide +kernel, hat.2, i', hitem, hat.1⟩

end Input

end GraphWire
