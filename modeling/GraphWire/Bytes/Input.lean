/-
  Inputs: bytes read through a buffer that may be refilled.

  A buffer of a fixed capacity holds the bytes that are ahead, from a position
  on; what lies before the position is consumed.  An input made of bytes holds
  them all and is never refilled.  An input with a source starts out empty: when
  more bytes are asked for than are buffered, the source is asked for as many as
  there is room for, first behind the buffered bytes and then, once these are
  moved to the front, in all the rest of the buffer.

  * `Scan` are the readings of an input: a reading that fails leaves the input
    where it stopped;
  * `Input.require` makes sure that bytes are buffered or fails,
    `Input.optional` buffers as many as it can get, and all readings of items
    are built on `Input.take`;
  * `Input.transfer` is the bulk reading: what it delivers before it fails is
    not lost.
-/
import GraphWire.Bytes.Item
import GraphWire.Bytes.Source
import GraphWire.Error

namespace GraphWire

/-- Bytes read through a buffer. -/
structure Input where
  /-- The bytes that are buffered and not yet consumed. -/
  unread : Bytes
  /-- How many bytes of the buffer are consumed. -/
  position : Nat
  /-- How many bytes the buffer can hold. -/
  capacity : Nat
  /-- How many bytes were consumed before those of the buffer. -/
  passed : Nat
  /-- Whether numbers are laid out at full width. -/
  native : Bool
  /-- Where the buffer is refilled from. -/
  source : Option Source
  deriving DecidableEq, Repr

/-- A reading of an input. -/
abbrev Scan (α : Type) := EStateM Error Input α

namespace Input

/-! ## The buffer -/

/-- An input that holds the bytes and has no source. -/
def ofBytes (bs : Bytes) : Input := ⟨bs, 0, bs.length, 0, false, none⟩

/-- An empty input that is refilled from a source. -/
def ofSource (source : Source) (capacity : Nat) : Input := ⟨[], 0, capacity, 0, false, some source⟩

/-- The same input in the given layout. -/
def withLayout (i : Input) (native : Bool) : Input := { i with native }

/-- Other bytes in place of all that is ahead; the source is dropped. -/
def setBytes (i : Input) (bs : Bytes) : Input := (ofBytes bs).withLayout i.native

/-- Where the buffered bytes end. -/
def limit (i : Input) : Nat := i.position + i.unread.length

/-- How many bytes are consumed in all. -/
def total (i : Input) : Nat := i.passed + i.position

/-- Whether a list has at least `n` elements, looking at no more of it. -/
def hasLength {α : Type} : (n : Nat) → List α → Bool
  | 0, _ => true
  | _ + 1, [] => false
  | n + 1, _ :: l => hasLength n l

@[simp] theorem hasLength_iff {α : Type} (n : Nat) (l : List α) :
    hasLength n l = true ↔ n ≤ l.length := by
  induction n generalizing l with
  | zero => simp [hasLength]
  | succ n ih =>
    cases l with
    | nil => simp [hasLength]
    | cons a l => simp [hasLength, ih]

/-- Whether at least `n` bytes are buffered. -/
def holds (i : Input) (n : Nat) : Bool := hasLength n i.unread

/-- Consumes the next `n` buffered bytes. -/
def advance (i : Input) (n : Nat) : Input :=
  { i with unread := i.unread.drop n, position := i.position + n }

/-- Moves the buffered bytes to the front of the buffer. -/
def compact (i : Input) : Input := { i with position := 0, passed := i.passed + i.position }

/-- Asks the source for at most `space` bytes; whether any came. -/
def fill (space : Nat) : Scan Bool := fun i =>
  match i.source with
  | none => .ok false i
  | some source =>
    match source.supply space with
    | (.failure text, source) => .error (.sourceFailed text) { i with source := some source }
    | (.bytes bs, source) =>
      .ok (!bs.isEmpty) { i with unread := i.unread ++ bs, source := some source }

/-- Refills the room behind the buffered bytes, at most `rounds` times, until
    `n` bytes are buffered or no more come. -/
def gather : (rounds : Nat) → (n : Nat) → Scan Unit
  | 0, _ => pure ()
  | rounds + 1, n => do
    let i ← get
    if i.holds n then pure ()
    else if ← fill (i.capacity - i.unread.length) then gather rounds n
    else pure ()

/-- Moves the buffered bytes to the front and refills until `n` are buffered;
    every refill brings a byte, so `n` rounds are enough. -/
def refill (n : Nat) : Scan Unit := do
  modify compact
  gather n n
  let i ← get
  if i.holds n then pure () else throw (.underflow n i.unread.length)

/-- Makes sure that `n` bytes are buffered, or fails. -/
def ensureBuffered (n : Nat) : Scan Unit := do
  let i ← get
  if i.holds n then pure ()
  else if i.capacity < n then
    throw (if i.source.isNone then .underflow n i.unread.length else .bufferTooSmall i.capacity n)
  else if i.unread.isEmpty || i.capacity ≤ i.limit then refill n
  else if ← fill (i.capacity - i.limit) then do
    let i ← get
    if i.holds n then pure () else refill n
  else throw (.underflow n i.unread.length)

/-- Makes sure that `n` bytes are buffered; how many are. -/
def require (n : Nat) : Scan Nat := do
  ensureBuffered n
  return (← get).unread.length

/-- Buffers up to `n` bytes, but no more than the buffer holds; how many of
    them there are. -/
def optional (n : Nat) : Scan Nat := do
  let i ← get
  let n := min n i.capacity
  if i.holds n then pure n
  else do
    modify compact
    gather n n
    return min (← get).unread.length n

/-- Whether everything is consumed and no more comes. -/
def atEnd : Scan Bool := do
  if (← get).unread.isEmpty then return (← optional 1) == 0 else return false

/-- The next `n` bytes. -/
def take (n : Nat) : Scan Bytes := do
  ensureBuffered n
  modifyGet fun i => (i.unread.take n, i.advance n)

/-- Passes over `n` bytes, at most a buffer at a time; every step passes over a
    byte, so `n` steps are enough. -/
def skipSteps : (steps : Nat) → (n : Nat) → Scan Unit
  | 0, _ => pure ()
  | steps + 1, n =>
    if n = 0 then pure ()
    else do
      let step := min n (max (← get).capacity 1)
      let _ ← take step
      skipSteps steps (n - step)

/-- Passes over `n` bytes. -/
def skip (n : Nat) : Scan Unit := skipSteps n n

/-! ## Numbers -/

/-- The next byte. -/
def byte : Scan UInt8 := return (← take 1).headD 0

/-- The next byte, as a truth value: all but 0 are true. -/
def bool : Scan Bool := return (← byte) != 0

/-- The next byte, as its bits. -/
def octet : Scan (BitVec 8) := return (← byte).toBitVec

/-- The next number of a fixed width. -/
def scalar (s : Scalar) : Scan s.Value := return s.decode (← take s.width)

/-- The number in the next groups of seven bits, of which `n` may follow; the
    last that may follow must not overflow the width. -/
def varGroups (bits : Nat) : (n : Nat) → Scan Nat
  | 0 => throw (.varintTooLong (Varint.maxBytes bits))
  | n + 1 => do
    let b ← byte
    if n = 0 ∧ b.toNat >>> Varint.lastBits bits ≠ 0 then throw (.varintOverflow bits)
    else if b.toNat < 128 then return b.toNat
    else return b.toNat % 128 + 128 * (← varGroups bits n)

/-- The next number of variable length. -/
def var (t : VarNumber) : Scan t.Value := do
  if (← get).native then scalar t.scalar
  else return t.unfold (← varGroups t.bits (Varint.maxBytes t.bits))

/-- Whether the buffered bytes are enough to read a number of variable length;
    the source is not asked. -/
def canReadVar (i : Input) (t : VarNumber) : Bool :=
  if i.native then i.holds t.scalar.width
  else (i.unread.take (Varint.maxBytes t.bits)).any (·.toNat < 128)

/-! ## Bulk reading -/

/-- What a bulk reading brings: the bytes delivered, the failure that ended it
    early, if any, and the input as it is left. -/
structure Transfer where
  delivered : Bytes
  failure : Option Error
  rest : Input

/-- Delivers `n` bytes, at most a buffer at a time; every round delivers a
    byte, so `n` rounds are enough. -/
def pull : (rounds : Nat) → (n : Nat) → Input → Transfer
  | 0, _, i => ⟨[], none, i⟩
  | rounds + 1, n, i =>
    let chunk := min n i.capacity
    if n = 0 then ⟨[], none, i⟩
    else if chunk = 0 then ⟨[], some (.underflow n 0), i⟩
    else match ensureBuffered chunk i with
      | .error e i => ⟨[], some e, i⟩
      | .ok _ i =>
        let more := pull rounds (n - chunk) (i.advance chunk)
        { more with delivered := i.unread.take chunk ++ more.delivered }

/-- Delivers `n` bytes: first what is buffered, then buffer by buffer. -/
def transfer (n : Nat) (i : Input) : Transfer :=
  let first := i.unread.take n
  let left := n - first.length
  let more := pull left left (i.advance first.length)
  { more with delivered := first ++ more.delivered }

/-- The next `n` bytes, however small the buffer. -/
def bytes (n : Nat) : Scan Bytes := fun i =>
  match transfer n i with
  | ⟨bs, none, i⟩ => .ok bs i
  | ⟨_, some e, i⟩ => .error e i

/-- The next text: its length in bytes, then the bytes. -/
def string : Scan String := do
  let n ← var .u32
  match Utf8.decode (← bytes n.toNat) with
  | .ok s => return s
  | .error fault => throw (.notText fault)

/-- Reads numbers over the ones given, one by one. -/
def overwrite (s : Scalar) : List s.Value → Input → List s.Value × Option Error × Input
  | [], i => ([], none, i)
  | v :: vs, i =>
    match scalar s i with
    | .error e i => (v :: vs, some e, i)
    | .ok w i =>
      let (ws, failure, i) := overwrite s vs i
      (w :: ws, failure, i)

/-- Reads numbers over the ones given: one by one in the compact layout, and as
    raw bytes in the full-width layout, where a failure may leave a number half
    overwritten. -/
def fillScalars (s : Scalar) (vs : List s.Value) (i : Input) :
    List s.Value × Option Error × Input :=
  if i.native then
    let raw := s.stored vs
    let t := transfer raw.length i
    (s.decodeMany vs.length (t.delivered ++ raw.drop t.delivered.length), t.failure, t.rest)
  else overwrite s vs i

/-- The next `n` numbers of a fixed width. -/
def scalars (s : Scalar) (n : Nat) : Scan (List s.Value) := fun i =>
  match fillScalars s (List.replicate n 0) i with
  | (vs, none, i) => .ok vs i
  | (_, some e, i) => .error e i

/-- `n` readings, one after the other. -/
def times {α : Type} (x : Scan α) : (n : Nat) → Scan (List α)
  | 0 => pure []
  | n + 1 => return (← x) :: (← times x n)

/-- The next `n` numbers of variable length. -/
def vars (t : VarNumber) (n : Nat) : Scan (List t.Value) := do
  if (← get).native then scalars t.scalar n else times (var t) n

/-- What a bulk reading may be asked to fill. -/
inductive Target where
  | bytes (bs : Bytes)
  | scalars (s : Scalar) (vs : List s.Value)
  /-- Something that holds neither bytes nor numbers. -/
  | unsuited

/-- Fills a target with what is next; on failure the target is left partly
    filled. -/
def fillTarget : Target → Input → Target × Option Error × Input
  | .bytes bs, i =>
    let t := transfer bs.length i
    (.bytes (t.delivered ++ bs.drop t.delivered.length), t.failure, t.rest)
  | .scalars s vs, i =>
    let (vs, failure, i) := fillScalars s vs i
    (.scalars s vs, failure, i)
  | .unsuited, i => (.unsuited, some .notNumeric, i)

/-! ## Items -/

/-- The next item of a type. -/
def item : ItemType → Scan Item
  | .bool => .bool <$> bool
  | .u8 => .u8 <$> octet
  | .i8 => .i8 <$> octet
  | .scalar s => .scalar s <$> scalar s
  | .var t => .var t <$> var t
  | .string => .string <$> string
  | .scalars s n => .scalars s <$> scalars s n
  | .vars t n => .vars t <$> vars t n

end Input

end GraphWire
