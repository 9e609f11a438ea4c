/-
  Sources of bytes.

  A source hands out its data in order, piece by piece, and takes turns: in each
  turn it hands out at most some number of bytes, is interrupted, or fails.  The
  last turn repeats; without turns it hands out all that is asked for.  So every
  finite exchange between a buffer and a source is one of these.

  * `Source.supply` is what comes of asking for bytes, an interruption being
    answered by asking again;
  * `Source.handed_append_data`: no byte is lost, repeated or reordered.
-/
import GraphWire.Bytes.LittleEndian

namespace GraphWire

/-- What a source does when it is asked. -/
inductive Turn where
  /-- Hands out at most so many bytes. -/
  | upTo (n : Nat)
  /-- Is interrupted: asking again may succeed. -/
  | interrupted
  /-- Fails. -/
  | failing (text : String)
  deriving DecidableEq, Repr

/-- The data still to hand out and the turns to come. -/
structure Source where
  data : Bytes
  turns : List Turn
  deriving DecidableEq, Repr

/-- What comes of asking; no bytes mean that the source has no more for now. -/
inductive Supply where
  | bytes (bs : Bytes)
  | failure (text : String)
  deriving DecidableEq, Repr

/-- The bytes that a supply brings. -/
def Supply.handed : Supply → Bytes
  | .bytes bs => bs
  | .failure _ => []

namespace Source

/-- Hands out the next `n` bytes of the data. -/
def give (data : Bytes) (n : Nat) (turns : List Turn) : Supply × Source :=
  (.bytes (data.take n), ⟨data.drop n, turns⟩)

/-- What comes of asking for at most `space` bytes.  A source that is
    interrupted for ever has no more. -/
def ask (data : Bytes) (space : Nat) : List Turn → Supply × Source
  | [] => give data space []
  | [.upTo n] => give data (min n space) [.upTo n]
  | [.interrupted] => (.bytes [], ⟨data, [.interrupted]⟩)
  | [.failing text] => (.failure text, ⟨data, [.failing text]⟩)
  | .upTo n :: turns => give data (min n space) turns
  | .interrupted :: turns => ask data space turns
  | .failing text :: turns => (.failure text, ⟨data, turns⟩)

/-- What comes of asking the source for at most `space` bytes. -/
def supply (s : Source) (space : Nat) : Supply × Source := ask s.data space s.turns


/-- **The source hands out its data in order**, never more than asked for. -/
theorem handed_append_data (s : Source) (space : Nat) :
    (s.supply space).1.handed ++ (s.supply space).2.data = s.data ∧
      (s.supply space).1.handed.length ≤ space := by
  obtain ⟨data, turns⟩ := s
  simp only [supply]
  fun_induction ask data space turns with
  | case6 turns _ ih => exact ih
  | _ => simp [give, Supply.handed]; try omega

end Source

end GraphWire
