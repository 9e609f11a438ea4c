/-
  Headers: the first byte of a stream.

  A header says whether the stream holds null, and how the engine that wrote it
  was configured, so that an engine of another configuration refuses it at once.

  * `Header.toByte` and `Header.ofByte` are the byte of a header and back;
    `Header.ofByte_toByte`: nothing is lost;
  * `Engine.check` are the refusals, in their order.
-/
import GraphWire.Bytes.Input
import GraphWire.Bytes.Output
import GraphWire.Engine.Basic

namespace GraphWire

/-- What the first byte of a stream says. -/
structure Header where
  /-- The stream holds null and nothing more. -/
  null : Bool
  /-- Numbers at full width are laid out least significant byte first. -/
  littleEndian : Bool
  /-- Numbers are laid out at full width. -/
  native : Bool
  /-- Shared objects and cycles keep their shape. -/
  trackRef : Bool
  deriving DecidableEq, Repr

namespace Header

/-- The byte of a header: a bit for each of its facts. -/
def toByte (hd : Header) : BitVec 8 :=
  (if hd.null then 1 else 0) + (if hd.littleEndian then 2 else 0) +
    (if hd.native then 4 else 0) + (if hd.trackRef then 8 else 0)

/-- The header that a byte stands for; its four high bits say nothing. -/
def ofByte (b : BitVec 8) : Header :=
  ⟨b.getLsbD 0, b.getLsbD 1, b.getLsbD 2, b.getLsbD 3⟩

/-- **The byte of a header stands for it.** -/
@[simp] theorem ofByte_toByte (hd : Header) : ofByte hd.toByte = hd := by
  obtain ⟨n, l, v, t⟩ := hd
  cases n <;> cases l <;> cases v <;> cases t <;> rfl

end Header

namespace Engine

/-- The header of what an engine writes. -/
def header (e : Engine) (null : Bool) : Header :=
  ⟨null, true, e.config.native, e.config.trackRef⟩

/-- Refuses the header of an engine that is configured otherwise. -/
def check (e : Engine) (hd : Header) : Except Error Unit := do
  ensure (hd.native == e.config.native) (.layoutMismatch hd.native e.config.native)
  ensure (!hd.native || hd.littleEndian) .byteOrderMismatch
  ensure (hd.trackRef == e.config.trackRef) .trackingMismatch

/-- Appends a header. -/
def writeHeader (e : Engine) (null : Bool) (out : Output) : Output :=
  out.put (.u8 (e.header null).toByte)

/-- Reads and checks a header; whether the stream holds null. -/
def readHeader (e : Engine) : Scan Bool := do
  let hd := Header.ofByte (← Input.octet)
  attempt (e.check hd)
  return hd.null

theorem check_header (e : Engine) (null : Bool) : e.check (e.header null) = .ok () := by
  simp [check, header, ensure, bind, Except.bind]

section
variable {e e' : Engine} (hconfig : e'.config = e.config)
include hconfig

theorem header_congr : e'.header = e.header := by
  unfold header
  rw [hconfig]

theorem writeHeader_congr : e'.writeHeader = e.writeHeader := by
  unfold writeHeader
  rw [header_congr hconfig]

theorem readHeader_congr : e'.readHeader = e.readHeader := by
  unfold readHeader check
  rw [hconfig]

end

end Engine

end GraphWire
