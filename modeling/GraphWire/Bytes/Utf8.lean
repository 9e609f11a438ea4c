/-
  Text as UTF-8.

  * `Utf8.encode` writes a text, `Utf8.decode` reads one or finds the first
    fault;
  * a fault says where the first character that cannot be read starts and how
    many bytes rule it out, or that the bytes end inside it (`Utf8.Fault`).

  A character starts with a byte below `0x80` (it is complete), of `0xC2`–`0xDF`
  (one more byte), `0xE0`–`0xEF` (two more) or `0xF0`–`0xF4` (three more).  Every
  further byte is of `0x80`–`0xBF`; the second byte is held to a narrower range
  after `0xE0`, `0xED`, `0xF0` and `0xF4`, which shuts out overlong forms,
  surrogates and numbers past the last character.
-/
import GraphWire.Bytes.LittleEndian

namespace GraphWire

namespace Utf8

/-- Why a sequence of bytes is no text: the first `validUpTo` bytes are, and
    the next `length` bytes start no character; no length means that the bytes
    end inside a character. -/
structure Fault where
  validUpTo : Nat
  length : Option Nat
  deriving DecidableEq, Repr

/-- The bytes of a text. -/
def encode (s : String) : Bytes := s.toList.flatMap String.utf8EncodeChar

/-- How many bytes a character with this first byte has; 0 if none starts so. -/
def width (a : Nat) : Nat :=
  if a < 0x80 then 1
  else if a < 0xC2 then 0
  else if a < 0xE0 then 2
  else if a < 0xF0 then 3
  else if a < 0xF5 then 4
  else 0

/-- Whether a byte continues a character. -/
def isTail (b : Nat) : Bool := 0x80 ≤ b && b < 0xC0

/-- Whether a byte may come second, after the first byte `a`. -/
def isSecond (a b : Nat) : Bool :=
  isTail b && (a != 0xE0 || 0xA0 ≤ b) && (a != 0xED || b < 0xA0) &&
    (a != 0xF0 || 0x90 ≤ b) && (a != 0xF4 || b < 0x90)

/-- The characters of a sequence of bytes that starts at offset `start`. -/
def chars (start : Nat) : Bytes → Except Fault (List Char)
  | [] => .ok []
  | b₀ :: r₀ =>
    let a := b₀.toNat
    if width a = 1 then (chars (start + 1) r₀).map (Char.ofNat a :: ·)
    else if width a = 0 then .error ⟨start, some 1⟩
    else match r₀ with
      | [] => .error ⟨start, none⟩
      | b₁ :: r₁ =>
        let b := b₁.toNat
        if !isSecond a b then .error ⟨start, some 1⟩
        else if width a = 2 then
          (chars (start + 2) r₁).map (Char.ofNat (a % 0x20 * 0x40 + b % 0x40) :: ·)
        else match r₁ with
          | [] => .error ⟨start, none⟩
          | b₂ :: r₂ =>
            let c := b₂.toNat
            if !isTail c then .error ⟨start, some 2⟩
            else if width a = 3 then
              (chars (start + 3) r₂).map
                (Char.ofNat (a % 0x10 * 0x1000 + b % 0x40 * 0x40 + c % 0x40) :: ·)
            else match r₂ with
              | [] => .error ⟨start, none⟩
              | b₃ :: r₃ =>
                let d := b₃.toNat
                if !isTail d then .error ⟨start, some 3⟩
                else
                  (chars (start + 4) r₃).map
                    (Char.ofNat (a % 0x08 * 0x40000 + b % 0x40 * 0x1000 + c % 0x40 * 0x40 + d % 0x40)
                      :: ·)

/-- The text that a sequence of bytes spells, or its first fault. -/
def decode (bs : Bytes) : Except Fault String := (chars 0 bs).map String.ofList

end Utf8

end GraphWire
