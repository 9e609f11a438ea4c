/-
  Markers.

  A marker is the byte in front of an object that may be null or that may be
  met twice: it says whether nothing, a back reference or an object follows.
-/

namespace GraphWire

/-- What the byte in front of an object announces. -/
inductive Marker where
  /-- Nothing follows: the value is null. -/
  | null
  /-- The number of an object met earlier follows. -/
  | back
  /-- An object follows whose identity is not tracked. -/
  | plain
  /-- A tracked object follows that is met for the first time. -/
  | fresh
  deriving DecidableEq, Repr

namespace Marker

/-- The byte of a marker, read with its sign. -/
def code : Marker → BitVec 8
  | .null => -3
  | .back => -2
  | .plain => -1
  | .fresh => 0

/-- The marker with this byte. -/
def ofCode? (b : BitVec 8) : Option Marker :=
  if b = code .null then some .null
  else if b = code .back then some .back
  else if b = code .plain then some .plain
  else if b = code .fresh then some .fresh
  else none

/-- What messages call a marker. -/
def name : Marker → String
  | .null => "Null"
  | .back => "Ref"
  | .plain => "NotNullValue"
  | .fresh => "RefValue"

/-- **The byte of a marker names it**, and no other byte does. -/
theorem ofCode?_eq_some_iff {b : BitVec 8} {m : Marker} : ofCode? b = some m ↔ b = m.code := by
  constructor
  · intro h
    unfold ofCode? at h
    split at h
    · next hb => cases h; exact hb
    split at h
    · next hb => cases h; exact hb
    split at h
    · next hb => cases h; exact hb
    split at h
    · next hb => cases h; exact hb
    · cases h
  · rintro rfl
    cases m <;> rfl

end Marker

end GraphWire
