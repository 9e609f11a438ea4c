/-
  Declared types: what is known of a value before it is met.

  A declaration names a type, perhaps with arguments, or a parameter of the
  declaration around it, or says nothing.
-/
import GraphWire.Graph.Types

namespace GraphWire

/-- The declared type of a field or of an argument of a type. -/
inductive Declared where
  | concrete (type : ObjectType) (args : List Declared)
  /-- The argument at this index of the declaration around this one. -/
  | param (index : Nat)
  | unknown
  deriving Inhabited, Repr

namespace Declared

/-- The arguments of a declared type. -/
def args : Declared → List Declared
  | concrete _ args => args
  | _ => []

/-- The type that a declaration names. -/
def type? : Declared → Option ObjectType
  | concrete type _ => some type
  | _ => none

mutual

/-- Declared types are compared as they are written. -/
def decEq : (a b : Declared) → Decidable (a = b)
  | concrete s as, concrete t bs =>
    if h : s = t then
      match decEqAll as bs with
      | .isTrue h' => .isTrue (by rw [h, h'])
      | .isFalse h' => .isFalse (by simp [h'])
    else .isFalse (by simp [h])
  | param i, param j => if h : i = j then .isTrue (by rw [h]) else .isFalse (by simp [h])
  | unknown, unknown => .isTrue rfl
  | concrete .., param _ | concrete .., unknown | param _, concrete .. | param _, unknown
  | unknown, concrete .. | unknown, param _ => .isFalse (by simp)

/-- Rows of declared types are compared one by one. -/
def decEqAll : (as bs : List Declared) → Decidable (as = bs)
  | [], [] => .isTrue rfl
  | a :: as, b :: bs =>
    match decEq a b, decEqAll as bs with
    | .isTrue h, .isTrue h' => .isTrue (by rw [h, h'])
    | .isFalse h, _ => .isFalse (by simp [h])
    | _, .isFalse h => .isFalse (by simp [h])
  | [], _ :: _ | _ :: _, [] => .isFalse (by simp)

end

instance : DecidableEq Declared := decEq

end Declared

end GraphWire
