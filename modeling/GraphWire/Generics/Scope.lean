/-
  Scopes: how deep an operation is and which frames are around it.

  The state of every operation on a graph has a scope.  What is entered is left
  again on success and on failure:

  * `descend` runs a computation one level deeper and refuses to go past the
    limit;
  * `declaring` runs a computation under the frame of a declaration.
-/
import GraphWire.Computation
import GraphWire.Generics.Frames

namespace GraphWire

/-- How deep an operation is and which frames are around it. -/
structure Scope where
  frames : Frames
  depth : Nat
  deriving DecidableEq, Repr

/-- Where every operation begins. -/
def Scope.start : Scope := ⟨.empty, 0⟩

/-- States that have a scope. -/
class Scoped (σ : Type) where
  scope : σ → Scope
  setScope : σ → Scope → σ

variable {σ α : Type} [Scoped σ]

/-- Changes the scope of a state. -/
def inScope (change : Scope → Scope) (s : σ) : σ :=
  Scoped.setScope s (change (Scoped.scope s))

/-- Refuses to go one level deeper. -/
def tooDeep (limit : Nat) : EStateM Error σ α := fun s =>
  .error (.depthExceeded limit ((Scoped.scope s).depth + 1)) s

/-- Goes one level deeper, unless that is past the limit. -/
def deeper (limit : Nat) : EStateM Error σ Unit := do
  if limit < (Scoped.scope (← get)).depth + 1 then tooDeep limit
  else modify (inScope fun sc => { sc with depth := sc.depth + 1 })

/-- One level less deep. -/
def shallower : σ → σ := inScope fun sc => { sc with depth := sc.depth - 1 }

/-- Runs a computation one level deeper, unless that is past the limit. -/
def descend (limit : Nat) (x : EStateM Error σ α) : EStateM Error σ α := do
  deeper limit
  leaving shallower x

/-- Pushes the frame of a declaration. -/
def pushFrame (ty : Declared) : σ → σ :=
  inScope fun sc => { sc with frames := sc.frames.push ty sc.depth }

/-- Drops the frames above a height. -/
def dropFrames (height : Nat) : σ → σ :=
  inScope fun sc => { sc with frames := sc.frames.truncate height }

/-- Pops the frame that was pushed for what runs here, if there is one. -/
def popFrame : σ → σ := inScope fun sc => { sc with frames := sc.frames.pop sc.depth }

/-- The arguments that were declared for what runs here. -/
def declaredArgs (s : σ) : Option (List Declared) :=
  (Scoped.scope s).frames.next (Scoped.scope s).depth

/-- Runs a computation under the frame of a declaration. -/
def declaring (ty : Declared) (x : EStateM Error σ α) : EStateM Error σ α := do
  let height := (Scoped.scope (← get)).frames.height
  modify (pushFrame ty)
  leaving (dropFrames height) x

end GraphWire
