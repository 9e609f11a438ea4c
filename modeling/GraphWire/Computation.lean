/-
  Computations that may fail and keep their state.

  All operations change a state and may fail; a failure leaves the state as it
  is at that moment, and what comes next goes on from there.

  * `attempt` puts a result or an error without a state into a computation;
  * `leaving` undoes a change at the end of a computation, however it ends.
-/
import GraphWire.Error

namespace GraphWire

variable {σ α : Type}

/-- Fails with the error or goes on with the result. -/
def attempt (x : Except Error α) : EStateM Error σ α := fun s =>
  match x with
  | .ok a => .ok a s
  | .error e => .error e s

/-- Runs a computation and changes the state it ends in, however it ends. -/
def leaving (change : σ → σ) (x : EStateM Error σ α) : EStateM Error σ α := fun s =>
  match x s with
  | .ok a s => .ok a (change s)
  | .error e s => .error e (change s)

/-- The result of a computation that starts in the given state. -/
def resultOf (x : EStateM Error σ α) (s : σ) : Except Error α :=
  match x s with
  | .ok a _ => .ok a
  | .error e _ => .error e

/-- The state that a computation ends in, unless it fails. -/
def stateOf (x : EStateM Error σ α) (s : σ) : Except Error σ :=
  match x s with
  | .ok _ s' => .ok s'
  | .error e _ => .error e

/-- The state that a computation ends in, however it ends. -/
def stateAfter (x : EStateM Error σ α) (s : σ) : σ :=
  match x s with
  | .ok _ s' => s'
  | .error _ s' => s'

end GraphWire
