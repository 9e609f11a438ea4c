/-
  Dialogues with a registry.

  What needs serializers asks for them one after the other, and what it asks for next may depend
  on the answers (`Dialogue`).  Each time the registry changes: types are marked and unmarked,
  and what was built is kept.

  * `Dialogue.result` is what a dialogue comes to where the answers never change, and
    `Dialogue.hold` what it comes to with a registry that changes with every answer;
  * `Registry.Stage.hold`, `Registry.Settled.hold`: both come to the same, and the registry is
    left as it should be.
-/
import GraphWire.Proofs.Histories

namespace GraphWire

/-- What comes to a result, or asks for the serializer of a type and goes on with the answer. -/
inductive Dialogue (α : Type) where
  | done (a : α)
  | ask (type : ObjectType) (next : Except Error Serializer → Dialogue α)

namespace Dialogue

variable {α β : Type}

/-- What a dialogue comes to with these answers. -/
def result (answer : ObjectType → Except Error Serializer) : Dialogue α → α
  | done a => a
  | ask type next => (next (answer type)).result answer

/-- What a dialogue comes to with a registry, and what is left of that.  Every answer leaves it
    changed for the next. -/
def hold : Dialogue α → Registry → α × Registry
  | done a, r => (a, r)
  | ask type next, r => (next (r.serializer type)).hold (r.asked type)

/-- A dialogue that goes on when it has come to something. -/
def bind (f : α → Dialogue β) : Dialogue α → Dialogue β
  | done a => f a
  | ask type next => ask type fun answer => (next answer).bind f

theorem result_bind (f : α → Dialogue β) (d : Dialogue α)
    (answer : ObjectType → Except Error Serializer) :
    (d.bind f).result answer = (f (d.result answer)).result answer := by
  induction d with
  | done a => rfl
  | ask type next ih => exact ih _

end Dialogue

namespace Registry

variable {α : Type} {r r' : Registry}

/-- **A dialogue comes to what it would come to if no answer changed anything**, and leaves the
    registry at a stage of the same way. -/
theorem Stage.hold (h : r.Stage [] r') (d : Dialogue α) :
    (d.hold r').1 = d.result (r.outcome (r.registrations.length + 1) []) ∧
      r.Stage [] (d.hold r').2 := by
  induction d generalizing r' with
  | done a => exact ⟨rfl, h⟩
  | ask type next ih =>
    obtain ⟨hstage, hanswer⟩ := h.demand type
    unfold Dialogue.hold Dialogue.result
    rw [hanswer]
    exact ih _ hstage

/-- The answers of a settled registry are those that it has at the beginning. -/
theorem Settled.hold (h : r.Settled) (d : Dialogue α) : (d.hold r).1 = d.result r.serializer := by
  have hanswers : r.serializer = r.outcome (r.registrations.length + 1) [] :=
    funext fun t => (h.stage.demand t).2
  rw [hanswers, (h.stage.hold d).1]

end Registry

end GraphWire
